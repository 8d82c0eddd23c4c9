/-
# The managers of llama-swap

Models that are served on one host and port share a `SwapManager`, which the registry
finds by these two: it writes a config file for llama-swap, starts and stops that
process, and keeps a proxy on the public port in front of it. An adapter (a
`LanguageModel` in serve mode) enters its model into its manager when it is made, and
takes it out when it is stopped. The registry and each manager have a lock, the
managers' are re-entrant.
-/
import LocaiLink.Base.JsonText
import LocaiLink.Base.Lines
import LocaiLink.Base.Path
import LocaiLink.Base.Machine

namespace LocaiLink
namespace LanguageModel

/-! ### What is outside the code -/

inductive Query
  | file | spawn | poll | terminate | signal | port | proxy | health | process | engine | model | env | server
  deriving DecidableEq

/-- What `psutil` says of a process: that there is none, that it may not be looked at, or
its name and its command line (none when these may not be read). -/
inductive Inspected
  | gone
  | denied
  | found (info : Option (String × List String))

/-- What comes of ending another process. -/
inductive Ended
  | done
  | gone
  | failed

/-- `torn` is what a write that fails has left of the file, if it was opened. -/
structure Answer where
  error : Option String := none
  torn : Option (List Char) := none
  yes : Bool := true
  pid : ℤ := 1
  code : ℤ := 0
  inspected : Inspected := .gone
  ended : Ended := .done
  path : Option String := none
  env : Dict String String := .empty

/-! ### The state -/

/-- The public address: host and port. -/
abbrev Key := String × ℤ

/-- What `_models` holds of a model. -/
structure Model where
  path : String
  args : List String
  env : Dict String String
  ttl : ℤ

/-- A `SwapManager`. `tornDown` is no field of the source: it is set while the manager is
stopped for good, from the end of its proxy to the next start of its process. -/
structure Manager where
  port : ℤ
  host : String
  allowedOrigins : List String
  swapBin : String
  serverBin : String
  models : Dict String Model := .empty
  proc : Option ℤ := none
  proxy : Bool := false
  callbacks : List ℕ := []
  tornDown : Bool := false

def MAX_CONCURRENT : ℤ := 1
def HEALTH_CHECK_TIMEOUT : ℤ := 120
def MODEL_TTL : ℤ := 300
def PROXY_OFFSET : ℤ := 50
def INTERNAL_PORT_OFFSET : ℤ := 100

namespace Manager

def key (m : Manager) : Key := (m.host, m.port)

/-- The port of llama-swap. -/
def listenPort (m : Manager) : ℤ := m.port + PROXY_OFFSET

/-- The port of the llama-server of the model with index `i`. -/
def internalPort (m : Manager) (i : ℕ) : ℤ := m.listenPort + INTERNAL_PORT_OFFSET + i

end Manager

/-- What a `LanguageModel` is made from. -/
structure Spec where
  modelPath : String
  nGpuLayers : ℤ
  nCtx : ℤ
  host : String
  port : ℤ
  modelAlias : String
  corsAllowedOrigins : List String
  ttl : Option ℤ

/-- A `LanguageModel` in serve mode. It is `registered` once it is to be stopped at exit,
which is the last thing its construction does. -/
structure Adapter where
  spec : Spec
  modelPath : String
  modelId : String
  running : Bool := true
  swapManager : Option ℕ := none
  server : Bool := false
  heartbeat : Bool := false
  registered : Bool := false

/-- Adapters and managers are numbered as they are made; the files are those of a port. -/
structure Plugin where
  instances : Dict Key ℕ
  managers : ℕ → Manager
  nextManager : ℕ
  adapters : ℕ → Adapter
  nextAdapter : ℕ
  configs : ℤ → Option (List Char)
  pids : ℤ → Option ℤ
  windows : Bool
  cwd : Path
  oracle : Query → ℕ → Answer
  tick : ℕ

namespace Plugin

def ask (q : Query) (s : Plugin) : Answer := s.oracle q s.tick

def tock (s : Plugin) : Plugin := { s with tick := s.tick + 1 }

def setManager (m : ℕ) (f : Manager → Manager) (s : Plugin) : Plugin :=
  { s with managers := Function.update s.managers m (f (s.managers m)) }

def setAdapter (a : ℕ) (f : Adapter → Adapter) (s : Plugin) : Plugin :=
  { s with adapters := Function.update s.adapters a (f (s.adapters a)) }

theorem setManager_at (m : ℕ) (f : Manager → Manager) (s : Plugin) (k : ℕ) :
    (s.setManager m f).managers k = if k = m then f (s.managers m) else s.managers k :=
  Function.update_apply s.managers m (f (s.managers m)) k

theorem setAdapter_at (a : ℕ) (f : Adapter → Adapter) (s : Plugin) (b : ℕ) :
    (s.setAdapter a f).adapters b = if b = a then f (s.adapters a) else s.adapters b :=
  Function.update_apply s.adapters a (f (s.adapters a)) b

end Plugin

/-! ### The config file -/

def integer (n : ℤ) : String := String.ofList (Text.int n)

/-- `shlex.quote` -/
def shlexQuote (s : String) : String :=
  let safe (c : Char) : Bool := c.isAlphanum || "_@%+=:,./-".toList.contains c
  if s = "" then "''"
  else if s.toList.all safe then s
  else String.ofList (['\''] ++ s.toList.flatMap (fun c => if c = '\'' then "'\"'\"'".toList else [c]) ++ ['\''])

/-- `shlex.join` -/
def shlexJoin (args : List String) : String := " ".intercalate (args.map shlexQuote)

/-- The characters of an argument, with the backslashes that are not written yet. -/
def quoteChars : List Char → ℕ → List Char × ℕ
  | [], n => ([], n)
  | '\\' :: l, n => quoteChars l (n + 1)
  | '"' :: l, n =>
    let (out, m) := quoteChars l 0
    (List.replicate (2 * n) '\\' ++ ['\\', '"'] ++ out, m)
  | c :: l, n =>
    let (out, m) := quoteChars l 0
    (List.replicate n '\\' ++ [c] ++ out, m)

/-- An argument as `subprocess.list2cmdline` writes it. -/
def quoteArg (s : String) : List Char :=
  let (out, n) := quoteChars s.toList 0
  let slashes := List.replicate n '\\'
  if s = "" ∨ ' ' ∈ s.toList ∨ '\t' ∈ s.toList then ['"'] ++ out ++ slashes ++ slashes ++ ['"'] else out ++ slashes

/-- `subprocess.list2cmdline` -/
def list2cmdline (args : List String) : String := String.ofList (List.intercalate [' '] (args.map quoteArg))

/-- The entry of a model, whose llama-server gets the port. -/
def modelEntry (windows : Bool) (serverBin : String) (port : ℤ) (x : Model) : Json :=
  let args := [serverBin, "--model", x.path, "--port", integer port] ++ x.args
  .obj ([("cmd", .str (if windows then list2cmdline args else shlexJoin args)),
      ("proxy", .str s!"http://127.0.0.1:{integer port}"), ("ttl", .int x.ttl)] ++
    if x.env.entries = [] then [] else [("env", .arr (x.env.entries.map fun e => .str s!"{e.1}={e.2}"))])

/-- The models of a manager, each with its port. -/
def Manager.served (m : Manager) : List (String × Model × ℤ) :=
  m.models.entries.mapIdx fun i e => (e.1, e.2, m.internalPort i)

/-- `_write_config`: what it writes. -/
def Manager.config (windows : Bool) (m : Manager) : Json :=
  .obj [("healthCheckTimeout", .int HEALTH_CHECK_TIMEOUT), ("maxConcurrent", .int MAX_CONCURRENT),
    ("models", .obj (m.served.map fun e => (e.1, modelEntry windows m.serverBin e.2.2 e.2.1)))]

/-! ### The actions -/

inductive Lock
  | global
  | manager (m : ℕ)
  deriving DecidableEq

inductive Act
  -- the registry
  | instanceOf (key : Key)
  | newManager (key : Key) (allowedOrigins : List String) (swapBin serverBin : String)
  | setInstance (key : Key) (m : ℕ)
  | popInstance (m : ℕ)
  -- a manager's callbacks and models
  | addCallback (m cb : ℕ)
  | removeCallback (m cb : ℕ)
  | callbacks (m : ℕ)
  | setModel (m : ℕ) (id : String) (x : Model)
  | hasModel (m : ℕ) (id : String)
  | delModel (m : ℕ) (id : String)
  | isEmpty (m : ℕ)
  | writeConfig (m : ℕ)
  | unlinkConfig (m : ℕ)
  -- its process and its proxy
  | manager (m : ℕ)
  | isWindows
  | isRunning (m : ℕ)
  | returnCode (m : ℕ)
  | binExists (m : ℕ)
  | portInUse (m : ℕ)
  | openLog (m : ℕ)
  | spawn (m : ℕ)
  | terminate (m : ℕ)
  | sighup (m : ℕ)
  | writePid (m : ℕ)
  | readPid (m : ℕ)
  | clearPid (m : ℕ)
  | inspect (pid : ℤ)
  | endProcess (pid : ℤ)
  | cwd
  | makeProxy (m : ℕ)
  | startProxy (m : ℕ)
  | stopProxy (m : ℕ)
  | answersHealth (m : ℕ)
  -- adapters
  | findModel (path : String)
  | newAdapter (spec : Spec) (path : String)
  | adapter (a : ℕ)
  | swapBinary
  | serverBinary
  | serveEnv (serverBin : String)
  | attach (a m : ℕ)
  | startServer (a : ℕ)
  | stopServer (a : ℕ)
  | serverRunning (a : ℕ)
  | startHeartbeat (a : ℕ)
  | registerAtexit (a : ℕ)
  | endRunning (a : ℕ)
  | deliver (cb : ℕ) (record : Json)

/-- What an action answers. A `some` of an answer that is an error is what it raises. -/
@[reducible] def Act.Resp : Act → Type
  | .instanceOf _ => Option ℕ
  | .newManager _ _ _ _ => ℕ
  | .callbacks _ => List ℕ
  | .hasModel _ _ | .isEmpty _ | .isWindows | .isRunning _ | .binExists _ | .portInUse _ | .answersHealth _ => Bool
  | .writeConfig _ | .unlinkConfig _ | .openLog _ | .spawn _ | .terminate _ | .sighup _ | .writePid _ | .startProxy _ =>
    Option String
  | .manager _ => Manager
  | .returnCode _ => ℤ
  | .readPid _ => Option ℤ
  | .inspect _ => Inspected
  | .endProcess _ => Ended
  | .cwd => Path
  | .findModel _ => Option String
  | .newAdapter _ _ => ℕ
  | .adapter _ => Adapter
  | .swapBinary | .serverBinary => Option String
  | .serveEnv _ => Dict String String
  | .startServer _ => Option String
  | .serverRunning _ => Bool
  | _ => Unit

def swapSig : Sig := ⟨Act, Act.Resp, Lock⟩

instance : DecidableEq swapSig.Lock := inferInstanceAs (DecidableEq Lock)

/-- `PurePath.stem` -/
def stem (path : String) : String :=
  let name := (Path.ofString path).name.toList
  match name.reverse.dropWhile (· ≠ '.') with
  | _ :: front => if front = [] ∨ front.length + 1 = name.length then String.ofList name else String.ofList front.reverse
  | [] => String.ofList name

namespace Plugin

/-- An operation that its surroundings may make fail, else it does `f`. -/
def tryTo (q : Query) (f : Plugin → Plugin) (s : Plugin) : Option String × Plugin :=
  match (s.ask q).error with
  | some e => (some e, s.tock)
  | none => (none, f s.tock)

/-- The text is the config file of a port, or what is left of it where writing it fails. -/
def writeConfig (port : ℤ) (text : List Char) (s : Plugin) : Option String × Plugin :=
  let left := if (s.ask .file).error = none then some text else (s.ask .file).torn.or (s.configs port)
  ((s.ask .file).error, { s.tock with configs := Function.update s.configs port left })

/-- A process that was started runs until it is seen to have ended. -/
def isRunning (m : ℕ) (s : Plugin) : Bool × Plugin :=
  match (s.managers m).proc with
  | none => (false, s)
  | some _ => ((s.ask .poll).yes, s.tock)

/-- What each action does, and its answer. -/
def perform : (a : Act) → Plugin → a.Resp × Plugin
  | .instanceOf key, s => (s.instances.get? key, s)
  | .newManager key origins swapBin serverBin, s =>
    (s.nextManager, { s with
      nextManager := s.nextManager + 1
      managers := Function.update s.managers s.nextManager
        { port := key.2, host := key.1, allowedOrigins := origins.filter (· ≠ ""), swapBin, serverBin } })
  | .setInstance key m, s => ((), { s with instances := s.instances.set key m })
  | .popInstance m, s => ((), { s with instances := s.instances.erase (s.managers m).key })
  | .addCallback m cb, s =>
    ((), s.setManager m fun x => if cb ∈ x.callbacks then x else { x with callbacks := x.callbacks ++ [cb] })
  | .removeCallback m cb, s => ((), s.setManager m fun x => { x with callbacks := x.callbacks.erase cb })
  | .callbacks m, s => ((s.managers m).callbacks, s)
  | .setModel m id x, s => ((), s.setManager m fun y => { y with models := y.models.set id x })
  | .hasModel m id, s => ((s.managers m).models.contains id, s)
  | .delModel m id, s => ((), s.setManager m fun x => { x with models := x.models.erase id })
  | .isEmpty m, s => ((s.managers m).models.entries.isEmpty, s)
  | .writeConfig m, s => s.writeConfig (s.managers m).port (JsonText.dumps ((s.managers m).config s.windows))
  | .unlinkConfig m, s => s.tryTo .file fun s =>
    { s with configs := Function.update s.configs (s.managers m).port none }
  | .manager m, s => (s.managers m, s)
  | .isWindows, s => (s.windows, s)
  | .isRunning m, s => s.isRunning m
  | .returnCode _, s => ((s.ask .poll).code, s.tock)
  | .binExists _, s => ((s.ask .engine).yes, s.tock)
  | .portInUse _, s => ((s.ask .port).yes, s.tock)
  | .openLog _, s => s.tryTo .file id
  | .spawn m, s =>
    s.tryTo .spawn fun t => t.setManager m fun x => { x with proc := some (s.ask .spawn).pid, tornDown := false }
  | .terminate m, s => s.tryTo .terminate fun s => s.setManager m fun x => { x with proc := none }
  | .sighup _, s => s.tryTo .signal id
  | .writePid m, s => s.tryTo .file fun s =>
    { s with pids := Function.update s.pids (s.managers m).port (s.managers m).proc }
  | .readPid m, s => (if (s.ask .file).error = none then s.pids (s.managers m).port else none, s.tock)
  | .clearPid m, s =>
    ((), (s.tryTo .file fun s => { s with pids := Function.update s.pids (s.managers m).port none }).2)
  | .inspect _, s => ((s.ask .process).inspected, s.tock)
  | .endProcess _, s => ((s.ask .process).ended, s.tock)
  | .cwd, s => (s.cwd, s)
  | .makeProxy m, s => ((), s.setManager m fun x => { x with proxy := true })
  | .startProxy _, s => s.tryTo .proxy id
  | .stopProxy m, s => ((), s.setManager m fun x => { x with proxy := false, tornDown := true })
  | .answersHealth _, s => ((s.ask .health).yes, s.tock)
  | .findModel _, s => ((s.ask .model).path, s.tock)
  | .newAdapter spec path, s =>
    (s.nextAdapter, { s with
      nextAdapter := s.nextAdapter + 1
      adapters := Function.update s.adapters s.nextAdapter
        { spec, modelPath := path, modelId := if spec.modelAlias = "" then stem path else spec.modelAlias } })
  | .adapter a, s => (s.adapters a, s)
  | .swapBinary, s => ((s.ask .engine).path, s.tock)
  | .serverBinary, s => ((s.ask .engine).path, s.tock)
  | .serveEnv _, s => ((s.ask .env).env, s.tock)
  | .attach a m, s => ((), s.setAdapter a fun x => { x with swapManager := some m })
  | .startServer a, s => s.tryTo .server fun s => s.setAdapter a fun x => { x with server := true }
  | .stopServer a, s => ((), s.setAdapter a fun x => { x with server := false })
  | .serverRunning _, s => ((s.ask .server).yes, s.tock)
  | .startHeartbeat a, s => ((), s.setAdapter a fun x => { x with heartbeat := true })
  | .registerAtexit a, s => ((), s.setAdapter a fun x => { x with registered := true })
  | .endRunning a, s => ((), s.setAdapter a fun x => { x with running := false })
  | .deliver _ _, s => ((), s)

end Plugin

/-! ### The code -/

abbrev Code := Prog swapSig

def act (a : Act) : Code a.Resp := Prog.call (σ := swapSig) a

/-- Code that raises, with the message of what it raises. -/
abbrev Raising (α : Type) := ExceptT String (Prog swapSig) α

def raise (p : Code (Option String)) : Raising Unit := do
  match ← p with
  | some e => throw e
  | none => pure ()

def locked {α : Type} (l : Lock) (p : Raising α) : Raising α := ExceptT.mk (Prog.locked (σ := swapSig) l p.run)

/-- `add_telemetry_callback` -/
def addTelemetryCallback (m cb : ℕ) : Raising Unit := locked (.manager m) (act (.addCallback m cb))

/-- `remove_telemetry_callback` -/
def removeTelemetryCallback (m cb : ℕ) : Raising Unit := locked (.manager m) (act (.removeCallback m cb))

/-- The manager of a key, made when there is none. -/
def lookup (key : Key) (allowedOrigins : List String) (swapBin serverBin : String) : Raising ℕ := do
  match ← act (.instanceOf key) with
  | some m => pure m
  | none =>
    let m ← act (.newManager key allowedOrigins swapBin serverBin)
    act (.setInstance key m)
    pure m

/-- `get_swap_manager` -/
def getSwapManager (key : Key) (allowedOrigins : List String) (swapBin serverBin : String) (onTelemetry : Option ℕ) :
    Raising ℕ :=
  locked .global do
    let m ← lookup key allowedOrigins swapBin serverBin
    match onTelemetry with
    | some cb => addTelemetryCallback m cb
    | none => pure ()
    pure m

/-- `_fanout_telemetry` -/
def fanoutTelemetry (m : ℕ) (record : Json) : Raising Unit := do
  let callbacks ← locked (.manager m) (act (.callbacks m))
  callbacks.forM fun cb => act (.deliver cb record)

/-- `ensure_proxy` -/
def ensureProxy (m : ℕ) : Raising Unit :=
  locked (.manager m) do
    if ← act (.isRunning m) then
      act (.makeProxy m)
      raise (act (.startProxy m))

def configPath (port : ℤ) : String := s!"configs/swap_config_{integer port}.json"

/-- `_looks_like_our_llama_swap`, where the process can be looked at. -/
def looksLikeOurs (cwd : Path) (m : Manager) (name : String) (cmdline : List String) : Bool :=
  let lower (s : String) : List Char := Text.lower s.toList
  let infix' (p l : List Char) : Bool := l.tails.any p.isPrefixOf
  let isSwap := infix' "llama-swap".toList (lower name) || cmdline.any fun arg => infix' "llama-swap".toList (lower arg)
  let expectedCfg := lower (cwd.div (configPath m.port)).text
  let expectedListen := s!"127.0.0.1:{integer m.listenPort}".toList
  isSwap && cmdline.any fun arg => lower arg = expectedCfg || infix' expectedListen (lower arg)

/-- `_reclaim_previous_instance` -/
def reclaimPreviousInstance (m : ℕ) : Raising Unit := do
  match ← act (.readPid m) with
  | none => pure ()
  | some pid =>
    if pid < 0 then throw s!"pid must be a positive integer (got {integer pid})"
    match ← act (.inspect pid) with
    | .gone | .denied => act (.clearPid m)
    | .found info =>
      let x ← act (.manager m)
      let cwd ← act .cwd
      if info.any fun i => looksLikeOurs cwd x i.1 i.2 then
        match ← act (.endProcess pid) with
        | .done | .gone => act (.clearPid m)
        | .failed => pure ()
      else act (.clearPid m)

/-- `_start` -/
def start (m : ℕ) : Raising Unit := do
  let x ← act (.manager m)
  if !(← act (.binExists m)) then
    throw <| s!"llama-swap binary not found at {x.swapBin}. " ++
      "Re-run plugin install or check language_model installation."
  reclaimPreviousInstance m
  if ← act (.portInUse m) then
    let port := integer x.listenPort
    throw <| s!"Listen port {port} is held by a process we don't own (no pidfile). " ++
      s!"Investigate with `lsof -i :{port}` (Linux/macOS) or " ++
      s!"`netstat -ano | findstr {port}` (Windows) and clear it before retrying."
  raise (act (.openLog m))
  raise (act (.spawn m))
  raise (act (.writePid m))
  if !(← act (.isRunning m)) then
    act (.clearPid m)
    let code ← act (.returnCode m)
    throw s!"llama-swap failed to start (exit {integer code}). See logs/llama-swap_{integer x.port}.log"
  ensureProxy m

/-- `_stop` -/
def stop (m : ℕ) : Raising Unit := do
  if ← act (.isRunning m) then
    raise (act (.terminate m))
    act (.clearPid m)

/-- `_reload` -/
def reload (m : ℕ) : Raising Unit := do
  if ← act .isWindows then
    stop m
    start m
  else raise (act (.sighup m))

/-- `add_model`, under the lock. -/
def putIn (m : ℕ) (id : String) (x : Model) : Raising Unit := do
  act (.setModel m id x)
  raise (act (.writeConfig m))
  if ← act (.isRunning m) then reload m else start m

/-- `add_model` -/
def addModel (m : ℕ) (id path : String) (args : List String) (env : Dict String String) (ttl : Option ℤ) :
    Raising Unit := do
  if ttl.any fun t => t < -1 then
    throw s!"ttl must be None, -1, 0, or a positive integer; got {integer (ttl.getD 0)}"
  locked (.manager m) (putIn m id ⟨path, args, env, ttl.getD MODEL_TTL⟩)

/-- `remove_model`, under the lock. -/
def takeOut (m : ℕ) (id : String) : Raising Unit := do
  if ← act (.hasModel m id) then
    act (.delModel m id)
    if ← act (.isEmpty m) then
      act (.stopProxy m)
      stop m
      raise (act (.unlinkConfig m))
      locked .global (act (.popInstance m))
    else
      raise (act (.writeConfig m))
      if ← act (.isRunning m) then reload m

/-- `remove_model` -/
def removeModel (m : ℕ) (id : String) : Raising Unit := locked (.manager m) (takeOut m id)

/-- `shutdown` -/
def shutdown (m : ℕ) : Raising Unit := do
  locked (.manager m) do
    act (.stopProxy m)
    stop m
  locked .global (act (.popInstance m))

/-- `is_healthy` -/
def isHealthy (m : ℕ) : Raising Bool := do
  if ← act (.isRunning m) then act (.answersHealth m) else pure false

/-! ### The adapter -/

def orDefault (n default : ℤ) : ℤ := if n = 0 then default else n

def extraArgs (spec : Spec) : List String :=
  ["--n-gpu-layers", integer (orDefault spec.nGpuLayers 35), "--ctx-size", integer (orDefault spec.nCtx 2048)]

/-- The engines, both or none. -/
def engines : Raising (Option (String × String)) := do
  match ← act .swapBinary with
  | none => pure none
  | some swapBin =>
    match ← act .serverBinary with
    | none => pure none
    | some serverBin => pure (some (swapBin, serverBin))

/-- How the adapter serves: through a manager, or a server of its own. -/
def serve (a : ℕ) (spec : Spec) (path : String) : Raising Unit := do
  match ← engines with
  | some (swapBin, serverBin) =>
    let m ← getSwapManager (spec.host, spec.port) spec.corsAllowedOrigins swapBin serverBin (some a)
    act (.attach a m)
    let env ← act (.serveEnv serverBin)
    addModel m (if spec.modelAlias = "" then stem path else spec.modelAlias) path (extraArgs spec) env spec.ttl
  | none => raise (act (.startServer a))

/-- `LanguageModel.__init__` in serve mode. -/
def create (spec : Spec) : Raising Unit := do
  match ← act (.findModel spec.modelPath) with
  | none => throw s!"Model not found: {spec.modelPath}"
  | some path =>
    let a ← act (.newAdapter spec path)
    serve a spec path
    act (.startHeartbeat a)
    act (.registerAtexit a)

/-- `LanguageModel.stop` -/
def stopAdapter (a : ℕ) : Raising Unit := do
  act (.endRunning a)
  let x ← act (.adapter a)
  match x.swapManager with
  | some m =>
    removeTelemetryCallback m a
    removeModel m x.modelId
  | none => pure ()
  if x.server then act (.stopServer a)

/-- A turn of `_server_heartbeat_loop`. -/
def heartbeat (a : ℕ) : Raising Unit := do
  let x ← act (.adapter a)
  if x.running then
    match x.swapManager with
    | some m => if ← isHealthy m then ensureProxy m
    | none =>
      if x.server then
        if !(← act (.serverRunning a)) then act (.endRunning a)

/-! ### The threads -/

/-- A thread that enters: a call on the registry or on a manager, or the construction,
the stop or a heartbeat of an adapter. -/
inductive Entry
  | getSwapManager (key : Key) (allowedOrigins : List String) (swapBin serverBin : String) (onTelemetry : Option ℕ)
  | addModel (m : ℕ) (id path : String) (args : List String) (env : Dict String String) (ttl : Option ℤ)
  | removeModel (m : ℕ) (id : String)
  | shutdown (m : ℕ)
  | removeTelemetryCallback (m cb : ℕ)
  | fanoutTelemetry (m : ℕ) (record : Json)
  | create (spec : Spec)
  | stop (a : ℕ)
  | heartbeat (a : ℕ)

/-- What is raised ends the thread. -/
def thread {α : Type} (p : Raising α) : Code Unit := p.run >>= fun _ => pure ()

/-- The manager or the adapter that is called is there; an adapter is stopped when it was
made, and its heartbeat goes on from its start. -/
def enter : Entry → Plugin → Option (Code Unit × Plugin)
  | .getSwapManager key origins swapBin serverBin cb, s =>
    some (thread (getSwapManager key origins swapBin serverBin cb), s)
  | .addModel m id path args env ttl, s =>
    if m < s.nextManager then some (thread (addModel m id path args env ttl), s) else none
  | .removeModel m id, s => if m < s.nextManager then some (thread (removeModel m id), s) else none
  | .shutdown m, s => if m < s.nextManager then some (thread (shutdown m), s) else none
  | .removeTelemetryCallback m cb, s => if m < s.nextManager then some (thread (removeTelemetryCallback m cb), s) else none
  | .fanoutTelemetry m record, s => if m < s.nextManager then some (thread (fanoutTelemetry m record), s) else none
  | .create spec, s => some (thread (create spec), s)
  | .stop a, s => if (s.adapters a).registered then some (thread (stopAdapter a), s) else none
  | .heartbeat a, s => if (s.adapters a).heartbeat then some (thread (heartbeat a), s) else none

def isReentrant : Lock → Bool
  | .global => false
  | .manager _ => true

/-- The threads that `admits` lets in. -/
def machine (admits : Entry → Bool) : Machine swapSig Plugin Entry where
  sem := Plugin.perform
  reentrant := isReentrant
  enter x s := if admits x then enter x s else none

/-- The plugin as it is loaded. -/
def fresh (windows : Bool) (cwd : Path) (configs : ℤ → Option (List Char)) (pids : ℤ → Option ℤ)
    (oracle : Query → ℕ → Answer) : Plugin where
  instances := .empty
  managers _ := { port := 0, host := "", allowedOrigins := [], swapBin := "", serverBin := "" }
  nextManager := 0
  adapters _ := { spec := ⟨"", 0, 0, "", 0, "", [], none⟩, modelPath := "", modelId := "" }
  nextAdapter := 0
  configs
  pids
  windows
  cwd
  oracle
  tick := 0

def load (s : Plugin) : Sys swapSig Plugin := ⟨s, fun _ => none, []⟩

/-- Surroundings in which all goes well: the engines are there, the ports are free. -/
def calm (q : Query) (_ : ℕ) : Answer :=
  match q with
  | .port => { yes := false }
  | .model => { path := some "models/a.gguf" }
  | .engine => { path := some "bin/llama" }
  | _ => {}

def calmStart : Sys swapSig Plugin := load (fresh false (Path.ofString "/srv") (fun _ => none) (fun _ => none) calm)

/-- A model on a port, by an alias. -/
def specOn (port : ℤ) (modelAlias : String) : Spec := ⟨"a.gguf", 35, 2048, "0.0.0.0", port, modelAlias, [], none⟩

end LanguageModel
end LocaiLink
