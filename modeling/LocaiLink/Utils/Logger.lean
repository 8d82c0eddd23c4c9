/-
# The logger of reports

A status report is a record that goes to the handlers of the logger `link.reporter`, one
after another. A handler that sends formats the record and queues it, and a worker of its
own hands on what is queued. A new config closes the handlers, which stops the workers once
they find nothing queued, takes them off the logger and adds new ones. The list of handlers
is read live: whoever goes through it meanwhile goes on at its index.
-/
import LocaiLink.Base.Lines
import LocaiLink.Base.Protocol
import LocaiLink.Runtime.Config

namespace LocaiLink
namespace Logger

open Machine

/-! ### Records -/

/-- What of the language's own functions the logger depends on: `str.upper`, whether `float`
takes a value, and `str.format` with keywords, `none` when it raises. -/
structure Py where
  upper : String → String
  floats : Json → Bool
  format : String → List (String × String) → Option String

/-- What a record is routed by. -/
inductive RouteKey | lifecycleStatus | commandStatus | modelStatus | deploymentProgress
  deriving DecidableEq

def RouteKey.key : RouteKey → String
  | .lifecycleStatus => "lifecycle_status"
  | .commandStatus => "command_status"
  | .modelStatus => "model_status"
  | .deploymentProgress => "deployment_progress"

structure LogRecord where
  routeKey : RouteKey
  context : List (String × String)
  msg : Json

/-- A call of one of the `report_` methods. -/
inductive ReportCall
  | lifecycle (status : String) (version : Option String)
  | command (cmdId status output : String)
  | model (modelId : String) (kwargs : List (String × Json))
  | deploymentProgress (modelId stage : String) (progressPct : Json) (bytesDone totalBytes : ℕ)

def reportLifecycle (status : String) (version : Option String) : LogRecord where
  routeKey := .lifecycleStatus
  context := []
  msg := .obj <| ("status", .str status) ::
    (if version.getD "" = "" then [] else [("agent_version", .str (version.getD ""))]) ++
    (if status = "offline" then [("metrics", .obj [("cpu_usage", .int 0), ("ram_usage", .int 0),
      ("temperature_celsius", .int 0), ("storage_available_gb", .int 0)])] else [])

def reportCommand (cmdId status output : String) : Option LogRecord :=
  if cmdId = "" then none
  else some ⟨.commandStatus, [("cid", cmdId)], .obj [("status", .str status), ("output", .str output)]⟩

def isNone : Json → Bool
  | .null => true
  | _ => false

/-- What is `None` is not reported. -/
def reportModel (modelId : String) (kwargs : List (String × Json)) : Option LogRecord :=
  let payload := kwargs.filter fun e => !isNone e.2
  if modelId = "" ∨ payload = [] then none else some ⟨.modelStatus, [("mid", modelId)], .obj payload⟩

def reportDeploymentProgress (modelId stage : String) (progressPct : Json) (bytesDone totalBytes : ℕ) : Option LogRecord :=
  if modelId = "" then none
  else some ⟨.deploymentProgress, [("mid", modelId)], .obj [("stage", .str stage), ("progress_pct", progressPct),
    ("bytes_done", .int bytesDone), ("total_bytes", .int totalBytes)]⟩

/-- The record that is logged, if one is. -/
def ReportCall.record : ReportCall → Option LogRecord
  | .lifecycle status version => some (reportLifecycle status version)
  | .command cmdId status output => reportCommand cmdId status output
  | .model modelId kwargs => reportModel modelId kwargs
  | .deploymentProgress modelId stage progressPct bytesDone totalBytes =>
    reportDeploymentProgress modelId stage progressPct bytesDone totalBytes

/-! ### Handlers -/

inductive Kind | console | zenoh | http
  deriving DecidableEq

/-- What a handler was made with, and its level. -/
structure Made where
  kind : Kind
  templates : Dict String String
  level : ℕ

/-- What is queued of a record, which is named by its number. -/
structure Item where
  record : ℕ
  target : String
  payload : Json
  routeKey : RouteKey

/-- A handler with its worker: what is queued, what the worker has got and not handed on yet,
whether its thread was started, and whether it has found nothing left after the stop. -/
structure Handler where
  made : Made
  queue : List Item := []
  current : Option Item := none
  stopped : Bool := false
  started : Bool := false
  drained : Bool := false
  dropped : ℕ := 0

def maxsize : ℕ := 1000

/-- What has come of the records. A record is offered to a handler that is `live` if its queue
is full, so that it will be counted, or its worker will look there again. -/
inductive Mark
  | offered (record : ℕ) (live : Bool)
  | dropped (record : ℕ)
  | handed (record : ℕ)
  | returned (record : ℕ)
  deriving DecidableEq

/-- The root logger and `link.reporter`. -/
inductive Name | root | reporter
  deriving DecidableEq

/-- The loggers' lists of handlers. Handlers and records are numbered as they are made. -/
structure Logging where
  handlers : ℕ → Handler
  nextHandler : ℕ
  attached : Name → List ℕ
  nextRecord : ℕ
  history : List Mark

/-! ### Actions -/

/-- Each handler has a lock, and another one for what it drops. -/
inductive Lock
  | runtime
  | handler (h : ℕ)
  | drop (h : ℕ)
  deriving DecidableEq

inductive Act
  -- the lists of the loggers
  | handlerAt (i : ℕ)
  | handlersOf (name : Name)
  | clear (name : Name)
  | addHandler (name : Name) (h : ℕ)
  -- handlers
  | newHandler (kind : Kind) (templates : Dict String String)
  | setLevel (h : ℕ) (level : ℕ)
  | made (h : ℕ)
  | isStopped (h : ℕ)
  | setStop (h : ℕ)
  | joinWorker (h : ℕ)
  -- their queues
  | put (h : ℕ) (x : Item)
  | countDropped (h : ℕ) (record : ℕ)
  | get (h : ℕ)
  | getNowait (h : ℕ)
  | transport (h : ℕ) (x : Item)
  -- the call of a report ends
  | returned (record : ℕ)

@[reducible] def Act.Resp : Act → Type
  | .handlerAt _ => Option ℕ
  | .handlersOf _ => List ℕ
  | .newHandler _ _ => ℕ
  | .made _ => Made
  | .isStopped _ => Bool
  | .put _ _ => Bool
  | .get _ | .getNowait _ => Option Item
  | _ => Unit

def logSig : Sig := ⟨Act, Act.Resp, Lock⟩

instance : DecidableEq logSig.Lock := inferInstanceAs (DecidableEq Lock)

namespace Logging

def setHandler (h : ℕ) (f : Handler → Handler) (s : Logging) : Logging :=
  { s with handlers := Function.update s.handlers h (f (s.handlers h)) }

def setAttached (name : Name) (l : List ℕ) (s : Logging) : Logging :=
  { s with attached := Function.update s.attached name l }

def mark (m : Mark) (s : Logging) : Logging := { s with history := m :: s.history }

def isFull (h : ℕ) (s : Logging) : Bool := maxsize ≤ (s.handlers h).queue.length

/-- What is offered there will be counted or looked at. -/
def isLive (h : ℕ) (s : Logging) : Bool := s.isFull h || !(s.handlers h).drained

/-- The worker gets the first of what is queued. -/
def take (h : ℕ) (s : Logging) : Logging :=
  s.setHandler h fun x => { x with current := x.queue.head?, queue := x.queue.tail }

def perform : (a : Act) → Logging → a.Resp × Logging
  | .handlerAt i, s => ((s.attached .reporter)[i]?, s)
  | .handlersOf name, s => (s.attached name, s)
  | .clear name, s => ((), s.setAttached name [])
  | .addHandler name h, s => ((), s.setAttached name (s.attached name ++ [h]))
  | .newHandler kind templates, s =>
    (s.nextHandler, { s with
      handlers := Function.update s.handlers s.nextHandler { made := ⟨kind, templates, 0⟩ }
      nextHandler := s.nextHandler + 1 })
  | .setLevel h level, s => ((), s.setHandler h fun x => { x with made := { x.made with level } })
  | .made h, s => ((s.handlers h).made, s)
  | .isStopped h, s => ((s.handlers h).stopped, s)
  | .setStop h, s => ((), s.setHandler h fun x => { x with stopped := true })
  | .joinWorker _, s => ((), s)
  | .put h x, s =>
    if s.isFull h then (false, s.mark (.offered x.record (s.isLive h)))
    else (true, (s.setHandler h fun y => { y with queue := y.queue ++ [x] }).mark (.offered x.record (s.isLive h)))
  | .countDropped h record, s =>
    ((), (s.setHandler h fun x => { x with dropped := x.dropped + 1 }).mark (.dropped record))
  | .get h, s => ((s.handlers h).queue.head?, s.take h)
  | .getNowait h, s =>
    ((s.handlers h).queue.head?,
      (s.take h).setHandler h fun x => { x with drained := (s.handlers h).queue.isEmpty || x.drained })
  | .transport h x, s => ((), (s.setHandler h fun y => { y with current := none }).mark (.handed x.record))
  | .returned record, s => ((), s.mark (.returned record))

end Logging

abbrev Code := Prog logSig

def act (a : Act) : Code a.Resp := Prog.call (σ := logSig) a

def locked {α : Type} (l : Lock) (p : Code α) : Code α := Prog.locked (σ := logSig) l p

/-! ### Reporting -/

def INFO : ℕ := 20

/-- `emit` from the template of the route on. A template that cannot be formatted is
complained about on the console. -/
def emitTo (py : Py) (n : ℕ) (r : LogRecord) (h : ℕ) (template : String) : Code Unit :=
  match py.format template r.context with
  | none => pure ()
  | some target => do
    if ← act (.put h ⟨n, target, r.msg, r.routeKey⟩) then pure ()
    else locked (.drop h) (act (.countDropped h n))

/-- `AsyncHandler.emit` -/
def emit (py : Py) (n : ℕ) (r : LogRecord) (h : ℕ) (templates : Dict String String) : Code Unit := do
  if ← act (.isStopped h) then pure ()
  else
    let template := (templates.get? r.routeKey.key).getD ""
    if template = "" then pure () else emitTo py n r h template

/-- A handler is given a record that its level lets through. The console prints it. -/
def handle (py : Py) (n : ℕ) (r : LogRecord) (h : ℕ) : Code Unit := do
  let made ← act (.made h)
  if INFO < made.level then pure ()
  else locked (.handler h) (if made.kind = .console then pure () else emit py n r h made.templates)

/-- `callHandlers`, from an index on, for as many handlers as it is followed. -/
def callHandlers (py : Py) (n : ℕ) (r : LogRecord) : ℕ → ℕ → Code Unit
  | 0, _ => pure ()
  | visits + 1, i => do
    match ← act (.handlerAt i) with
    | none => act (.returned n)
    | some h =>
      handle py n r h
      callHandlers py n r visits (i + 1)

/-! ### The worker -/

/-- What is left is handed on after the stop. -/
def drain (h : ℕ) : ℕ → Code Unit
  | 0 => pure ()
  | rounds + 1 => do
    match ← act (.getNowait h) with
    | none => pure ()
    | some x =>
      act (.transport h x)
      drain h rounds

/-- `_worker_loop`, for as many rounds as it is followed. What `_transport_emit` raises is
written to the console. -/
def workerLoop (h : ℕ) : ℕ → Code Unit
  | 0 => pure ()
  | rounds + 1 => do
    if ← act (.isStopped h) then drain h rounds
    else
      match ← act (.get h) with
      | none => workerLoop h rounds
      | some x =>
        act (.transport h x)
        workerLoop h rounds

/-! ### Configuring -/

/-- What `logging` has under a name in capitals: a level, something that is no level (`none`),
or nothing, and then the default. -/
def namedLevel (name : String) (default : ℕ) : Option ℕ :=
  match name with
  | "CRITICAL" | "FATAL" => some 50
  | "ERROR" => some 40
  | "WARNING" | "WARN" => some 30
  | "INFO" => some INFO
  | "DEBUG" => some 10
  | "NOTSET" => some 0
  | "BASIC_FORMAT" | "_STYLES" => none
  | _ => some default

def levelOf : LogLevel → ℕ
  | .debug => 10
  | .info => INFO
  | .warning => 30
  | .error => 40

def templatesOf (args : Dict String Json) : Dict String String :=
  .ofList (args.entries.map fun e => (e.1, String.ofList (Text.str e.2)))

/-- A handler is made, given its level and added. Answers whether nothing was raised. -/
def attach (name : Name) (kind : Kind) (args : Dict String Json) (level : Option ℕ) : Code Bool := do
  let h ← act (.newHandler kind (if kind = .console then .empty else templatesOf args))
  match level with
  | none => pure false
  | some level =>
    act (.setLevel h level)
    act (.addHandler name h)
    pure true

/-- The handler of a config. -/
def configureHandler (py : Py) (zenoh : Bool) (name : Name) (target : ℕ) (c : GenericConfig) : Code Bool :=
  let type := String.ofList (Text.lower c.type.toList)
  let level := match c.args.get? "level" with
    | none => some target
    | some v => namedLevel (py.upper (String.ofList (Text.str v))) target
  if type = "console" then attach name .console c.args level
  else if Text.startsWith type "zenoh" && zenoh then attach name .zenoh c.args level
  else if type = "http" then
    if py.floats ((c.args.get? "timeout").getD (.int 10)) then attach name .http c.args level else pure false
  else pure true

def configureHandlers (py : Py) (zenoh : Bool) (name : Name) (target : ℕ) : List GenericConfig → Code Bool
  | [] => pure true
  | c :: l => do
    if ← configureHandler py zenoh name target c then configureHandlers py zenoh name target l else pure false

/-- `_configure_logger`. The root logger has a console if it has nothing. -/
def configureLogger (py : Py) (zenoh : Bool) (name : Name) (target : ℕ) (handlers : List GenericConfig) : Code Bool := do
  act (.clear name)
  configureHandlers py zenoh name target
    (if name = .root ∧ handlers.isEmpty = true then [⟨"console", .empty⟩] else handlers)

/-- `setup_logging` -/
def setupLogging (py : Py) (zenoh : Bool) (logging : LoggingConfig) (reporting : ReportingConfig) : Code Unit := do
  if ← configureLogger py zenoh .root (levelOf logging.level) logging.handlers then
    let _ ← configureLogger py zenoh .reporter INFO reporting.handlers
    pure ()

/-- `close`: a console has no worker. -/
def close (h : ℕ) : Code Unit := do
  let made ← act (.made h)
  if made.kind = .console then pure ()
  else
    act (.setStop h)
    act (.joinWorker h)

def closeAll : List ℕ → Code Unit
  | [] => pure ()
  | h :: l => do
    close h
    closeAll l

/-- The handlers are closed, and then taken off the logger. -/
def tearDown (name : Name) : Code Unit := do
  let l ← act (.handlersOf name)
  closeAll l
  act (.clear name)

/-- `rebuild_handlers`, as `apply_config` calls it -/
def rebuildHandlers (py : Py) (zenoh : Bool) (logging : LoggingConfig) (reporting : ReportingConfig) : Code Unit :=
  locked .runtime do
    tearDown .root
    tearDown .reporter
    setupLogging py zenoh logging reporting

/-- `logging.shutdown` of these handlers, the latest first -/
def shutdown : ℕ → Code Unit
  | 0 => pure ()
  | h + 1 => do
    locked (.handler h) (close h)
    shutdown h

/-! ### The threads -/

inductive Entry
  | setup (logging : LoggingConfig) (reporting : ReportingConfig)
  | rebuild (logging : LoggingConfig) (reporting : ReportingConfig)
  | report (call : ReportCall) (visits : ℕ)
  | worker (h rounds : ℕ)
  | close (h : ℕ)
  | shutdown

/-- A handler that sends has a worker, whose thread is started once. A handler that is closed
was made. -/
def enter (py : Py) (zenoh : Bool) : Entry → Logging → Option (Code Unit × Logging)
  | .setup logging reporting, s => some (setupLogging py zenoh logging reporting, s)
  | .rebuild logging reporting, s => some (rebuildHandlers py zenoh logging reporting, s)
  | .report call visits, s => call.record.map fun r =>
    (callHandlers py s.nextRecord r visits 0, { s with nextRecord := s.nextRecord + 1 })
  | .worker h rounds, s =>
    if h < s.nextHandler ∧ (s.handlers h).made.kind ≠ .console ∧ (s.handlers h).started = false then
      some (workerLoop h rounds, s.setHandler h fun x => { x with started := true })
    else none
  | .close h, s => if h < s.nextHandler then some (close h, s) else none
  | .shutdown, s => some (shutdown s.nextHandler, s)

/-- The handlers' locks may be taken again, and so may the runtime's. -/
def mayRetake : Lock → Bool
  | .drop _ => false
  | _ => true

def machine (py : Py) (zenoh : Bool) : Machine logSig Logging Entry where
  sem := Logging.perform
  reentrant := mayRetake
  enter := enter py zenoh

/-- Nothing is configured and nothing was reported. What is no handler has no worker. -/
def unconfigured : Sys logSig Logging :=
  ⟨{ handlers := fun _ => { made := ⟨.console, .empty, 0⟩, drained := true }, nextHandler := 0, attached := fun _ => [], nextRecord := 0,
     history := [] }, fun _ => none, []⟩

end Logger
end LocaiLink
