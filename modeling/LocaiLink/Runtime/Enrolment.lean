/-
# Enrolment

How a device comes to its identity: `register`, and the start of `run`, resume the session that they find, and without one redeem
a key, take the config that comes with the credentials or make one, and write the first session. It is said of every start
(`onboarding`) when Control is asked, with which key, whose credentials the config has, whatever config came with them, and
that the identity is there at every later start just if the session was written to its end.
-/
import LocaiLink.Runtime.Crash
import LocaiLink.Runtime.Onboarding
import LocaiLink.Runtime.Selection
import LocaiLink.Runtime.Templating

namespace LocaiLink
namespace Enrolment

open Onboarding (Response Outcome Draw Raised Ran AskedAgain requestWithRetry requestsOf attempts sleeping retryMaxAttempts)
open JsonText (Proper ProperMembers dumps)
open Session (Doc Manager Reach)

/-! ### The code -/

/-- The validation library, and what libraries say of a body that is not JSON and of an identity that is not one. -/
structure Library where
  V : Validator
  decodeError : Response → String
  identityError : Json → Json → Json → String

/-- What the machine says of itself; what is unknown is empty. -/
structure Machine where
  machineIdHash : String
  system : String
  machine : String
  node : String
  user : Option String
  agentVersion : String

/-- What is posted to redeem a key. -/
structure Redemption where
  endpoint : String
  bearer : String
  payload : Json
  opName : String

def Machine.payload (M : Machine) (extra : List (String × Json)) : Json :=
  .obj ([("machine_id_hash", .str M.machineIdHash), ("os", .str M.system), ("arch", .str M.machine), ("hostname", .str M.node)] ++
    extra ++ if M.agentVersion = "" then [] else [("agent_version", .str M.agentVersion)])

/-- `_default_device_name` -/
def Machine.defaultDeviceName (M : Machine) : String :=
  match M.user with
  | some user => user ++ "@" ++ M.node
  | none => M.node

structure Credentials where
  data : Dict String Json
  deviceId : Json
  apiKey : Json

/-- `sorted(data)`, as it is written. -/
def keysText (data : Dict String Json) : String :=
  String.ofList (Text.str (.arr ((data.keys.insertionSort (· ≤ ·)).map .str)))

/-- The credentials of a response: `_redeem_device_key` after the request. -/
def Library.credentials (L : Library) (opName : String) (resp : Response) : Except String Credentials :=
  match resp.json with
  | none => .error (opName ++ " response was not valid JSON: " ++ L.decodeError resp)
  | some (.obj l) =>
    let data := Dict.ofList l
    match (data.get? "device_id").filter Json.truthy, (data.get? "api_key").filter Json.truthy with
    | some deviceId, some apiKey => .ok ⟨data, deviceId, apiKey⟩
    | _, _ => .error (opName ++ " response missing device_id or api_key (got keys: " ++ keysText data ++ ")")
  | some _ => .error (opName ++ " response was not a JSON object.")

def raisedText : Raised Empty → String
  | .runtimeError text | .valueError text | .overflowError text => text

/-- `_redeem_device_key` on how the retries end. -/
def Library.redeemed (L : Library) (opName : String) : Except (Raised Empty) Response → Except String Credentials
  | .error e => .error (raisedText e)
  | .ok resp => L.credentials opName resp

/-- The interval of its reports. -/
theorem everyHalfMinute : 1 ≤ 30 := by decide

/-- `_bootstrap_config`: an identity of anything but texts is refused. -/
def bootstrapConfig (deviceId deviceName apiKey : Json) (apiUrl : String) : Option AgentConfig :=
  match deviceId, deviceName, apiKey with
  | .str deviceId, .str deviceName, .str apiKey =>
    let url (rest : String) : String × Json := ("url", .str (apiUrl ++ "/agent/" ++ deviceId ++ rest))
    some {
      version := SCHEMA_VERSION
      identity := ⟨deviceId, deviceName, some apiUrl, some apiKey⟩
      transport := some ⟨.http, .empty⟩
      logging := ⟨.info, [⟨"console", .empty⟩, ⟨"http", .ofList [url "/logs"]⟩]⟩
      reporting := ⟨30, everyHalfMinute, [⟨"console", .empty⟩, ⟨"http", .ofList [
        ("lifecycle_status", (url "/status").2), ("command_status", (url "/commands/\x7bcid\x7d/status").2),
        ("model_status", (url "/models/\x7bmid\x7d/status").2)]⟩]⟩
      pipelines := [
        ⟨"command_center", true, ⟨"http_poll", .ofList [url "/commands", ("api_key", .str apiKey), ("interval", .int 10)]⟩,
          some ⟨"command", .empty⟩⟩,
        ⟨"system_metrics", true, ⟨"system_monitor", .ofList [("interval", .int 5), ("metrics", .arr [.str "cpu_usage", .str "ram_usage",
          .str "temperature_celsius", .str "storage_available_gb"])]⟩,
          some ⟨"http_post", .ofList [url "/metrics", ("api_key", .str apiKey), ("timeout", .int 30)]⟩⟩] }
  | _, _, _ => none

/-- The identity that a config is given. -/
def identityOf (deviceId deviceName apiKey : Json) (apiUrl : String) : Json :=
  .obj [("device_id", deviceId), ("device_name", deviceName), ("api_key", apiKey), ("api_url", .str apiUrl)]

/-- `_apply_server_config`, none where it raises. -/
def applyServerConfig (V : Validator) (raw deviceId deviceName apiKey : Json) (apiUrl : String) : Option AgentConfig :=
  match raw with
  | .obj l =>
    if ((raw.get? "version").getD .null).eq (.float SCHEMA_VERSION) then
      let identity := identityOf deviceId deviceName apiKey apiUrl
      let context := .obj [("identity", identity), ("api_url", .str apiUrl)]
      V.agentConfig (.ofDict ((Dict.ofList (Templating.resolveObj context l)).set "identity" identity))
    else none
  | _ => none

/-- The config of the server, if there is one and it can be used. -/
def appliedConfig (V : Validator) (serverConfig deviceId deviceName apiKey : Json) (apiUrl : String) : Option AgentConfig :=
  match serverConfig with
  | .null => none
  | raw => applyServerConfig V raw deviceId deviceName apiKey apiUrl

/-- `_resolve_agent_config`: the built-in defaults where there is no config, or none that can be used. -/
def Library.resolveAgentConfig (L : Library) (serverConfig deviceId deviceName apiKey : Json) (apiUrl : String) :
    Except String AgentConfig :=
  match (appliedConfig L.V serverConfig deviceId deviceName apiKey apiUrl).or (bootstrapConfig deviceId deviceName apiKey apiUrl) with
  | some c => .ok c
  | none => .error (L.identityError deviceId deviceName apiKey)

/-! ### A start -/

inductive Command
  | register
  | run
  deriving DecidableEq

/-- What reading a file of text comes to. -/
inductive Reading
  | text (s : String)
  | osError (e : String)
  | undecodable (e : String)

/-- A start of the agent: its command line (with the environment, for `register`; a key that is not given is empty), and what
comes of the machine, of Control and of the disk while it lasts. -/
structure Start where
  command : Command
  registrationKey : String
  fleetKey : String
  apiUrl : String
  machine : Machine
  /-- a path as it is shown, and what reading it comes to -/
  keyFile : String → String × Reading
  doRequest : ℕ → Outcome
  draw : ℕ → Draw
  zone : ℕ → ℤ
  /-- seconds since the epoch, when a session is written -/
  clock : ℕ
  reach : Reach
  /-- whether the marker of a fleet device can be written -/
  marks : Bool
  defaults : Except String AgentConfig

/-- The directory of the sessions, and whether a fleet device has left its marker. -/
structure Device where
  files : Dict String (List Char)
  marked : Bool

inductive Result
  | known (d : Doc)
  | resumed (c : AgentConfig)
  | noKey
  | onboarded (c : AgentConfig)
  | failed (message : String)
  | refused
  | factory (c : AgentConfig)

/-- How a start ends: with which result, what was asked of Control, and how the device is left. -/
structure Done where
  result : Result
  asked : List (Redemption × Outcome)
  device : Device

/-- The name of the session that is written. -/
def Start.filename (x : Start) : String := Session.sessionName (Session.localTimestamp x.zone x.clock)

/-- `_resolve_fleet_key` -/
def Start.resolveFleetKey (x : Start) : Except String String :=
  if Text.startsWith x.fleetKey "file:" then
    let (keyPath, read) := x.keyFile (String.ofList (x.fleetKey.toList.drop "file:".length))
    match read with
    | .osError e => .error ("Could not read fleet key file " ++ keyPath ++ ": " ++ e)
    | .undecodable e => .error e
    | .text s =>
      let key := String.ofList (Text.strip s.toList)
      if key = "" then .error ("Fleet key file " ++ keyPath ++ " is empty.") else .ok key
  else .ok x.fleetKey

/-- `a or b` -/
def orElse (a : Option Json) (b : Json) : Json := (a.filter Json.truthy).getD b

/-- `StateManager()` -/
def manager (dev : Device) : Manager := ⟨none, none, dev.files⟩

/-- `bootstrap`, and the device that is left. -/
def Start.bootstrap (x : Start) (c : AgentConfig) (dev : Device) : Device :=
  { dev with files := (Session.bootstrap x.filename c x.reach (manager dev)).files }

/-- A key is redeemed: the credentials become a config, and this the first session. -/
def Start.redeem (L : Library) (x : Start) (q : Redemption) (marks : Bool) (name : Credentials → Json) (dev : Device) : Done :=
  let ran := requestWithRetry (ε := Empty) q.opName none x.doRequest x.draw
  let asked := (requestsOf ran.events).map fun o => (q, o)
  match L.redeemed q.opName ran.ending with
  | .error e => ⟨.failed e, asked, dev⟩
  | .ok cred =>
    let marked := { dev with marked := dev.marked || marks }
    match L.resolveAgentConfig ((cred.data.get? "config").getD .null) cred.deviceId (name cred) cred.apiKey x.apiUrl with
    | .error e => ⟨.failed e, asked, marked⟩
    | .ok c => ⟨.onboarded c, asked, x.bootstrap c marked⟩

/-- `enroll_device` -/
def Start.enrollDevice (L : Library) (x : Start) (dev : Device) : Done :=
  match x.resolveFleetKey with
  | .error e => ⟨.failed e, [], dev⟩
  | .ok key =>
    x.redeem L ⟨x.apiUrl ++ "/devices/enroll", key, x.machine.payload [], "Fleet enrollment"⟩ x.marks
      (fun cred => orElse (cred.data.get? "device_name") cred.deviceId) dev

/-- `register_with_key` -/
def Start.registerWithKey (L : Library) (x : Start) (dev : Device) : Done :=
  x.redeem L ⟨x.apiUrl ++ "/devices/headless/register-with-reg-key", x.registrationKey,
      x.machine.payload [("device_name", .str x.machine.defaultDeviceName), ("device_type", .str "other")], "Device registration"⟩ false
    (fun cred => orElse (cred.data.get? "device_name") (orElse (some (.str x.machine.node)) cred.deviceId)) dev

/-- The config that a session is resumed with. -/
def resumes (V : Validator) (dev : Device) : Option AgentConfig :=
  (Session.recovered (manager dev)).bind fun d => V.agentConfig (.ofDict d)

/-- `register` -/
def Start.register (L : Library) (x : Start) (dev : Device) : Done :=
  match Session.recovered (manager dev) with
  | some d => ⟨.known d, [], dev⟩
  | none =>
    if x.fleetKey ≠ "" then x.enrollDevice L dev
    else if x.registrationKey ≠ "" then x.registerWithKey L dev
    else ⟨.noKey, [], dev⟩

/-- `run`, up to the identity. -/
def Start.run (L : Library) (x : Start) (dev : Device) : Done :=
  match resumes L.V dev with
  | some c => ⟨.resumed c, [], dev⟩
  | none =>
    if x.registrationKey ≠ "" then x.registerWithKey L dev
    else if x.fleetKey ≠ "" then x.enrollDevice L dev
    else if dev.marked then ⟨.refused, [], dev⟩
    else match x.defaults with
      | .error e => ⟨.failed e, [], dev⟩
      | .ok c => ⟨.factory c, [], x.bootstrap c dev⟩

def Start.perform (L : Library) (x : Start) (dev : Device) : Done :=
  match x.command with
  | .register => x.register L dev
  | .run => x.run L dev

/-- A start in a history, and the device that it found. -/
structure Step where
  start : Start
  before : Device
  done : Done

/-- Starts one after the other. -/
def history (L : Library) : List Start → Device → List Step
  | [], _ => []
  | x :: xs, dev => ⟨x, dev, x.perform L dev⟩ :: history L xs (x.perform L dev).device

/-! ### What is promised of it -/

/-- What the validation library is relied on for: a config has the identity and the version that it was read from, no dictionary
in it has a key twice where none had, and what it dumps is read as itself. -/
structure Honest (V : Validator) : Prop where
  identity : ∀ {j a b k : Json} {u : String} {c : AgentConfig}, V.agentConfig j = some c → j.get? "identity" = some (identityOf a b k u) →
    a = .str c.identity.deviceId ∧ k = dumpOpt .str c.identity.apiKey ∧ c.identity.apiUrl = some u
  version : ∀ {j v : Json} {c : AgentConfig}, V.agentConfig j = some c → j.get? "version" = some v →
    v.eq (.float SCHEMA_VERSION) = true → (Json.float c.version).eq (.float SCHEMA_VERSION) = true
  proper : ∀ {j : Json} {c : AgentConfig}, Proper j → V.agentConfig j = some c → Proper c.modelDump
  reads : ∀ c : AgentConfig, V.agentConfig c.modelDump = some c

/-- What Control answers is decoded without a key twice. -/
def Start.Decoded (x : Start) : Prop := ∀ n resp body, x.doRequest n = .response resp → resp.json = some body → Proper body

/-- The device has what the command goes by: a session, to register, and one that is a config, to run. -/
def Knows (V : Validator) (x : Start) (dev : Device) : Prop :=
  match x.command with
  | .register => (Session.recovered (manager dev)).isSome
  | .run => (resumes V dev).isSome

/-- The redemption is that of a key that the start has, at this key's endpoint. -/
def Start.Redeems (x : Start) (q : Redemption) : Prop :=
  q.bearer ≠ "" ∧
    (q.bearer = x.registrationKey ∧ q.endpoint = x.apiUrl ++ "/devices/headless/register-with-reg-key" ∨
      x.resolveFleetKey = .ok q.bearer ∧ q.endpoint = x.apiUrl ++ "/devices/enroll")

/-- The response grants the identity of the config. -/
def Start.Granted (x : Start) (resp : Response) (c : AgentConfig) : Prop :=
  resp.statusCode < 400 ∧ ∃ body apiKey, resp.json = some (.obj body) ∧
    (Dict.ofList body).get? "device_id" = some (.str c.identity.deviceId) ∧ c.identity.deviceId ≠ "" ∧
    (Dict.ofList body).get? "api_key" = some (.str apiKey) ∧ apiKey ≠ "" ∧
    c.identity.apiKey = some apiKey ∧ c.identity.apiUrl = some x.apiUrl

/-- No session of the device has a later name than the one that is written. -/
def Start.Latest (x : Start) (dev : Device) : Prop := ∀ name ∈ dev.files.keys, Session.isSession name = true → name ≤ x.filename

/-- The session of the config is written to its end. -/
def Start.Writes (x : Start) (c : AgentConfig) : Prop := ∃ k, x.reach = .upTo k ∧ (dumps c.modelDump).length ≤ k

/-- What is promised of one start. -/
structure Laws (V : Validator) (e : Step) : Prop where
  /-- A device that is known asks for nothing and stays as it is. -/
  known : Knows V e.start e.before → e.done.asked = [] ∧ e.done.device = e.before
  /-- At most eight requests, all for one key. -/
  asked : e.done.asked.length ≤ retryMaxAttempts ∧ ∃ q, (e.done.asked ≠ [] → e.start.Redeems q) ∧ ∀ a ∈ e.done.asked, a.1 = q
  /-- The identity is the one of the last response, all others before it having been asked for again. -/
  granted : ∀ c, e.done.result = .onboarded c → ∃ front q resp, e.done.asked = front ++ [(q, .response resp)] ∧
    (∀ a ∈ front, AskedAgain a.2) ∧ e.start.Granted resp c
  /-- It is there again just if its session was written to its end. -/
  lasts : ∀ c, e.done.result = .onboarded c → e.start.Latest e.before → (resumes V e.done.device = some c ↔ e.start.Writes c)
  /-- No other file is touched, and none where no config comes of the start. -/
  spared : ∀ name, name ≠ e.start.filename → e.done.device.files.get? name = e.before.files.get? name
  unwritten : (∀ c, e.done.result ≠ .onboarded c ∧ e.done.result ≠ .factory c) → e.done.device.files = e.before.files
  /-- The marker of a fleet device stays. -/
  marked : e.before.marked = true → e.done.device.marked = true

/-- The start has left an identity that is written to its end. -/
def Settles (e : Step) (c : AgentConfig) : Prop := e.done.result = .onboarded c ∧ e.start.Latest e.before ∧ e.start.Writes c

/-- The start goes by this identity, without a word to Control. -/
def GoesBy (e : Step) (c : AgentConfig) : Prop :=
  (e.done.result = .known (Session.docOf c) ∨ e.done.result = .resumed c) ∧ e.done.asked = [] ∧ e.done.device = e.before

/-! ### The retries -/

section Retries

variable {ε : Type} {opName : String} {permanentHandler : Option (Response → Option ε)} {doRequest : ℕ → Outcome} {draw : ℕ → Draw}

theorem requestsOf_sleeping_le (delay : Double) (r : Ran ε) :
    (requestsOf (sleeping delay r).events).length ≤ (requestsOf r.events).length := by
  unfold sleeping
  cases Onboarding.refusal (ε := ε) delay with
  | none => exact le_rfl
  | some e => exact Nat.zero_le _

theorem sleeping_ok {delay : Double} {r : Ran ε} {resp : Response} (h : (sleeping delay r).ending = .ok resp) :
    r.ending = .ok resp ∧ requestsOf (sleeping delay r).events = requestsOf r.events := by
  unfold sleeping at h ⊢
  cases hr : Onboarding.refusal (ε := ε) delay with
  | none =>
    rw [hr] at h
    exact ⟨h, rfl⟩
  | some e =>
    rw [hr] at h
    cases h

theorem requests_le (l : List ℕ) : (requestsOf (attempts opName permanentHandler doRequest draw l).events).length ≤ l.length := by
  induction l with
  | nil => exact le_rfl
  | cons attempt rest ih =>
    rw [attempts]
    apply Nat.succ_le_succ
    cases doRequest attempt with
    | networkError exc =>
      dsimp only
      split_ifs
      · exact Nat.zero_le _
      · exact (requestsOf_sleeping_le _ _).trans ih
    | response resp =>
      dsimp only
      split_ifs
      · exact Nat.zero_le _
      · exact (requestsOf_sleeping_le _ _).trans ih
      · exact Nat.zero_le _
      · exact Nat.zero_le _

/-- Retries that end with a response have had it last, and only outcomes that are asked for again before it. -/
theorem attempts_ok (l : List ℕ) {resp : Response} (h : (attempts opName permanentHandler doRequest draw l).ending = .ok resp) :
    resp.statusCode < 400 ∧ (∃ n, doRequest n = .response resp) ∧ ∃ front,
      requestsOf (attempts opName permanentHandler doRequest draw l).events = front ++ [.response resp] ∧ ∀ o ∈ front, AskedAgain o := by
  induction l with
  | nil => cases h
  | cons attempt rest ih =>
    have hlater : ∀ delay, (sleeping delay (attempts opName permanentHandler doRequest draw rest)).ending = .ok resp →
        AskedAgain (doRequest attempt) → resp.statusCode < 400 ∧ (∃ n, doRequest n = .response resp) ∧ ∃ front,
          requestsOf (Ran.after (doRequest attempt) (sleeping delay (attempts opName permanentHandler doRequest draw rest))).events =
            front ++ [.response resp] ∧ ∀ o ∈ front, AskedAgain o := by
      intro delay hok hasked
      obtain ⟨hok, hrequests⟩ := sleeping_ok hok
      obtain ⟨hstatus, hn, front, hfront, hall⟩ := ih hok
      refine ⟨hstatus, hn, doRequest attempt :: front, ?_, List.forall_mem_cons.mpr ⟨hasked, hall⟩⟩
      show doRequest attempt :: requestsOf (sleeping delay _).events = _
      rw [hrequests, hfront]
      rfl
    rw [attempts] at h ⊢
    cases ho : doRequest attempt with
    | networkError exc =>
      rw [ho] at h hlater
      dsimp only at h ⊢
      split_ifs at h ⊢
      · cases h
      · exact hlater _ h trivial
    | response r =>
      rw [ho] at h hlater
      dsimp only at h ⊢
      split_ifs at h ⊢ with htransient hlast hpermanent
      · cases h
      · exact hlater _ h htransient
      · cases h
      · obtain rfl : r = resp := by
          injection h
        exact ⟨not_le.mp hpermanent, ⟨attempt, ho⟩, [], rfl, fun o hmem => absurd hmem List.not_mem_nil⟩

end Retries

/-! ### The credentials -/

theorem credentials_ok {L : Library} {opName : String} {resp : Response} {cred : Credentials} (h : L.credentials opName resp = .ok cred) :
    ∃ body, resp.json = some (.obj body) ∧ cred.data = Dict.ofList body ∧
      (cred.data.get? "device_id" = some cred.deviceId ∧ cred.deviceId.truthy = true) ∧
      cred.data.get? "api_key" = some cred.apiKey ∧ cred.apiKey.truthy = true := by
  unfold Library.credentials at h
  cases hjson : resp.json with
  | none =>
    rw [hjson] at h
    cases h
  | some j =>
    rw [hjson] at h
    cases j with
    | obj body =>
      dsimp only at h
      cases hid : ((Dict.ofList body).get? "device_id").filter Json.truthy with
      | none => simp [hid] at h
      | some deviceId =>
        cases hkey : ((Dict.ofList body).get? "api_key").filter Json.truthy with
        | none => simp [hid, hkey] at h
        | some apiKey =>
          simp only [hid, hkey, Except.ok.injEq] at h
          subst h
          exact ⟨body, rfl, rfl, Option.filter_eq_some_iff.mp hid, Option.filter_eq_some_iff.mp hkey⟩
    | _ => cases h

theorem redeemed_ok {L : Library} {opName : String} {r : Except (Raised Empty) Response} {cred : Credentials}
    (h : L.redeemed opName r = .ok cred) : ∃ resp, r = .ok resp ∧ L.credentials opName resp = .ok cred := by
  cases r with
  | error e => cases h
  | ok resp => exact ⟨resp, rfl, h⟩

/-! ### The config -/

theorem keys_resolveObj (context : Json) (l : List (String × Json)) :
    (Templating.resolveObj context l).map Prod.fst = l.map Prod.fst := by
  induction l with
  | nil => rfl
  | cons e l ih => exact congrArg (e.1 :: ·) ih

mutual

/-- Templates put texts in the place of texts. -/
theorem proper_resolveTemplates (context : Json) : ∀ {j : Json}, Proper j → Proper (Templating.resolveTemplates context j)
  | .arr l, h => properItems_resolveArr context h
  | .obj l, h => ⟨by rw [keys_resolveObj]; exact h.1, properMembers_resolveObj context h.2⟩
  | .str _, _ | .null, _ | .bool _, _ | .int _, _ | .float _, _ => trivial

theorem properItems_resolveArr (context : Json) : ∀ {l : List Json}, JsonText.ProperItems l →
    JsonText.ProperItems (Templating.resolveArr context l)
  | [], _ => trivial
  | _ :: _, h => ⟨proper_resolveTemplates context h.1, properItems_resolveArr context h.2⟩

theorem properMembers_resolveObj (context : Json) : ∀ {l : List (String × Json)}, ProperMembers l →
    ProperMembers (Templating.resolveObj context l)
  | [], _ => trivial
  | _ :: _, h => ⟨proper_resolveTemplates context h.1, properMembers_resolveObj context h.2⟩

end

theorem resolveTemplates_of_eq_float (context : Json) {v : Json} {x : Flt} (h : v.eq (.float x) = true) :
    Templating.resolveTemplates context v = v := by
  cases v with
  | str | arr | obj => simp [Json.eq, Json.canon] at h
  | _ => rfl

/-- A list without a key twice is the dictionary it builds. -/
theorem get?_ofList_of_nodup {l : List (String × Json)} (h : (l.map Prod.fst).Nodup) (k : String) :
    (Dict.ofList l).get? k = l.lookup k := by
  have hself : Dict.ofList l = ⟨l, h⟩ := Dict.ofList_entries ⟨l, h⟩
  rw [hself]
  rfl

/-- The config has this identity, and can be a session. -/
structure Bears (deviceId apiKey : Json) (apiUrl : String) (c : AgentConfig) : Prop where
  deviceId : deviceId = .str c.identity.deviceId
  apiKey : apiKey = dumpOpt .str c.identity.apiKey
  apiUrl : c.identity.apiUrl = some apiUrl
  version : (Json.float c.version).eq (.float SCHEMA_VERSION) = true
  proper : Proper c.modelDump

section Config

variable {V : Validator} {deviceId deviceName apiKey : Json} {apiUrl : String} {c : AgentConfig}

theorem proper_identityOf (hid : Proper deviceId) (hname : Proper deviceName) (hkey : Proper apiKey) :
    Proper (identityOf deviceId deviceName apiKey apiUrl) := by
  have hkeys : ["device_id", "device_name", "api_key", "api_url"].Nodup := by decide
  exact ⟨hkeys, hid, hname, hkey, trivial, trivial⟩

theorem bears_applyServerConfig (hV : Honest V) {raw : Json} (hraw : Proper raw) (hid : Proper deviceId) (hname : Proper deviceName)
    (hkey : Proper apiKey) (h : applyServerConfig V raw deviceId deviceName apiKey apiUrl = some c) : Bears deviceId apiKey apiUrl c := by
  unfold applyServerConfig at h
  cases raw with
  | obj l =>
    dsimp only at h
    split_ifs at h with hversion
    have hidentity : Proper (identityOf deviceId deviceName apiKey apiUrl) := proper_identityOf hid hname hkey
    generalize Json.obj [("identity", identityOf deviceId deviceName apiKey apiUrl), ("api_url", .str apiUrl)] = context at h
    have hmembers := JsonText.properMembers_ofList (properMembers_resolveObj context hraw.2)
    have hproper : Proper (.ofDict ((Dict.ofList (Templating.resolveObj context l)).set "identity"
        (identityOf deviceId deviceName apiKey apiUrl))) :=
      JsonText.proper_ofDict (JsonText.properMembers_setEntry hidentity hmembers)
    obtain ⟨hdevice, hapi, hurl⟩ := hV.identity h (Dict.get?_set_self _ _ _)
    cases hlookup : l.lookup "version" with
    | none => simp [Json.get?, hlookup, Json.eq, Json.canon] at hversion
    | some v =>
      have hv : v.eq (.float SCHEMA_VERSION) = true := by simpa [Json.get?, hlookup] using hversion
      refine ⟨hdevice, hapi, hurl, hV.version h ?_ hv, hV.proper hproper h⟩
      have hnodup : ((Templating.resolveObj context l).map Prod.fst).Nodup := by
        rw [keys_resolveObj]
        exact hraw.1
      calc (Json.ofDict ((Dict.ofList (Templating.resolveObj context l)).set "identity" _)).get? "version"
          = (Dict.ofList (Templating.resolveObj context l)).get? "version" := Dict.get?_set_of_ne _ _ (by decide)
        _ = (Templating.resolveObj context l).lookup "version" := get?_ofList_of_nodup hnodup _
        _ = some v := by
          rw [Templating.lookup_resolveObj, hlookup, Option.map_some, resolveTemplates_of_eq_float context hv]
  | _ => cases h

/-- A config whose arguments are dictionaries of distinct keys, all through. -/
structure Tidy (c : AgentConfig) : Prop where
  transport : ∀ t ∈ c.transport, ProperMembers t.args.entries
  logging : ∀ g ∈ c.logging.handlers, ProperMembers g.args.entries
  reporting : ∀ g ∈ c.reporting.handlers, ProperMembers g.args.entries
  pipelines : ∀ p ∈ c.pipelines, ProperMembers p.source.args.entries ∧ ∀ g ∈ p.sink, ProperMembers g.args.entries

theorem proper_genericConfig {g : GenericConfig} (h : ProperMembers g.args.entries) : Proper g.modelDump := by
  have hkeys : ["type", "args"].Nodup := by decide
  exact ⟨hkeys, trivial, JsonText.proper_ofDict h, trivial⟩

theorem proper_handlers {l : List GenericConfig} (h : ∀ g ∈ l, ProperMembers g.args.entries) :
    Proper (.arr (l.map GenericConfig.modelDump)) := by
  refine JsonText.properItems_iff.mpr fun a ha => ?_
  obtain ⟨g, hg, rfl⟩ := List.mem_map.mp ha
  exact proper_genericConfig (h g hg)

theorem proper_dumpOpt {α : Type} {f : α → Json} {x : Option α} (h : ∀ a ∈ x, Proper (f a)) : Proper (dumpOpt f x) := by
  cases x with
  | none => trivial
  | some a => exact h a rfl

theorem Tidy.proper (h : Tidy c) : Proper c.modelDump := by
  have hroot : ["version", "identity", "transport", "logging", "reporting", "pipelines"].Nodup := by decide
  have hidentity : ["device_id", "device_name", "api_url", "api_key"].Nodup := by decide
  have htransport : ["type", "args"].Nodup := by decide
  have hlogging : ["level", "handlers"].Nodup := by decide
  have hreporting : ["interval", "handlers"].Nodup := by decide
  have hpipeline : ["id", "active", "source", "sink"].Nodup := by decide
  have htexts : ∀ x : Option String, Proper (dumpOpt .str x) := fun x => proper_dumpOpt fun _ _ => trivial
  refine ⟨hroot, trivial, ⟨hidentity, trivial, trivial, htexts _, htexts _, trivial⟩, proper_dumpOpt fun t ht => ?_,
    ⟨hlogging, trivial, proper_handlers h.logging, trivial⟩, ⟨hreporting, trivial, proper_handlers h.reporting, trivial⟩,
    JsonText.properItems_iff.mpr fun a ha => ?_, trivial⟩
  · exact ⟨htransport, trivial, JsonText.proper_ofDict (h.transport t ht), trivial⟩
  · obtain ⟨p, hp, rfl⟩ := List.mem_map.mp ha
    obtain ⟨hsource, hsink⟩ := h.pipelines p hp
    exact ⟨hpipeline, trivial, trivial, proper_genericConfig hsource, proper_dumpOpt fun g hg => proper_genericConfig (hsink g hg), trivial⟩

/-- The built-in defaults take an identity of texts only. -/
theorem bears_bootstrapConfig (h : bootstrapConfig deviceId deviceName apiKey apiUrl = some c) : Bears deviceId apiKey apiUrl c := by
  unfold bootstrapConfig at h
  split at h
  · obtain rfl := Option.some.inj h
    have hempty : ProperMembers (Dict.empty : Dict String Json).entries := trivial
    refine ⟨rfl, rfl, rfl, Json.eq_refl _, Tidy.proper ⟨fun t ht => ?_, ?_, ?_, ?_⟩⟩
    · obtain rfl := Option.some.inj ht
      exact hempty
    · exact List.forall_mem_cons.mpr ⟨hempty, List.forall_mem_singleton.mpr (JsonText.properMembers_ofList ⟨trivial, trivial⟩)⟩
    · exact List.forall_mem_cons.mpr ⟨hempty, List.forall_mem_singleton.mpr
        (JsonText.properMembers_ofList ⟨trivial, trivial, trivial, trivial⟩)⟩
    · refine List.forall_mem_cons.mpr ⟨⟨JsonText.properMembers_ofList ⟨trivial, trivial, trivial, trivial⟩, fun g hg => ?_⟩,
        List.forall_mem_singleton.mpr ⟨JsonText.properMembers_ofList ⟨trivial, ⟨trivial, trivial, trivial, trivial, trivial⟩, trivial⟩,
          fun g hg => ?_⟩⟩
      · obtain rfl := Option.some.inj hg
        exact hempty
      · obtain rfl := Option.some.inj hg
        exact JsonText.properMembers_ofList ⟨trivial, trivial, trivial, trivial⟩
  · cases h

theorem bears_appliedConfig (hV : Honest V) {serverConfig : Json} (hserver : Proper serverConfig) (hid : Proper deviceId)
    (hname : Proper deviceName) (hkey : Proper apiKey) (h : appliedConfig V serverConfig deviceId deviceName apiKey apiUrl = some c) :
    Bears deviceId apiKey apiUrl c := by
  cases serverConfig with
  | null => cases h
  | _ => exact bears_applyServerConfig hV hserver hid hname hkey h

theorem bears_resolveAgentConfig {L : Library} (hV : Honest L.V) {serverConfig : Json} (hserver : Proper serverConfig)
    (hid : Proper deviceId) (hname : Proper deviceName) (hkey : Proper apiKey)
    (h : L.resolveAgentConfig serverConfig deviceId deviceName apiKey apiUrl = .ok c) : Bears deviceId apiKey apiUrl c := by
  unfold Library.resolveAgentConfig at h
  cases heq : (appliedConfig L.V serverConfig deviceId deviceName apiKey apiUrl).or
      (bootstrapConfig deviceId deviceName apiKey apiUrl) with
  | none =>
    rw [heq] at h
    cases h
  | some c' =>
    rw [heq] at h
    obtain rfl := Except.ok.inj h
    obtain happlied | ⟨-, hdefaults⟩ := Option.or_eq_some_iff.mp heq
    · exact bears_appliedConfig hV hserver hid hname hkey happlied
    · exact bears_bootstrapConfig hdefaults

end Config

/-! ### The session -/

section Session

variable {V : Validator} {x : Start} {c : AgentConfig} {dev : Device}

theorem isSession_filename (x : Start) : Session.isSession x.filename = true :=
  Session.isSession_sessionName (Session.slash_not_mem_formatUtcCompact _)

theorem files_bootstrap (x : Start) (c : AgentConfig) (dev : Device) : (x.bootstrap c dev).files = match x.reach with
    | .unopened => dev.files
    | .upTo k => dev.files.set x.filename ((dumps c.modelDump).take k) := by
  unfold Start.bootstrap Session.bootstrap
  dsimp only
  cases x.reach with
  | unopened =>
    rw [Session.flush_unopened]
    rfl
  | upTo k =>
    have hne : (Session.docOf c).entries ≠ [] := List.cons_ne_nil _ _
    rw [Session.flush_upTo { manager dev with cache := some (Session.docOf c), current := some x.filename } rfl rfl k, if_pos hne,
      Session.ofDict_docOf]
    rfl

theorem recovered_manager (dev : Device) : Session.recovered (manager dev) =
    (Session.latest dev.files).bind fun p => (dev.files.get? p).bind Session.loadText := Session.recovered_eq _

theorem latest_set (h : x.Latest dev) (t : List Char) : Session.latest (dev.files.set x.filename t) = some x.filename := by
  refine Session.latest_eq ((Session.mem_keys_set _ _ _ _).mpr (Or.inl rfl)) (isSession_filename x) fun q hq hs => ?_
  obtain rfl | hq := (Session.mem_keys_set _ _ _ _).mp hq
  · exact String.le_refl _
  · exact h q hq hs

/-- A session that is written to its end is what is found, and one that is torn lets nothing be found. -/
theorem recovered_bootstrap (hc : Proper c.modelDump) (hversion : (Json.float c.version).eq (.float SCHEMA_VERSION) = true)
    (h : x.Latest dev) {k : ℕ} (hk : x.reach = .upTo k) :
    Session.recovered (manager (x.bootstrap c dev)) = if (dumps c.modelDump).length ≤ k then some (Session.docOf c) else none := by
  rw [recovered_manager, files_bootstrap, hk]
  dsimp only
  rw [latest_set h, Option.bind_some, Dict.get?_set_self, Option.bind_some]
  split_ifs with hlength
  · have hloads : JsonText.loads (dumps c.modelDump) = some (.ofDict (Session.docOf c)) := JsonText.loads_dumps hc
    rw [List.take_of_length_le hlength, Session.loadText_of_loads hloads]
    have hok : Session.versionOk (Session.docOf c) = true := (Session.versionOk_agentDoc c _).trans hversion
    rw [if_pos hok]
  · exact Session.loadText_of_torn (JsonText.loads_take hc (not_le.mp hlength))

/-- It is resumed just if it was written to its end. -/
theorem resumes_bootstrap_iff (hV : Honest V) {deviceId apiKey : Json} {apiUrl : String} (hc : Bears deviceId apiKey apiUrl c)
    (h : x.Latest dev) (hnone : resumes V dev = none) : resumes V (x.bootstrap c dev) = some c ↔ x.Writes c := by
  cases hreach : x.reach with
  | unopened =>
    have hfiles : (x.bootstrap c dev).files = dev.files := by rw [files_bootstrap, hreach]
    have hsame : resumes V (x.bootstrap c dev) = resumes V dev := by
      unfold resumes
      rw [recovered_manager, recovered_manager, hfiles]
    rw [hsame, hnone]
    refine iff_of_false nofun ?_
    rintro ⟨k, hk, -⟩
    rw [hreach] at hk
    cases hk
  | upTo k =>
    have hrecovered := recovered_bootstrap hc.proper hc.version h hreach
    unfold resumes
    rw [hrecovered]
    by_cases hlength : (dumps c.modelDump).length ≤ k
    · rw [if_pos hlength]
      exact iff_of_true (hV.reads c) ⟨k, hreach, hlength⟩
    · rw [if_neg hlength]
      refine iff_of_false nofun ?_
      rintro ⟨k', hk', hle⟩
      obtain rfl : k = k' := Session.Reach.upTo.inj (hreach.symm.trans hk')
      exact hlength hle

theorem get?_files_bootstrap {name : String} (h : name ≠ x.filename) : (x.bootstrap c dev).files.get? name = dev.files.get? name := by
  rw [files_bootstrap]
  cases x.reach with
  | unopened => rfl
  | upTo k => exact Dict.get?_set_of_ne _ _ h

end Session

/-! ### One start -/

section Start

variable {L : Library} {x : Start} {dev : Device}

/-- What comes of a key that is redeemed. -/
structure Redeemed (x : Start) (q : Redemption) (dev : Device) (d : Done) : Prop where
  length : d.asked.length ≤ retryMaxAttempts
  each : ∀ a ∈ d.asked, a.1 = q
  onboarded : ∀ c, d.result = .onboarded c → ∃ front resp deviceId apiKey dev', d.asked = front ++ [(q, .response resp)] ∧
    (∀ a ∈ front, AskedAgain a.2) ∧ x.Granted resp c ∧ Bears deviceId apiKey x.apiUrl c ∧ dev'.files = dev.files ∧
    d.device = x.bootstrap c dev'
  factory : ∀ c, d.result ≠ .factory c
  unwritten : (∀ c, d.result ≠ .onboarded c) → d.device.files = dev.files
  marked : dev.marked = true → d.device.marked = true

theorem proper_getD {d : Dict String Json} (hd : ProperMembers d.entries) (k : String) : Proper ((d.get? k).getD .null) := by
  cases h : d.get? k with
  | none => trivial
  | some a => exact JsonText.proper_lookup hd h

theorem proper_orElse {a : Option Json} {b : Json} (ha : ∀ j ∈ a, Proper j) (hb : Proper b) : Proper (orElse a b) := by
  unfold orElse
  cases h : a.filter Json.truthy with
  | none => exact hb
  | some j => exact ha j (Option.filter_eq_some_iff.mp h).1

/-- A value that counts as true and is a text or none is a text that is not empty. -/
theorem text_of_truthy {k : Json} {key : Option String} (htruthy : k.truthy = true) (h : k = dumpOpt .str key) :
    ∃ s, key = some s ∧ k = .str s ∧ s ≠ "" := by
  cases key with
  | none =>
    rw [h] at htruthy
    cases htruthy
  | some s =>
    refine ⟨s, rfl, h, ?_⟩
    rw [h] at htruthy
    exact of_decide_eq_true htruthy

theorem redeemed_failed {q : Redemption} {e : String} {asked : List (Redemption × Outcome)} {dev' : Device}
    (hlength : asked.length ≤ retryMaxAttempts) (heach : ∀ a ∈ asked, a.1 = q) (hfiles : dev'.files = dev.files)
    (hmarked : dev.marked = true → dev'.marked = true) : Redeemed x q dev ⟨.failed e, asked, dev'⟩ where
  length := hlength
  each := heach
  onboarded c h := by cases h
  factory c h := by cases h
  unwritten _ := hfiles
  marked := hmarked

theorem redeemed_redeem (hV : Honest L.V) (hx : x.Decoded) (q : Redemption) (marks : Bool) {name : Credentials → Json}
    (hname : ∀ cred : Credentials, ProperMembers cred.data.entries → Proper cred.deviceId → Proper (name cred)) :
    Redeemed x q dev (x.redeem L q marks name dev) := by
  have hlength : (requestsOf (requestWithRetry (ε := Empty) q.opName none x.doRequest x.draw).events).length ≤ retryMaxAttempts :=
    requests_le _
  have hok : ∀ resp, (requestWithRetry (ε := Empty) q.opName none x.doRequest x.draw).ending = .ok resp → resp.statusCode < 400 ∧
      (∃ n, x.doRequest n = .response resp) ∧ ∃ front,
        requestsOf (requestWithRetry (ε := Empty) q.opName none x.doRequest x.draw).events = front ++ [.response resp] ∧
          ∀ o ∈ front, AskedAgain o := fun resp => attempts_ok _
  unfold Start.redeem
  dsimp only
  generalize requestWithRetry (ε := Empty) q.opName none x.doRequest x.draw = ran at hlength hok ⊢
  have hasked : ((requestsOf ran.events).map fun o => (q, o)).length ≤ retryMaxAttempts := by rwa [List.length_map]
  have heach : ∀ a ∈ (requestsOf ran.events).map fun o => (q, o), a.1 = q := by
    intro a ha
    obtain ⟨o, -, rfl⟩ := List.mem_map.mp ha
    rfl
  cases hredeemed : L.redeemed q.opName ran.ending with
  | error e => exact redeemed_failed hasked heach rfl id
  | ok cred =>
    dsimp only
    have hmarked : dev.marked = true → (dev.marked || marks) = true := fun h => by rw [h]; rfl
    cases hconfig : L.resolveAgentConfig ((cred.data.get? "config").getD .null) cred.deviceId (name cred) cred.apiKey x.apiUrl with
    | error e => exact redeemed_failed hasked heach rfl hmarked
    | ok c =>
      refine ⟨hasked, heach, fun c' hc' => ?_, fun c' hc' => (by cases hc'), fun h => absurd rfl (h c), hmarked⟩
      obtain rfl := Result.onboarded.inj hc'
      obtain ⟨resp, hending, hcred⟩ := redeemed_ok hredeemed
      obtain ⟨body, hjson, hdata, ⟨hid, hidTrue⟩, hkey, hkeyTrue⟩ := credentials_ok hcred
      obtain ⟨hstatus, ⟨n, hn⟩, front, hfront, hall⟩ := hok resp hending
      have hbody : ProperMembers cred.data.entries := by
        rw [hdata]
        exact JsonText.properMembers_ofList (hx n resp _ hn hjson).2
      have hproperId : Proper cred.deviceId := JsonText.proper_lookup hbody hid
      have hbears := bears_resolveAgentConfig hV (proper_getD hbody "config") hproperId (hname cred hbody hproperId)
        (JsonText.proper_lookup hbody hkey) hconfig
      obtain ⟨key, hsome, hapiKey, hkeyText⟩ := text_of_truthy hkeyTrue hbears.apiKey
      have hidText : c.identity.deviceId ≠ "" := by
        rw [hbears.deviceId] at hidTrue
        exact of_decide_eq_true hidTrue
      refine ⟨front.map fun o => (q, o), resp, cred.deviceId, cred.apiKey, { dev with marked := dev.marked || marks }, ?_, ?_, ?_, hbears,
        rfl, rfl⟩
      · show (requestsOf ran.events).map _ = _
        rw [hfront, List.map_append]
        rfl
      · intro a ha
        obtain ⟨o, ho, rfl⟩ := List.mem_map.mp ha
        exact hall o ho
      · refine ⟨hstatus, body, key, hjson, ?_, hidText, ?_, hkeyText, hsome, hbears.apiUrl⟩
        · rw [← hdata, hid, hbears.deviceId]
        · rw [← hdata, hkey, hapiKey]

theorem resolveFleetKey_ne {key : String} (hne : x.fleetKey ≠ "") (h : x.resolveFleetKey = .ok key) : key ≠ "" := by
  unfold Start.resolveFleetKey at h
  split_ifs at h
  · cases hread : (x.keyFile (String.ofList (x.fleetKey.toList.drop "file:".length))).2 with
    | osError e => simp [hread] at h
    | undecodable e => simp [hread] at h
    | text s =>
      simp only [hread] at h
      split_ifs at h with hempty
      obtain rfl := Except.ok.inj h
      exact hempty
  · obtain rfl := Except.ok.inj h
    exact hne

/-- A start that asks for nothing: it fails, or goes by the defaults. -/
def Idle (x : Start) (dev : Device) (d : Done) : Prop :=
  d.asked = [] ∧ ((∃ c, d.result = .factory c ∧ d.device = x.bootstrap c dev) ∨
    d.device = dev ∧ ∀ c, d.result ≠ .onboarded c ∧ d.result ≠ .factory c)

theorem enrollDevice_cases (hV : Honest L.V) (hx : x.Decoded) (hkey : x.fleetKey ≠ "") :
    (∃ q, x.Redeems q ∧ Redeemed x q dev (x.enrollDevice L dev)) ∨ Idle x dev (x.enrollDevice L dev) := by
  unfold Start.enrollDevice
  cases hfleet : x.resolveFleetKey with
  | error e => exact Or.inr ⟨rfl, Or.inr ⟨rfl, fun c => ⟨nofun, nofun⟩⟩⟩
  | ok key =>
    refine Or.inl ⟨_, ⟨resolveFleetKey_ne hkey hfleet, Or.inr ⟨hfleet, rfl⟩⟩, redeemed_redeem hV hx _ _ fun cred hdata hid => ?_⟩
    exact proper_orElse (fun j hj => JsonText.proper_lookup hdata hj) hid

theorem redeemed_registerWithKey (hV : Honest L.V) (hx : x.Decoded) (hkey : x.registrationKey ≠ "") :
    ∃ q, x.Redeems q ∧ Redeemed x q dev (x.registerWithKey L dev) := by
  refine ⟨_, ⟨hkey, Or.inl ⟨rfl, rfl⟩⟩, redeemed_redeem hV hx _ _ fun cred hdata hid => ?_⟩
  refine proper_orElse (fun j hj => JsonText.proper_lookup hdata hj) (proper_orElse (fun j hj => ?_) hid)
  obtain rfl := Option.some.inj hj
  trivial

/-- Everything that a start can do. -/
theorem perform_cases (hV : Honest L.V) (hx : x.Decoded) (dev : Device) :
    (Knows L.V x dev ∧ (x.perform L dev).asked = [] ∧ (x.perform L dev).device = dev ∧
      ((∃ d, Session.recovered (manager dev) = some d ∧ (x.perform L dev).result = .known d) ∨
        ∃ c, resumes L.V dev = some c ∧ (x.perform L dev).result = .resumed c)) ∨
    ¬Knows L.V x dev ∧ ((∃ q, x.Redeems q ∧ Redeemed x q dev (x.perform L dev)) ∨ Idle x dev (x.perform L dev)) := by
  unfold Start.perform Knows
  cases x.command with
  | register =>
    dsimp only
    unfold Start.register
    cases hrecovered : Session.recovered (manager dev) with
    | some d => exact Or.inl ⟨rfl, rfl, rfl, Or.inl ⟨d, rfl, rfl⟩⟩
    | none =>
      refine Or.inr ⟨nofun, ?_⟩
      dsimp only
      by_cases hfleet : x.fleetKey = ""
      · by_cases hkey : x.registrationKey = ""
        · rw [if_neg (not_not.mpr hfleet), if_neg (not_not.mpr hkey)]
          exact Or.inr ⟨rfl, Or.inr ⟨rfl, fun c => ⟨nofun, nofun⟩⟩⟩
        · rw [if_neg (not_not.mpr hfleet), if_pos hkey]
          exact Or.inl (redeemed_registerWithKey hV hx hkey)
      · rw [if_pos hfleet]
        exact enrollDevice_cases hV hx hfleet
  | run =>
    dsimp only
    unfold Start.run
    cases hresumes : resumes L.V dev with
    | some c => exact Or.inl ⟨rfl, rfl, rfl, Or.inr ⟨c, rfl, rfl⟩⟩
    | none =>
      refine Or.inr ⟨nofun, ?_⟩
      dsimp only
      by_cases hkey : x.registrationKey = ""
      · rw [if_neg (not_not.mpr hkey)]
        by_cases hfleet : x.fleetKey = ""
        · rw [if_neg (not_not.mpr hfleet)]
          refine Or.inr ?_
          by_cases hmarked : dev.marked = true
          · rw [if_pos hmarked]
            exact ⟨rfl, Or.inr ⟨rfl, fun c => ⟨nofun, nofun⟩⟩⟩
          · rw [if_neg hmarked]
            cases x.defaults with
            | error e => exact ⟨rfl, Or.inr ⟨rfl, fun c => ⟨nofun, nofun⟩⟩⟩
            | ok c => exact ⟨rfl, Or.inl ⟨c, rfl, rfl⟩⟩
        · rw [if_pos hfleet]
          exact enrollDevice_cases hV hx hfleet
      · rw [if_pos hkey]
        exact Or.inl (redeemed_registerWithKey hV hx hkey)

theorem resumes_of_not_knows (h : ¬Knows L.V x dev) : resumes L.V dev = none := by
  unfold Knows at h
  cases hcommand : x.command with
  | register =>
    rw [hcommand] at h
    unfold resumes
    rw [Option.not_isSome_iff_eq_none.mp h]
    rfl
  | run =>
    rw [hcommand] at h
    exact Option.not_isSome_iff_eq_none.mp h

theorem resumes_congr {V : Validator} {dev dev' : Device} (h : dev'.files = dev.files) : resumes V dev' = resumes V dev := by
  unfold resumes
  rw [recovered_manager, recovered_manager, h]

/-- No requests are at most eight, and all for one key. -/
theorem asks_nothing {asked : List (Redemption × Outcome)} (h : asked = []) :
    asked.length ≤ retryMaxAttempts ∧ ∃ q, (asked ≠ [] → x.Redeems q) ∧ ∀ a ∈ asked, a.1 = q := by
  rw [h]
  exact ⟨Nat.zero_le _, ⟨"", "", .null, ""⟩, fun h => absurd rfl h, fun a ha => absurd ha List.not_mem_nil⟩

/-- What is promised of one start holds of it. -/
theorem laws_perform (hV : Honest L.V) (hx : x.Decoded) (dev : Device) : Laws L.V ⟨x, dev, x.perform L dev⟩ := by
  obtain ⟨hknows, hasked, hdevice, hresult⟩ | ⟨hknows, ⟨q, hq, h⟩ | ⟨hasked, h⟩⟩ := perform_cases hV hx dev
  · have hnot : ∀ c, (x.perform L dev).result ≠ .onboarded c := by
      intro c hc
      obtain ⟨d, -, heq⟩ | ⟨c', -, heq⟩ := hresult
      · cases hc.symm.trans heq
      · cases hc.symm.trans heq
    refine ⟨fun _ => ⟨hasked, hdevice⟩, ?_, fun c hc => absurd hc (hnot c), fun c hc => absurd hc (hnot c), fun name _ => ?_, fun _ => ?_,
      fun h => ?_⟩
    · exact asks_nothing hasked
    · exact congrArg (fun d : Device => d.files.get? name) hdevice
    · exact congrArg Device.files hdevice
    · exact (congrArg Device.marked hdevice).trans h
  · refine ⟨fun h' => absurd h' hknows, ⟨h.length, q, fun _ => hq, h.each⟩, fun c hc => ?_, fun c hc hlatest => ?_, fun name hname => ?_,
      fun hnot => h.unwritten fun c => (hnot c).1, h.marked⟩
    · obtain ⟨front, resp, _, _, _, hasked, hfront, hgranted, -⟩ := h.onboarded c hc
      exact ⟨front, q, resp, hasked, hfront, hgranted⟩
    · obtain ⟨_, _, _, _, dev', -, -, -, hbears, hfiles, hdevice⟩ := h.onboarded c hc
      have hlatest' : x.Latest dev' := fun name hname => hlatest name (by rwa [hfiles] at hname)
      have hnone : resumes L.V dev' = none := (resumes_congr hfiles).trans (resumes_of_not_knows hknows)
      show resumes L.V (x.perform L dev).device = some c ↔ _
      rw [hdevice]
      exact resumes_bootstrap_iff hV hbears hlatest' hnone
    · show (x.perform L dev).device.files.get? name = dev.files.get? name
      cases hresult : (x.perform L dev).result with
      | onboarded c =>
        obtain ⟨_, _, _, _, dev', -, -, -, -, hfiles, hdevice⟩ := h.onboarded c hresult
        rw [hdevice, get?_files_bootstrap hname, hfiles]
      | _ => rw [h.unwritten fun c hc => by cases hc.symm.trans hresult]
  · have hnot : ∀ c, (x.perform L dev).result ≠ .onboarded c := by
      intro c hc
      obtain ⟨c', heq, -⟩ | ⟨-, hother⟩ := h
      · cases hc.symm.trans heq
      · exact (hother c).1 hc
    refine ⟨fun h' => absurd h' hknows, ?_, fun c hc => absurd hc (hnot c), fun c hc => absurd hc (hnot c), fun name hname => ?_,
      fun hnone => ?_, fun hmarked => ?_⟩
    · exact asks_nothing hasked
    · show (x.perform L dev).device.files.get? name = dev.files.get? name
      obtain ⟨c, -, hdevice⟩ | ⟨hdevice, -⟩ := h
      · rw [hdevice, get?_files_bootstrap hname]
      · rw [hdevice]
    · obtain ⟨c, hfactory, -⟩ | ⟨hdevice, -⟩ := h
      · exact absurd hfactory (hnone c).2
      · exact congrArg Device.files hdevice
    · show (x.perform L dev).device.marked = true
      obtain ⟨c, -, hdevice⟩ | ⟨hdevice, -⟩ := h
      · rw [hdevice]
        exact hmarked
      · rw [hdevice]
        exact hmarked

/-- A start on a device that resumes a config goes by it. -/
theorem goesBy_of_resumes (hV : Honest L.V) (hx : x.Decoded) {c : AgentConfig}
    (hrecovered : Session.recovered (manager dev) = some (Session.docOf c)) : GoesBy ⟨x, dev, x.perform L dev⟩ c := by
  have hresumes : resumes L.V dev = some c := by
    unfold resumes
    rw [hrecovered, Option.bind_some, Session.ofDict_docOf]
    exact hV.reads c
  have hknows : Knows L.V x dev := by
    unfold Knows
    cases x.command with
    | register =>
      dsimp only
      rw [hrecovered]
      rfl
    | run =>
      dsimp only
      rw [hresumes]
      rfl
  obtain ⟨-, hasked, hdevice, ⟨d, hd, hresult⟩ | ⟨c', hc', hresult⟩⟩ | ⟨hnot, -⟩ := perform_cases hV hx dev
  · obtain rfl := Option.some.inj (hd.symm.trans hrecovered)
    exact ⟨Or.inl hresult, hasked, hdevice⟩
  · obtain rfl := Option.some.inj (hc'.symm.trans hresumes)
    exact ⟨Or.inr hresult, hasked, hdevice⟩
  · exact absurd hknows hnot

/-- After a start that settles a config, it is there. -/
theorem recovered_of_settles (hV : Honest L.V) (hx : x.Decoded) {c : AgentConfig} (h : Settles ⟨x, dev, x.perform L dev⟩ c) :
    Session.recovered (manager (x.perform L dev).device) = some (Session.docOf c) := by
  obtain ⟨hresult, hlatest, k, hreach, hlength⟩ := h
  obtain ⟨-, -, -, ⟨d, -, heq⟩ | ⟨c', -, heq⟩⟩ | ⟨-, ⟨q, -, hredeemed⟩ | ⟨-, ⟨c', heq, -⟩ | ⟨-, hother⟩⟩⟩ := perform_cases hV hx dev
  · cases hresult.symm.trans heq
  · cases hresult.symm.trans heq
  · obtain ⟨_, _, _, _, dev', -, -, -, hbears, hfiles, hdevice⟩ := hredeemed.onboarded c hresult
    have hlatest' : x.Latest dev' := fun name hname => hlatest name (by rwa [hfiles] at hname)
    rw [hdevice, recovered_bootstrap hbears.proper hbears.version hlatest' hreach, if_pos hlength]
  · cases hresult.symm.trans heq
  · exact absurd hresult (hother c).1

end Start

/-! ### One start after the other -/

theorem goesBy_history {L : Library} (hV : Honest L.V) {c : AgentConfig} {xs : List Start} (hxs : ∀ x ∈ xs, x.Decoded) {dev : Device}
    (h : Session.recovered (manager dev) = some (Session.docOf c)) : ∀ e ∈ history L xs dev, GoesBy e c := by
  induction xs with
  | nil => exact fun e he => absurd he List.not_mem_nil
  | cons x xs ih =>
    obtain ⟨hx, hxs⟩ := List.forall_mem_cons.mp hxs
    have hgoes := goesBy_of_resumes hV hx h
    have hdevice : (x.perform L dev).device = dev := hgoes.2.2
    refine List.forall_mem_cons.mpr ⟨hgoes, ?_⟩
    rw [hdevice]
    exact ih hxs

/-- **Onboarding.** In whatever order a device is started, with whatever keys, answers and crashes: every start keeps to what is
promised of one, and once a start has written its identity to the end, every later one goes by this identity, with no word to
Control and the device as it is. -/
theorem onboarding {L : Library} (hV : Honest L.V) (xs : List Start) (hxs : ∀ x ∈ xs, x.Decoded) (dev : Device) :
    (∀ e ∈ history L xs dev, Laws L.V e) ∧ (history L xs dev).Pairwise fun a b => ∀ c, Settles a c → GoesBy b c := by
  induction xs generalizing dev with
  | nil => exact ⟨fun e he => absurd he List.not_mem_nil, List.Pairwise.nil⟩
  | cons x xs ih =>
    obtain ⟨hx, hxs⟩ := List.forall_mem_cons.mp hxs
    obtain ⟨hlaws, hpairwise⟩ := ih hxs (x.perform L dev).device
    refine ⟨List.forall_mem_cons.mpr ⟨laws_perform hV hx dev, hlaws⟩, List.Pairwise.cons (fun b hb c hc => ?_) hpairwise⟩
    exact goesBy_history hV hxs (recovered_of_settles hV hx hc) b hb

/-! ### The strict validator -/

section Strict

open Strict (field)

theorem field_cases {α : Type} {k : String} {d : Option α} {f : Json → Option α} {j : Json} {a : α} (h : field k d f j = some a) :
    d = some a ∨ ∃ v, j.get? k = some v ∧ f v = some a := by
  unfold field at h
  cases hk : j.get? k with
  | none =>
    rw [hk] at h
    exact Or.inl h
  | some v =>
    rw [hk] at h
    exact Or.inr ⟨v, rfl, h⟩

theorem field_of_get? {α : Type} {k : String} {d : Option α} {f : Json → Option α} {j v : Json} (h : j.get? k = some v) :
    field k d f j = f v := by
  unfold field
  rw [h]

theorem mem_mapM {α : Type} {f : Json → Option α} : ∀ {js : List Json} {l : List α}, js.mapM f = some l → ∀ a ∈ l, ∃ j ∈ js, f j = some a
  | [], _, h => by
    rw [List.mapM_nil] at h
    obtain rfl := Option.some.inj h
    exact fun a ha => absurd ha List.not_mem_nil
  | j :: js, _, h => by
    rw [List.mapM_cons] at h
    obtain ⟨b, hb, h⟩ := Option.bind_eq_some_iff.mp h
    obtain ⟨l, hl, h⟩ := Option.bind_eq_some_iff.mp h
    obtain rfl := Option.some.inj h
    refine List.forall_mem_cons.mpr ⟨⟨j, List.mem_cons_self, hb⟩, fun a ha => ?_⟩
    obtain ⟨j', hj', ha⟩ := mem_mapM hl a ha
    exact ⟨j', List.mem_cons_of_mem _ hj', ha⟩

theorem mapM_map {α : Type} {f : Json → Option α} {g : α → Json} (h : ∀ a, f (g a) = some a) : ∀ l : List α, (l.map g).mapM f = some l
  | [] => rfl
  | a :: l => by
    rw [List.map_cons, List.mapM_cons, h, mapM_map h l]
    rfl

theorem nullable_dumpOpt {α : Type} {f : Json → Option α} {g : α → Json} (h : ∀ a, f (g a) = some a) (hnull : ∀ a, g a ≠ .null) (x : Option α) :
    Strict.nullable f (dumpOpt g x) = some x := by
  cases x with
  | none => rfl
  | some a =>
    show Strict.nullable f (g a) = _
    unfold Strict.nullable
    split
    · rename_i heq
      exact absurd heq (hnull a)
    · rw [h a]
      rfl

/-- What is read of a list has been read of its items, as dictionaries of distinct keys as it. -/
theorem mem_list {α : Type} {f : Json → Option α} {v : Json} {l : List α} (hv : Proper v) (h : Strict.list f v = some l) :
    ∀ a ∈ l, ∃ j, Proper j ∧ f j = some a := by
  cases v with
  | arr js =>
    intro a ha
    obtain ⟨j, hj, hja⟩ := mem_mapM h a ha
    exact ⟨j, JsonText.properItems_iff.mp hv j hj, hja⟩
  | _ => cases h

theorem mem_nullable {α : Type} {f : Json → Option α} {v : Json} {x : Option α} (h : Strict.nullable f v = some x) :
    ∀ a ∈ x, f v = some a := by
  unfold Strict.nullable at h
  split at h
  · obtain rfl := Option.some.inj h
    exact nofun
  · obtain ⟨a, ha, rfl⟩ := Option.map_eq_some_iff.mp h
    intro b hb
    obtain rfl := Option.some.inj hb
    exact ha

theorem properMembers_args {j : Json} (hj : Proper j) {d : Dict String Json} (h : field "args" (some .empty) Strict.dict j = some d) :
    ProperMembers d.entries := by
  obtain hd | ⟨v, hv, hd⟩ := field_cases h
  · obtain rfl := Option.some.inj hd
    trivial
  · cases v with
    | obj l =>
      obtain rfl := Option.some.inj hd
      exact JsonText.properMembers_ofList (JsonText.proper_get? hj hv).2
    | _ => cases hd

theorem properMembers_genericConfig {j : Json} (hj : Proper j) {g : GenericConfig} (h : Strict.genericConfig j = some g) :
    ProperMembers g.args.entries := by
  obtain ⟨type, -, h⟩ := Option.bind_eq_some_iff.mp h
  obtain ⟨args, hargs, h⟩ := Option.bind_eq_some_iff.mp h
  obtain rfl := Option.some.inj h
  exact properMembers_args hj hargs

theorem properMembers_handlers {j : Json} (hj : Proper j) {l : List GenericConfig}
    (h : field "handlers" (some []) (Strict.list Strict.genericConfig) j = some l) : ∀ g ∈ l, ProperMembers g.args.entries := by
  intro g hg
  obtain hl | ⟨v, hv, hl⟩ := field_cases h
  · obtain rfl := Option.some.inj hl
    exact absurd hg List.not_mem_nil
  · obtain ⟨j', hj', hread⟩ := mem_list (JsonText.proper_get? hj hv) hl g hg
    exact properMembers_genericConfig hj' hread

theorem tidy_transport {j : Json} (hj : Proper j) {x : Option TransportConfig}
    (h : field "transport" (some none) (Strict.nullable Strict.transportConfig) j = some x) : ∀ t ∈ x, ProperMembers t.args.entries := by
  intro t ht
  obtain hx | ⟨v, hv, hx⟩ := field_cases h
  · obtain rfl := Option.some.inj hx
    cases ht
  · obtain ⟨type, -, hread⟩ := Option.bind_eq_some_iff.mp (mem_nullable hx t ht)
    obtain ⟨args, hargs, hread⟩ := Option.bind_eq_some_iff.mp hread
    obtain rfl := Option.some.inj hread
    exact properMembers_args (JsonText.proper_get? hj hv) hargs

theorem tidy_logging {j : Json} (hj : Proper j) {x : LoggingConfig}
    (h : field "logging" (some ⟨.info, []⟩) Strict.loggingConfig j = some x) : ∀ g ∈ x.handlers, ProperMembers g.args.entries := by
  obtain hx | ⟨v, hv, hx⟩ := field_cases h
  · obtain rfl := Option.some.inj hx
    exact fun g hg => absurd hg List.not_mem_nil
  · obtain ⟨-, -, hx⟩ := Option.bind_eq_some_iff.mp hx
    obtain ⟨level, -, hx⟩ := Option.bind_eq_some_iff.mp hx
    obtain ⟨handlers, hhandlers, hx⟩ := Option.bind_eq_some_iff.mp hx
    obtain rfl := Option.some.inj hx
    exact properMembers_handlers (JsonText.proper_get? hj hv) hhandlers

theorem tidy_reporting {j : Json} (hj : Proper j) {x : ReportingConfig}
    (h : field "reporting" (some ⟨30, by decide, []⟩) Strict.reportingConfig j = some x) :
    ∀ g ∈ x.handlers, ProperMembers g.args.entries := by
  obtain hx | ⟨v, hv, hx⟩ := field_cases h
  · obtain rfl := Option.some.inj hx
    exact fun g hg => absurd hg List.not_mem_nil
  · obtain ⟨-, -, hx⟩ := Option.bind_eq_some_iff.mp hx
    obtain ⟨n, -, hx⟩ := Option.bind_eq_some_iff.mp hx
    obtain ⟨handlers, hhandlers, hx⟩ := Option.bind_eq_some_iff.mp hx
    obtain rfl := Option.some.inj hx
    exact properMembers_handlers (JsonText.proper_get? hj hv) hhandlers

theorem tidy_pipelineConfig {j : Json} (hj : Proper j) {p : PipelineConfig} (h : Strict.pipelineConfig j = some p) :
    ProperMembers p.source.args.entries ∧ ∀ g ∈ p.sink, ProperMembers g.args.entries := by
  obtain ⟨id, -, h⟩ := Option.bind_eq_some_iff.mp h
  obtain ⟨active, -, h⟩ := Option.bind_eq_some_iff.mp h
  obtain ⟨source, hsource, h⟩ := Option.bind_eq_some_iff.mp h
  obtain ⟨sink, hsink, h⟩ := Option.bind_eq_some_iff.mp h
  obtain rfl := Option.some.inj h
  constructor
  · obtain hnone | ⟨v, hv, hread⟩ := field_cases hsource
    · cases hnone
    · exact properMembers_genericConfig (JsonText.proper_get? hj hv) hread
  · intro g hg
    obtain hnone | ⟨v, hv, hread⟩ := field_cases hsink
    · obtain rfl := Option.some.inj hnone
      cases hg
    · exact properMembers_genericConfig (JsonText.proper_get? hj hv) (mem_nullable hread g hg)

theorem tidy_pipelines {j : Json} (hj : Proper j) {l : List PipelineConfig}
    (h : field "pipelines" (some []) (Strict.list Strict.pipelineConfig) j = some l) :
    ∀ p ∈ l, ProperMembers p.source.args.entries ∧ ∀ g ∈ p.sink, ProperMembers g.args.entries := by
  intro p hp
  obtain hl | ⟨v, hv, hl⟩ := field_cases h
  · obtain rfl := Option.some.inj hl
    exact absurd hp List.not_mem_nil
  · obtain ⟨j', hj', hread⟩ := mem_list (JsonText.proper_get? hj hv) hl p hp
    exact tidy_pipelineConfig hj' hread

theorem identityConfig_modelDump (c : IdentityConfig) : Strict.identityConfig c.modelDump = some c := by
  have hstr : ∀ x : Option String, Strict.nullable Strict.str (dumpOpt .str x) = some x :=
    nullable_dumpOpt (fun _ => rfl) fun _ => Json.noConfusion
  simp [Strict.identityConfig, IdentityConfig.modelDump, field, Json.get?, List.lookup_cons, Strict.str, hstr]

theorem transportConfig_modelDump (c : TransportConfig) : Strict.transportConfig c.modelDump = some c := by
  have htype : ∀ t : TransportType, Strict.transportType (.str t.text) = some t := fun t => by cases t <;> rfl
  simp [Strict.transportConfig, TransportConfig.modelDump, field, Json.get?, List.lookup_cons, htype, Strict.dict, Json.ofDict]

theorem handlers_modelDump (l : List GenericConfig) : Strict.list Strict.genericConfig (.arr (l.map GenericConfig.modelDump)) = some l :=
  mapM_map Strict.genericConfig_modelDump l

theorem loggingConfig_modelDump (c : LoggingConfig) : Strict.loggingConfig c.modelDump = some c := by
  have hlevel : ∀ l : LogLevel, Strict.logLevel (.str l.text) = some l := fun l => by cases l <;> decide
  simp [Strict.loggingConfig, LoggingConfig.modelDump, field, Json.get?, List.lookup_cons, hlevel, handlers_modelDump, Strict.dict]

theorem reportingConfig_modelDump (c : ReportingConfig) : Strict.reportingConfig c.modelDump = some c := by
  have hinterval : Strict.interval (.int c.interval) = some ⟨c.interval, c.pos⟩ := by
    show (if h : 1 ≤ c.interval then some (⟨c.interval, h⟩ : { n : ℕ // 1 ≤ n }) else none) = _
    rw [dif_pos c.pos]
  simp [Strict.reportingConfig, ReportingConfig.modelDump, field, Json.get?, List.lookup_cons, hinterval, handlers_modelDump, Strict.dict]

/-- What is dumped of a config validates as that config. -/
theorem agentConfig_modelDump (c : AgentConfig) : Strict.agentConfig c.modelDump = some c := by
  have htransport : Strict.nullable Strict.transportConfig (dumpOpt TransportConfig.modelDump c.transport) = some c.transport :=
    nullable_dumpOpt transportConfig_modelDump (fun _ => Json.noConfusion) _
  have hpipelines : Strict.list Strict.pipelineConfig (.arr (c.pipelines.map PipelineConfig.modelDump)) = some c.pipelines :=
    mapM_map Strict.pipelineConfig_modelDump c.pipelines
  simp [Strict.agentConfig, AgentConfig.modelDump, field, Json.get?, List.lookup_cons, Strict.float, identityConfig_modelDump,
    htransport, loggingConfig_modelDump, reportingConfig_modelDump, hpipelines]

theorem str_eq {j : Json} {s : String} (h : Strict.str j = some s) : j = .str s := by
  cases j with
  | str t => exact congrArg Json.str (Option.some.inj h)
  | _ => cases h

theorem nullable_str_eq {j : Json} {x : Option String} (h : Strict.nullable Strict.str j = some x) : j = dumpOpt .str x := by
  cases x with
  | none =>
    cases j with
    | null => rfl
    | str s => cases h
    | _ => cases h
  | some s => exact str_eq (mem_nullable h s rfl)

theorem honest_strict : Honest Validator.strict := by
  constructor
  · intro j a b k u c h hidentity
    obtain ⟨version, -, h⟩ := Option.bind_eq_some_iff.mp h
    obtain ⟨identity, hread, h⟩ := Option.bind_eq_some_iff.mp h
    simp only [Option.bind_eq_bind, Option.bind_eq_some_iff, Option.pure_def, Option.some.injEq] at h
    obtain ⟨_, -, _, -, _, -, _, -, rfl⟩ := h
    rw [field_of_get? hidentity] at hread
    simp only [Strict.identityConfig, identityOf, field, Json.get?, List.lookup_cons, List.lookup_nil, Option.bind_eq_bind,
      Option.bind_eq_some_iff, Option.pure_def, Option.some.injEq] at hread
    obtain ⟨deviceId, hdevice, deviceName, -, apiUrl, hurl, apiKey, hkey, rfl⟩ := hread
    exact ⟨str_eq hdevice, nullable_str_eq hkey, (Option.some.inj hurl).symm⟩
  · intro j v c h hv heq
    obtain ⟨version, hversion, h⟩ := Option.bind_eq_some_iff.mp h
    simp only [Option.bind_eq_bind, Option.bind_eq_some_iff, Option.pure_def, Option.some.injEq] at h
    obtain ⟨_, -, _, -, _, -, _, -, _, -, rfl⟩ := h
    rw [field_of_get? hv] at hversion
    cases v with
    | float x =>
      obtain rfl := Option.some.inj hversion
      exact heq
    | int n =>
      have hwhole : (SCHEMA_VERSION.value).den ≠ 1 := by decide +kernel
      have hvalue : (n : ℚ) = SCHEMA_VERSION.value := by simpa [Json.eq, Json.canon] using heq
      rw [← hvalue] at hwhole
      exact absurd (Rat.den_intCast n) hwhole
    | _ => cases hversion
  · intro j c hj h
    obtain ⟨version, -, h⟩ := Option.bind_eq_some_iff.mp h
    simp only [Option.bind_eq_bind, Option.bind_eq_some_iff, Option.pure_def, Option.some.injEq] at h
    obtain ⟨identity, -, transport, htransport, logging, hlogging, reporting, hreporting, pipelines, hpipelines, rfl⟩ := h
    exact Tidy.proper ⟨tidy_transport hj htransport, tidy_logging hj hlogging, tidy_reporting hj hreporting, tidy_pipelines hj hpipelines⟩
  · exact agentConfig_modelDump

end Strict

/-! ### A device that is registered, and started again -/

def library : Library := ⟨.strict, fun _ => "Expecting value", fun _ _ _ => "validation error"⟩

/-- The installer registers with a key; Control is busy once, and then grants an identity. -/
def registering : Start where
  command := .register
  registrationKey := "key"
  fleetKey := ""
  apiUrl := "https://api.loc.ai/api/v1"
  machine := ⟨"", "Linux", "x86_64", "host", some "user", ""⟩
  keyFile path := (path, .osError "No such file or directory")
  doRequest n := .response (if n = 1 then ⟨503, none, none, ""⟩ else
    ⟨200, none, some (.obj [("device_id", .str "d1"), ("api_key", .str "k1")]), ""⟩)
  draw _ := ⟨0, le_rfl, zero_le_one⟩
  zone _ := 0
  clock := 0
  reach := .upTo 100000
  marks := true
  defaults := .error "no config"

/-- The service is started without a key, and cannot reach Control. -/
def restarting : Start := { registering with command := .run, registrationKey := "", doRequest := fun _ => .networkError "unreachable", clock := 60 }

def bare : Device := ⟨.empty, false⟩

theorem onboarding_registered :
    ((∀ e ∈ history library [registering, restarting] bare, Laws Validator.strict e) ∧
      (history library [registering, restarting] bare).Pairwise fun a b => ∀ c, Settles a c → GoesBy b c) ∧
    (history library [registering, restarting] bare).map (fun e => e.done.asked.length) = [2, 0] := by
  refine ⟨onboarding (L := library) honest_strict [registering, restarting] ?_ bare, by decide +kernel⟩
  refine List.forall_mem_cons.mpr ⟨fun n resp body h hjson => ?_, List.forall_mem_singleton.mpr fun n resp body h => nomatch h⟩
  have hkeys : ["device_id", "api_key"].Nodup := by decide
  obtain rfl := Outcome.response.inj h
  split_ifs at hjson
  obtain rfl := Option.some.inj hjson
  exact ⟨hkeys, trivial, trivial, trivial⟩

end Enrolment
end LocaiLink
