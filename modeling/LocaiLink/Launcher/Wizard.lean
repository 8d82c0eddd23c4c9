/-
# The setup wizard

`SetupApp.svelte` over the commands of `setup.rs`: sign in, choose models, and `completeSetup`, which wipes an old device where
that was asked for, mints a key, registers the device, writes its config, sets up the services and deploys the models. Whatever
is clicked, answered or lost in whatever order, and however often it is tried again (`one_registration`), the device is
registered once: up to then nothing is written or deployed, and from then on every config and every deploy is that device's,
nothing is wiped and no key is asked for. The bearer of every request is a token that was granted in the window.
-/
import LocaiLink.Launcher.Setup
import LocaiLink.Launcher.SignIn

namespace LocaiLink
namespace Wizard

open SignIn (Reply Wording Log SignedIn requireToken describeUreqErr member)

/-! ### The commands of the app -/

structure RegisteredDevice where
  deviceId : String
  apiKey : String
  config : Json

/-- A text of an answer that is an object. -/
def textOf (key : String) (body : Json) : Option String :=
  match member key body with
  | some (.str s) => some s
  | _ => none

/-- What a command makes of an answer: a body that is JSON is read, and a failure told. -/
def readReply {α : Type} (w : Wording) (op malformed : String) (read : Json → Except String α) : Reply → Except String α
  | .ok (some body) => read body
  | .ok none => .error s!"{malformed} response malformed: {w.serde none}"
  | r => .error ((describeUreqErr op r).getD "")

def required (key : String) (missing : String) (body : Json) : Except String String :=
  match textOf key body with
  | some s => .ok s
  | none => .error s!"{missing} missing from response"

/-- `mint_registration_key` on its answer. -/
def mintReply (w : Wording) : Reply → Except String String :=
  readReply w "registration-keys mint" "registration-keys" (required "registration_key" "registration_key")

/-- `register_device` on its answer. -/
def registerReply (w : Wording) : Reply → Except String RegisteredDevice :=
  readReply w "register-with-key" "register-with-key" fun body => do
    let deviceId ← required "device_id" "device_id" body
    let apiKey ← required "api_key" "api_key" body
    pure ⟨deviceId, apiKey, (member "config" body).getD .null⟩

/-- `deploy_model` on its answer. -/
def deployReply (w : Wording) : Reply → Except String String :=
  readReply w "deploy_model" "deploy_model" (required "id" "deployment id")

/-- The config that `install_agent_config` writes: the markers of the identity are filled in. -/
def sessionConfig (config : Json) : Json :=
  Launcher.Setup.resolveConfigTemplates (.obj [("identity", (member "identity" config).getD .null)]) config

/-! ### The page -/

inductive Phase
  | minting
  | registering
  | writing
  | deploying

inductive Finish
  | idle
  | minting
  | registering
  | writing (d : RegisteredDevice)
  | bootstrapping (d : RegisteredDevice)
  | deploying (d : RegisteredDevice) (done total : ℕ)
  | done (deviceId : String) (configPath : String) (deployedCount : ℕ)
  | error (message : String) (registered : Option RegisteredDevice) (phase : Option Phase)

/-- A deploy: invoked, sent with a token, or settled. -/
inductive Deploy
  | invoked
  | sent
  | settled (r : Except String String)

/-- Where a run of `completeSetup` waits, with what it has: for each command that needs a token, whether it is sent. -/
inductive Point
  | reRegister (oldDeviceId : String) (sent : Bool)
  | mint (sent : Bool)
  | name (key : String)
  | register (key name : String) (sent : Bool)
  | install (d : RegisteredDevice)
  | agents (d : RegisteredDevice) (path : String)
  | marks (d : RegisteredDevice) (path : String) (models : List String) (left : ℕ)
  | ready (d : RegisteredDevice) (path : String) (models : List String)
  | deploys (d : RegisteredDevice) (path : String) (calls : List (String × Deploy))

inductive Mode
  | splash
  | wizard

inductive Confirming
  | none
  | reRegister
  | uninstall

/-- The sign-in, the page, and the runs of `completeSetup`. `installed` is the device that was found when the page was opened;
`selected` are the models that are offered and chosen. -/
structure State where
  desk : SignIn.State
  installed : Option String
  mode : Mode
  confirming : Confirming
  current : ℕ
  pendingReRegister : Option String
  selected : List String
  finish : Finish
  runs : List Point

/-- The last of `STEPS`. -/
def lastStep : ℕ := 3

/-- `runBootstrapCheck`: a device that is there is shown first. -/
def State.start (deviceId : Option String) : State :=
  let installed := deviceId.filter (· ≠ "")
  ⟨.start, installed, if installed.isSome then .splash else .wizard, .none, 0, none, [], .idle, []⟩

/-- What the page shows is the wizard. -/
def State.wizardShown (s : State) : Bool :=
  match s.mode with
  | .wizard => true
  | .splash => s.installed.isNone

/-- What was done outside the page, the last first. -/
inductive Effect
  | deletes (oldDeviceId token : String)
  | wipes
  | mints (token : String)
  | registers (key name token : String)
  | registered (d : RegisteredDevice)
  | configures (d : RegisteredDevice) (config : Json)
  | chooses (d : RegisteredDevice) (models : List String)
  | deploys (deviceId model token : String)
  | deployed (deviceId model : String)
  | starts

/-- The bearer of a request. -/
def Effect.token : Effect → Option String
  | .deletes _ token | .mints token | .registers _ _ token | .deploys _ _ token => some token
  | _ => none

/-- What the page and the app are in, with what Control has given out and what was done. -/
structure World where
  state : State
  log : Log
  effects : List Effect

def contains (s pattern : String) : Bool := decide (pattern.toList <:+: s.toList)

/-- `friendlyRegisterError` -/
def friendlyRegisterError (raw : String) : String :=
  let s := String.ofList (Text.lower raw.toList)
  if contains s "too many requests" || contains s "rate limit" || contains s "429" then
    "Too many attempts right now. Wait a moment, then try again."
  else if contains s "device" && (contains s "limit" || contains s "maximum" || contains s "quota" || contains s "too many") then
    "You've reached the maximum number of registered devices. Remove a device from your Locai dashboard, then try again."
  else "We couldn't register this device. Check your connection and try again."

/-! ### `completeSetup` -/

/-- The button is there before the first run, and after one that failed. -/
def State.completeSetup (s : State) : Option State :=
  if s.wizardShown && s.current = lastStep then
    match s.finish, s.pendingReRegister with
    | .error _ (some d) _, _ => some { s with finish := .writing d, runs := s.runs ++ [.install d] }
    | .error _ none _, some old | .idle, some old => some { s with finish := .minting, runs := s.runs ++ [.reRegister old false] }
    | .error _ none _, none | .idle, none => some { s with finish := .minting, runs := s.runs ++ [.mint false] }
    | _, _ => none
  else none

/-- A run ends with an error. -/
def State.fails (s : State) (i : ℕ) (message : String) (registered : Option RegisteredDevice) (phase : Option Phase) : State :=
  { s with finish := .error message registered phase, runs := s.runs.eraseIdx i }

def State.goesOn (s : State) (i : ℕ) (finish : Finish) (p : Point) : State :=
  { s with finish := finish, runs := s.runs.set i p }

/-- A command reads the token and sends its request; without a token it fails. -/
def sends (s : State) (i : ℕ) : Option (State × List Effect) :=
  match s.runs[i]? with
  | some (.reRegister old false) =>
    match requireToken s.desk.session with
    | .ok token => some (s.goesOn i s.finish (.reRegister old true), if old = "" then [] else [.deletes old token])
    | .error _ => some (s.goesOn i s.finish (.reRegister old true), [])
  | some (.mint false) =>
    match requireToken s.desk.session with
    | .ok token => some (s.goesOn i s.finish (.mint true), [.mints token])
    | .error e => some (s.fails i (friendlyRegisterError e) none (some .minting), [])
  | some (.register key name false) =>
    match requireToken s.desk.session with
    | .ok token => some (s.goesOn i s.finish (.register key name true), [.registers key name token])
    | .error e => some (s.fails i (friendlyRegisterError e) none (some .registering), [])
  | _ => none

/-- A request to Control is answered. -/
def replies (w : Wording) (s : State) (i : ℕ) (r : Reply) : Option (State × List Effect) :=
  match s.runs[i]? with
  | some (.mint true) =>
    match mintReply w r with
    | .ok key => some (s.goesOn i s.finish (.name key), [])
    | .error e => some (s.fails i (friendlyRegisterError e) none (some .minting), [])
  | some (.register _ _ true) =>
    match registerReply w r with
    | .ok d => some (s.goesOn i (.writing d) (.install d), [.registered d])
    | .error e => some (s.fails i (friendlyRegisterError e) none (some .registering), [])
  | _ => none

/-- A command of the app is done, with a text or an error; an error of `install_agent_config` may have come after the config was
written. `suggest_device_name` cannot fail, but the page has a branch for it. -/
def returns (s : State) (i : ℕ) (wrote : Bool) (r : Except String String) : Option (State × List Effect) :=
  match s.runs[i]? with
  | some (.reRegister _ true) =>
    match r with
    | .ok _ => some ({ s with pendingReRegister := none }.goesOn i .minting (.mint false), [.wipes])
    | .error e => some (s.fails i s!"Re-register cleanup failed: {e}" none none, [.wipes])
  | some (.name key) =>
    match r with
    | .ok name => some (s.goesOn i .registering (.register key name false), [])
    | .error e => some (s.fails i e none (some .registering), [])
  | some (.install d) =>
    match d.config, r with
    | .null, _ => some (s.fails i "config from register_device was null — nothing to write" (some d) (some .writing), [])
    | config, .ok path => some (s.goesOn i (.bootstrapping d) (.agents d path), [.configures d (sessionConfig config)])
    | config, .error e =>
      some (s.fails i e (some d) (some .writing), if wrote then [.configures d (sessionConfig config)] else [])
  | some (.agents d path) =>
    some (s.goesOn i (.deploying d 0 s.selected.length) (.marks d path s.selected s.selected.length), [.chooses d s.selected])
  | some (.marks d path models left) =>
    if left ≤ 1 then some (s.goesOn i s.finish (.ready d path models), [])
    else some (s.goesOn i s.finish (.marks d path models (left - 1)), [])
  | some (.ready d path models) => some (s.goesOn i s.finish (.deploys d path (models.map fun m => (m, .invoked))), [])
  | _ => none

/-! ### The deploys -/

/-- One more is counted, while it is shown. -/
def Finish.counted : Finish → Finish
  | .deploying d count total => .deploying d (count + 1) total
  | f => f

/-- One of the deploys reads the token and sends its request. -/
def sendsDeploy (s : State) (i k : ℕ) : Option (State × List Effect) :=
  match s.runs[i]? with
  | some (.deploys d path calls) =>
    match calls[k]? with
    | some (model, .invoked) =>
      match requireToken s.desk.session with
      | .ok token => some (s.goesOn i s.finish (.deploys d path (calls.set k (model, .sent))), [.deploys d.deviceId model token])
      | .error e => some (s.goesOn i s.finish.counted (.deploys d path (calls.set k (model, .settled (.error e)))), [])
    | _ => none
  | _ => none

/-- One of them is answered. -/
def repliesDeploy (w : Wording) (s : State) (i k : ℕ) (r : Reply) : Option (State × List Effect) :=
  match s.runs[i]? with
  | some (.deploys d path calls) =>
    match calls[k]? with
    | some (model, .sent) =>
      let result := deployReply w r
      some (s.goesOn i s.finish.counted (.deploys d path (calls.set k (model, .settled result))),
        match result with
        | .ok _ => [.deployed d.deviceId model]
        | .error _ => [])
    | _ => none
  | _ => none

def Deploy.isSettled : Deploy → Bool
  | .settled _ => true
  | _ => false

def Deploy.failure : Deploy → Option String
  | .settled (.error e) => some e
  | _ => none

/-- They have all settled: `completeSetup` is over. -/
def settles (s : State) (i : ℕ) : Option State :=
  match s.runs[i]? with
  | some (.deploys d path calls) =>
    if calls.all fun c => c.2.isSettled then
      match calls.filterMap fun c => c.2.failure with
      | [] => some { s with finish := .done d.deviceId path calls.length, runs := s.runs.eraseIdx i }
      | first :: rest => some (s.fails i s!"Deploy failed for {rest.length + 1} of {calls.length} models: {first}" (some d) (some .deploying))
    else none
  | _ => none

/-! ### Runs -/

inductive Event
  | desk (e : SignIn.Event)
  | startReRegister
  | cancelConfirm
  | startUninstall
  | confirmReRegister
  | next
  | back
  | selects (models : List String)
  | completeSetup
  | sends (i : ℕ)
  | replies (i : ℕ) (r : Reply)
  | returns (i : ℕ) (wrote : Bool) (r : Except String String)
  | sendsDeploy (i k : ℕ)
  | repliesDeploy (i k : ℕ) (r : Reply)
  | settles (i : ℕ)
  | completeOnboarding

/-- The next step may be gone to: the first asks for a sign-in. -/
def State.canContinue (s : State) : Bool :=
  if s.current = 0 then
    match s.desk.signIn with
    | .approved _ _ => true
    | _ => false
  else s.current < lastStep

/-- The button to sign in is on the first step. -/
def State.offers (s : State) : SignIn.Event → Bool
  | .click => s.wizardShown && s.current = 0
  | _ => true

/-- The clicks that change nothing but the page. -/
def State.clicks (s : State) : Event → Option State
  | .startReRegister => some { s with mode := .splash, confirming := .reRegister }
  | .cancelConfirm => some { s with confirming := .none }
  | .startUninstall => some { s with confirming := .uninstall }
  | .confirmReRegister => s.installed.map fun deviceId =>
      { s with pendingReRegister := some deviceId, confirming := .none, mode := .wizard }
  | .next => if s.wizardShown && s.canContinue then some { s with current := s.current + 1 } else none
  | .back => if s.wizardShown then some { s with current := s.current - 1 } else none
  | .selects models => some { s with selected := models }
  | _ => none

/-- `completeOnboarding`: the button is on the last step, after the run that succeeded. -/
def State.completes (s : State) : Option (State × List Effect) :=
  match s.finish with
  | .done _ _ _ => if s.wizardShown && s.current = lastStep then some (s, [.starts]) else none
  | _ => none

/-- What an event does to the page and outside of it. -/
def State.step (w : Wording) (s : State) : Event → Option (State × List Effect)
  | .desk _ => none
  | .completeSetup => s.completeSetup.map (·, [])
  | .sends i => sends s i
  | .replies i r => replies w s i r
  | .returns i wrote r => returns s i wrote r
  | .sendsDeploy i k => sendsDeploy s i k
  | .repliesDeploy i k r => repliesDeploy w s i k r
  | .settles i => (settles s i).map (·, [])
  | .completeOnboarding => s.completes
  | e => (s.clicks e).map (·, [])

/-- What cannot happen does not. -/
def next (w : Wording) (x : World) : Event → World
  | .desk e =>
    if x.state.offers e then
      let desk := SignIn.next w (x.state.desk, x.log) e
      { x with state := { x.state with desk := desk.1 }, log := desk.2 }
    else x
  | e =>
    match x.state.step w e with
    | some (s, effects) => { x with state := s, effects := effects ++ x.effects }
    | none => x

def run (w : Wording) (deviceId : Option String) (es : List Event) : World :=
  es.foldl (next w) ⟨.start deviceId, .empty, []⟩

/-! ### What holds in every run -/

/-- What may be done before a device is registered. -/
def Before : Effect → Prop
  | .deletes _ _ | .wipes | .mints _ | .registers _ _ _ => True
  | _ => False

/-- What may be done once it is: all that is for a device is for this one. -/
def After (d : RegisteredDevice) : Effect → Prop
  | .configures d' config => d' = d ∧ config = sessionConfig d.config
  | .chooses d' _ => d' = d
  | .deploys deviceId _ _ | .deployed deviceId _ => deviceId = d.deviceId
  | .starts => True
  | _ => False

/-- The order of all that was done: up to one registration, if any, and after it. -/
inductive Course : Option RegisteredDevice → List Effect → Prop
  | before {pre : List Effect} (hpre : ∀ e ∈ pre, Before e) : Course none pre
  | after {d : RegisteredDevice} {post pre : List Effect} (hpost : ∀ e ∈ post, After d e) (hpre : ∀ e ∈ pre, Before e) :
      Course (some d) (post ++ .registered d :: pre)

/-- The config of a device was written. -/
def Written (d : RegisteredDevice) (l : List Effect) : Prop := .configures d (sessionConfig d.config) ∈ l

def Finish.busy : Finish → Bool
  | .minting | .registering | .writing _ | .bootstrapping _ | .deploying _ _ _ => true
  | _ => false

/-- What was done goes with what the last step shows. -/
def Finish.Shows (l : List Effect) : Finish → Prop
  | .idle | .minting | .registering => Course none l
  | .writing d => Course (some d) l
  | .bootstrapping d | .deploying d _ _ => Course (some d) l ∧ Written d l
  | .done deviceId _ count => ∃ d, d.deviceId = deviceId ∧ Course (some d) l ∧ Written d l ∧
      ∃ models, .chooses d models ∈ l ∧ models.length = count ∧ ∀ m ∈ models, .deployed deviceId m ∈ l
  | .error _ registered _ => Course registered l

/-- What a run has goes with what is shown, and with what was done. -/
def Point.Fits (finish : Finish) (l : List Effect) : Point → Prop
  | .reRegister _ _ | .mint _ | .name _ => finish = .minting
  | .register _ _ _ => finish = .registering
  | .install d => finish = .writing d
  | .agents d _ => finish = .bootstrapping d
  | .marks d _ models _ | .ready d _ models => finish = .deploying d 0 models.length ∧ .chooses d models ∈ l
  | .deploys d _ calls => finish = .deploying d (calls.countP fun c => c.2.isSettled) calls.length ∧
      .chooses d (calls.map Prod.fst) ∈ l ∧
      ∀ c ∈ calls, ∀ id, c.2 = .settled (.ok id) → .deployed d.deviceId c.1 ∈ l

def Approved (x : SignIn.Shown) : Prop := ∃ email username, x = .approved email username

/-- What holds of the wizard, whatever has happened. -/
structure Orderly (x : World) : Prop where
  desk : SignIn.Sound x.state.desk x.log
  /-- One run of `completeSetup` while it is shown, and none elsewhere. -/
  one : x.state.runs.length = if x.state.finish.busy then 1 else 0
  shows : x.state.finish.Shows x.effects
  fits : ∀ p ∈ x.state.runs, p.Fits x.state.finish x.effects
  /-- Beyond the first step somebody is signed in. -/
  gate : 0 < x.state.current ∨ x.state.finish ≠ .idle → Approved x.state.desk.signIn
  /-- Every request has a token that was granted. -/
  bearer : ∀ e ∈ x.effects, ∀ t, e.token = some t → t ≠ "" ∧ ∃ code token, (code, token) ∈ x.log.granted ∧ token.accessToken = t
  /-- The runtime is started again only over a config that was written. -/
  armed : ∀ post pre, x.effects = post ++ .starts :: pre → ∃ d, Written d pre

section Course

variable {d : RegisteredDevice} {l es : List Effect} {finish : Finish}

theorem Course.more (h : Course none l) (hes : ∀ e ∈ es, Before e) : Course none (es ++ l) := by
  cases h with
  | before hpre => exact .before fun e he => (List.mem_append.mp he).elim (hes e) (hpre e)

theorem Course.registered (h : Course none l) (d : RegisteredDevice) : Course (some d) (.registered d :: l) := by
  cases h with
  | before hpre =>
    have hnone : ∀ e ∈ ([] : List Effect), After d e := nofun
    exact .after hnone hpre

theorem Course.later (h : Course (some d) l) (hes : ∀ e ∈ es, After d e) : Course (some d) (es ++ l) := by
  cases h with
  | @after _ post pre hpost hpre =>
    have hall : ∀ e ∈ es ++ post, After d e := fun e he => (List.mem_append.mp he).elim (hes e) (hpost e)
    rw [← List.append_assoc]
    exact .after hall hpre

theorem Written.later (h : Written d l) : Written d (es ++ l) := List.mem_append_right _ h

end Course

section Orderly

variable {w : Wording} {x : World} {s' : State} {es : List Effect} {i k : ℕ} {p : Point} {d : RegisteredDevice} {finish : Finish}

theorem Orderly.single (h : Orderly x) (hp : x.state.runs[i]? = some p) :
    i = 0 ∧ x.state.runs = [p] ∧ x.state.finish.busy = true := by
  have hone := h.one
  have hlt : i < x.state.runs.length := (List.getElem?_eq_some_iff.mp hp).1
  have hbusy : x.state.finish.busy = true := by
    by_contra hnot
    rw [if_neg hnot] at hone
    omega
  rw [if_pos hbusy] at hone
  have hi : i = 0 := by omega
  obtain ⟨q, hq⟩ := List.length_eq_one_iff.mp hone
  rw [hq, hi, List.getElem?_cons_zero] at hp
  exact ⟨hi, by rw [hq, Option.some.inj hp], hbusy⟩

theorem Orderly.point_fits (h : Orderly x) (hp : x.state.runs[i]? = some p) : p.Fits x.state.finish x.effects :=
  h.fits p (List.mem_of_getElem? hp)

/-- The token of the session was granted. -/
theorem Orderly.token (h : Orderly x) {t : String} (ht : requireToken x.state.desk.session = .ok t) :
    t ≠ "" ∧ ∃ code token, (code, token) ∈ x.log.granted ∧ token.accessToken = t := by
  unfold requireToken at ht
  split at ht
  next u hu =>
    obtain ⟨y, hy, hyt⟩ := Option.bind_eq_some_iff.mp hu
    obtain rfl := Except.ok.inj ht
    obtain ⟨hne, token, hgranted, htoken⟩ := h.desk.held y u hy hyt
    exact ⟨hne, y.deviceCode, token, hgranted, htoken⟩
  next => cases ht

/-- A step that leaves the desk, and does nothing but what it has a token for. -/
theorem Orderly.moves (es : List Effect) (h : Orderly x) (hdesk : s'.desk = x.state.desk)
    (hgate : 0 < s'.current ∨ s'.finish ≠ .idle → 0 < x.state.current ∨ x.state.finish ≠ .idle)
    (hone : s'.runs.length = if s'.finish.busy then 1 else 0) (hshows : s'.finish.Shows (es ++ x.effects))
    (hfits : ∀ p ∈ s'.runs, p.Fits s'.finish (es ++ x.effects))
    (hbearer : ∀ e ∈ es, ∀ t, e.token = some t → requireToken x.state.desk.session = .ok t)
    (hstarts : .starts ∉ es) : Orderly { x with state := s', effects := es ++ x.effects } where
  desk := by
    show SignIn.Sound s'.desk x.log
    rw [hdesk]
    exact h.desk
  one := hone
  shows := hshows
  fits := hfits
  gate hg := by
    show Approved s'.desk.signIn
    rw [hdesk]
    exact h.gate (hgate hg)
  bearer e he t ht := (List.mem_append.mp he).elim (fun he => h.token (hbearer e he t ht)) fun he => h.bearer e he t ht
  armed post pre he := by
    rcases List.append_eq_append_iff.mp (he : es ++ x.effects = post ++ .starts :: pre) with ⟨rest, hpost, hrest⟩ | ⟨rest, hes, hrest⟩
    · exact h.armed rest pre hrest
    · cases rest with
      | nil => exact h.armed [] pre hrest.symm
      | cons e rest =>
        obtain ⟨rfl, -⟩ := List.cons.inj hrest
        exact absurd (hes ▸ List.mem_append_right _ List.mem_cons_self) hstarts

theorem Finish.ne_idle {f : Finish} (h : f.busy = true) : f ≠ .idle := by
  rintro rfl
  cases h

/-- The run goes on to the next point. -/
theorem Orderly.goesOn {q : Point} {pending : Option String} (h : Orderly x) (hp : x.state.runs[i]? = some p)
    (hbusy : finish.busy = true) (hshows : finish.Shows (es ++ x.effects)) (hfits : q.Fits finish (es ++ x.effects))
    (hbearer : ∀ e ∈ es, ∀ t, e.token = some t → requireToken x.state.desk.session = .ok t) (hstarts : .starts ∉ es) :
    Orderly { x with state := { x.state with pendingReRegister := pending }.goesOn i finish q, effects := es ++ x.effects } := by
  obtain ⟨rfl, hruns, hbusy'⟩ := h.single hp
  have hset : x.state.runs.set 0 q = [q] := by rw [hruns, List.set_cons_zero]
  refine h.moves es rfl (fun _ => .inr (Finish.ne_idle hbusy')) ?_ hshows (fun r hr => ?_) hbearer hstarts
  · show (x.state.runs.set 0 q).length = if finish.busy = true then 1 else 0
    rw [hset, if_pos hbusy]
    rfl
  · have hmem : r ∈ x.state.runs.set 0 q := hr
    rw [hset, List.mem_singleton] at hmem
    rw [hmem]
    exact hfits

/-- The run is over. -/
theorem Orderly.ends (es : List Effect) (h : Orderly x) (hp : x.state.runs[i]? = some p) (hrest : finish.busy = false)
    (hshows : finish.Shows (es ++ x.effects)) (hbearer : ∀ e ∈ es, e.token = none) (hstarts : .starts ∉ es) :
    Orderly { x with state := { x.state with finish := finish, runs := x.state.runs.eraseIdx i }, effects := es ++ x.effects } := by
  obtain ⟨rfl, hruns, hbusy⟩ := h.single hp
  have herase : x.state.runs.eraseIdx 0 = [] := by rw [hruns, List.eraseIdx_cons_zero]
  refine h.moves es rfl (fun _ => .inr (Finish.ne_idle hbusy)) ?_ hshows (fun r hr => ?_) (fun e he t ht => ?_) hstarts
  · show (x.state.runs.eraseIdx 0).length = if finish.busy = true then 1 else 0
    rw [herase, if_neg (by simp [hrest])]
    rfl
  · have hmem : r ∈ x.state.runs.eraseIdx 0 := hr
    rw [herase] at hmem
    cases hmem
  · rw [hbearer e he] at ht
    cases ht

/-- An error before there is a device. -/
theorem Orderly.fails {message : String} {phase : Option Phase} (h : Orderly x) (hp : x.state.runs[i]? = some p)
    (hcourse : Course none x.effects) (hes : ∀ e ∈ es, Before e) (hbearer : ∀ e ∈ es, e.token = none) :
    Orderly { x with state := x.state.fails i message none phase, effects := es ++ x.effects } :=
  h.ends es hp rfl (hcourse.more hes) hbearer fun hstarts => hes _ hstarts

/-- What is shown while there is no device yet. -/
def Finish.Unregistered (f : Finish) : Prop := f = .minting ∨ f = .registering

theorem Finish.Unregistered.course (h : finish.Unregistered) {l : List Effect} (hl : finish.Shows l) : Course none l := by
  rcases h with rfl | rfl
  · exact hl
  · exact hl

theorem Finish.Unregistered.shows (h : finish.Unregistered) {l : List Effect} (hl : Course none l) : finish.Shows l := by
  rcases h with rfl | rfl
  · exact hl
  · exact hl

/-- A request is sent before there is a device. -/
theorem Orderly.sent {q : Point} (h : Orderly x) (hp : x.state.runs[i]? = some p) (hf : x.state.finish.Unregistered)
    (hfits : q.Fits x.state.finish (es ++ x.effects)) (hes : ∀ e ∈ es, Before e)
    (hbearer : ∀ e ∈ es, ∀ t, e.token = some t → requireToken x.state.desk.session = .ok t) :
    Orderly { x with state := x.state.goesOn i x.state.finish q, effects := es ++ x.effects } :=
  h.goesOn hp (h.single hp).2.2 (hf.shows ((hf.course h.shows).more hes)) hfits hbearer fun hstarts => hes _ hstarts

theorem before_singleton {e : Effect} (he : Before e) : ∀ f ∈ [e], Before f := fun f hf => by rwa [List.mem_singleton.mp hf]

theorem bearer_singleton {e : Effect} {session : Option SignIn.Session} {token : String} (htoken : requireToken session = .ok token)
    (he : e.token = some token) : ∀ f ∈ [e], ∀ t, f.token = some t → requireToken session = .ok t := by
  intro f hf t ht
  rw [List.mem_singleton.mp hf, he] at ht
  rw [htoken, Option.some.inj ht]

/-- A command reads the token. -/
theorem Orderly.sends (h : Orderly x) (hs : Wizard.sends x.state i = some (s', es)) :
    Orderly { x with state := s', effects := es ++ x.effects } := by
  unfold Wizard.sends at hs
  split at hs
  next old hp =>
    have hminting : x.state.finish = .minting := h.point_fits hp
    split at hs
    next token htoken =>
      obtain ⟨rfl, rfl⟩ := Prod.mk.inj (Option.some.inj hs)
      split_ifs
      · exact h.sent hp (.inl hminting) hminting nofun nofun
      · exact h.sent hp (.inl hminting) hminting (before_singleton trivial) (bearer_singleton htoken rfl)
    next =>
      obtain ⟨rfl, rfl⟩ := Prod.mk.inj (Option.some.inj hs)
      exact h.sent hp (.inl hminting) hminting nofun nofun
  next hp =>
    have hminting : x.state.finish = .minting := h.point_fits hp
    split at hs
    next token htoken =>
      obtain ⟨rfl, rfl⟩ := Prod.mk.inj (Option.some.inj hs)
      exact h.sent hp (.inl hminting) hminting (before_singleton trivial) (bearer_singleton htoken rfl)
    next =>
      obtain ⟨rfl, rfl⟩ := Prod.mk.inj (Option.some.inj hs)
      exact h.fails hp (Finish.Unregistered.course (.inl hminting) h.shows) nofun nofun
  next key name hp =>
    have hregistering : x.state.finish = .registering := h.point_fits hp
    split at hs
    next token htoken =>
      obtain ⟨rfl, rfl⟩ := Prod.mk.inj (Option.some.inj hs)
      exact h.sent hp (.inr hregistering) hregistering (before_singleton trivial) (bearer_singleton htoken rfl)
    next =>
      obtain ⟨rfl, rfl⟩ := Prod.mk.inj (Option.some.inj hs)
      exact h.fails hp (Finish.Unregistered.course (.inr hregistering) h.shows) nofun nofun
  next => cases hs

/-- Control answers: with a device, this is the only one. -/
theorem Orderly.replies {r : Reply} (h : Orderly x) (hs : Wizard.replies w x.state i r = some (s', es)) :
    Orderly { x with state := s', effects := es ++ x.effects } := by
  unfold Wizard.replies at hs
  split at hs
  next hp =>
    have hminting : x.state.finish = .minting := h.point_fits hp
    split at hs
    next key _ =>
      obtain ⟨rfl, rfl⟩ := Prod.mk.inj (Option.some.inj hs)
      exact h.sent hp (.inl hminting) hminting nofun nofun
    next =>
      obtain ⟨rfl, rfl⟩ := Prod.mk.inj (Option.some.inj hs)
      exact h.fails hp (Finish.Unregistered.course (.inl hminting) h.shows) nofun nofun
  next key name hp =>
    have hregistering : x.state.finish = .registering := h.point_fits hp
    have hcourse := Finish.Unregistered.course (.inr hregistering) h.shows
    split at hs
    next d _ =>
      obtain ⟨rfl, rfl⟩ := Prod.mk.inj (Option.some.inj hs)
      refine h.goesOn hp rfl (hcourse.registered d) rfl (fun e he t ht => ?_) (by simp)
      rw [List.mem_singleton.mp he] at ht
      cases ht
    next =>
      obtain ⟨rfl, rfl⟩ := Prod.mk.inj (Option.some.inj hs)
      exact h.fails hp hcourse nofun nofun
  next => cases hs

/-- What is done for the device that there is. -/
theorem Orderly.serves {q : Point} (h : Orderly x) (hp : x.state.runs[i]? = some p) (hbusy : finish.busy = true)
    (hshows : finish.Shows (es ++ x.effects)) (hfits : q.Fits finish (es ++ x.effects)) (hbearer : ∀ e ∈ es, e.token = none)
    (hstarts : .starts ∉ es) : Orderly { x with state := x.state.goesOn i finish q, effects := es ++ x.effects } :=
  h.goesOn hp hbusy hshows hfits (fun e he t ht => by rw [hbearer e he] at ht; cases ht) hstarts

theorem after_singleton {e : Effect} (he : After d e) : ∀ f ∈ [e], After d f := fun f hf => by rwa [List.mem_singleton.mp hf]

theorem token_singleton {e : Effect} (he : e.token = none) : ∀ f ∈ [e], f.token = none := fun f hf => by rwa [List.mem_singleton.mp hf]

/-- The config of the device is written, or not. -/
theorem Orderly.installs {wrote : Bool} {r : Except String String} (h : Orderly x) (hp : x.state.runs[i]? = some (.install d))
    (hs : Wizard.returns x.state i wrote r = some (s', es)) : Orderly { x with state := s', effects := es ++ x.effects } := by
  have hwriting : x.state.finish = .writing d := h.point_fits hp
  have hcourse : Course (some d) x.effects := by simpa only [hwriting, Finish.Shows] using h.shows
  have hconfigured : ∀ e ∈ [Effect.configures d (sessionConfig d.config)], After d e := after_singleton ⟨rfl, rfl⟩
  have hfails (message : String) {es : List Effect} (hes : ∀ e ∈ es, After d e) (hbearer : ∀ e ∈ es, e.token = none)
      (hstarts : .starts ∉ es) :
      Orderly { x with state := x.state.fails i message (some d) (some .writing), effects := es ++ x.effects } :=
    h.ends es hp rfl (hcourse.later hes) hbearer hstarts
  simp only [Wizard.returns, hp] at hs
  split at hs
  · obtain ⟨rfl, rfl⟩ := Prod.mk.inj (Option.some.inj hs)
    exact hfails _ nofun nofun (by simp)
  · obtain ⟨rfl, rfl⟩ := Prod.mk.inj (Option.some.inj hs)
    exact h.serves hp rfl ⟨hcourse.later hconfigured, List.mem_cons_self⟩ rfl (token_singleton rfl) (by simp)
  · obtain ⟨rfl, rfl⟩ := Prod.mk.inj (Option.some.inj hs)
    split_ifs
    · exact hfails _ hconfigured (token_singleton rfl) (by simp)
    · exact hfails _ nofun nofun (by simp)

/-- A command of the app is done. -/
theorem Orderly.returns {wrote : Bool} {r : Except String String} (h : Orderly x)
    (hs : Wizard.returns x.state i wrote r = some (s', es)) : Orderly { x with state := s', effects := es ++ x.effects } := by
  have hinstall := hs
  unfold Wizard.returns at hs
  split at hs
  next old hp =>
    have hminting : x.state.finish = .minting := h.point_fits hp
    have hcourse := Finish.Unregistered.course (.inl hminting) h.shows
    have hwipes : ∀ e ∈ [Effect.wipes], Before e := before_singleton trivial
    split at hs
    next =>
      obtain ⟨rfl, rfl⟩ := Prod.mk.inj (Option.some.inj hs)
      exact h.goesOn hp rfl (hcourse.more hwipes) rfl (fun e he t ht => by rw [token_singleton rfl e he] at ht; cases ht) (by simp)
    next =>
      obtain ⟨rfl, rfl⟩ := Prod.mk.inj (Option.some.inj hs)
      exact h.fails hp hcourse hwipes (token_singleton rfl)
  next key hp =>
    have hminting : x.state.finish = .minting := h.point_fits hp
    have hcourse := Finish.Unregistered.course (.inl hminting) h.shows
    split at hs
    next =>
      obtain ⟨rfl, rfl⟩ := Prod.mk.inj (Option.some.inj hs)
      exact h.serves hp rfl hcourse rfl nofun (by simp)
    next =>
      obtain ⟨rfl, rfl⟩ := Prod.mk.inj (Option.some.inj hs)
      exact h.fails hp hcourse nofun nofun
  next d hp => exact h.installs hp hinstall
  next d path hp =>
    have hagents : x.state.finish = .bootstrapping d := h.point_fits hp
    have hshows : Course (some d) x.effects ∧ Written d x.effects := by simpa only [hagents, Finish.Shows] using h.shows
    obtain ⟨rfl, rfl⟩ := Prod.mk.inj (Option.some.inj hs)
    exact h.serves hp rfl ⟨hshows.1.later (after_singleton rfl), hshows.2.later⟩ ⟨rfl, List.mem_cons_self⟩ (token_singleton rfl)
      (by simp)
  next d path models left hp =>
    have hfits := h.point_fits hp
    split_ifs at hs
    · obtain ⟨rfl, rfl⟩ := Prod.mk.inj (Option.some.inj hs)
      exact h.serves hp (h.single hp).2.2 h.shows hfits nofun (by simp)
    · obtain ⟨rfl, rfl⟩ := Prod.mk.inj (Option.some.inj hs)
      exact h.serves hp (h.single hp).2.2 h.shows hfits nofun (by simp)
  next d path models hp =>
    obtain ⟨hfinish, hchooses⟩ := h.point_fits hp
    obtain ⟨rfl, rfl⟩ := Prod.mk.inj (Option.some.inj hs)
    refine h.serves hp (h.single hp).2.2 h.shows ⟨?_, ?_, fun c hc id hid => ?_⟩ nofun (by simp)
    · rw [hfinish, List.length_map, List.countP_map, List.countP_eq_zero.mpr (by simp [Deploy.isSettled])]
    · have hmap : (models.map fun m => (m, Deploy.invoked)).map Prod.fst = models := by
        rw [List.map_map]
        exact List.map_id _
      rw [hmap]
      exact hchooses
    · obtain ⟨m, -, rfl⟩ := List.mem_map.mp hc
      cases hid
  next => cases hs

/-- A list around one of its members. -/
theorem set_of_getElem? {α : Type} {l : List α} {a : α} (h : l[k]? = some a) :
    ∃ front back, l = front ++ a :: back ∧ ∀ b, l.set k b = front ++ b :: back := by
  obtain ⟨hk, rfl⟩ := List.getElem?_eq_some_iff.mp h
  refine ⟨l.take k, l.drop (k + 1), ?_, fun b => List.set_eq_take_append_cons_drop.trans (if_pos hk)⟩
  rw [← List.drop_eq_getElem_cons hk, List.take_append_drop]

/-- One of the deploys goes on: it is counted where it settles, and was done where it settles well. -/
theorem Orderly.deploys {path model : String} {calls : List (String × Deploy)} {c c' : Deploy} (h : Orderly x)
    (hp : x.state.runs[i]? = some (.deploys d path calls)) (hc : calls[k]? = some (model, c)) (hopen : c.isSettled = false)
    (hfinish : finish = if c'.isSettled then x.state.finish.counted else x.state.finish)
    (hdeployed : ∀ id, c' = .settled (.ok id) → .deployed d.deviceId model ∈ es) (hes : ∀ e ∈ es, After d e)
    (hbearer : ∀ e ∈ es, ∀ t, e.token = some t → requireToken x.state.desk.session = .ok t) (hstarts : .starts ∉ es) :
    Orderly { x with state := x.state.goesOn i finish (.deploys d path (calls.set k (model, c'))), effects := es ++ x.effects } := by
  obtain ⟨hdeploying, hchooses, hdone⟩ := h.point_fits hp
  have hshows : Course (some d) x.effects ∧ Written d x.effects := by simpa only [hdeploying, Finish.Shows] using h.shows
  obtain ⟨front, back, rfl, hset⟩ := set_of_getElem? hc
  have hcount : finish = .deploying d (((front ++ (model, c) :: back).set k (model, c')).countP fun c => c.2.isSettled)
      ((front ++ (model, c) :: back).set k (model, c')).length := by
    rw [hfinish, hdeploying, hset, List.countP_append, List.countP_append, List.countP_cons, List.countP_cons]
    cases hc' : c'.isSettled with
    | true => simp [Finish.counted, hopen, Nat.add_assoc]
    | false => simp [hopen]
  refine h.goesOn hp (by rw [hcount]; rfl) ?_ ⟨hcount, ?_, fun e he id hid => ?_⟩ hbearer hstarts
  · rw [hcount]
    exact ⟨hshows.1.later hes, hshows.2.later⟩
  · rw [hset]
    refine List.mem_append_right _ ?_
    simpa using hchooses
  · rw [hset] at he
    rcases List.mem_append.mp he with he | he
    · exact List.mem_append_right _ (hdone e (List.mem_append_left _ he) id hid)
    · rcases List.mem_cons.mp he with rfl | he
      · exact List.mem_append_left _ (hdeployed id hid)
      · exact List.mem_append_right _ (hdone e (List.mem_append_right _ (List.mem_cons_of_mem _ he)) id hid)

theorem Orderly.sendsDeploy (h : Orderly x) (hs : Wizard.sendsDeploy x.state i k = some (s', es)) :
    Orderly { x with state := s', effects := es ++ x.effects } := by
  unfold Wizard.sendsDeploy at hs
  split at hs
  next d path calls hp =>
    split at hs
    next model hc =>
      split at hs
      next token htoken =>
        obtain ⟨rfl, rfl⟩ := Prod.mk.inj (Option.some.inj hs)
        exact h.deploys hp hc rfl rfl nofun (after_singleton rfl) (bearer_singleton htoken rfl) (by simp)
      next e _ =>
        obtain ⟨rfl, rfl⟩ := Prod.mk.inj (Option.some.inj hs)
        exact h.deploys hp hc rfl rfl nofun nofun nofun (by simp)
    next => cases hs
  next => cases hs

theorem Orderly.repliesDeploy {r : Reply} (h : Orderly x) (hs : Wizard.repliesDeploy w x.state i k r = some (s', es)) :
    Orderly { x with state := s', effects := es ++ x.effects } := by
  unfold Wizard.repliesDeploy at hs
  split at hs
  next d path calls hp =>
    split at hs
    next model hc =>
      obtain ⟨rfl, rfl⟩ := Prod.mk.inj (Option.some.inj hs)
      cases hr : deployReply w r with
      | ok id =>
        exact h.deploys hp hc rfl rfl (fun _ _ => List.mem_singleton_self _) (after_singleton rfl)
          (fun e he t ht => by rw [token_singleton rfl e he] at ht; cases ht) (by simp)
      | error e => exact h.deploys hp hc rfl rfl nofun nofun nofun (by simp)
    next => cases hs
  next => cases hs

/-- What has settled without a failure has settled well. -/
theorem settled_of_failure {c : Deploy} (hsettled : c.isSettled = true) (hfailure : c.failure = none) : ∃ id, c = .settled (.ok id) := by
  match c with
  | .settled (.ok id) => exact ⟨id, rfl⟩
  | .settled (.error e) => cases hfailure
  | .invoked => cases hsettled
  | .sent => cases hsettled

theorem Orderly.settles (h : Orderly x) (hs : Wizard.settles x.state i = some s') : Orderly { x with state := s' } := by
  unfold Wizard.settles at hs
  split at hs
  next d path calls hp =>
    obtain ⟨hdeploying, hchooses, hdone⟩ := h.point_fits hp
    have hshows : Course (some d) x.effects ∧ Written d x.effects := by simpa only [hdeploying, Finish.Shows] using h.shows
    split_ifs at hs with hall
    split at hs
    next hfailures =>
      obtain rfl := Option.some.inj hs
      refine h.ends [] hp rfl ⟨d, rfl, hshows.1, hshows.2, _, hchooses, List.length_map _, fun m hm => ?_⟩ nofun (by simp)
      obtain ⟨c, hc, rfl⟩ := List.mem_map.mp hm
      obtain ⟨id, hid⟩ := settled_of_failure (List.all_eq_true.mp hall c hc) (List.filterMap_eq_nil_iff.mp hfailures c hc)
      exact hdone c hc id hid
    next first rest _ =>
      obtain rfl := Option.some.inj hs
      exact h.ends [] hp rfl hshows.1 nofun (by simp)
  next => cases hs

/-- The first point of a run. -/
theorem Orderly.begins {q : Point} (h : Orderly x) (hrest : x.state.finish.busy = false) (hstep : 0 < x.state.current)
    (hbusy : finish.busy = true) (hshows : finish.Shows x.effects) (hfits : q.Fits finish x.effects) :
    Orderly { x with state := { x.state with finish := finish, runs := x.state.runs ++ [q] } } := by
  have hruns : x.state.runs = [] := by
    have hone := h.one
    rw [if_neg (by simp [hrest])] at hone
    exact List.eq_nil_of_length_eq_zero hone
  refine h.moves [] rfl (fun _ => .inl hstep) ?_ hshows (fun p hp => ?_) nofun (by simp)
  · show (x.state.runs ++ [q]).length = if finish.busy = true then 1 else 0
    rw [hruns, if_pos hbusy]
    rfl
  · have hmem : p ∈ x.state.runs ++ [q] := hp
    rw [hruns, List.nil_append, List.mem_singleton] at hmem
    rw [hmem]
    exact hfits

/-- A click starts a run, with the device that there is or without one. -/
theorem Orderly.completeSetup (h : Orderly x) (hs : x.state.completeSetup = some s') : Orderly { x with state := s' } := by
  unfold State.completeSetup at hs
  split_ifs at hs with hlast
  have hstep : 0 < x.state.current := by
    have hcurrent : x.state.current = lastStep := by simpa using (Bool.and_eq_true_iff.mp hlast).2
    rw [hcurrent]
    decide
  have hshows := h.shows
  split at hs
  all_goals first | cases hs; done | skip
  next message d phase _ hf =>
    obtain rfl := Option.some.inj hs
    rw [hf] at hshows
    exact h.begins (by rw [hf]; rfl) hstep rfl hshows rfl
  next message phase old hf _ =>
    obtain rfl := Option.some.inj hs
    rw [hf] at hshows
    exact h.begins (by rw [hf]; rfl) hstep rfl hshows rfl
  next old hf _ =>
    obtain rfl := Option.some.inj hs
    rw [hf] at hshows
    exact h.begins (by rw [hf]; rfl) hstep rfl hshows rfl
  next message phase hf _ =>
    obtain rfl := Option.some.inj hs
    rw [hf] at hshows
    exact h.begins (by rw [hf]; rfl) hstep rfl hshows rfl
  next hf _ =>
    obtain rfl := Option.some.inj hs
    rw [hf] at hshows
    exact h.begins (by rw [hf]; rfl) hstep rfl hshows rfl

/-- The wizard is left once it is done. -/
theorem Orderly.completes (h : Orderly x) (hs : x.state.completes = some (s', es)) :
    Orderly { x with state := s', effects := es ++ x.effects } := by
  unfold State.completes at hs
  split at hs
  next id path count hf =>
    split_ifs at hs
    obtain ⟨rfl, rfl⟩ := Prod.mk.inj (Option.some.inj hs)
    have hshows := h.shows
    rw [hf] at hshows
    obtain ⟨d, hid, hcourse, hwritten, models, hchooses, hlength, hdeployed⟩ := hshows
    refine ⟨h.desk, h.one, ?_, fun p hp => ?_, h.gate, fun e he t ht => ?_, fun post pre he => ?_⟩
    · show x.state.finish.Shows _
      rw [hf]
      exact ⟨d, hid, hcourse.later (after_singleton trivial), hwritten.later, models, List.mem_cons_of_mem _ hchooses, hlength,
        fun m hm => List.mem_cons_of_mem _ (hdeployed m hm)⟩
    · have hone := h.one
      rw [hf] at hone
      have hnil : p ∈ ([] : List Point) := List.eq_nil_of_length_eq_zero hone ▸ hp
      cases hnil
    · rcases List.mem_cons.mp he with rfl | he
      · cases ht
      · exact h.bearer e he t ht
    · cases post with
      | nil =>
        obtain ⟨-, rfl⟩ := List.cons.inj he
        exact ⟨d, hwritten⟩
      | cons e post =>
        obtain ⟨-, hrest⟩ := List.cons.inj he
        exact h.armed post pre hrest
  next => cases hs

/-- What is done to the page alone. -/
theorem Orderly.pages (h : Orderly x) (hdesk : s'.desk = x.state.desk) (hfinish : s'.finish = x.state.finish)
    (hruns : s'.runs = x.state.runs) (hgate : 0 < s'.current → Approved x.state.desk.signIn) : Orderly { x with state := s' } where
  desk := by
    show SignIn.Sound s'.desk x.log
    rw [hdesk]
    exact h.desk
  one := by
    show s'.runs.length = if s'.finish.busy = true then 1 else 0
    rw [hfinish, hruns]
    exact h.one
  shows := by
    show s'.finish.Shows x.effects
    rw [hfinish]
    exact h.shows
  fits := by
    show ∀ p ∈ s'.runs, p.Fits s'.finish x.effects
    rw [hfinish, hruns]
    exact h.fits
  gate hg := by
    show Approved s'.desk.signIn
    rw [hdesk]
    rcases hg with hg | hg
    · exact hgate hg
    · exact h.gate (.inr (hfinish ▸ hg))
  bearer := h.bearer
  armed := h.armed

/-- A click that changes nothing but the page; beyond the first step it asks for a sign-in. -/
theorem Orderly.clicks {e : Event} (h : Orderly x) (hs : x.state.clicks e = some s') : Orderly { x with state := s' } := by
  unfold State.clicks at hs
  split at hs
  next => exact Option.some.inj hs ▸ h.pages rfl rfl rfl fun hg => h.gate (.inl hg)
  next => exact Option.some.inj hs ▸ h.pages rfl rfl rfl fun hg => h.gate (.inl hg)
  next => exact Option.some.inj hs ▸ h.pages rfl rfl rfl fun hg => h.gate (.inl hg)
  next =>
    obtain ⟨id, -, rfl⟩ := Option.map_eq_some_iff.mp hs
    exact h.pages rfl rfl rfl fun hg => h.gate (.inl hg)
  next =>
    split_ifs at hs with hnext
    refine Option.some.inj hs ▸ h.pages rfl rfl rfl fun _ => ?_
    have hcan : x.state.canContinue = true := (Bool.and_eq_true_iff.mp hnext).2
    by_cases hfirst : x.state.current = 0
    · rw [State.canContinue, if_pos hfirst] at hcan
      split at hcan
      next email username hshown => exact ⟨email, username, hshown⟩
      next => cases hcan
    · exact h.gate (.inl (Nat.pos_of_ne_zero hfirst))
  next =>
    split_ifs at hs
    refine Option.some.inj hs ▸ h.pages rfl rfl rfl fun hg => h.gate (.inl ?_)
    have hg' : 0 < x.state.current - 1 := hg
    omega
  next => exact Option.some.inj hs ▸ h.pages rfl rfl rfl fun hg => h.gate (.inl hg)
  next => cases hs

/-- The sign-in goes on; what was granted stays granted, and who is signed in stays so. -/
theorem Orderly.desk_next (h : Orderly x) (e : SignIn.Event) :
    Orderly { x with
      state := { x.state with desk := (SignIn.next w (x.state.desk, x.log) e).1 }
      log := (SignIn.next w (x.state.desk, x.log) e).2 } where
  desk := SignIn.Sound.next h.desk
  one := h.one
  shows := h.shows
  fits := h.fits
  gate hg := by
    obtain ⟨email, username, hshown⟩ := h.gate hg
    exact ⟨email, username, SignIn.Sound.stays h.desk hshown⟩
  bearer f hf t ht := by
    obtain ⟨hne, code, token, hgranted, htoken⟩ := h.bearer f hf t ht
    exact ⟨hne, code, token, SignIn.granted_next hgranted, htoken⟩
  armed := h.armed

theorem Orderly.step {e : Event} (h : Orderly x) (hs : x.state.step w e = some (s', es)) :
    Orderly { x with state := s', effects := es ++ x.effects } := by
  have hpage {o : Option State} (ho : o.map (·, []) = some (s', es)) (hstep : ∀ u, o = some u → Orderly { x with state := u }) :
      Orderly { x with state := s', effects := es ++ x.effects } := by
    obtain ⟨u, hu, hpair⟩ := Option.map_eq_some_iff.mp ho
    obtain ⟨rfl, rfl⟩ := Prod.mk.inj hpair
    exact hstep u hu
  have hclick (e : Event) (he : (x.state.clicks e).map (·, []) = some (s', es)) :
      Orderly { x with state := s', effects := es ++ x.effects } := hpage he fun u hu => h.clicks hu
  cases e with
  | desk e => cases hs
  | completeSetup => exact hpage hs fun u hu => h.completeSetup hu
  | sends i => exact h.sends hs
  | replies i r => exact h.replies hs
  | returns i wrote r => exact h.returns hs
  | sendsDeploy i k => exact h.sendsDeploy hs
  | repliesDeploy i k r => exact h.repliesDeploy hs
  | settles i => exact hpage hs fun u hu => h.settles hu
  | completeOnboarding => exact h.completes hs
  | startReRegister => exact hclick .startReRegister hs
  | cancelConfirm => exact hclick .cancelConfirm hs
  | startUninstall => exact hclick .startUninstall hs
  | confirmReRegister => exact hclick .confirmReRegister hs
  | next => exact hclick .next hs
  | back => exact hclick .back hs
  | selects models => exact hclick (.selects models) hs

theorem Orderly.next {e : Event} (h : Orderly x) : Orderly (Wizard.next w x e) := by
  cases e with
  | desk e =>
    unfold Wizard.next
    dsimp only
    split_ifs
    · exact h.desk_next e
    · exact h
  | startReRegister | cancelConfirm | startUninstall | confirmReRegister | next | back | selects models | completeSetup | sends i
  | replies i r | returns i wrote r | sendsDeploy i k | repliesDeploy i k r | settles i | completeOnboarding =>
    unfold Wizard.next
    dsimp only
    split
    next hs => exact h.step hs
    next => exact h

theorem orderly_start (deviceId : Option String) : Orderly ⟨.start deviceId, .empty, []⟩ where
  desk := SignIn.sound_start
  one := rfl
  shows := .before nofun
  fits := nofun
  gate hg := hg.elim (fun hstep => absurd hstep (Nat.lt_irrefl 0)) fun hfinish => absurd rfl hfinish
  bearer := nofun
  armed post pre he := by
    cases post with
    | nil => cases he
    | cons e post => cases he

/-- **One registration**, whatever happens in the window and in whatever order. -/
theorem one_registration (w : Wording) (deviceId : Option String) (es : List Event) : Orderly (run w deviceId es) := by
  have hfold : ∀ (es : List Event) (x : World), Orderly x → Orderly (es.foldl (Wizard.next w) x) := by
    intro es
    induction es with
    | nil => exact fun x h => h
    | cons e es ih => exact fun x h => ih _ h.next
  exact hfold es _ (orderly_start deviceId)

end Orderly

/-! ### A run to the end -/

def codeBody : Json :=
  .obj [("device_code", .str "dc"), ("user_code", .str "AB-CD"), ("verification_uri", .str "https://locai.co.uk/device")]

def tokenBody : Json := .obj [("access_token", .str "jwt"), ("user", .obj [("email", .str "a@b")])]

def deviceBody : Json := .obj [("device_id", .str "d1"), ("api_key", .str "k"), ("config", .obj [("identity", .obj [])])]

/-- Somebody signs in, chooses a model and completes the setup; the first deploy fails and the second does not. -/
def completed : List Event :=
  [.desk .click, .desk (.reply 0 (.ok (some codeBody))), .desk (.goes 0), .desk (.goes 0), .desk (.goes 0), .desk (.waits 5000),
    .desk (.fires 0), .desk (.goes 0), .desk (.reply 0 (.ok (some tokenBody))), .desk (.goes 0), .desk (.goes 0),
    .next, .selects ["m"], .next, .next, .completeSetup, .sends 0, .replies 0 (.ok (some (.obj [("registration_key", .str "rk")]))),
    .returns 0 true (.ok "host"), .sends 0, .replies 0 (.ok (some deviceBody)), .returns 0 true (.ok "session.json"),
    .returns 0 true (.ok ""), .returns 0 true (.ok ""), .returns 0 true (.ok ""), .sendsDeploy 0 0,
    .repliesDeploy 0 0 (.transport "timed out"), .settles 0, .completeSetup, .returns 0 true (.ok "session.json"),
    .returns 0 true (.ok ""), .returns 0 true (.ok ""), .returns 0 true (.ok ""), .sendsDeploy 0 0,
    .repliesDeploy 0 0 (.ok (some (.obj [("id", .str "dep")]))), .settles 0, .completeOnboarding]

/-- The device of a page that is done, and how many models were deployed. -/
def Finish.result : Finish → Option (String × ℕ)
  | .done deviceId _ count => some (deviceId, count)
  | _ => none

example : (run ⟨fun _ => "", fun _ => ""⟩ none completed).state.finish.result = some ("d1", 1) ∧
    (run ⟨fun _ => "", fun _ => ""⟩ none completed).effects.length = 11 := by
  decide +kernel

end Wizard
end LocaiLink
