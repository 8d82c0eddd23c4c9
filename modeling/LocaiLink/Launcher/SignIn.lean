/-
# Signing in

The setup window asks Control for a device code, shows it, and polls until somebody has approved it: `sign_in_start` and
`sign_in_poll` of `setup.rs`, which hold the session, and `startSignIn`, `schedulePoll` and `runPoll` of `SetupApp.svelte`, which
wait for them and for timers. Whatever the order of clicks, answers and timers (`one_sign_in`), one thing is under way where
the window says so and none elsewhere, the code that is polled is the one on the screen, what is held as a token is not empty
and was granted for that code, and polls keep their distance.
-/
import LocaiLink.Install.Metadata

namespace LocaiLink
namespace SignIn

open Install (uniqueField defaulted asStr asOptStr)

/-! ### What Control answers -/

/-- What `ureq` makes of a request: an answer below 400, one from 400 on, or none. A body is what it is as JSON. -/
inductive Reply
  | ok (body : Option Json)
  | status (code : ℕ) (url : String) (text : Option String) (body : Option Json)
  | transport (message : String)

/-- What the libraries say of a body that is not as asked for, and of a request that failed. -/
structure Wording where
  serde : Option Json → String
  ureq : Reply → String

structure DeviceCodeStart where
  userCode : String
  verificationUri : String
  verificationUriComplete : String
  interval : ℕ
  expiresIn : ℕ

structure DeviceCodeResponse where
  deviceCode : String
  userCode : String
  verificationUri : String
  verificationUriComplete : Option String
  interval : ℕ
  expiresIn : ℕ

def asU64 : Json → Option ℕ
  | .int (.ofNat n) => if n < 2 ^ 64 then some n else none
  | _ => none

def defaultPollInterval : ℕ := 5

def defaultExpiresIn : ℕ := 600

/-- It is read from an object, or from an array of its fields. -/
def DeviceCodeResponse.read : Json → Option DeviceCodeResponse
  | .obj l => do
    let deviceCode ← (← uniqueField l "device_code").bind asStr
    let userCode ← (← uniqueField l "user_code").bind asStr
    let verificationUri ← (← uniqueField l "verification_uri").bind asStr
    let complete ← defaulted none asOptStr (← uniqueField l "verification_uri_complete")
    let interval ← defaulted defaultPollInterval asU64 (← uniqueField l "interval")
    let expiresIn ← defaulted defaultExpiresIn asU64 (← uniqueField l "expires_in")
    pure ⟨deviceCode, userCode, verificationUri, complete, interval, expiresIn⟩
  | .arr (deviceCode :: userCode :: verificationUri :: complete :: rest) => do
    let deviceCode ← asStr deviceCode
    let userCode ← asStr userCode
    let verificationUri ← asStr verificationUri
    let complete ← asOptStr complete
    match rest with
    | [] => pure ⟨deviceCode, userCode, verificationUri, complete, defaultPollInterval, defaultExpiresIn⟩
    | [interval] => do
      pure ⟨deviceCode, userCode, verificationUri, complete, ← asU64 interval, defaultExpiresIn⟩
    | [interval, expiresIn] => do
      pure ⟨deviceCode, userCode, verificationUri, complete, ← asU64 interval, ← asU64 expiresIn⟩
    | _ => none
  | _ => none

structure TokenUser where
  id : String
  email : String
  username : String

def TokenUser.default : TokenUser := ⟨"", "", ""⟩

def TokenUser.read : Json → Option TokenUser
  | .obj l => do
    let id ← defaulted "" asStr (← uniqueField l "id")
    let email ← defaulted "" asStr (← uniqueField l "email")
    let username ← defaulted "" asStr (← uniqueField l "username")
    pure ⟨id, email, username⟩
  | .arr l => do
    let fields ← l.mapM asStr
    match fields with
    | [] => pure default
    | [id] => pure ⟨id, "", ""⟩
    | [id, email] => pure ⟨id, email, ""⟩
    | [id, email, username] => pure ⟨id, email, username⟩
    | _ => none
  | _ => none

structure TokenResponse where
  accessToken : String
  refreshToken : Option String
  user : TokenUser

def TokenResponse.read : Json → Option TokenResponse
  | .obj l => do
    let accessToken ← defaulted "" asStr (← uniqueField l "access_token")
    let refreshToken ← defaulted none asOptStr (← uniqueField l "refresh_token")
    let user ← defaulted .default TokenUser.read (← uniqueField l "user")
    pure ⟨accessToken, refreshToken, user⟩
  | .arr [accessToken, refreshToken] => do
    pure ⟨← asStr accessToken, ← asOptStr refreshToken, .default⟩
  | .arr [accessToken, refreshToken, user] => do
    pure ⟨← asStr accessToken, ← asOptStr refreshToken, ← TokenUser.read user⟩
  | _ => none

/-- `describe_ureq_err`; none for an answer that is no error. -/
def describeUreqErr (op : String) : Reply → Option String
  | .ok _ => none
  | .status code url text _ =>
    match text.filter (· ≠ "") with
    | some body => some s!"{op} failed: HTTP {code} from {url} — {body}"
    | none => some s!"{op} failed: HTTP {code} from {url}"
  | .transport message => some s!"{op} failed (transport): {message}"

/-! ### The commands of the app -/

/-- `is_web_url` -/
def isWebUrl (url : String) : Bool :=
  let lower := Text.lower (Text.trim url.toList)
  "https://".toList.isPrefixOf lower || "http://".toList.isPrefixOf lower

/-- What the window is given of an answer: only addresses of the web. -/
def DeviceCodeResponse.start (body : DeviceCodeResponse) : Except String DeviceCodeStart :=
  let complete := (body.verificationUriComplete.filter fun s => Text.trim s.toList ≠ []).getD body.verificationUri
  if !isWebUrl body.verificationUri || !isWebUrl complete then .error "device code response carried a non-web verification URL"
  else .ok ⟨body.userCode, body.verificationUri, complete, body.interval, body.expiresIn⟩

structure Session where
  deviceCode : String
  accessToken : Option String
  refreshToken : Option String
  userId : Option String
  email : Option String

inductive SignInPollResult
  | pending
  | slowDown
  | approved (userId email username : String)
  | denied
  | expired
  | error (message : String)

/-- `require_token` -/
def requireToken (session : Option Session) : Except String String :=
  match session.bind Session.accessToken with
  | some token => .ok token
  | none => .error "not signed in — sign in first"

/-- `Value::get`: of members with one name the last. -/
def member (key : String) : Json → Option Json
  | .obj l => l.reverse.lookup key
  | _ => none

/-- The code of an error of the device flow. -/
def deviceFlowError (body : Option Json) : String :=
  match (body.bind (member "detail")).bind (member "error") with
  | some (.str s) => s
  | _ => ""

/-- `sign_in_poll` on what the token endpoint answers: a token to hold, or what the window is told. -/
def pollReply (w : Wording) : Reply → TokenResponse ⊕ SignInPollResult
  | .ok body =>
    match body.bind TokenResponse.read with
    | none => .inr (.error s!"token response malformed: {w.serde body}")
    | some token => if token.accessToken = "" then .inr (.error "token response missing access_token") else .inl token
  | .status 400 _ _ body => .inr <|
    match deviceFlowError body with
    | "authorization_pending" => .pending
    | "slow_down" => .slowDown
    | "access_denied" => .denied
    | "expired_token" => .expired
    | other => .error s!"unexpected device-flow error: {other}"
  | .status 429 _ _ _ => .inr .slowDown
  | r => .inr (.error s!"token poll failed: {w.ureq r}")

/-! ### The window -/

inductive Shown
  | idle
  | starting
  | pending (start : DeviceCodeStart) (interval : ℕ)
  | approved (email username : String)
  | error (message : String)

/-- What is under way: a command that the page has invoked, in the app or on its way back, or the browser being opened. -/
inductive Job
  | starts (retried : Bool)
  | lands (body : DeviceCodeResponse) (start : DeviceCodeStart)
  | started (r : Except String DeviceCodeStart)
  | opens (start : DeviceCodeStart)
  | polls
  | asks (deviceCode : String)
  | grants (token : TokenResponse)
  | polled (r : SignInPollResult)

/-- The session of the app, and the state of the page: its timers have a number and the time when they are due. -/
structure State where
  session : Option Session
  signIn : Shown
  pollTimer : Option ℕ
  timers : List (ℕ × ℕ)
  armed : ℕ
  jobs : List Job
  clock : ℕ

def State.start : State := ⟨none, .idle, none, [], 0, [], 0⟩

/-- The delay of a timer, in milliseconds: it is taken as a number of 32 bits with a sign, and is not negative. -/
def delay (seconds : ℕ) : ℕ :=
  let ms := seconds * 1000 % 2 ^ 32
  if ms < 2 ^ 31 then ms else 0

/-- `schedulePoll` -/
def State.schedulePoll (s : State) (intervalSeconds : ℕ) : State :=
  { s with timers := s.timers ++ [(s.armed, s.clock + delay intervalSeconds)], pollTimer := some s.armed, armed := s.armed + 1 }

/-- `startSignIn` up to its first `await`: a timer of the attempt before is taken back. -/
def State.startSignIn (s : State) : State :=
  { s with
    timers := match s.pollTimer with
      | some id => s.timers.filter (·.1 ≠ id)
      | none => s.timers
    pollTimer := none
    signIn := .starting
    jobs := s.jobs ++ [.starts false] }

/-- `sign_in_start` on an answer: another attempt after the first that got none. -/
def startReply (w : Wording) (retried : Bool) : Reply → Job
  | .ok body =>
    match body.bind DeviceCodeResponse.read with
    | none => .started (.error s!"device code response malformed: {w.serde body}")
    | some body =>
      match body.start with
      | .error e => .started (.error e)
      | .ok start => .lands body start
  | .transport message =>
    if retried then .started (.error s!"device code request failed (transport): {message}") else .starts true
  | r => .started (.error ((describeUreqErr "device code request" r).getD ""))

/-- The rest of `runPoll`. What is not pending has no interval. -/
def State.runPoll (s : State) : SignInPollResult → State
  | .pending =>
    match s.signIn with
    | .pending _ interval => s.schedulePoll interval
    | _ => s.schedulePoll 0
  | .slowDown =>
    match s.signIn with
    | .pending start interval => { s with signIn := .pending start (interval + 5) }.schedulePoll (interval + 5)
    | _ => s.schedulePoll 0
  | .approved _ email username => { s with signIn := .approved email username }
  | .denied => { s with signIn := .error "Sign-in was denied. You can try again." }
  | .expired => { s with signIn := .error "The sign-in request expired. Please start again." }
  | .error message => { s with signIn := .error message }

/-! ### Runs -/

/-- A click on the button, an answer to a job, the next thing that a job does, a timer, and time. -/
inductive Event
  | click
  | reply (i : ℕ) (r : Reply)
  | goes (i : ℕ)
  | fires (id : ℕ)
  | waits (ms : ℕ)

def State.click (s : State) : Option State :=
  match s.signIn with
  | .idle | .error _ => some s.startSignIn
  | _ => none

def State.reply (w : Wording) (s : State) (i : ℕ) (r : Reply) : Option State :=
  match s.jobs[i]? with
  | some (.starts retried) => some { s with jobs := s.jobs.set i (startReply w retried r) }
  | some (.asks _) =>
    match pollReply w r with
    | .inl token => some { s with jobs := s.jobs.set i (.grants token) }
    | .inr result => some { s with jobs := s.jobs.set i (.polled result) }
  | _ => none

def State.goes (s : State) (i : ℕ) : Option State :=
  match s.jobs[i]? with
  | some (.lands body start) =>
    some { s with session := some ⟨body.deviceCode, none, none, none, none⟩, jobs := s.jobs.set i (.started (.ok start)) }
  | some (.started (.ok start)) => some { s with signIn := .pending start start.interval, jobs := s.jobs.set i (.opens start) }
  | some (.started (.error e)) => some { s with signIn := .error e, jobs := s.jobs.eraseIdx i }
  | some (.opens start) => some ({ s with jobs := s.jobs.eraseIdx i }.schedulePoll start.interval)
  | some .polls =>
    match s.session with
    | none => some { s with jobs := s.jobs.set i (.polled (.error "sign_in_start was not called")) }
    | some session => some { s with jobs := s.jobs.set i (.asks session.deviceCode) }
  | some (.grants token) =>
    some { s with
      session := s.session.map fun x => { x with
        accessToken := some token.accessToken
        refreshToken := token.refreshToken
        userId := some token.user.id
        email := some token.user.email }
      jobs := s.jobs.set i (.polled (.approved token.user.id token.user.email token.user.username)) }
  | some (.polled r) => some ({ s with jobs := s.jobs.eraseIdx i }.runPoll r)
  | _ => none

/-- A timer that is due: `runPoll` up to its `await`. -/
def State.fires (s : State) (id : ℕ) : Option State :=
  if s.timers.any (fun t => t.1 = id && t.2 ≤ s.clock) then
    let s := { s with timers := s.timers.filter (·.1 ≠ id) }
    match s.signIn with
    | .pending _ _ => some { s with jobs := s.jobs ++ [.polls] }
    | _ => some s
  else none

def State.step (w : Wording) (s : State) : Event → Option State
  | .click => s.click
  | .reply i r => s.reply w i r
  | .goes i => s.goes i
  | .fires id => s.fires id
  | .waits ms => some { s with clock := s.clock + ms }

/-- What an observer of Control and of the clock writes down: the codes and the tokens that were given out, the times that
the current attempt was told to slow down, when the page last armed a timer, and how far apart polls were. -/
structure Log where
  issued : List DeviceCodeResponse
  granted : List (String × TokenResponse)
  slowed : ℕ
  armedAt : ℕ
  gaps : List (ℕ × ℕ)

def Log.empty : Log := ⟨[], [], 0, 0, []⟩

/-- The interval that Control asks for: what it gave at the start, and five seconds for each time it said to slow down. -/
def Log.demanded (l : Log) (start : DeviceCodeStart) : ℕ := start.interval + 5 * l.slowed

def Log.note (l : Log) (s : State) : Event → Log
  | .click => { l with slowed := 0 }
  | .reply i r =>
    match s.jobs[i]?, r with
    | some (.starts _), .ok (some body) => { l with issued := l.issued ++ (DeviceCodeResponse.read body).toList }
    | some (.asks deviceCode), .ok (some body) => { l with granted := l.granted ++ (TokenResponse.read body).toList.map (deviceCode, ·) }
    | _, _ => l
  | .goes i =>
    match s.jobs[i]? with
    | some (.opens _) | some (.polled .pending) => { l with armedAt := s.clock }
    | some (.polled .slowDown) => { l with slowed := l.slowed + 1, armedAt := s.clock }
    | _ => l
  | .fires _ =>
    match s.signIn with
    | .pending start _ => { l with gaps := l.gaps ++ [(l.demanded start, s.clock - l.armedAt)] }
    | _ => l
  | .waits _ => l

/-- What cannot happen does not. -/
def next (w : Wording) (s : State × Log) (e : Event) : State × Log :=
  match s.1.step w e with
  | some s' => (s', s.2.note s.1 e)
  | none => s

def run (w : Wording) (es : List Event) : State × Log := es.foldl (next w) (.start, .empty)

/-! ### What holds in every run -/

/-- The window says that it is at work. -/
def Shown.busy : Shown → Bool
  | .starting | .pending _ _ => true
  | _ => false

def Shown.Pending (x : Shown) : Prop := ∃ start interval, x = .pending start interval

/-- The session has the code that Control gave out with what is on the screen. -/
def Held (s : State) (l : Log) (start : DeviceCodeStart) : Prop :=
  ∃ x, s.session = some x ∧ ∃ body ∈ l.issued, x.deviceCode = body.deviceCode ∧ body.start = .ok start

/-- The session has a token that was given out for its code. -/
def SignedIn (s : State) (l : Log) : Prop :=
  ∃ x token, s.session = some x ∧ (x.deviceCode, token) ∈ l.granted ∧ token.accessToken ≠ "" ∧
    x.accessToken = some token.accessToken

/-- What a job leaves to be done goes with what is shown, and with the session. -/
def Job.Fits (s : State) (l : Log) : Job → Prop
  | .starts _ => s.signIn = .starting
  | .lands body start => s.signIn = .starting ∧ body ∈ l.issued ∧ body.start = .ok start
  | .started (.error _) => s.signIn = .starting
  | .started (.ok start) => s.signIn = .starting ∧ Held s l start
  | .opens start => s.signIn = .pending start start.interval ∧ l.slowed = 0
  | .polls => s.signIn.Pending
  | .asks deviceCode => s.signIn.Pending ∧ s.session.map Session.deviceCode = some deviceCode
  | .grants token => s.signIn.Pending ∧ token.accessToken ≠ "" ∧ ∃ x, s.session = some x ∧ (x.deviceCode, token) ∈ l.granted
  | .polled r => s.signIn.Pending ∧ ∀ id email username, r = .approved id email username → SignedIn s l

/-- What holds of the window, the session and what was given out. -/
structure Sound (s : State) (l : Log) : Prop where
  /-- One job or one timer where the window is at work, and none elsewhere. -/
  one : s.jobs.length + s.timers.length = if s.signIn.busy then 1 else 0
  fits : ∀ j ∈ s.jobs, j.Fits s l
  timed : ∀ t ∈ s.timers, ∃ start interval, s.signIn = .pending start interval ∧ t.2 = l.armedAt + delay interval
  fresh : s.signIn = .starting → l.slowed = 0
  shown : ∀ start interval, s.signIn = .pending start interval → interval = l.demanded start ∧ Held s l start
  approved : ∀ email username, s.signIn = .approved email username → SignedIn s l
  held : ∀ x t, s.session = some x → x.accessToken = some t →
    t ≠ "" ∧ ∃ token, (x.deviceCode, token) ∈ l.granted ∧ token.accessToken = t
  /-- Between two polls, or the browser and a poll, is what Control asks for, where that is a delay. -/
  paced : ∀ g ∈ l.gaps, g.1 * 1000 < 2 ^ 31 → g.1 * 1000 ≤ g.2

section Sound

variable {w : Wording} {s s' : State} {l : Log} {i : ℕ} {j : Job} {r : Reply} {start : DeviceCodeStart}

theorem delay_of_lt {n : ℕ} (h : n * 1000 < 2 ^ 31) : delay n = n * 1000 := by
  have hmod : n * 1000 % 2 ^ 32 = n * 1000 := Nat.mod_eq_of_lt (by omega)
  unfold delay
  rw [hmod]
  exact if_pos h

theorem Shown.Pending.busy {x : Shown} (h : x.Pending) : x.busy = true := by
  obtain ⟨start, interval, rfl⟩ := h
  rfl

/-- A job that is there is the only thing that is under way. -/
theorem Sound.single (h : Sound s l) (hj : s.jobs[i]? = some j) : i = 0 ∧ s.jobs = [j] ∧ s.timers = [] ∧ s.signIn.busy = true := by
  have hone := h.one
  have hlt : i < s.jobs.length := (List.getElem?_eq_some_iff.mp hj).1
  have hbusy : s.signIn.busy = true := by
    by_contra hnot
    rw [if_neg hnot] at hone
    omega
  rw [if_pos hbusy] at hone
  have hi : i = 0 := by omega
  obtain ⟨k, hk⟩ := List.length_eq_one_iff.mp (by omega : s.jobs.length = 1)
  rw [hk, hi, List.getElem?_cons_zero] at hj
  exact ⟨hi, by rw [hk, Option.some.inj hj], List.eq_nil_of_length_eq_zero (by omega), hbusy⟩

theorem Sound.job_fits (h : Sound s l) (hj : s.jobs[i]? = some j) : j.Fits s l := h.fits j (List.mem_of_getElem? hj)

theorem Sound.idle (h : Sound s l) (hrest : s.signIn.busy = false) : s.jobs = [] ∧ s.timers = [] := by
  have hone := h.one
  rw [if_neg (by simp [hrest])] at hone
  exact ⟨List.eq_nil_of_length_eq_zero (by omega), List.eq_nil_of_length_eq_zero (by omega)⟩

/-- More may have been given out. -/
structure Log.Grows (l l' : Log) : Prop where
  issued : ∀ b ∈ l.issued, b ∈ l'.issued
  granted : ∀ g ∈ l.granted, g ∈ l'.granted
  slowed : l'.slowed = l.slowed
  armedAt : l'.armedAt = l.armedAt
  gaps : l'.gaps = l.gaps

theorem Log.Grows.refl (l : Log) : l.Grows l := ⟨fun _ h => h, fun _ h => h, rfl, rfl, rfl⟩

theorem Held.grows {l' : Log} (h : Held s l start) (hl : l.Grows l') (hs : s'.session = s.session) : Held s' l' start := by
  obtain ⟨x, hx, body, hbody, hcode, hstart⟩ := h
  exact ⟨x, hs.trans hx, body, hl.issued _ hbody, hcode, hstart⟩

theorem SignedIn.grows {l' : Log} (h : SignedIn s l) (hl : l.Grows l') (hs : s'.session = s.session) : SignedIn s' l' := by
  obtain ⟨x, token, hx, hgranted, hne, htoken⟩ := h
  exact ⟨x, token, hs.trans hx, hl.granted _ hgranted, hne, htoken⟩

/-- The job goes on to another, which fits. -/
theorem Sound.goesOn {l' : Log} {j' : Job} (h : Sound s l) (hj : s.jobs[i]? = some j) (hl : l.Grows l')
    (hfits : j'.Fits { s with jobs := s.jobs.set i j' } l') : Sound { s with jobs := s.jobs.set i j' } l' := by
  obtain ⟨rfl, hjobs, htimers, hbusy⟩ := h.single hj
  have hset : s.jobs.set 0 j' = [j'] := by rw [hjobs, List.set_cons_zero]
  rw [hset] at hfits ⊢
  refine ⟨?_, fun k hk => ?_, fun t ht => ?_, fun hstart => ?_, fun st iv hp => ?_, fun e u ha => ?_, fun x t hx ht => ?_, fun g hg => ?_⟩
  · show [j'].length + s.timers.length = _
    rw [htimers, if_pos hbusy]
    rfl
  · rw [List.mem_singleton.mp hk]
    exact hfits
  · have hnil : t ∈ ([] : List (ℕ × ℕ)) := htimers ▸ ht
    cases hnil
  · exact hl.slowed.trans (h.fresh hstart)
  · obtain ⟨hiv, hheld⟩ := h.shown st iv hp
    exact ⟨by rw [hiv, Log.demanded, Log.demanded, hl.slowed], hheld.grows hl rfl⟩
  · exact (h.approved e u ha).grows hl rfl
  · obtain ⟨hne, token, hgranted, htoken⟩ := h.held x t hx ht
    exact ⟨hne, token, hl.granted _ hgranted, htoken⟩
  · exact h.paced g (hl.gaps ▸ hg)

theorem grows_reply (s : State) (l : Log) (i : ℕ) (r : Reply) : l.Grows (l.note s (.reply i r)) := by
  unfold Log.note
  dsimp only
  split
  · exact ⟨fun b hb => List.mem_append_left _ hb, fun _ h => h, rfl, rfl, rfl⟩
  · exact ⟨fun _ h => h, fun g hg => List.mem_append_left _ hg, rfl, rfl, rfl⟩
  · exact .refl l

/-- An answer to the request for a code. -/
theorem fits_startReply {retried : Bool} (hj : s.jobs[i]? = some (.starts retried)) (hstarting : s.signIn = .starting) :
    (startReply w retried r).Fits { s with jobs := s.jobs.set i (startReply w retried r) } (l.note s (.reply i r)) := by
  cases r with
  | ok body =>
    cases hbody : body.bind DeviceCodeResponse.read with
    | none =>
      rw [startReply, hbody]
      exact hstarting
    | some b =>
      obtain ⟨json, rfl, hread⟩ := Option.bind_eq_some_iff.mp hbody
      cases hstart : b.start with
      | error e =>
        simp only [startReply, hbody, hstart]
        exact hstarting
      | ok start =>
        simp only [startReply, hbody, hstart]
        refine ⟨hstarting, ?_, hstart⟩
        simp [Log.note, hj, hread]
  | status code url text body => exact hstarting
  | transport message =>
    unfold startReply
    split_ifs
    · exact hstarting
    · exact hstarting

/-- A token that is taken was given out, and is not empty. -/
theorem pollReply_inl {token : TokenResponse} (h : pollReply w r = .inl token) :
    token.accessToken ≠ "" ∧ ∃ body, r = .ok (some body) ∧ TokenResponse.read body = some token := by
  unfold pollReply at h
  split at h
  next body =>
    cases hbody : body.bind TokenResponse.read with
    | none =>
      simp only [hbody] at h
      cases h
    | some t =>
      simp only [hbody] at h
      split_ifs at h with hempty
      obtain rfl := Sum.inl.inj h
      obtain ⟨json, rfl, hread⟩ := Option.bind_eq_some_iff.mp hbody
      exact ⟨hempty, json, rfl, hread⟩
  all_goals cases h

/-- Only a token makes an approval. -/
theorem pollReply_inr {result : SignInPollResult} (h : pollReply w r = .inr result) (id email username : String) :
    result ≠ .approved id email username := by
  rintro rfl
  unfold pollReply at h
  split at h
  next body =>
    cases hbody : body.bind TokenResponse.read with
    | none =>
      simp only [hbody] at h
      cases h
    | some t =>
      simp only [hbody] at h
      split_ifs at h with hempty
      cases h
  next body =>
    have hr := Sum.inr.inj h
    split at hr
    all_goals cases hr
  all_goals cases h

theorem Sound.replies (h : Sound s l) (hs : s.reply w i r = some s') : Sound s' (l.note s (.reply i r)) := by
  unfold State.reply at hs
  split at hs
  next retried hj =>
    obtain rfl := Option.some.inj hs
    exact h.goesOn hj (grows_reply s l i r) (fits_startReply hj (h.job_fits hj))
  next code hj =>
    obtain ⟨hpending, hcode⟩ := h.job_fits hj
    obtain ⟨x, hx, hxcode⟩ := Option.map_eq_some_iff.mp hcode
    cases hreply : pollReply w r with
    | inl token =>
      simp only [hreply] at hs
      obtain rfl := Option.some.inj hs
      obtain ⟨hne, body, rfl, hread⟩ := pollReply_inl hreply
      refine h.goesOn hj (grows_reply ..) ⟨hpending, hne, x, hx, ?_⟩
      simp [Log.note, hj, hread, hxcode]
    | inr result =>
      simp only [hreply] at hs
      obtain rfl := Option.some.inj hs
      exact h.goesOn hj (grows_reply ..) ⟨hpending, fun id email username he => absurd he (pollReply_inr hreply id email username)⟩
  next => cases hs

/-- The page comes to rest: nothing is under way any more. -/
theorem Sound.rests {x : Shown} {m : Log} (h : Sound s l) (hrest : x.busy = false) (hgranted : m.granted = l.granted)
    (hgaps : m.gaps = l.gaps) (happroved : ∀ email username, x = .approved email username → SignedIn s l) :
    Sound { s with signIn := x, jobs := [], timers := [] } m where
  one := by simp [hrest]
  fits := nofun
  timed := nofun
  fresh hx := by
    subst hx
    cases hrest
  shown start interval hx := by
    subst hx
    cases hrest
  approved email username hx := by
    obtain ⟨y, token, hy, hg, hne, ht⟩ := happroved email username hx
    exact ⟨y, token, hy, hgranted ▸ hg, hne, ht⟩
  held y t hy ht := by
    rw [hgranted]
    exact h.held y t hy ht
  paced g hg := h.paced g (hgaps ▸ hg)

/-- A timer is armed with the interval that is asked for. -/
theorem Sound.schedules {m : Log} {interval : ℕ} (h : Sound s l) (htimers : s.timers = []) (hissued : m.issued = l.issued)
    (hgranted : m.granted = l.granted) (hgaps : m.gaps = l.gaps) (hat : m.armedAt = s.clock) (hheld : Held s l start)
    (hinterval : interval = m.demanded start) :
    Sound ({ s with signIn := .pending start interval, jobs := [] }.schedulePoll interval) m := by
  have hheld' : ∀ u : State, u.session = s.session → Held u m start := by
    intro u hu
    obtain ⟨x, hx, body, hbody, hcode, hstart⟩ := hheld
    exact ⟨x, hu.trans hx, body, hissued ▸ hbody, hcode, hstart⟩
  unfold State.schedulePoll
  refine ⟨?_, nofun, fun t ht => ?_, nofun, fun st iv hp => ?_, nofun, fun x t hx ht => ?_, fun g hg => h.paced g (hgaps ▸ hg)⟩
  · simp [htimers, Shown.busy]
  · rw [htimers, List.nil_append, List.mem_singleton] at ht
    exact ⟨start, interval, rfl, by rw [ht, hat]⟩
  · obtain ⟨rfl, rfl⟩ := Shown.pending.inj hp
    exact ⟨hinterval, hheld' _ rfl⟩
  · rw [hgranted]
    exact h.held x t hx ht

/-- The session of a start that has come through. -/
theorem Sound.lands {body : DeviceCodeResponse} (h : Sound s l) (hj : s.jobs[i]? = some (.lands body start)) :
    Sound { s with session := some ⟨body.deviceCode, none, none, none, none⟩, jobs := s.jobs.set i (.started (.ok start)) } l := by
  obtain ⟨hstarting, hbody, hstart⟩ := h.job_fits hj
  obtain ⟨rfl, hjobs, htimers, hbusy⟩ := h.single hj
  rw [hjobs, List.set_cons_zero]
  refine ⟨?_, fun k hk => ?_, fun t ht => ?_, h.fresh, fun st iv hp => ?_, fun e u ha => ?_, fun x t hx ht => ?_, h.paced⟩
  · simp [htimers, hbusy]
  · rw [List.mem_singleton.mp hk]
    exact ⟨hstarting, _, rfl, body, hbody, rfl, hstart⟩
  · have hnil : t ∈ ([] : List (ℕ × ℕ)) := htimers ▸ ht
    cases hnil
  · exact absurd (hstarting.symm.trans hp) nofun
  · exact absurd (hstarting.symm.trans ha) nofun
  · rw [← Option.some.inj hx] at ht
    cases ht

/-- The code is on the screen, and the browser is opened. -/
theorem Sound.opens (h : Sound s l) (hj : s.jobs[i]? = some (.started (.ok start))) :
    Sound { s with signIn := .pending start start.interval, jobs := s.jobs.set i (.opens start) } l := by
  obtain ⟨hstarting, hheld⟩ := h.job_fits hj
  obtain ⟨rfl, hjobs, htimers, -⟩ := h.single hj
  have hslowed := h.fresh hstarting
  rw [hjobs, List.set_cons_zero]
  refine ⟨?_, fun k hk => ?_, fun t ht => ?_, nofun, fun st iv hp => ?_, nofun, h.held, h.paced⟩
  · simp [htimers, Shown.busy]
  · rw [List.mem_singleton.mp hk]
    exact ⟨rfl, hslowed⟩
  · have hnil : t ∈ ([] : List (ℕ × ℕ)) := htimers ▸ ht
    cases hnil
  · obtain ⟨rfl, rfl⟩ := Shown.pending.inj hp
    exact ⟨by rw [Log.demanded, hslowed, Nat.mul_zero, Nat.add_zero], hheld⟩

/-- The token goes into the session whose code was asked for. -/
theorem Sound.grants {token : TokenResponse} {result : SignInPollResult} {f : Session → Session} (h : Sound s l)
    (hj : s.jobs[i]? = some (.grants token)) (hcode : ∀ x, (f x).deviceCode = x.deviceCode)
    (htoken : ∀ x, (f x).accessToken = some token.accessToken) :
    Sound { s with session := s.session.map f, jobs := s.jobs.set i (.polled result) } l := by
  obtain ⟨hpending, hne, x, hx, hgranted⟩ := h.job_fits hj
  obtain ⟨rfl, hjobs, htimers, hbusy⟩ := h.single hj
  have hsigned : SignedIn { s with session := s.session.map f, jobs := s.jobs.set 0 (.polled result) } l := by
    refine ⟨f x, token, ?_, by rwa [hcode], hne, htoken x⟩
    show s.session.map f = _
    rw [hx, Option.map_some]
  rw [hjobs, List.set_cons_zero] at hsigned ⊢
  refine ⟨?_, fun k hk => ?_, fun t ht => ?_, h.fresh, fun st iv hp => ?_, fun e u ha => ?_, fun y t hy ht => ?_, h.paced⟩
  · simp [htimers, hbusy]
  · rw [List.mem_singleton.mp hk]
    exact ⟨hpending, fun _ _ _ _ => hsigned⟩
  · have hnil : t ∈ ([] : List (ℕ × ℕ)) := htimers ▸ ht
    cases hnil
  · obtain ⟨hiv, y, hy, body, hbody, hbodycode, hstart⟩ := h.shown st iv hp
    refine ⟨hiv, f y, ?_, body, hbody, (hcode y).trans hbodycode, hstart⟩
    show s.session.map f = _
    rw [hy, Option.map_some]
  · obtain ⟨start, interval, hp⟩ := hpending
    exact absurd (hp.symm.trans ha) nofun
  · have hmap : s.session.map f = some y := hy
    rw [hx, Option.map_some] at hmap
    obtain rfl := Option.some.inj hmap
    rw [htoken] at ht
    obtain rfl := Option.some.inj ht
    exact ⟨hne, token, by rwa [hcode], rfl⟩

/-- The page goes on after a poll. -/
theorem Sound.polled {result : SignInPollResult} (h : Sound s l) (hj : s.jobs[i]? = some (.polled result)) :
    Sound ({ s with jobs := s.jobs.eraseIdx i }.runPoll result) (l.note s (.goes i)) := by
  obtain ⟨⟨start, interval, hp⟩, hsigned⟩ := h.job_fits hj
  obtain ⟨rfl, hjobs, htimers, hbusy⟩ := h.single hj
  obtain ⟨hinterval, hheld⟩ := h.shown start interval hp
  have hrests {x : Shown} (hrest : x.busy = false) (happroved : ∀ email username, x = .approved email username → SignedIn s l) :
      Sound { s with signIn := x, jobs := [] } l := by
    have hsound := h.rests (m := l) hrest rfl rfl happroved
    rwa [← htimers] at hsound
  have herase : s.jobs.eraseIdx 0 = [] := by rw [hjobs, List.eraseIdx_cons_zero]
  rw [herase]
  cases result with
  | pending =>
    have hsound := h.schedules (m := { l with armedAt := s.clock }) htimers rfl rfl rfl rfl hheld hinterval
    have hstate : ({ s with jobs := [] } : State).runPoll .pending =
        { s with signIn := .pending start interval, jobs := [] }.schedulePoll interval := by
      simp only [State.runPoll, hp, State.schedulePoll]
    rw [hstate]
    simpa only [Log.note, hj] using hsound
  | slowDown =>
    have hmore : interval + 5 = Log.demanded { l with slowed := l.slowed + 1, armedAt := s.clock } start := by
      rw [hinterval]
      show start.interval + 5 * l.slowed + 5 = start.interval + 5 * (l.slowed + 1)
      omega
    have hsound := h.schedules (m := { l with slowed := l.slowed + 1, armedAt := s.clock }) htimers rfl rfl rfl rfl hheld hmore
    have hstate : ({ s with jobs := [] } : State).runPoll .slowDown =
        { s with signIn := .pending start (interval + 5), jobs := [] }.schedulePoll (interval + 5) := by
      simp only [State.runPoll, hp]
    rw [hstate]
    simpa only [Log.note, hj] using hsound
  | approved id email username =>
    simp only [Log.note, hj]
    exact hrests rfl fun _ _ _ => hsigned id email username rfl
  | denied =>
    simp only [Log.note, hj]
    exact hrests rfl nofun
  | expired =>
    simp only [Log.note, hj]
    exact hrests rfl nofun
  | error message =>
    simp only [Log.note, hj]
    exact hrests rfl nofun

theorem Sound.goes (h : Sound s l) (hs : s.goes i = some s') : Sound s' (l.note s (.goes i)) := by
  unfold State.goes at hs
  split at hs
  next body start hj =>
    obtain rfl := Option.some.inj hs
    simpa only [Log.note, hj] using h.lands hj
  next start hj =>
    obtain rfl := Option.some.inj hs
    simpa only [Log.note, hj] using h.opens hj
  next e hj =>
    obtain rfl := Option.some.inj hs
    obtain ⟨rfl, hjobs, htimers, -⟩ := h.single hj
    have hsound := h.rests (x := .error e) (m := l) rfl rfl rfl nofun
    rw [hjobs, List.eraseIdx_cons_zero]
    rw [← htimers] at hsound
    simpa only [Log.note, hj] using hsound
  next start hj =>
    obtain rfl := Option.some.inj hs
    obtain ⟨hp, hslowed⟩ := h.job_fits hj
    obtain ⟨rfl, hjobs, htimers, -⟩ := h.single hj
    obtain ⟨hinterval, hheld⟩ := h.shown start _ hp
    have hsound := h.schedules (m := { l with armedAt := s.clock }) htimers rfl rfl rfl rfl hheld hinterval
    rw [hjobs, List.eraseIdx_cons_zero]
    rw [← hp] at hsound
    simpa only [Log.note, hj] using hsound
  next hj =>
    have hpending : s.signIn.Pending := h.job_fits hj
    have hlog : l.note s (.goes i) = l := by simp only [Log.note, hj]
    rw [hlog]
    cases hsession : s.session with
    | none =>
      simp only [hsession] at hs
      obtain rfl := Option.some.inj hs
      have hfits : Job.Fits { s with jobs := s.jobs.set i (.polled (.error "sign_in_start was not called")) } l
          (.polled (.error "sign_in_start was not called")) := ⟨hpending, nofun⟩
      simpa only [hsession] using h.goesOn hj (.refl l) hfits
    | some session =>
      simp only [hsession] at hs
      obtain rfl := Option.some.inj hs
      have hcode : s.session.map Session.deviceCode = some session.deviceCode := by rw [hsession, Option.map_some]
      have hfits : Job.Fits { s with jobs := s.jobs.set i (.asks session.deviceCode) } l (.asks session.deviceCode) := ⟨hpending, hcode⟩
      simpa only [hsession] using h.goesOn hj (.refl l) hfits
  next token hj =>
    obtain rfl := Option.some.inj hs
    simp only [Log.note, hj]
    exact h.grants hj (fun _ => rfl) fun _ => rfl
  next result hj =>
    obtain rfl := Option.some.inj hs
    exact h.polled hj
  next => cases hs

/-- A click is for a window at rest. -/
theorem Sound.click (h : Sound s l) (hs : s.click = some s') : Sound s' (l.note s .click) := by
  have hclick : s.signIn.busy = false ∧ s' = s.startSignIn := by
    unfold State.click at hs
    split at hs
    next hshown => exact ⟨by rw [hshown]; rfl, (Option.some.inj hs).symm⟩
    next hshown => exact ⟨by rw [hshown]; rfl, (Option.some.inj hs).symm⟩
    next => cases hs
  obtain ⟨hrest, rfl⟩ := hclick
  obtain ⟨hjobs, htimers⟩ := h.idle hrest
  have hstate : s.startSignIn = { s with timers := [], pollTimer := none, signIn := .starting, jobs := [.starts false] } := by
    unfold State.startSignIn
    rw [hjobs, htimers]
    cases s.pollTimer <;> rfl
  rw [hstate]
  refine ⟨by simp [Shown.busy], fun k hk => ?_, nofun, fun _ => rfl, nofun, nofun, h.held, h.paced⟩
  rw [List.mem_singleton.mp hk]
  rfl

/-- A timer fires no sooner than it was armed for. -/
theorem Sound.fires {id : ℕ} (h : Sound s l) (hs : s.fires id = some s') : Sound s' (l.note s (.fires id)) := by
  unfold State.fires at hs
  split_ifs at hs with hdue
  obtain ⟨t, ht, hready⟩ := List.any_eq_true.mp hdue
  obtain ⟨start, interval, hp, hat⟩ := h.timed t ht
  obtain ⟨hid, hclock⟩ : t.1 = id ∧ t.2 ≤ s.clock := by simpa using hready
  obtain ⟨hinterval, hheld⟩ := h.shown start interval hp
  have hone : s.jobs.length + s.timers.length = 1 := by
    rw [h.one, hp]
    rfl
  have hlength := List.length_pos_of_mem ht
  have hjobs : s.jobs = [] := List.eq_nil_of_length_eq_zero (by omega)
  have htimers : s.timers = [t] := by
    obtain ⟨u, hu⟩ := List.length_eq_one_iff.mp (by omega : s.timers.length = 1)
    rw [hu] at ht ⊢
    rw [List.mem_singleton.mp ht]
  have hstate : s' = { s with timers := [], jobs := [.polls] } := by
    simp only [hp, htimers, hjobs] at hs
    rw [← Option.some.inj hs]
    simp [hid, hp]
  have hlog : l.note s (.fires id) = { l with gaps := l.gaps ++ [(l.demanded start, s.clock - l.armedAt)] } := by
    simp only [Log.note, hp]
  rw [hstate, hlog]
  refine ⟨?_, fun k hk => ?_, nofun, fun hstarting => ?_, h.shown, fun e u ha => ?_, h.held, fun g hg hbound => ?_⟩
  · simp [hp, Shown.busy]
  · rw [List.mem_singleton.mp hk]
    exact ⟨start, interval, hp⟩
  · exact absurd (hp.symm.trans hstarting) nofun
  · exact absurd (hp.symm.trans ha) nofun
  · rcases List.mem_append.mp hg with hg | hg
    · exact h.paced g hg hbound
    · rw [List.mem_singleton.mp hg] at hbound ⊢
      rw [hat, hinterval, delay_of_lt hbound] at hclock
      show l.demanded start * 1000 ≤ s.clock - l.armedAt
      omega

/-- **One step.** -/
theorem Sound.step {e : Event} (h : Sound s l) (hs : s.step w e = some s') : Sound s' (l.note s e) := by
  cases e with
  | click => exact h.click hs
  | reply i r => exact h.replies hs
  | goes i => exact h.goes hs
  | fires id => exact h.fires hs
  | waits ms =>
    obtain rfl := Option.some.inj hs
    exact ⟨h.one, h.fits, h.timed, h.fresh, h.shown, h.approved, h.held, h.paced⟩

theorem Sound.next {x : State × Log} {e : Event} (h : Sound x.1 x.2) : Sound (next w x e).1 (next w x e).2 := by
  unfold SignIn.next
  split
  next s' hs => exact h.step hs
  next => exact h

/-- What was granted stays granted. -/
theorem granted_next {x : State × Log} {e : Event} {g : String × TokenResponse} (hg : g ∈ x.2.granted) :
    g ∈ (SignIn.next w x e).2.granted := by
  unfold SignIn.next
  split
  next =>
    cases e with
    | reply i r => exact (grows_reply x.1 x.2 i r).granted g hg
    | click | waits => exact hg
    | goes i =>
      unfold Log.note
      dsimp only
      split
      all_goals exact hg
    | fires id =>
      unfold Log.note
      dsimp only
      split
      all_goals exact hg
  next => exact hg

/-- Who is signed in stays so. -/
theorem Sound.stays {x : State × Log} {e : Event} {email username : String} (h : Sound x.1 x.2)
    (hx : x.1.signIn = .approved email username) : (SignIn.next w x e).1.signIn = .approved email username := by
  obtain ⟨hjobs, htimers⟩ := h.idle (by rw [hx]; rfl)
  unfold SignIn.next
  split
  next s' hs =>
    cases e with
    | click => simp [State.step, State.click, hx] at hs
    | reply i r => simp [State.step, State.reply, hjobs] at hs
    | goes i => simp [State.step, State.goes, hjobs] at hs
    | fires id => simp [State.step, State.fires, htimers] at hs
    | waits ms =>
      obtain rfl := Option.some.inj hs
      exact hx
  next => exact hx

theorem sound_start : Sound .start .empty := ⟨rfl, nofun, nofun, nofun, nofun, nofun, nofun, nofun⟩

end Sound

end SignIn
end LocaiLink
