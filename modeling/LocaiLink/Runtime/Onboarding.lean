/-
# The retries of onboarding

`_request_with_retry` asks the control plane up to eight times. What it does is kept as a list of events beside how it
ends: the requests with their outcomes, and the sleeps. It stays within its bounds (`Bounded`) but where a `Retry-After`
is `nan`, which is neither below zero nor above the cap (`bounded_iff`).
-/
import Mathlib.Tactic.Linarith
import Mathlib.Tactic.Positivity
import LocaiLink.Base.Double
import LocaiLink.Base.Text

namespace LocaiLink
namespace Onboarding

def retryMaxAttempts : ℕ := 8
def retryBackoffBaseSeconds : ℚ := 2
def retryBackoffCapSeconds : ℚ := 60
def retryAfterHonorCapSeconds : ℚ := 300

/-- What is used of a response. -/
structure Response where
  statusCode : ℤ
  /-- the value of `Retry-After`, if there are headers and it is one of them -/
  retryAfter : Option String
  /-- what `json()` returns, if it does not raise -/
  json : Option Json
  text : String

/-- What a call of `do_request` comes to. -/
inductive Outcome
  | networkError (text : String)
  | response (resp : Response)

/-- What leaves `_request_with_retry` as an exception; `permanent_handler` may raise any. -/
inductive Raised (ε : Type)
  | runtimeError (text : String)
  | valueError (text : String)
  | overflowError (text : String)
  | handler (e : ε)
  deriving DecidableEq

inductive Event
  | request (o : Outcome)
  | sleep (secs : Double)

/-- What was done, and how it ended. -/
structure Ran (ε : Type) where
  events : List Event
  ending : Except (Raised ε) Response

/-- A number that `random()` may give. -/
def Draw : Type := { q : ℚ // 0 ≤ q ∧ q ≤ 1 }

/-- `random.uniform(a, b)` -/
def uniform (a b : ℚ) (draw : Draw) : ℚ := a + (b - a) * draw.1

/-- `_retry_backoff_seconds` -/
def retryBackoffSeconds (attempt : ℕ) (draw : Draw) : ℚ :=
  let ceiling := min retryBackoffCapSeconds (retryBackoffBaseSeconds * 2 ^ (attempt - 1))
  uniform 0 ceiling draw

/-- `_retry_after_seconds` -/
def retryAfterSeconds (resp : Response) : Option Double :=
  match resp.retryAfter with
  | none => none
  | some raw =>
    if raw = "" then none
    else match Double.ofText raw with
      | none => none
      | some secs => if secs.lt (.finite 0) then none else some (secs.min (.finite retryAfterHonorCapSeconds))

/-- `_response_error_detail` -/
def responseErrorDetail (resp : Response) : String :=
  match resp.json with
  | some body => String.ofList (Text.str ((body.get? "detail").getD body))
  | none => String.ofList (resp.text.toList.take 200)

/-- `time.sleep`: no number, a negative one and one that no timestamp holds are refused. -/
def refusal {ε : Type} (secs : Double) : Option (Raised ε) :=
  match secs with
  | .nan => some (.valueError "Invalid value NaN (not a number)")
  | .infinite _ => some (.overflowError "timestamp out of range for platform time_t")
  | .finite q =>
    if q < 0 then some (.valueError "sleep length must be non-negative")
    else if 2 ^ 63 ≤ q * 10 ^ 9 then some (.overflowError "timestamp too large to convert to C PyTime_t")
    else none

/-- The response is one that is asked for again: 429 and 5xx. -/
def isTransient (statusCode : ℤ) : Bool := statusCode = 429 || (500 ≤ statusCode && statusCode < 600)

def showNat (n : ℕ) : String := String.ofList (Text.nat n)

def showInt (n : ℤ) : String := String.ofList (Text.int n)

section Loop

variable {ε : Type}

/-- `sleep`, then go on. -/
def sleeping (delay : Double) (rest : Ran ε) : Ran ε :=
  match refusal (ε := ε) delay with
  | some e => ⟨[.sleep delay], .error e⟩
  | none => ⟨.sleep delay :: rest.events, rest.ending⟩

def Ran.after (o : Outcome) (r : Ran ε) : Ran ε := ⟨.request o :: r.events, r.ending⟩

/-- What is raised for a permanent failure; a `permanent_handler` gives what it raises for a response, if it does. -/
def rejection (opName : String) (permanentHandler : Option (Response → Option ε)) (resp : Response) : Raised ε :=
  match permanentHandler.bind fun f => f resp with
  | some e => .handler e
  | none => .runtimeError (opName ++ " rejected (HTTP " ++ showInt resp.statusCode ++ "): " ++ responseErrorDetail resp)

variable (opName : String) (permanentHandler : Option (Response → Option ε)) (doRequest : ℕ → Outcome) (draw : ℕ → Draw)

/-- The loop of `_request_with_retry` over the attempts that are left. -/
def attempts : List ℕ → Ran ε
  | [] => ⟨[], .error (.runtimeError (opName ++ " failed: no response received."))⟩
  | attempt :: rest =>
    .after (doRequest attempt) <|
    match doRequest attempt with
    | .networkError exc =>
      if retryMaxAttempts ≤ attempt then
        ⟨[], .error (.runtimeError (opName ++ " failed after " ++ showNat attempt ++ " attempts (network error): " ++ exc))⟩
      else sleeping (.finite (retryBackoffSeconds attempt (draw attempt))) (attempts rest)
    | .response resp =>
      if isTransient resp.statusCode then
        if retryMaxAttempts ≤ attempt then
          ⟨[], .error (.runtimeError (opName ++ " failed after " ++ showNat attempt ++ " attempts (HTTP " ++
            showInt resp.statusCode ++ ")."))⟩
        else sleeping ((retryAfterSeconds resp).getD (.finite (retryBackoffSeconds attempt (draw attempt)))) (attempts rest)
      else if 400 ≤ resp.statusCode then ⟨[], .error (rejection opName permanentHandler resp)⟩
      else ⟨[], .ok resp⟩

/-- `_request_with_retry`: `doRequest` gives the outcome of each attempt. -/
def requestWithRetry : Ran ε := attempts opName permanentHandler doRequest draw (List.range' 1 retryMaxAttempts)

end Loop

/-! ### What is promised of it -/

def requestsOf : List Event → List Outcome
  | [] => []
  | .request o :: l => o :: requestsOf l
  | .sleep _ :: l => requestsOf l

def sleepsOf : List Event → List Double
  | [] => []
  | .request _ :: l => sleepsOf l
  | .sleep secs :: l => secs :: sleepsOf l

/-- Such an outcome is asked for again: a network error, 429 and 5xx. -/
def AskedAgain : Outcome → Prop
  | .networkError _ => True
  | .response resp => isTransient resp.statusCode = true

/-- The last response, the first that is not asked for again, is returned if its status is below 400; else a `RuntimeError`
is raised, or what `permanent_handler` raises for a response that came. -/
def Ends {ε : Type} (permanentHandler : Option (Response → Option ε)) (requests : List Outcome) :
    Except (Raised ε) Response → Prop
  | .ok resp => resp.statusCode < 400 ∧ ¬AskedAgain (.response resp) ∧
      ∃ front, requests = front ++ [.response resp] ∧ ∀ o ∈ front, AskedAgain o
  | .error (.runtimeError _) => True
  | .error (.handler e) => ∃ f resp, permanentHandler = some f ∧ .response resp ∈ requests ∧ ¬AskedAgain (.response resp) ∧ f resp = some e
  | .error (.valueError _) | .error (.overflowError _) => False

/-- At most `budget` requests, only sleeps of 0 to 300 seconds, and no request after a response that is not asked for again. -/
structure Bounded {ε : Type} (permanentHandler : Option (Response → Option ε)) (budget : ℕ) (r : Ran ε) : Prop where
  requests : (requestsOf r.events).length ≤ budget
  sleeps : ∀ secs ∈ sleepsOf r.events, ∃ q : ℚ, secs = .finite q ∧ 0 ≤ q ∧ q ≤ retryAfterHonorCapSeconds
  settled : ∀ front o rest, requestsOf r.events = front ++ o :: rest → ¬AskedAgain o → rest = []
  ending : Ends permanentHandler (requestsOf r.events) r.ending

/-- A response that is asked for again, with a `Retry-After` that is `nan` in any case, with a sign or without. -/
def NanAfter : Outcome → Prop
  | .networkError _ => False
  | .response resp => isTransient resp.statusCode = true ∧
      ∃ raw, resp.retryAfter = some raw ∧ Double.lower (Double.sign (Text.trim raw.toList)).2 = "nan".toList

section Bounds

variable {ε : Type} {permanentHandler : Option (Response → Option ε)} {m : ℕ} {o : Outcome} {r : Ran ε} {resp : Response}

theorem uniform_mem {b : ℚ} (hb : 0 ≤ b) (draw : Draw) : 0 ≤ uniform 0 b draw ∧ uniform 0 b draw ≤ b := by
  have hlow : 0 ≤ b * draw.1 := mul_nonneg hb draw.2.1
  have hhigh : b * draw.1 ≤ b := mul_le_of_le_one_right hb draw.2.2
  unfold uniform
  constructor <;> linarith

/-- A back-off is within the cap on `Retry-After` as well. -/
theorem retryBackoffSeconds_mem (attempt : ℕ) (draw : Draw) :
    0 ≤ retryBackoffSeconds attempt draw ∧ retryBackoffSeconds attempt draw ≤ retryAfterHonorCapSeconds := by
  have hceiling : 0 ≤ min retryBackoffCapSeconds (retryBackoffBaseSeconds * 2 ^ (attempt - 1)) := by
    unfold retryBackoffCapSeconds retryBackoffBaseSeconds
    positivity
  have hcap : min retryBackoffCapSeconds (retryBackoffBaseSeconds * 2 ^ (attempt - 1)) ≤ 60 := min_le_left _ _
  obtain ⟨hlow, hhigh⟩ := uniform_mem hceiling draw
  refine ⟨hlow, ?_⟩
  show uniform 0 _ draw ≤ 300
  linarith

theorem honorCap_nonneg : 0 ≤ retryAfterHonorCapSeconds := by
  unfold retryAfterHonorCapSeconds
  norm_num

/-- A number at or above zero is cut at the cap. -/
theorem finite_min {q : ℚ} (h : 0 ≤ q) : ∃ r : ℚ, (Double.finite q).min (.finite retryAfterHonorCapSeconds) = .finite r ∧ 0 ≤ r ∧
    r ≤ retryAfterHonorCapSeconds := by
  by_cases hcap : retryAfterHonorCapSeconds < q
  · exact ⟨retryAfterHonorCapSeconds, by simp [Double.min, Double.lt, hcap], honorCap_nonneg, le_rfl⟩
  · exact ⟨q, by simp [Double.min, Double.lt, hcap], h, not_lt.mp hcap⟩

theorem retryAfterSeconds_nan {raw : String} (h : resp.retryAfter = some raw) (hnan : Double.ofText raw = some .nan) :
    retryAfterSeconds resp = some .nan := by
  have hempty : raw ≠ "" := by
    rintro rfl
    cases hnan
  unfold retryAfterSeconds
  simp only [h, hnan, if_neg hempty]
  rfl

/-- A `Retry-After` that is heeded is `nan` or within the cap. -/
theorem retryAfterSeconds_cases {secs : Double} (h : retryAfterSeconds resp = some secs) :
    (∃ raw, resp.retryAfter = some raw ∧ Double.ofText raw = some .nan) ∨
      ∃ q : ℚ, secs = .finite q ∧ 0 ≤ q ∧ q ≤ retryAfterHonorCapSeconds := by
  unfold retryAfterSeconds at h
  cases hraw : resp.retryAfter with
  | none => simp [hraw] at h
  | some raw =>
    simp only [hraw] at h
    split_ifs at h
    cases hsecs : Double.ofText raw with
    | none => simp [hsecs] at h
    | some x =>
      simp only [hsecs] at h
      split_ifs at h with hneg
      obtain rfl := Option.some.inj h
      cases x with
      | nan => exact .inl ⟨raw, rfl, hsecs⟩
      | infinite neg =>
        cases neg
        · exact .inr ⟨retryAfterHonorCapSeconds, rfl, honorCap_nonneg, le_rfl⟩
        · exact absurd rfl hneg
      | finite q => exact .inr (finite_min (by simpa [Double.lt] using hneg))

/-- So is what is slept for. -/
theorem delay_cases (h : isTransient resp.statusCode = true) (attempt : ℕ) (draw : Draw) :
    (retryAfterSeconds resp).getD (.finite (retryBackoffSeconds attempt draw)) = .nan ∧ NanAfter (.response resp) ∨
      (∃ q : ℚ, (retryAfterSeconds resp).getD (.finite (retryBackoffSeconds attempt draw)) = .finite q ∧ 0 ≤ q ∧
        q ≤ retryAfterHonorCapSeconds) ∧ ¬NanAfter (.response resp) := by
  by_cases hnan : NanAfter (.response resp)
  · obtain ⟨-, raw, hraw, htext⟩ := hnan
    exact .inl ⟨by rw [retryAfterSeconds_nan hraw (Double.ofText_eq_nan_iff.mpr htext)]; rfl, h, raw, hraw, htext⟩
  · refine .inr ⟨?_, hnan⟩
    cases hsecs : retryAfterSeconds resp with
    | none => exact ⟨_, rfl, retryBackoffSeconds_mem attempt draw⟩
    | some secs =>
      rcases retryAfterSeconds_cases hsecs with ⟨raw, hraw, htext⟩ | hq
      · exact absurd ⟨h, raw, hraw, Double.ofText_eq_nan_iff.mp htext⟩ hnan
      · exact hq

theorem refusal_finite {q : ℚ} (h : 0 ≤ q) (hcap : q ≤ retryAfterHonorCapSeconds) : refusal (ε := ε) (.finite q) = none := by
  unfold retryAfterHonorCapSeconds at hcap
  unfold refusal
  have hnonneg : ¬q < 0 := not_lt.mpr h
  have hsmall : ¬2 ^ 63 ≤ q * 10 ^ 9 := by
    rw [not_le]
    linarith
  simp only [if_neg hnonneg, if_neg hsmall]

theorem ends_cons {l : List Outcome} {e : Except (Raised ε) Response} (h : AskedAgain o) :
    Ends permanentHandler (o :: l) e ↔ Ends permanentHandler l e := by
  cases e with
  | ok resp =>
    refine and_congr_right fun _ => and_congr_right fun hresp => ⟨?_, ?_⟩
    · rintro ⟨front, heq, hfront⟩
      cases front with
      | nil =>
        obtain ⟨rfl, -⟩ := List.cons.inj heq
        exact absurd h hresp
      | cons o' front => exact ⟨front, (List.cons.inj heq).2, fun x hx => hfront x (List.mem_cons_of_mem _ hx)⟩
    · rintro ⟨front, rfl, hfront⟩
      exact ⟨o :: front, rfl, List.forall_mem_cons.mpr ⟨h, hfront⟩⟩
  | error e =>
    cases e with
    | runtimeError | valueError | overflowError => exact Iff.rfl
    | handler e =>
      refine exists_congr fun f => exists_congr fun resp => and_congr_right fun _ => ⟨?_, ?_⟩
      · rintro ⟨hmem, hresp, hraises⟩
        rcases List.mem_cons.mp hmem with rfl | hmem
        · exact absurd h hresp
        · exact ⟨hmem, hresp, hraises⟩
      · rintro ⟨hmem, hrest⟩
        exact ⟨List.mem_cons_of_mem _ hmem, hrest⟩

/-- A request that is followed by others leaves what is promised to what follows. -/
theorem bounded_after (h : AskedAgain o) : Bounded permanentHandler (m + 1) (.after o r) ↔ Bounded permanentHandler m r := by
  constructor
  · intro hb
    refine ⟨Nat.le_of_succ_le_succ hb.requests, hb.sleeps, fun front o' rest heq => ?_, (ends_cons h).mp hb.ending⟩
    exact hb.settled (o :: front) o' rest (congrArg (o :: ·) heq)
  · intro hb
    refine ⟨Nat.succ_le_succ hb.requests, hb.sleeps, fun front o' rest heq hsettled => ?_, (ends_cons h).mpr hb.ending⟩
    cases front with
    | nil =>
      obtain ⟨rfl, -⟩ := List.cons.inj heq
      exact absurd h hsettled
    | cons _ front => exact hb.settled front o' rest (List.cons.inj heq).2 hsettled

/-- A sleep within the cap leaves it to what follows, too. -/
theorem bounded_sleeping {q : ℚ} (h : 0 ≤ q) (hcap : q ≤ retryAfterHonorCapSeconds) :
    Bounded permanentHandler m (sleeping (.finite q) r) ↔ Bounded permanentHandler m r := by
  have hsleeping : sleeping (.finite q) r = ⟨.sleep (.finite q) :: r.events, r.ending⟩ := by
    unfold sleeping
    rw [refusal_finite h hcap]
  rw [hsleeping]
  constructor
  · intro hb
    exact ⟨hb.requests, fun secs hsecs => hb.sleeps secs (List.mem_cons_of_mem _ hsecs), hb.settled, hb.ending⟩
  · intro hb
    refine ⟨hb.requests, fun secs hsecs => ?_, hb.settled, hb.ending⟩
    rcases List.mem_cons.mp hsecs with rfl | hsecs
    · exact ⟨q, rfl, h, hcap⟩
    · exact hb.sleeps secs hsecs

theorem not_bounded_nan : ¬Bounded permanentHandler m (sleeping .nan r) := fun hb => hb.ending

/-- A response that is not asked for again is the last. -/
theorem bounded_last {e : Except (Raised ε) Response} (h : Ends permanentHandler [o] e) :
    Bounded permanentHandler (m + 1) (.after o ⟨[], e⟩) := by
  refine ⟨Nat.succ_le_succ (Nat.zero_le m), fun secs hsecs => (by cases hsecs), fun front o' rest heq _ => ?_, h⟩
  have hlength := congrArg List.length heq
  have hone : (requestsOf (Ran.after o (⟨[], e⟩ : Ran ε)).events).length = 1 := rfl
  rw [hone, List.length_append, List.length_cons] at hlength
  exact List.length_eq_zero_iff.mp (by omega)

theorem ends_rejection {opName : String} (h : ¬AskedAgain (.response resp)) :
    Ends permanentHandler [.response resp] (.error (rejection opName permanentHandler resp)) := by
  unfold rejection
  cases hraises : permanentHandler.bind fun f => f resp with
  | none => exact trivial
  | some e =>
    obtain ⟨f, hf, he⟩ := Option.bind_eq_some_iff.mp hraises
    exact ⟨f, resp, hf, List.mem_singleton_self _, h, he⟩

end Bounds

section Theorems

variable {ε : Type} (opName : String) (permanentHandler : Option (Response → Option ε)) (doRequest : ℕ → Outcome) (draw : ℕ → Draw)

/-- One attempt: the promise is about the next ones, if there are any, and this one's `Retry-After`. -/
theorem bounded_attempt {attempt m : ℕ} (h : attempt + m = retryMaxAttempts) {rest : List ℕ} :
    Bounded permanentHandler (m + 1) (attempts opName permanentHandler doRequest draw (attempt :: rest)) ↔
      (AskedAgain (doRequest attempt) → attempt < retryMaxAttempts →
        ¬NanAfter (doRequest attempt) ∧ Bounded permanentHandler m (attempts opName permanentHandler doRequest draw rest)) := by
  rw [attempts.eq_2]
  cases ho : doRequest attempt with
  | networkError exc =>
    have hasked : AskedAgain (.networkError exc) := trivial
    dsimp only
    split_ifs with hlast
    · exact iff_of_true (bounded_last trivial) fun _ hlt => absurd hlast (by omega)
    · rw [bounded_after hasked, bounded_sleeping (retryBackoffSeconds_mem _ _).1 (retryBackoffSeconds_mem _ _).2]
      exact ⟨fun hb _ _ => ⟨id, hb⟩, fun hb => (hb hasked (by omega)).2⟩
  | response resp =>
    dsimp only
    split_ifs with htransient hlast hpermanent
    · exact iff_of_true (bounded_last trivial) fun _ hlt => absurd hlast (by omega)
    · have hasked : AskedAgain (.response resp) := htransient
      rw [bounded_after hasked]
      rcases delay_cases htransient attempt (draw attempt) with ⟨hdelay, hnan⟩ | ⟨⟨q, hdelay, hq, hcap⟩, hnan⟩
      · rw [hdelay]
        exact iff_of_false not_bounded_nan fun hb => (hb hasked (by omega)).1 hnan
      · rw [hdelay, bounded_sleeping hq hcap]
        exact ⟨fun hb _ _ => ⟨hnan, hb⟩, fun hb => (hb hasked (by omega)).2⟩
    · exact iff_of_true (bounded_last (ends_rejection htransient)) fun hasked => absurd hasked htransient
    · exact iff_of_true (bounded_last ⟨not_le.mp hpermanent, htransient, [], rfl, fun _ hx => by cases hx⟩)
        fun hasked => absurd hasked htransient

/-- From an attempt on. -/
theorem bounded_from {a m : ℕ} (h : a + m = retryMaxAttempts + 1) :
    Bounded permanentHandler m (attempts opName permanentHandler doRequest draw (List.range' a m)) ↔
      ∀ n, a ≤ n → n < retryMaxAttempts → (∀ k, a ≤ k → k ≤ n → AskedAgain (doRequest k)) → ¬NanAfter (doRequest n) := by
  induction m generalizing a with
  | zero =>
    refine iff_of_true ⟨le_rfl, fun secs hsecs => (by cases hsecs), fun front o rest heq _ => ?_, trivial⟩ fun n hn hlt => by omega
    exact absurd heq (by cases front <;> exact fun h => by cases h)
  | succ m ih =>
    rw [List.range'_succ, bounded_attempt _ _ _ _ (by omega), ih (by omega)]
    constructor
    · intro hb n hn hlt hasked
      obtain ⟨hnan, hrest⟩ := hb (hasked a le_rfl hn) (by omega)
      rcases Nat.eq_or_lt_of_le hn with rfl | hlater
      · exact hnan
      · exact hrest n hlater hlt fun k hk => hasked k (by omega)
    · intro hall hasked hlt
      refine ⟨hall a le_rfl hlt fun k hk hk' => ?_, fun n hn hlt' hasked' => hall n (by omega) hlt' fun k hk hk' => ?_⟩
      · rw [Nat.le_antisymm hk' hk]
        exact hasked
      · rcases Nat.eq_or_lt_of_le hk with rfl | hlater
        · exact hasked
        · exact hasked' k hlater hk'

/-- **The retries keep what is promised** just if no response that is asked for again, before the last attempt, asks for `nan`
seconds. -/
theorem bounded_iff : Bounded permanentHandler retryMaxAttempts (requestWithRetry opName permanentHandler doRequest draw) ↔
    ∀ n, 1 ≤ n → n < retryMaxAttempts → (∀ k, 1 ≤ k → k ≤ n → AskedAgain (doRequest k)) → ¬NanAfter (doRequest n) :=
  bounded_from opName permanentHandler doRequest draw (Nat.add_comm _ _)

end Theorems

/-- A server that is busy, and asks to come again after `nan` seconds. -/
def busy : Response := ⟨503, some "NaN", none, "busy"⟩

/-- The first sleep is one of `nan` seconds: a `ValueError` leaves the retries after one request. -/
theorem nan_raises : ¬∀ (opName : String) (permanentHandler : Option (Response → Option Empty)) (doRequest : ℕ → Outcome)
    (draw : ℕ → Draw), Bounded permanentHandler retryMaxAttempts (requestWithRetry opName permanentHandler doRequest draw) := by
  intro h
  have hb := h "Fleet enrollment" none (fun _ => .response busy) fun _ => ⟨0, le_rfl, by decide⟩
  have hnan : NanAfter (.response busy) := ⟨by decide, "NaN", rfl, by decide⟩
  exact ((bounded_attempt _ _ _ _ (m := 7) rfl).mp hb hnan.1 (by decide)).1 hnan

end Onboarding
end LocaiLink
