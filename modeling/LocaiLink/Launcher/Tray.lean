/-
# The tray's update lock

A click on the tray's Update item or in Preferences claims `update_in_flight` and
posts the update to the agent. `poll_forever` gives it back: when the supervisor
has restarted the runtime for an update since, or when its own inference, which
takes an agent that goes down with an update available to be updating, is over.
The inference is also given up after a number of polls, and knows nothing of the
trigger. `released_on_signal_iff` says when the lock is released on a signal only.
-/
import LocaiLink.Launcher.Control

namespace LocaiLink.Launcher.Tray

/-! ### The poll loop -/

/-- What `agent_health` finds. -/
inductive Health
  | up (updateAvailable : Bool)
  | down
  | malformed
  deriving DecidableEq

def Health.isUp : Health → Bool
  | .up _ => true
  | .down | .malformed => false

def Health.hasUpdate : Health → Bool
  | .up updateAvailable => updateAvailable
  | .down | .malformed => false

/-- What `poll_forever` keeps from one turn to the next. -/
structure Poll where
  updating : Bool
  updateSawDown : Bool
  prevUpWithUpdate : Bool
  updateDownPolls : ℕ
  deriving DecidableEq

def maxUpdateDownPolls : ℕ := 60

namespace Poll

/-- `updating = true` when an agent with an update available has gone down. -/
def drop (p : Poll) (h : Health) : Poll := if p.prevUpWithUpdate && !h.isUp then { p with updating := true } else p

/-- A poll that finds the agent down while it is updating is counted, up to the cap. -/
def count (p : Poll) (h : Health) : Poll :=
  if p.updating && !h.isUp then
    if p.updateDownPolls + 1 ≥ maxUpdateDownPolls then
      { p with updating := false, updateSawDown := false, updateDownPolls := p.updateDownPolls + 1 }
    else { p with updateSawDown := true, updateDownPolls := p.updateDownPolls + 1 }
  else p

/-- The agent is back. -/
def resolve (p : Poll) (h : Health) : Poll :=
  if p.updating && p.updateSawDown && h.isUp then { p with updating := false, updateSawDown := false } else p

def rest (p : Poll) : Poll := if !p.updating then { p with updateDownPolls := 0 } else p

/-- The inference of one turn. -/
def infer (p : Poll) (h : Health) : Poll := (((p.drop h).count h).resolve h).rest

end Poll

/-! ### The lock, and who claims it -/

/-- Of the `MenuHandles`, what updates are about. -/
structure MenuHandles where
  updateInFlight : Bool
  updateRestartEpochAtTrigger : Option ℕ
  deriving DecidableEq

namespace MenuHandles

/-- The slot is claimed, if it is free. -/
def claim (h : MenuHandles) (epoch : ℕ) : Option MenuHandles := if h.updateInFlight then none else some ⟨true, some epoch⟩

def release (_ : MenuHandles) : MenuHandles := ⟨false, none⟩

/-- `epoch_advanced` -/
def epochAdvanced (h : MenuHandles) (epoch : ℕ) : Bool := h.updateRestartEpochAtTrigger.any (· < epoch)

end MenuHandles

/-- What has happened, as the statements tell it; no step reads it. -/
inductive Mark
  | accepted (trigger epoch : ℕ)
  | observed (h : Health)
  deriving DecidableEq

/-- The shared state, the loop with the answer it goes on with, the supervisor,
the triggers whose POST is under way, and the marks, the newest first. -/
structure State where
  handles : MenuHandles
  poll : Poll
  answer : Option Health
  supervised : Supervised
  posts : List ℕ
  triggers : ℕ
  marks : List Mark

namespace State

def epoch (s : State) : ℕ := s.supervised.control.updateRestartEpoch

/-- The tray at its start, beside a supervisor. -/
def opened (supervised : Supervised) : State := ⟨⟨false, none⟩, ⟨false, false, false, 0⟩, none, supervised, [], 0, []⟩

/-- A trigger that claims the slot goes on to its POST. -/
def claim (s : State) : State :=
  match s.handles.claim s.epoch with
  | none => s
  | some h =>
    { s with
      handles := h, posts := s.triggers :: s.posts, triggers := s.triggers + 1
      marks := .accepted s.triggers s.epoch :: s.marks }

/-- `handle_menu_event` with `MENU_ID_UPDATE`. -/
def handleMenuUpdate (s : State) : State := s.claim

/-- `install_update`. -/
def installUpdate (s : State) : State := s.claim

/-- A POST is answered; one that fails gives the slot back. -/
def posted (s : State) (trigger : ℕ) (ok : Bool) : State :=
  if trigger ∈ s.posts then
    { s with posts := s.posts.erase trigger, handles := if ok then s.handles else s.handles.release }
  else s

/-- A turn of the loop begins with the agent's health. -/
def ask (s : State) (h : Health) : State :=
  if s.answer = none then { s with answer := some h, marks := .observed h :: s.marks } else s

/-- The rest of the turn: the inference, and the lock. -/
def settle (s : State) : State :=
  match s.answer with
  | none => s
  | some h =>
    let poll := s.poll.infer h
    { s with
      answer := none
      poll := { poll with prevUpWithUpdate := h.isUp && h.hasUpdate }
      handles := if s.handles.epochAdvanced s.epoch || (s.poll.updating && !poll.updating) then s.handles.release
        else s.handles }

end State

/-- A click, the answer of a POST, a step of the loop, or of the supervisor. -/
inductive Event
  | menuUpdate
  | installUpdate
  | posted (trigger : ℕ) (ok : Bool)
  | ask (h : Health)
  | settle
  | supervisor (e : Launcher.Event)

namespace State

def step (s : State) : Event → State
  | .menuUpdate => s.handleMenuUpdate
  | .installUpdate => s.installUpdate
  | .posted trigger ok => s.posted trigger ok
  | .ask h => s.ask h
  | .settle => s.settle
  | .supervisor e => { s with supervised := s.supervised.step e }

/-- Every step of the run, from the state it finds. -/
def Along (P : State → Event → Prop) : State → List Event → Prop
  | _, [] => True
  | s, e :: l => P s e ∧ Along P (s.step e) l

end State

/-! ### What releases the lock -/

/-- The trigger that was accepted last, and the epoch at that moment. -/
def lastAccepted : List Mark → Option (ℕ × ℕ)
  | [] => none
  | .accepted i epoch :: _ => some (i, epoch)
  | .observed _ :: l => lastAccepted l

/-- What the polls have observed since, the newest first. -/
def observedSince : List Mark → List Health
  | [] => []
  | .accepted _ _ :: _ => []
  | .observed h :: l => h :: observedSince l

/-- The agent is up, after it was down. -/
def UpAfterDown : List Health → Prop
  | [] => False
  | h :: l => h.isUp = true ∧ ∃ g ∈ l, g.isUp = false

namespace State

/-- The POST is that of the trigger that was accepted last. -/
def IsLast (s : State) (i : ℕ) : Prop := (lastAccepted s.marks).any (·.1 = i) = true

/-- The supervisor has restarted the runtime for an update since the last acceptance. -/
def EpochPassed (s : State) : Prop := (lastAccepted s.marks).any (·.2 < s.epoch) = true

/-- What may end an update: the failure of its own POST, and a poll that finds its
epoch passed, or the agent up after it was down since. -/
def Signal (s : State) : Event → Prop
  | .posted i ok => ok = false ∧ s.IsLast i
  | .settle => s.EpochPassed ∨ UpAfterDown (observedSince s.marks)
  | _ => False

/-- The lock is released on a signal only, and while it is held a trigger is refused. -/
structure Guarded (s : State) (e : Event) : Prop where
  released : s.handles.updateInFlight = true → (s.step e).handles.updateInFlight = false → s.Signal e
  refused : s.handles.updateInFlight = true → e = .menuUpdate ∨ e = .installUpdate → s.step e = s

/-- A POST fails while no later trigger holds the lock; and a turn under a lock
whose epoch has not passed is not the last down poll that is counted, and is not
the end of an inference for which the agent was down before the trigger only. -/
def Timely (s : State) : Event → Prop
  | .posted i false => i ∈ s.posts → s.handles.updateInFlight = true → s.IsLast i
  | .settle => ∀ h, s.answer = some h → s.handles.updateInFlight = true → ¬s.EpochPassed →
      s.poll.updating = true → if h.isUp then s.poll.updateSawDown = true → UpAfterDown (observedSince s.marks)
        else s.poll.updateDownPolls + 1 < maxUpdateDownPolls
  | _ => True

end State

/-! ### One step -/

/-- An update that is being shown is over when the agent is up after a down poll, or
when it was down often enough. -/
theorem Poll.infer_updating {p : Poll} (h : Health) (hp : p.updating = true) :
    (p.infer h).updating = if h.isUp then !p.updateSawDown else decide (p.updateDownPolls + 1 < maxUpdateDownPolls) := by
  obtain ⟨updating, sawDown, prevUp, downPolls⟩ := p
  obtain rfl : updating = true := hp
  cases hup : h.isUp with
  | true => cases sawDown <;> simp [infer, drop, count, resolve, rest, hup]
  | false =>
    by_cases hcap : downPolls + 1 ≥ maxUpdateDownPolls
    · have hover : ¬downPolls + 1 < maxUpdateDownPolls := Nat.not_lt.mpr hcap
      cases prevUp <;> simp [infer, drop, count, resolve, rest, hup, hcap, hover]
    · have hunder : downPolls + 1 < maxUpdateDownPolls := Nat.lt_of_not_le hcap
      cases prevUp <;> simp [infer, drop, count, resolve, rest, hup, hcap, hunder]

namespace State

variable {s : State}

/-- A lock that is held has the epoch of the last acceptance, and the answer the loop
goes on with is the newest since, or from before. -/
structure Sound (s : State) : Prop where
  held : s.handles.updateInFlight = true → s.handles.updateRestartEpochAtTrigger = (lastAccepted s.marks).map (·.2)
  answered : ∀ h, s.answer = some h → ∀ g l, observedSince s.marks = g :: l → g = h

theorem sound_opened (supervised : Supervised) : (opened supervised).Sound :=
  ⟨fun h => (by cases h), fun _ h => (by cases h)⟩

theorem Sound.claim (hs : s.Sound) : s.claim.Sound := by
  unfold State.claim MenuHandles.claim
  split_ifs
  · exact hs
  · exact ⟨fun _ => rfl, fun _ _ _ _ hsince => (by cases hsince)⟩

theorem Sound.step (hs : s.Sound) (e : Event) : (s.step e).Sound := by
  cases e with
  | menuUpdate => exact hs.claim
  | installUpdate => exact hs.claim
  | posted trigger ok =>
    show (s.posted trigger ok).Sound
    unfold State.posted
    split_ifs with hpost hok
    · exact ⟨hs.held, hs.answered⟩
    · exact ⟨fun h => (by cases h), hs.answered⟩
    · exact hs
  | ask h =>
    show (s.ask h).Sound
    unfold State.ask
    split_ifs with hanswer
    · refine ⟨hs.held, fun g hg g' l hsince => ?_⟩
      obtain rfl := Option.some.inj hg
      exact (List.cons.inj hsince).1.symm
    · exact hs
  | settle =>
    show s.settle.Sound
    unfold State.settle
    split
    · exact hs
    · refine ⟨fun h => ?_, fun _ hanswer => by cases hanswer⟩
      simp only at h ⊢
      split_ifs at h ⊢
      · cases h
      · exact hs.held h
  | supervisor e => exact ⟨hs.held, hs.answered⟩

/-- A trigger that finds the lock held changes nothing. -/
theorem claim_of_held (h : s.handles.updateInFlight = true) : s.claim = s := by
  unfold State.claim MenuHandles.claim
  rw [if_pos h]

theorem guarded_posted_iff (i : ℕ) (ok : Bool) : s.Guarded (.posted i ok) ↔ s.Timely (.posted i ok) := by
  have hstep : s.step (.posted i ok) = s.posted i ok := rfl
  constructor
  · intro h
    cases ok with
    | true => trivial
    | false =>
      intro hpost hheld
      refine (h.released hheld ?_).2
      rw [hstep, posted, if_pos hpost]
      rfl
  · intro h
    refine ⟨fun hheld hreleased => ?_, fun _ he => by rcases he with he | he <;> cases he⟩
    by_cases hpost : i ∈ s.posts
    · cases ok with
      | false => exact ⟨rfl, h hpost hheld⟩
      | true =>
        rw [hstep, posted, if_pos hpost] at hreleased
        exact absurd (hheld.symm.trans hreleased) (by decide)
    · rw [hstep, posted, if_neg hpost, hheld] at hreleased
      cases hreleased

/-- When a turn of the loop releases the lock. -/
theorem settle_releases (hs : s.Sound) {h : Health} (hanswer : s.answer = some h) (hheld : s.handles.updateInFlight = true) :
    (s.step .settle).handles.updateInFlight = false ↔ s.EpochPassed ∨
      (s.poll.updating = true ∧ (s.poll.infer h).updating = false) := by
  have hpassed : s.EpochPassed ↔ s.handles.epochAdvanced s.epoch = true := by
    rw [MenuHandles.epochAdvanced, hs.held hheld, EpochPassed, Option.any_map]
  rw [hpassed]
  show s.settle.handles.updateInFlight = false ↔ _
  unfold settle
  rw [hanswer]
  simp only
  split_ifs with hover
  · simpa [MenuHandles.release] using hover
  · simpa [hheld] using hover

theorem guarded_settle_iff (hs : s.Sound) : s.Guarded .settle ↔ s.Timely .settle := by
  constructor
  · intro hg h hanswer hheld hepoch hupdating
    have hsignal (hend : (s.poll.infer h).updating = false) : UpAfterDown (observedSince s.marks) := by
      have hreleased := (settle_releases hs hanswer hheld).mpr (.inr ⟨hupdating, hend⟩)
      exact (hg.released hheld hreleased).resolve_left hepoch
    rw [Poll.infer_updating h hupdating] at hsignal
    split_ifs at hsignal ⊢ with hup
    · intro hsaw
      exact hsignal (by rw [hsaw]; rfl)
    · by_contra hcap
      have hback := hsignal (decide_eq_false hcap)
      cases hsince : observedSince s.marks with
      | nil =>
        rw [hsince] at hback
        exact hback
      | cons g l =>
        rw [hsince] at hback
        obtain rfl := hs.answered h hanswer g l hsince
        exact hup hback.1
  · intro ht
    refine ⟨fun hheld hreleased => ?_, fun _ he => by rcases he with he | he <;> cases he⟩
    cases hanswer : s.answer with
    | none =>
      have hsame : s.step .settle = s := by
        show s.settle = s
        rw [settle, hanswer]
      rw [hsame, hheld] at hreleased
      cases hreleased
    | some h =>
      by_cases hepoch : s.EpochPassed
      · exact .inl hepoch
      obtain ⟨hupdating, hend⟩ := ((settle_releases hs hanswer hheld).mp hreleased).resolve_left hepoch
      have htimely := ht h hanswer hheld hepoch hupdating
      rw [Poll.infer_updating h hupdating] at hend
      split_ifs at hend htimely
      · exact .inr (htimely (by simpa using hend))
      · exact absurd htimely (of_decide_eq_false hend)

theorem guarded_iff (hs : s.Sound) (e : Event) : s.Guarded e ↔ s.Timely e := by
  have hquiet (hkeeps : s.handles.updateInFlight = true → (s.step e).handles.updateInFlight = true)
      (hrefuses : s.handles.updateInFlight = true → e = .menuUpdate ∨ e = .installUpdate → s.step e = s) : s.Guarded e := by
    refine ⟨fun hheld hreleased => ?_, hrefuses⟩
    rw [hkeeps hheld] at hreleased
    cases hreleased
  have hclaim (hheld : s.handles.updateInFlight = true) : s.claim.handles.updateInFlight = true := by
    rw [claim_of_held hheld]
    exact hheld
  cases e with
  | menuUpdate => exact iff_of_true (hquiet hclaim fun hheld _ => claim_of_held hheld) trivial
  | installUpdate => exact iff_of_true (hquiet hclaim fun hheld _ => claim_of_held hheld) trivial
  | posted i ok => exact guarded_posted_iff i ok
  | ask h =>
    refine iff_of_true (hquiet (fun hheld => ?_) fun _ he => by rcases he with he | he <;> cases he) trivial
    show (s.ask h).handles.updateInFlight = true
    unfold ask
    split_ifs <;> exact hheld
  | settle => exact guarded_settle_iff hs
  | supervisor e => exact iff_of_true (hquiet (fun hheld => hheld) fun _ he => by rcases he with he | he <;> cases he) trivial

/-! ### Runs -/

theorem along_iff {P Q : State → Event → Prop} (h : ∀ s e, s.Sound → (P s e ↔ Q s e)) :
    ∀ (events : List Event) (s : State), s.Sound → (Along P s events ↔ Along Q s events)
  | [], _, _ => Iff.rfl
  | e :: events, s, hs => and_congr (h s e hs) (along_iff h events (s.step e) (hs.step e))

/-- **The lock is released on a signal, exactly.** In every run of triggers, answers
of their POSTs, polls and steps of the supervisor, the lock is released by a signal
only and refuses every trigger meanwhile, just if every step is timely. -/
theorem released_on_signal_iff (supervised : Supervised) (events : List Event) :
    Along Guarded (opened supervised) events ↔ Along Timely (opened supervised) events :=
  along_iff (fun _ e hs => guarded_iff hs e) events _ (sound_opened supervised)

/-- A poll, and the rest of its turn. -/
def polled (h : Health) : List Event := [.ask h, .settle]

theorem along_last {P : State → Event → Prop} {e : Event} :
    ∀ (events : List Event) (s : State), Along P s (events ++ [e]) → P (events.foldl step s) e
  | [], _, h => h.1
  | e' :: events, s, h => along_last events (s.step e') h.2

/-- An update is accepted, the agent goes down for it, and the next poll is the
sixtieth that finds it down. -/
def slowUpdate : List Event :=
  polled (.up true) ++ [.menuUpdate, .posted 0 true] ++ (List.replicate 59 (polled .down)).flatten ++ [.ask .down]

/-- The sixtieth poll releases the lock. -/
theorem released_by_count : ¬Along Guarded (opened (.starting .wanting)) (slowUpdate ++ [.settle]) := by
  rw [released_on_signal_iff]
  intro h
  have htimely := along_last _ _ h
  have hstate : let s := slowUpdate.foldl step (opened (.starting .wanting))
      s.answer = some .down ∧ s.handles.updateInFlight = true ∧ (lastAccepted s.marks).any (·.2 < s.epoch) = false ∧
        s.poll.updating = true ∧ s.poll.updateDownPolls = 59 := by
    decide +kernel
  obtain ⟨hanswer, hheld, hepoch, hupdating, hpolls⟩ := hstate
  have hcap := htimely _ hanswer hheld (Bool.not_eq_true _ ▸ hepoch) hupdating
  rw [hpolls] at hcap
  simp [Health.isUp, maxUpdateDownPolls] at hcap

end State

end LocaiLink.Launcher.Tray
