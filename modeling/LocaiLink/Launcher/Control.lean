import Mathlib.Data.List.Basic
import Mathlib.Tactic.Common
/-
# The launcher's loop and its control

`supervise_forever` keeps the runtime up while `SupervisorControl` wants it
up. The windows and the tray ask for a start, a stop or a restart at any time,
each by one access under the control's lock; the loop looks at the control
between its own steps (`loopStep`), so requests fall between any two of them.

After the last request `want_running` is what it asked for, until a child's
exit 0 is handled, and a child spawned with no restart pending is killed for a
request only where that request was a stop (`control_keeps`).
-/

namespace LocaiLink.Launcher

/-! ### The control -/

structure ControlState where
  wantRunning : Bool
  restart : Bool
  running : Bool
  updateRestartEpoch : Nat
  deriving DecidableEq

/-- `SupervisorControl::default`. -/
def ControlState.default : ControlState := ⟨false, false, false, 0⟩

/-- `SupervisorControl::running`. -/
def ControlState.wanting : ControlState := { ControlState.default with wantRunning := true }

inductive Request
  | start
  | stop
  | restart
  deriving DecidableEq

namespace Request

/-- `start`, `stop` and `restart`. -/
def apply : Request → ControlState → ControlState
  | .start, c => { c with wantRunning := true }
  | .stop, c => { c with wantRunning := false }
  | .restart, c => { c with wantRunning := true, restart := true }

/-- What is wanted by a request. -/
def asks : Request → Bool
  | .start => true
  | .stop => false
  | .restart => true

theorem apply_wantRunning (r : Request) (c : ControlState) : (r.apply c).wantRunning = r.asks := by
  cases r <;> rfl

end Request

/-! ### The loop -/

/-- The runtime asks for a restart after an update. -/
def exitRestartForUpdate : Int := 42

inductive Outcome
  | interrupted
  /-- The code, none for a signal. -/
  | exited (code : Option Int)
  deriving DecidableEq

/-- Where the loop is. The access of the control named by a point is its next step. -/
inductive Point
  /-- `if !control.want_running()` -/
  | top
  /-- `control.set_running(false)`, before the loop sleeps and goes on -/
  | idling
  /-- the identity, before a spawn -/
  | registering
  /-- the version that `current` names, or a bootstrap, and its runtime file -/
  | resolving
  /-- `command.spawn()` -/
  | spawning
  /-- `control.set_running(true)` -/
  | spawned
  /-- `!control.want_running()`, with a child -/
  | wanting
  /-- `control.take_restart()` -/
  | restarting
  /-- the identity again, at most once a second -/
  | checking
  /-- `child.try_wait()` -/
  | polling
  /-- `control.set_running(false)`, the child gone -/
  | ended (o : Outcome)
  /-- `match outcome` -/
  | handling (o : Outcome)
  deriving DecidableEq

/-- What a step of the loop finds outside the control. -/
structure Surroundings where
  registered : Bool
  /-- `resolve_current_version`, or else what a bootstrap installed -/
  version : Option String
  runtimeThere : Bool
  spawns : Bool
  /-- a second went by, and another valid identity is there -/
  identityChanged : Bool
  /-- `try_wait`, none where it raises -/
  waited : Option (Option (Option Int))
  /-- `try_rollback`, its errors taken as false -/
  rolledBack : Bool

/-- The control, and the loop with its variables. -/
structure Supervised where
  control : ControlState
  point : Point
  version : String
  backoff : Nat
  deriving DecidableEq

/-- `next_backoff`, in seconds. -/
def nextBackoff (b : Nat) : Nat := min (b * 2) 30

namespace Supervised

/-- The loop at its start. -/
def starting (c : ControlState) : Supervised := ⟨c, .top, "", 1⟩

/-- `match outcome`. -/
def handle (s : Supervised) (o : Outcome) (e : Surroundings) : Supervised :=
  match o with
  | .interrupted => { s with point := .top, backoff := 1 }
  | .exited code =>
    if code = some exitRestartForUpdate then
      { s with
        point := .top, backoff := 1
        control := { s.control with updateRestartEpoch := s.control.updateRestartEpoch + 1 } }
    else if code = some 0 then { s with point := .top, control := Request.stop.apply s.control }
    else if e.rolledBack then { s with point := .top, backoff := 1 }
    else { s with point := .top, backoff := nextBackoff s.backoff }

/-- The next step of `supervise_forever`. -/
def loopStep (s : Supervised) (e : Surroundings) : Supervised :=
  match s.point with
  | .top => if s.control.wantRunning then { s with point := .registering } else { s with point := .idling }
  | .idling => { s with point := .top, control := { s.control with running := false } }
  | .registering => if e.registered then { s with point := .resolving } else { s with point := .idling }
  | .resolving =>
    match e.version with
    | none => { s with point := .top, backoff := nextBackoff s.backoff }
    | some v =>
      if e.runtimeThere then { s with point := .spawning, version := v }
      else { s with point := .top, backoff := nextBackoff s.backoff }
  | .spawning => if e.spawns then { s with point := .spawned } else { s with point := .top, backoff := nextBackoff s.backoff }
  | .spawned => { s with point := .wanting, control := { s.control with running := true } }
  | .wanting => if s.control.wantRunning then { s with point := .restarting } else { s with point := .ended .interrupted }
  | .restarting =>
    { s with
      point := if s.control.restart then .ended .interrupted else .checking
      control := { s.control with restart := false } }
  | .checking => if e.identityChanged then { s with point := .ended .interrupted } else { s with point := .polling }
  | .polling =>
    match e.waited with
    | some (some code) => { s with point := .ended (.exited code) }
    | some none => { s with point := .wanting }
    | none => { s with point := .ended (.exited (some 1)) }
  | .ended o => { s with point := .handling o, control := { s.control with running := false } }
  | .handling o => s.handle o e

end Supervised

/-- A request from a window or the tray, or a step of the loop. -/
inductive Event
  | request (r : Request)
  | loop (e : Surroundings)

namespace Supervised

def step (s : Supervised) : Event → Supervised
  | .request r => { s with control := r.apply s.control }
  | .loop e => s.loopStep e

/-- Requests and the loop's steps in any order. -/
def run (s : Supervised) (events : List Event) : Supervised := events.foldl step s

@[simp] theorem run_nil (s : Supervised) : s.run [] = s := rfl

@[simp] theorem run_cons (s : Supervised) (e : Event) (l : List Event) : s.run (e :: l) = (s.step e).run l := rfl

theorem run_append (s : Supervised) (l l' : List Event) : s.run (l ++ l') = (s.run l).run l' :=
  List.foldl_append

/-- The loop's next step kills the child for what the control holds. -/
def KillsForRequest (s : Supervised) : Prop :=
  s.point = .wanting ∧ s.control.wantRunning = false ∨ s.point = .restarting ∧ s.control.restart = true

instance (s : Supervised) : Decidable s.KillsForRequest := inferInstanceAs (Decidable (_ ∨ _))

end Supervised

/-! ### One step of the loop -/

/-- The loop has looked at what is wanted, and has no child yet. -/
def Point.Looked (p : Point) : Prop := p = .registering ∨ p = .resolving ∨ p = .spawning

namespace Supervised

variable {s : Supervised} {e : Surroundings}

/-- Without a child, and none wanted. -/
def Idle (s : Supervised) : Prop := s.control.wantRunning = false ∧ (s.point = .top ∨ s.point = .idling)

/-- A child's exit 0 on its way to a stop. -/
def Stopping (s : Supervised) : Prop :=
  s.point = .ended (.exited (some 0)) ∨ s.point = .handling (.exited (some 0)) ∨ s.Idle

/-- Every outcome leads to the top, and none asks for a restart. -/
theorem handle_point (o : Outcome) : (s.handle o e).point = .top := by
  cases o with
  | interrupted => rfl
  | exited code =>
    rw [handle]
    split_ifs <;> rfl

theorem handle_restart (o : Outcome) : (s.handle o e).control.restart = s.control.restart := by
  cases o with
  | interrupted => rfl
  | exited code =>
    rw [handle]
    split_ifs <;> rfl

theorem handle_wantRunning {o : Outcome} (h : o ≠ .exited (some 0)) :
    (s.handle o e).control.wantRunning = s.control.wantRunning := by
  cases o with
  | interrupted => rfl
  | exited code =>
    have hcode : code ≠ some 0 := fun heq => h (by rw [heq])
    rw [handle, if_neg hcode]
    split_ifs <;> rfl

/-- The loop writes what is wanted at one place only. -/
theorem loopStep_wantRunning (h : s.point ≠ .handling (.exited (some 0))) :
    (s.loopStep e).control.wantRunning = s.control.wantRunning := by
  fun_cases Supervised.loopStep s e with
  | case21 o hp =>
    have ho : o ≠ .exited (some 0) := fun heq => h (by rw [hp, heq])
    exact handle_wantRunning ho
  | _ => rfl

/-- The loop takes a restart, and never asks for one. -/
theorem loopStep_restart (h : s.control.restart = false) : (s.loopStep e).control.restart = false := by
  fun_cases Supervised.loopStep s e with
  | case14 => rfl
  | case21 o hp => exact (handle_restart o).trans h
  | _ => exact h

theorem Idle.loopStep (h : s.Idle) : (s.loopStep e).Idle := by
  obtain ⟨hw, hp | hp⟩ := h
  · rw [Supervised.loopStep, hp]
    simp [hw, Idle]
  · rw [Supervised.loopStep, hp]
    simp [hw, Idle]

theorem Stopping.loopStep (h : s.Stopping) : (s.loopStep e).Stopping := by
  rcases h with hp | hp | h
  · rw [Supervised.loopStep, hp]
    exact .inr (.inl rfl)
  · rw [Supervised.loopStep, hp]
    exact .inr (.inr ⟨rfl, .inl rfl⟩)
  · exact .inr (.inr h.loopStep)

/-- A loop that is told to stop before it looks does not go on to a spawn. -/
theorem not_looked_loopStep (hw : s.control.wantRunning = false) (h : ¬s.point.Looked) : ¬(s.loopStep e).point.Looked := by
  fun_cases Supervised.loopStep s e with
  | case14 => split_ifs <;> simp [Point.Looked]
  | case21 o hp => simp [handle_point, Point.Looked]
  | _ => simp_all [Point.Looked]

end Supervised

/-! ### Runs without a request -/

/-- The loop's own steps: no request falls between them. -/
def Quiet (l : List Event) : Prop := ∀ r, Event.request r ∉ l

theorem Quiet.tail {e : Event} {l : List Event} (h : Quiet (e :: l)) : Quiet l :=
  fun r hr => h r (List.mem_cons_of_mem e hr)

theorem Quiet.left {l l' : List Event} (h : Quiet (l ++ l')) : Quiet l :=
  fun r hr => h r (List.mem_append_left l' hr)

theorem Quiet.right {l l' : List Event} (h : Quiet (l ++ l')) : Quiet l' :=
  fun r hr => h r (List.mem_append_right l hr)

namespace Supervised

variable {s : Supervised} {l : List Event}

/-- A child's exit 0 is handled. -/
def HandlesStop (s : Supervised) (l : List Event) : Prop :=
  ∃ before e after, l = before ++ .loop e :: after ∧ (s.run before).point = .handling (.exited (some 0))

/-- `try_wait` gives a child's exit 0. -/
def SeesStop (s : Supervised) (l : List Event) : Prop :=
  ∃ before e after, l = before ++ .loop e :: after ∧ (s.run before).point = .polling ∧ e.waited = some (some (some 0))

/-- A child is spawned, and no restart is pending then. -/
def Spawns (s : Supervised) (l : List Event) : Prop :=
  ∃ before e after, l = before ++ .loop e :: after ∧ (s.run before).point = .spawning ∧ e.spawns = true ∧
    (s.run before).control.restart = false

/-- What the loop's steps keep, their runs keep. -/
theorem run_quiet {C : Supervised → Prop} (hstep : ∀ s e, C s → C (s.loopStep e)) (hl : Quiet l) (hs : C s) :
    C (s.run l) := by
  induction l generalizing s with
  | nil => exact hs
  | cons e l ih =>
    cases e with
    | request r => exact absurd List.mem_cons_self (hl r)
    | loop e => exact ih hl.tail (hstep s e hs)

/-- What is wanted stays until an exit 0 is handled. -/
theorem run_wantRunning (hl : Quiet l) (hn : ¬s.HandlesStop l) : (s.run l).control.wantRunning = s.control.wantRunning := by
  induction l generalizing s with
  | nil => rfl
  | cons e l ih =>
    cases e with
    | request r => exact absurd List.mem_cons_self (hl r)
    | loop e =>
      have hp : s.point ≠ .handling (.exited (some 0)) := fun hp => hn ⟨[], e, l, rfl, hp⟩
      have htail : ¬(s.loopStep e).HandlesStop l := by
        rintro ⟨before, e', after, rfl, hh⟩
        exact hn ⟨.loop e :: before, e', after, rfl, hh⟩
      exact (ih hl.tail htail).trans (loopStep_wantRunning hp)

/-- From an exit 0 that is seen, the loop comes to a stop. -/
theorem SeesStop.stopping (h : s.SeesStop l) (hl : Quiet l) : (s.run l).Stopping := by
  obtain ⟨before, e, after, rfl, hp, he⟩ := h
  rw [run_append, run_cons]
  have hseen : ((s.run before).step (.loop e)).Stopping := by
    refine .inl ?_
    rw [step, loopStep, hp]
    simp only [he]
  exact run_quiet (fun _ _ h => h.loopStep) hl.right.tail hseen

/-- What is wanted is what the request asked for, or the loop is idle. -/
theorem run_wanted (r : Request) (hl : Quiet l) (hs : s.control.wantRunning = r.asks) :
    (s.run l).control.wantRunning = r.asks ∨ (s.run l).Idle := by
  refine run_quiet (C := fun s => s.control.wantRunning = r.asks ∨ s.Idle) (fun s e h => ?_) hl (.inl hs)
  rcases h with h | h
  · by_cases hp : s.point = .handling (.exited (some 0))
    · right
      rw [loopStep, hp]
      exact ⟨rfl, .inl rfl⟩
    · exact .inl ((loopStep_wantRunning hp).trans h)
  · exact .inr h.loopStep

/-- A child spawned with no restart pending is killed for a request only where the
request was a stop, made when the loop had looked. -/
theorem Spawns.stopped {r : Request} (h : (s.step (.request r)).Spawns l) (hl : Quiet l)
    (hk : ((s.step (.request r)).run l).KillsForRequest) : r = .stop ∧ s.point.Looked := by
  obtain ⟨before, e, after, rfl, hp, hspawn, hrestart⟩ := h
  have hstart : (s.step (.request r)).control.wantRunning = r.asks := r.apply_wantRunning s.control
  have hstop : r = .stop := by
    rcases hk with ⟨hpoint, hw⟩ | ⟨-, hr⟩
    · rcases run_wanted r hl hstart with hasks | ⟨-, hidle⟩
      · rw [hw] at hasks
        cases r <;> first | rfl | cases hasks
      · rw [hpoint] at hidle
        simp at hidle
    · rw [run_append, run_cons] at hr
      have hnone := run_quiet (C := fun s => s.control.restart = false) (fun _ _ h => loopStep_restart h)
        hl.right.tail (loopStep_restart (e := e) hrestart)
      exact absurd (hnone.symm.trans hr) (by simp)
  refine ⟨hstop, ?_⟩
  by_contra hlooked
  have hkept := run_quiet (C := fun s => s.control.wantRunning = false ∧ ¬s.point.Looked)
    (s := s.step (.request r)) (fun s e h => ⟨?_, not_looked_loopStep h.1 h.2⟩) hl.left
    ⟨by rw [hstart, hstop]; rfl, hlooked⟩
  · exact hkept.2 (.inr (.inr hp))
  · by_cases hp : s.point = .handling (.exited (some 0))
    · rw [loopStep, hp]
      rfl
    · exact (loopStep_wantRunning hp).trans h.1

end Supervised

/-! ### The last request -/

/-- A registered device with its version installed, and the runtime up. -/
def calm : Surroundings := ⟨true, some "1.0.16", true, true, false, some none, false⟩

/-- The runtime shut itself down. -/
def shutDown : Surroundings := { calm with waited := some (some (some 0)) }

/-- From the top: the spawn, and the first look at the child. -/
def untilPolling : List Event := List.replicate 8 (.loop calm)

theorem quiet_loops (l : List Surroundings) : Quiet (l.map Event.loop) := by
  intro r hr
  simp at hr

/-- A stop that comes when the loop has looked at what is wanted. -/
def lateStop : Supervised := ((Supervised.starting .wanting).step (.loop calm)).step (.request .stop)

-- a start that comes when the loop has seen the exit 0 is lost with it
example : (Supervised.run (.starting .wanting)
    (untilPolling ++ [.loop shutDown, .request .start, .loop calm, .loop calm])).control.wantRunning = false := by
  decide +kernel

-- a restart of a loop that has no child is taken by the child it spawns then
example : (Supervised.run (.starting .default)
    (.request .restart :: List.replicate 6 (.loop calm))).KillsForRequest := by
  decide +kernel

end LocaiLink.Launcher
