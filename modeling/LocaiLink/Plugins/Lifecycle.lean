/-
# The servers of the plugins

`ModelServer` and `WhisperServer` run an engine as a child process. `start` launches it and
leaves a watcher behind, which probes it and marks the server ready, or stops it; the
adapter's heartbeat ends the adapter when the server does not run. The watchers of all
starts share the process, the stop event and the flags. `truthful_of_timely` says in which
runs the flags are truthful all the same.
-/
import LocaiLink.Base.Protocol

namespace LocaiLink
namespace Lifecycle

open Prog Machine

/-! ### What the threads share -/

/-- The attributes of the server and the adapter's flag; how many children were launched, which have
exited, and which of them have a watcher that was started and has not run yet; and the answers of
everything else. -/
structure Shared where
  process : Option ℕ
  running : Bool
  ready : Bool
  stopEvent : Bool
  adapterRunning : Bool
  launched : ℕ
  exited : List ℕ
  spawned : List ℕ
  oracle : ℕ → Bool
  tick : ℕ

namespace Shared

def ask (s : Shared) : Bool := s.oracle s.tick

def tock (s : Shared) : Shared := { s with tick := s.tick + 1 }

/-- The child that the server has as its process has exited. -/
def childExited (s : Shared) : Bool := s.process.any fun child => s.exited.any (· = child)

end Shared

/-- The steps of the code. What a watcher marks or stops has the child of its own start with it, and a
`stop` that a watcher calls has it as its owner: for the statements, no step reads it. -/
inductive Act
  -- `start`
  | isRunning (owner : Option ℕ)
  | portInUse
  | serverBinary
  | popen
  | setRunning
  | clearReady
  | clearStop
  | startMonitor
  | startWatcher (child : ℕ)
  -- `_health_watcher`
  | stopIsSet
  | hasExited
  | probe
  | waitStop
  | markReady (child : ℕ)
  | cancelled
  -- `stop`
  | setStop (owner : Option ℕ)
  | unready (owner : Option ℕ)
  | hasProcess
  | terminate (owner : Option ℕ)
  | waitExit
  | kill (owner : Option ℕ)
  | clearRunning (owner : Option ℕ)
  -- the adapter
  | leave
  | beat
  deriving DecidableEq

@[reducible] def Act.Resp : Act → Type
  | .popen => Option ℕ
  | .isRunning _ | .portInUse | .serverBinary | .startMonitor | .startWatcher _ | .stopIsSet | .hasExited | .probe | .waitStop
  | .cancelled | .hasProcess | .waitExit | .beat => Bool
  | _ => Unit

def serverSig : Sig := ⟨Act, Act.Resp, Empty⟩

instance : DecidableEq serverSig.Lock := inferInstanceAs (DecidableEq Empty)

namespace Shared

/-- What each step does, and its answer. -/
def perform : (a : Act) → Shared → a.Resp × Shared
  | .isRunning _, s => (s.running, s)
  | .portInUse, s => (s.ask, s.tock)
  | .serverBinary, s => (s.ask, s.tock)
  | .popen, s =>
    if s.ask then (some s.launched, { s with process := some s.launched, launched := s.launched + 1 }.tock) else (none, s.tock)
  | .setRunning, s => ((), { s with running := true })
  | .clearReady, s => ((), { s with ready := false })
  | .clearStop, s => ((), { s with stopEvent := false })
  | .startMonitor, s => (s.ask, s.tock)
  | .startWatcher child, s => if s.ask then (true, { s with spawned := child :: s.spawned }.tock) else (false, s.tock)
  | .stopIsSet, s => (s.stopEvent, s)
  | .hasExited, s => (s.childExited, s)
  | .probe, s => (s.ask, s.tock)
  -- the wait ends with the event that is set, or was and is cleared again
  | .waitStop, s => (s.stopEvent || s.ask, s.tock)
  | .markReady _, s => ((), { s with ready := true })
  | .cancelled, s => (s.stopEvent, s)
  | .setStop _, s => ((), { s with stopEvent := true })
  | .unready _, s => ((), { s with ready := false })
  | .hasProcess, s => (s.process.isSome, s)
  | .terminate _, s => ((), s)
  | .waitExit, s => (s.childExited, s)
  | .kill _, s => ((), s)
  | .clearRunning _, s => ((), { s with running := false })
  | .leave, s => ((), { s with adapterRunning := false })
  | .beat, s => (s.adapterRunning && s.running, { s with adapterRunning := s.adapterRunning && s.running })

end Shared

/-! ### The code -/

abbrev Code := Prog serverSig

def act (a : Act) : Code a.Resp := Prog.call (σ := serverSig) a

/-- `stop` -/
def stop (owner : Option ℕ) : Code Unit := do
  if !(← act (.isRunning owner)) then return
  act (.setStop owner)
  act (.unready owner)
  if ← act .hasProcess then
    act (.terminate owner)
    if !(← act .waitExit) then act (.kill owner)
  act (.clearRunning owner)

/-- The two servers, which differ in what a start without an engine comes to. -/
inductive Kind
  | modelServer
  | whisperServer
  deriving DecidableEq

/-- What `start` raises, or returns, when there is no engine. -/
def noEngine : Kind → Except String Unit
  | .modelServer => .error "inference engine (llama-server) not found"
  | .whisperServer => .ok ()

/-- The part of `start` that is tried. -/
def launch : Code Unit := do
  match ← act .popen with
  | none => stop none
  | some child =>
    act .setRunning
    act .clearReady
    act .clearStop
    if ← act .startMonitor then
      if !(← act (.startWatcher child)) then stop none
    else stop none

/-- `start` -/
def start (kind : Kind) : Code (Except String Unit) := do
  if ← act (.isRunning none) then return .ok ()
  if ← act .portInUse then return .ok ()
  if !(← act .serverBinary) then return noEngine kind
  launch
  return .ok ()

/-- `_wait_for_health`, with the turns that there is time for. -/
def waitForHealth : ℕ → Code Bool
  | 0 => pure false
  | turns + 1 => do
    if ← act .stopIsSet then return false
    if ← act .hasExited then return false
    if ← act .probe then return true
    if ← act .waitStop then return false
    waitForHealth turns

/-- `_health_watcher` -/
def healthWatcher (child turns : ℕ) : Code Unit := do
  if ← waitForHealth turns then act (.markReady child)
  else if !(← act .cancelled) then stop (some child)

/-- The adapter's `stop` -/
def leave : Code Unit := do
  act .leave
  stop none

/-- Whether the adapter's `__call__` ends the source, when its queue is empty and its thread is alive or not. The
language model's gives `None`, whatever happened. -/
def ends (s : Shared) (alive : Bool) : Kind → Bool
  | .modelServer => false
  | .whisperServer => !s.adapterRunning || !alive

/-- `_server_heartbeat_loop` -/
def serverHeartbeatLoop : ℕ → Code Unit
  | 0 => pure ()
  | beats + 1 => do if ← act .beat then serverHeartbeatLoop beats

/-- A call, of the server's methods or of the adapter's `stop`, a watcher that was started, the adapter's heartbeat, or
the exit of a child. -/
inductive Entry
  | start
  | stop
  | leave
  | watcher (child turns : ℕ)
  | heartbeat (beats : ℕ)
  | exit (child : ℕ)

def machine (kind : Kind) : Machine serverSig Shared Entry where
  sem := Shared.perform
  reentrant _ := false
  enter
    | .start, s => some (start kind >>= fun _ => pure (), s)
    | .stop, s => some (Lifecycle.stop none, s)
    | .leave, s => some (Lifecycle.leave, s)
    | .watcher child turns, s =>
      if child ∈ s.spawned then some (healthWatcher child turns, { s with spawned := s.spawned.erase child }) else none
    | .heartbeat beats, s => some (serverHeartbeatLoop beats, s)
    | .exit child, s => if child < s.launched then some (pure (), { s with exited := child :: s.exited }) else none

/-- A server that was never started, and its adapter. -/
def boot (oracle : ℕ → Bool) : Sys serverSig Shared :=
  ⟨⟨none, false, false, false, true, 0, [], [], oracle, 0⟩, fun _ => none, []⟩

/-! ### What a thread is at -/

/-- The child whose watcher the thread is, or whose start it still is in; and whether it is in a `stop`
between its `ready = False` and its `running = False`. -/
structure At where
  child : Option ℕ := none
  unready : Bool := false
  deriving DecidableEq

namespace At

/-- What an action and its answer change. A watcher is over when it has marked the server ready, was
cancelled or has stopped the server; a start when its watcher was started. -/
def noteAct : (a : Act) → a.Resp → At → At
  | .popen, child, g => { g with child }
  | .startMonitor, started, g => if started then g else { g with child := none }
  | .startWatcher _, _, g => { g with child := none }
  | .markReady _, _, g => { g with child := none }
  | .cancelled, isSet, g => if isSet then { g with child := none } else g
  | .isRunning _, running, g => if running then g else { g with child := none }
  | .unready _, _, g => { g with unready := true }
  | .clearRunning _, _, _ => {}
  | _, _, g => g

def note (g : At) : Deed serverSig → At
  | .act a r => noteAct a r g
  | .lock _ | .unlock _ => g

/-- The thread is at the work of this owner. -/
def For (g : At) (owner : Option ℕ) : Prop := ∀ child, owner = some child → g.child = some child

/-- What the thread may do. -/
def Permits (g : At) : Act → Prop
  | .popen => g.child = none
  | .startWatcher child | .markReady child => g.child = some child
  | .setStop owner | .unready owner | .terminate owner | .kill owner => g.For owner
  | .clearRunning owner => g.For owner ∧ g.unready = true
  | _ => True

end At

open At

def born : Entry → Shared → At
  | .watcher child _, _ => { child := some child }
  | _, _ => {}

section Keeps

variable {g : At} {α : Type}

/-- From the ghost state the code does only what is permitted, and ends in `Q`. -/
abbrev Keeps (Q : At → α → Prop) (g : At) (p : Code α) : Prop := Prog.Follows (σ := serverSig) note Permits Q g p

theorem keeps_act {a : Act} {Q : At → a.Resp → Prop} (hp : g.Permits a) (hQ : ∀ r, Q (noteAct a r g) r) : Keeps Q g (act a) :=
  Prog.follows_call (σ := serverSig) hp hQ

theorem keeps_stop {owner : Option ℕ} (hg : g.For owner) : Keeps (fun _ _ => True) g (stop owner) := by
  unfold stop
  refine (keeps_act (a := .isRunning owner) (Q := fun g' r => r = true → g' = g) trivial fun r hr => if_pos hr).bind fun g₁ r h₁ => ?_
  cases r with
  | false => exact .ret trivial
  | true =>
    obtain rfl := h₁ rfl
    refine (keeps_act (a := .setStop owner) (Q := fun g' _ => g' = g₁) hg fun _ => rfl).bind fun g₂ _ h₂ => ?_
    subst h₂
    refine (keeps_act (a := .unready owner) (Q := fun g' _ => g'.For owner ∧ g'.unready = true) hg fun _ => ⟨hg, rfl⟩).bind
      fun g₃ _ h₃ => ?_
    refine (keeps_act (a := .hasProcess) (Q := fun g' _ => g'.For owner ∧ g'.unready = true) trivial fun _ => h₃).bind
      fun g₄ r h₄ => ?_
    have hend {g' : At} (h : g'.For owner ∧ g'.unready = true) : Keeps (fun _ _ => True) g' (act (.clearRunning owner)) :=
      keeps_act (a := .clearRunning owner) h fun _ => trivial
    cases r with
    | false => exact hend h₄
    | true =>
      refine (keeps_act (a := .terminate owner) (Q := fun g' _ => g'.For owner ∧ g'.unready = true) h₄.1 fun _ => h₄).bind
        fun g₅ _ h₅ => ?_
      refine (keeps_act (a := .waitExit) (Q := fun g' _ => g'.For owner ∧ g'.unready = true) trivial fun _ => h₅).bind
        fun g₆ r h₆ => ?_
      cases r with
      | true => exact hend h₆
      | false =>
        exact (keeps_act (a := .kill owner) (Q := fun g' _ => g'.For owner ∧ g'.unready = true) h₆.1 fun _ => h₆).bind
          fun g₇ _ h₇ => hend h₇

theorem for_none (g : At) : g.For none := fun _ h => by cases h

theorem keeps_launch (hg : g.child = none) : Keeps (fun _ _ => True) g launch := by
  unfold launch
  refine (keeps_act (a := .popen) (Q := fun g' child => g'.child = child) hg fun _ => rfl).bind fun g₁ child h₁ => ?_
  cases child with
  | none => exact keeps_stop (for_none g₁)
  | some child =>
    refine (keeps_act (a := .setRunning) (Q := fun g' _ => g'.child = some child) trivial fun _ => h₁).bind fun g₂ _ h₂ => ?_
    refine (keeps_act (a := .clearReady) (Q := fun g' _ => g'.child = some child) trivial fun _ => h₂).bind fun g₃ _ h₃ => ?_
    refine (keeps_act (a := .clearStop) (Q := fun g' _ => g'.child = some child) trivial fun _ => h₃).bind fun g₄ _ h₄ => ?_
    refine (keeps_act (a := .startMonitor) (Q := fun g' r => r = true → g'.child = some child) trivial
      fun r hr => by rw [noteAct, if_pos hr]; exact h₄).bind fun g₅ r h₅ => ?_
    cases r with
    | false => exact keeps_stop (for_none g₅)
    | true =>
      refine (keeps_act (a := .startWatcher child) (Q := fun _ _ => True) (h₅ rfl) fun _ => trivial).bind fun g₆ r _ => ?_
      cases r with
      | true => exact .ret trivial
      | false => exact keeps_stop (for_none g₆)

theorem keeps_start {kind : Kind} (hg : g.child = none) : Keeps (fun _ _ => True) g (start kind) := by
  unfold start
  refine (keeps_act (a := .isRunning none) (Q := fun g' _ => g'.child = none) trivial fun r => ?_).bind fun g₁ r h₁ => ?_
  · rw [noteAct]
    split_ifs
    · exact hg
    · rfl
  · cases r with
    | true => exact .ret trivial
    | false =>
      refine (keeps_act (a := .portInUse) (Q := fun g' _ => g'.child = none) trivial fun _ => h₁).bind fun g₂ r h₂ => ?_
      cases r with
      | true => exact .ret trivial
      | false =>
        refine (keeps_act (a := .serverBinary) (Q := fun g' _ => g'.child = none) trivial fun _ => h₂).bind fun g₃ r h₃ => ?_
        cases r with
        | false => exact .ret trivial
        | true => exact (keeps_launch h₃).bind fun _ _ _ => .ret trivial

theorem keeps_waitForHealth : ∀ {turns : ℕ} {g : At}, Keeps (fun g' _ => g' = g) g (waitForHealth turns)
  | 0, _ => .ret rfl
  | turns + 1, g => by
    refine (keeps_act (a := .stopIsSet) (Q := fun g' _ => g' = g) trivial fun _ => rfl).bind fun g₁ r h₁ => ?_
    subst h₁
    cases r with
    | true => exact .ret rfl
    | false =>
      refine (keeps_act (a := .hasExited) (Q := fun g' _ => g' = g₁) trivial fun _ => rfl).bind fun g₂ r h₂ => ?_
      subst h₂
      cases r with
      | true => exact .ret rfl
      | false =>
        refine (keeps_act (a := .probe) (Q := fun g' _ => g' = g₂) trivial fun _ => rfl).bind fun g₃ r h₃ => ?_
        subst h₃
        cases r with
        | true => exact .ret rfl
        | false =>
          refine (keeps_act (a := .waitStop) (Q := fun g' _ => g' = g₃) trivial fun _ => rfl).bind fun g₄ r h₄ => ?_
          subst h₄
          cases r with
          | true => exact .ret rfl
          | false => exact keeps_waitForHealth

theorem keeps_healthWatcher {child turns : ℕ} (hg : g.child = some child) : Keeps (fun _ _ => True) g (healthWatcher child turns) := by
  refine keeps_waitForHealth.bind fun g₁ r h₁ => ?_
  subst h₁
  cases r with
  | true => exact keeps_act (a := .markReady child) hg fun _ => trivial
  | false =>
    refine (keeps_act (a := .cancelled) (Q := fun g' r => r = false → g' = g₁) trivial
      fun r hr => by rw [noteAct, if_neg (by simp [hr])]).bind fun g₂ r h₂ => ?_
    cases r with
    | true => exact .ret trivial
    | false =>
      obtain rfl := h₂ rfl
      exact keeps_stop fun child' h => hg.trans h

theorem keeps_heartbeat : ∀ {beats : ℕ} {g : At}, Keeps (fun _ _ => True) g (serverHeartbeatLoop beats)
  | 0, _ => .ret trivial
  | beats + 1, g => by
    refine (keeps_act (a := .beat) (Q := fun _ _ => True) trivial fun _ => trivial).bind fun g₁ r _ => ?_
    cases r with
    | true => exact keeps_heartbeat
    | false => exact .ret trivial

/-- The code of what enters does what is permitted. -/
theorem keeps_enter {kind : Kind} {e : Entry} {s s' : Shared} {p : Code Unit} (h : (machine kind).enter e s = some (p, s')) :
    Keeps (fun _ _ => True) (born e s) p := by
  cases e with
  | start =>
    obtain ⟨rfl, -⟩ := Prod.mk.inj (Option.some.inj h)
    exact (keeps_start rfl).bind fun _ _ _ => .ret trivial
  | stop =>
    obtain ⟨rfl, -⟩ := Prod.mk.inj (Option.some.inj h)
    exact keeps_stop (for_none _)
  | leave =>
    obtain ⟨rfl, -⟩ := Prod.mk.inj (Option.some.inj h)
    refine (keeps_act (a := .leave) (Q := fun _ _ => True) trivial fun _ => trivial).bind fun g₁ _ _ => ?_
    exact keeps_stop (for_none g₁)
  | watcher child turns =>
    obtain ⟨-, h⟩ := Option.ite_none_right_eq_some.mp h
    obtain ⟨rfl, -⟩ := Prod.mk.inj (Option.some.inj h)
    exact keeps_healthWatcher rfl
  | heartbeat beats =>
    obtain ⟨rfl, -⟩ := Prod.mk.inj (Option.some.inj h)
    exact keeps_heartbeat
  | exit child =>
    obtain ⟨-, h⟩ := Option.ite_none_right_eq_some.mp h
    obtain ⟨rfl, -⟩ := Prod.mk.inj (Option.some.inj h)
    exact .ret trivial

end Keeps

/-! ### Truthful flags -/

/-- What a watcher marks or stops is the child of its own start; and after a heartbeat that follows the exit of the
child, the adapter does not run, and the source of the transcriber ends. -/
def Truthful (kind : Kind) : Act → Shared → Prop
  | .markReady child, s => s.process = some child
  | .setStop owner, s | .unready owner, s | .terminate owner, s | .kill owner, s | .clearRunning owner, s =>
    ∀ child, owner = some child → s.process = some child
  | .beat, s => s.childExited = true → (Shared.perform .beat s).2.adapterRunning = false ∧
      ((∀ alive, ends (Shared.perform .beat s).2 alive kind = true) ↔ kind = .whisperServer)
  | _, _ => True

/-- Whether a `stop` has come to its end since the last start, or since the beginning. -/
def stopped : Bool → At → serverSig.Act → Bool
  | _, _, .clearRunning _ => true
  | _, _, .setRunning => false
  | u, _, _ => u

/-- No watcher marks ready a server that does not run, or that a `stop` has already marked not ready; a child is
launched when every watcher of an earlier start, and every other start, is over; and a heartbeat of an adapter that
runs follows the exit of the child only when a `stop` has come to its end since the start. -/
def Timely (s : Shared) (n : Notes At Bool) (_ : At) : Act → Prop
  | .markReady _ => s.running = true ∧ ∀ g ∈ n.each, g.unready = false
  | .popen => s.ask = true → s.spawned = [] ∧ ∀ g ∈ n.each, g.child = none
  | .beat => s.childExited = true → s.adapterRunning = true → n.all = true
  | _ => True

instance (s : Shared) (n : Notes At Bool) (g : At) (a : Act) : Decidable (Timely s n g a) := by
  unfold Timely
  split <;> infer_instance

/-- What a timely run keeps, of the flags and of the process. -/
structure Sound (s : Shared) (gs : List At) : Prop where
  ready : s.ready = true → s.running = true
  unready : ∀ g ∈ gs, g.unready = true → s.ready = false
  own : ∀ g ∈ gs, ∀ child, g.child = some child → s.process = some child
  spawned : ∀ child ∈ s.spawned, s.process = some child

/-- Where a `stop` has come to its end since the start, the server does not run. -/
def Settled (s : Shared) (ended : Bool) : Prop := ended = true → s.running = false

section Sound

variable {s v : Shared} {gs : List At} {i : ℕ} {g g' : At}

/-- A step of a thread that keeps the process and does not mark the server ready. -/
theorem Sound.set (h : Sound s gs) (hready : v.ready = true → v.running = true) (hfall : v.ready = true → s.ready = true)
    (hprocess : v.process = s.process) (hspawned : ∀ child ∈ v.spawned, v.process = some child)
    (hunready : g'.unready = true → v.ready = false) (hown : ∀ child, g'.child = some child → v.process = some child) :
    Sound v (gs.set i g') := by
  refine ⟨hready, fun g₁ hg₁ hu => ?_, fun g₁ hg₁ child hc => ?_, hspawned⟩
  · rcases List.mem_or_eq_of_mem_set hg₁ with hold | rfl
    · by_contra hv
      have hs := hfall (by simpa using hv)
      rw [h.unready g₁ hold hu] at hs
      cases hs
    · exact hunready hu
  · rcases List.mem_or_eq_of_mem_set hg₁ with hold | rfl
    · rw [hprocess]
      exact h.own g₁ hold child hc
    · exact hown child hc

/-- A step that changes none of the flags, the process and the watchers to come. -/
theorem Sound.look (h : Sound s gs) (hg : gs[i]? = some g) (hready : v.ready = s.ready) (hrunning : v.running = s.running)
    (hprocess : v.process = s.process) (hspawned : v.spawned = s.spawned) (hunready : g'.unready = true → g.unready = true)
    (hown : ∀ child, g'.child = some child → g.child = some child) : Sound v (gs.set i g') := by
  have hmem := List.mem_of_getElem? hg
  refine h.set (fun hr => ?_) (fun hr => hready ▸ hr) hprocess (fun child hc => ?_) (fun hu => ?_) fun child hc => ?_
  · rw [hrunning]
    exact h.ready (hready ▸ hr)
  · rw [hprocess]
    exact h.spawned child (hspawned ▸ hc)
  · rw [hready]
    exact h.unready g hmem (hunready hu)
  · rw [hprocess]
    exact h.own g hmem child (hown child hc)

/-- Or one that may also end the thread's work on its child. -/
theorem Sound.over (h : Sound s gs) (hg : gs[i]? = some g) (hready : v.ready = s.ready) (hrunning : v.running = s.running)
    (hprocess : v.process = s.process) (hspawned : v.spawned = s.spawned) (hover : g' = g ∨ g' = { g with child := none }) :
    Sound v (gs.set i g') := by
  refine h.look hg hready hrunning hprocess hspawned (fun hu => ?_) fun child hc => ?_
  · rcases hover with rfl | rfl <;> exact hu
  · rcases hover with rfl | rfl
    · exact hc
    · cases hc

theorem Sound.popen {u : Bool} (h : Sound s gs) (hg : gs[i]? = some g) (hT : Timely s ⟨gs, u⟩ g .popen) :
    Sound (Shared.perform .popen s).2 (gs.set i (noteAct .popen (Shared.perform .popen s).1 g)) := by
  have hmem := List.mem_of_getElem? hg
  by_cases hask : s.ask = true
  · obtain ⟨hspawned, hidle⟩ := hT hask
    have hperform : Shared.perform .popen s =
        (some s.launched, { s with process := some s.launched, launched := s.launched + 1 }.tock) := by
      simp [Shared.perform, hask]
    rw [hperform]
    refine ⟨h.ready, fun g₁ hg₁ hu => ?_, fun g₁ hg₁ child hc => ?_, fun child hc => ?_⟩
    · rcases List.mem_or_eq_of_mem_set hg₁ with hold | rfl
      · exact h.unready g₁ hold hu
      · exact h.unready g hmem hu
    · rcases List.mem_or_eq_of_mem_set hg₁ with hold | rfl
      · rw [hidle g₁ hold] at hc
        cases hc
      · exact hc
    · change child ∈ s.spawned at hc
      rw [hspawned] at hc
      cases hc
  · have hperform : Shared.perform .popen s = (none, s.tock) := by simp [Shared.perform, hask]
    rw [hperform]
    exact h.look hg rfl rfl rfl rfl (fun hu => hu) fun child hc => by cases hc

/-- The watcher that is started is one of the child that the server has. -/
theorem Sound.startWatcher {child : ℕ} (h : Sound s gs) (hg : gs[i]? = some g) (hP : g.child = some child) :
    Sound (Shared.perform (.startWatcher child) s).2
      (gs.set i (noteAct (.startWatcher child) (Shared.perform (.startWatcher child) s).1 g)) := by
  have hmem := List.mem_of_getElem? hg
  have hown := h.own g hmem child hP
  have hunready : g.unready = true → s.ready = false := h.unready g hmem
  by_cases hask : s.ask = true
  · have hperform : Shared.perform (.startWatcher child) s = (true, { s with spawned := child :: s.spawned }.tock) := by
      simp [Shared.perform, hask]
    rw [hperform]
    refine h.set h.ready (fun hr => hr) rfl (fun child' hc => ?_) hunready fun child' hc => by cases hc
    rcases List.mem_cons.mp hc with rfl | hc
    · exact hown
    · exact h.spawned child' hc
  · have hperform : Shared.perform (.startWatcher child) s = (false, s.tock) := by simp [Shared.perform, hask]
    rw [hperform]
    exact h.look hg rfl rfl rfl rfl (fun hu => hu) fun child' hc => by cases hc

theorem Sound.act {n : Notes At Bool} (h : Sound s n.each) (hg : n.each[i]? = some g) {a : Act} (hP : g.Permits a)
    (hT : Timely s n g a) :
    Sound (Shared.perform a s).2 (n.deed (σ := serverSig) note stopped i g (.act a (Shared.perform a s).1)).each := by
  have hmem := List.mem_of_getElem? hg
  have hunready := h.unready g hmem
  have hown := h.own g hmem
  show Sound _ (n.each.set i (noteAct a (Shared.perform a s).1 g))
  cases a with
  | popen => exact h.popen hg hT
  | startWatcher child => exact h.startWatcher hg hP
  | isRunning owner => exact h.over hg rfl rfl rfl rfl (ite_eq_or_eq ..)
  | startMonitor => exact h.over hg rfl rfl rfl rfl (ite_eq_or_eq ..)
  | cancelled => exact h.over hg rfl rfl rfl rfl (ite_eq_or_eq ..).symm
  | setRunning => exact h.set (fun _ => rfl) (fun hr => hr) rfl h.spawned hunready hown
  | clearReady => exact h.set (fun hr => by cases hr) (fun hr => by cases hr) rfl h.spawned (fun _ => rfl) hown
  | unready owner => exact h.set (fun hr => by cases hr) (fun hr => by cases hr) rfl h.spawned (fun _ => rfl) hown
  | markReady child =>
    -- nothing between the marks of a `stop` is under way, so that no thread has it not ready
    obtain ⟨hrunning, hnone⟩ := hT
    refine ⟨fun _ => hrunning, fun g₁ hg₁ hu => ?_, fun g₁ hg₁ child' hc => ?_, h.spawned⟩
    · rcases List.mem_or_eq_of_mem_set hg₁ with hold | rfl
      · rw [hnone g₁ hold] at hu
        cases hu
      · change g.unready = true at hu
        rw [hnone g hmem] at hu
        cases hu
    · rcases List.mem_or_eq_of_mem_set hg₁ with hold | rfl
      · exact h.own g₁ hold child' hc
      · cases hc
  | clearRunning owner =>
    have hready : s.ready = false := hunready hP.2
    refine h.set (fun hr => ?_) (fun hr => hr) rfl h.spawned (fun hu => by cases hu) fun child hc => by cases hc
    change s.ready = true at hr
    rw [hready] at hr
    cases hr
  | _ => exact h.look hg rfl rfl rfl rfl (fun hu => hu) fun child hc => hc

theorem Settled.act {u : Bool} (h : Settled s u) (a : Act) : Settled (Shared.perform a s).2 (stopped u g a) := by
  intro hu
  cases a with
  | clearRunning owner => rfl
  | setRunning => cases hu
  | popen =>
    simp only [Shared.perform]
    split_ifs <;> exact h hu
  | startWatcher child =>
    simp only [Shared.perform]
    split_ifs <;> exact h hu
  | _ => exact h hu

/-- A thread that enters has the child that the server has, where it has one. -/
theorem Sound.enter {kind : Kind} {e : Entry} {p : Code Unit} (h : Sound s gs) (he : (machine kind).enter e s = some (p, v)) :
    Sound v (gs ++ [born e s]) := by
  have hentered : v.ready = s.ready ∧ v.running = s.running ∧ v.process = s.process ∧ (∀ child ∈ v.spawned, child ∈ s.spawned) ∧
      (born e s).unready = false ∧ ∀ child, (born e s).child = some child → child ∈ s.spawned := by
    cases e with
    | watcher child turns =>
      obtain ⟨hmem, he⟩ := Option.ite_none_right_eq_some.mp he
      obtain ⟨-, rfl⟩ := Prod.mk.inj (Option.some.inj he)
      exact ⟨rfl, rfl, rfl, fun _ => List.mem_of_mem_erase, rfl, fun child' hc => Option.some.inj hc ▸ hmem⟩
    | exit child =>
      obtain ⟨-, he⟩ := Option.ite_none_right_eq_some.mp he
      obtain ⟨-, rfl⟩ := Prod.mk.inj (Option.some.inj he)
      exact ⟨rfl, rfl, rfl, fun _ hc => hc, rfl, fun child' hc => by cases hc⟩
    | _ =>
      obtain ⟨-, rfl⟩ := Prod.mk.inj (Option.some.inj he)
      exact ⟨rfl, rfl, rfl, fun _ hc => hc, rfl, fun child' hc => by cases hc⟩
  obtain ⟨hready, hrunning, hprocess, hspawned, hunready, hown⟩ := hentered
  refine ⟨fun hr => ?_, fun g₁ hg₁ hu => ?_, fun g₁ hg₁ child hc => ?_, fun child hc => ?_⟩
  · rw [hrunning]
    exact h.ready (hready ▸ hr)
  · rw [hready]
    rcases List.mem_append.mp hg₁ with hold | hnew
    · exact h.unready g₁ hold hu
    · rw [List.mem_singleton.mp hnew, hunready] at hu
      cases hu
  · rw [hprocess]
    rcases List.mem_append.mp hg₁ with hold | hnew
    · exact h.own g₁ hold child hc
    · rw [List.mem_singleton.mp hnew] at hc
      exact h.spawned child (hown child hc)
  · rw [hprocess]
    exact h.spawned child (hspawned child hc)

theorem Settled.enter {kind : Kind} {e : Entry} {p : Code Unit} {u : Bool} (h : Settled s u)
    (he : (machine kind).enter e s = some (p, v)) : Settled v u := by
  cases e with
  | watcher child turns =>
    obtain ⟨-, he⟩ := Option.ite_none_right_eq_some.mp he
    obtain ⟨-, rfl⟩ := Prod.mk.inj (Option.some.inj he)
    exact h
  | exit child =>
    obtain ⟨-, he⟩ := Option.ite_none_right_eq_some.mp he
    obtain ⟨-, rfl⟩ := Prod.mk.inj (Option.some.inj he)
    exact h
  | _ =>
    obtain ⟨-, rfl⟩ := Prod.mk.inj (Option.some.inj he)
    exact h

/-- After a heartbeat where the server does not run, or the adapter does not, the adapter does not. -/
theorem perform_beat (h : s.adapterRunning = true → s.running = false) : (Shared.perform .beat s).2.adapterRunning = false := by
  show (s.adapterRunning && s.running) = false
  cases hadapter : s.adapterRunning with
  | false => rfl
  | true => rw [h hadapter, Bool.and_false]

theorem ends_iff {kind : Kind} (h : s.adapterRunning = false) : (∀ alive, ends s alive kind = true) ↔ kind = .whisperServer := by
  cases kind with
  | modelServer => simp [ends]
  | whisperServer => simp [ends, h]

/-- What a thread does in a timely run is truthful. -/
theorem Sound.truthful {kind : Kind} {n : Notes At Bool} (h : Sound s n.each) (hsettled : Settled s n.all) (hg : n.each[i]? = some g)
    {a : Act} (hP : g.Permits a) (hT : Timely s n g a) : Truthful kind a s := by
  have hown := h.own g (List.mem_of_getElem? hg)
  cases a with
  | markReady child => exact hown child hP
  | setStop owner => exact fun child hc => hown child (hP child hc)
  | unready owner => exact fun child hc => hown child (hP child hc)
  | terminate owner => exact fun child hc => hown child (hP child hc)
  | kill owner => exact fun child hc => hown child (hP child hc)
  | clearRunning owner => exact fun child hc => hown child (hP.1 child hc)
  | beat =>
    intro hexited
    have hrunning := perform_beat fun hadapter => hsettled (hT hexited hadapter)
    exact ⟨hrunning, ends_iff hrunning⟩
  | _ => trivial

end Sound

theorem sound_boot {oracle : ℕ → Bool} : Sound (boot oracle).shared [] where
  ready h := by cases h
  unready _ h := by cases h
  own _ h := by cases h
  spawned _ h := by cases h

/-- What holds of every timely run, with the ghost states. -/
def Kept (s : Shared) (_ : serverSig.Lock → Option (ℕ × ℕ)) (n : Notes At Bool) : Prop := Sound s n.each ∧ Settled s n.all

/-- **The flags of the servers.** For every interleaving of calls of `start` and `stop`, watchers, heartbeats and exits
of children, of either server: where the steps are timely, a server that is ready runs, and every step is truthful. -/
theorem truthful_of_timely (kind : Kind) (oracle : ℕ → Bool) {es : List (Ev Entry)} {c : Sys serverSig Shared}
    (hm : (machine kind).MeetsNoted note born stopped (fun s n g a => Timely s n g a) (boot oracle) ⟨[], true⟩ es)
    (he : (machine kind).exec (boot oracle) es = some c) :
    (c.shared.ready = true → c.shared.running = true) ∧ (machine kind).Meets (Truthful kind) (boot oracle) es := by
  have hact {s : Shared} {held : serverSig.Lock → Option (ℕ × ℕ)} {n : Notes At Bool} {i : ℕ} {g : At} {a : serverSig.Act}
      (hI : Kept s held n) (hg : n.each[i]? = some g) (hP : g.Permits a) (hT : Timely s n g a) :
      Kept ((machine kind).sem a s).2 held (n.deed note stopped i g (.act a ((machine kind).sem a s).1)) :=
    ⟨hI.1.act hg hP hT, hI.2.act a⟩
  have henter {s s' : Shared} {held : serverSig.Lock → Option (ℕ × ℕ)} {n : Notes At Bool} {e : Entry} {p : Code Unit}
      (hI : Kept s held n) (hp : (machine kind).enter e s = some (p, s')) :
      Prog.Follows note Permits (fun _ _ => True) (born e s) p ∧ Kept s' held ⟨n.each ++ [born e s], n.all⟩ :=
    ⟨keeps_enter hp, hI.1.enter hp, hI.2.enter hp⟩
  have hboot : Kept (boot oracle).shared (boot oracle).held ⟨[], true⟩ := ⟨sound_boot, fun _ => rfl⟩
  have htied : Tied note Permits (boot oracle) [] := .nil
  have hmeets := meets_of_follows (C := fun s n g a => Timely s n g a) (I := Kept) (D := Truthful kind) hact
    (by rintro _ _ _ _ _ _ ⟨⟩) (by rintro _ _ _ _ _ _ ⟨⟩) henter
    (fun hI hg hP hT => hI.1.truthful hI.2 hg hP hT) (n := ⟨[], true⟩) htied hboot hm
  have hkept := exec_follows (C := fun s n g a => Timely s n g a) (I := Kept) hact
    (by rintro _ _ _ _ _ _ ⟨⟩) (by rintro _ _ _ _ _ _ ⟨⟩) henter (n := ⟨[], true⟩) htied hboot hm he
  exact ⟨hkept.2.1.ready, hmeets⟩

/-- The port is free, and everything else succeeds. -/
def willing (n : ℕ) : Bool := n ≠ 0

/-- A start whose watcher marks the server ready. -/
def served : List (Ev Entry) :=
  [.enter .start] ++ List.replicate 9 (.step 0) ++ [.enter (.watcher 0 1)] ++ List.replicate 4 (.step 1)

/-- And a heartbeat before and after a `stop`, in which the child exits. -/
def stoppedRun : List (Ev Entry) :=
  served ++ [.enter (.heartbeat 2), .step 2, .enter .stop, .enter (.exit 0)] ++ List.replicate 7 (.step 3) ++ [.step 2]

/-- A heartbeat after a `stop` ends the adapter, and the source. -/
theorem truthful_stopped : ∃ c, (machine .whisperServer).exec (boot willing) stoppedRun = some c ∧
    (c.shared.ready = true → c.shared.running = true) ∧
      (machine .whisperServer).Meets (Truthful .whisperServer) (boot willing) stoppedRun := by
  obtain ⟨c, hc⟩ := Option.isSome_iff_exists.mp
    (show ((machine .whisperServer).exec (boot willing) stoppedRun).isSome = true by decide +kernel)
  have htimely : (machine .whisperServer).checksNoted note born stopped (fun s n g (a : Act) => decide (Timely s n g a))
      (boot willing) ⟨[], true⟩ stoppedRun = true := by decide +kernel
  exact ⟨c, hc, truthful_of_timely .whisperServer willing
    (meetsNoted_of_checks (fun _ _ _ (a : Act) (h : decide (Timely _ _ _ a) = true) => of_decide_eq_true h) htimely) hc⟩

/-- The child exits after its watcher has marked the server ready: nothing clears `running`, and after the heartbeat
the adapter runs. -/
theorem heartbeat_blind :
    ¬∀ (kind : Kind) (oracle : ℕ → Bool) (es : List (Ev Entry)) (c : Sys serverSig Shared),
      (machine kind).exec (boot oracle) es = some c →
      (c.shared.ready = true → c.shared.running = true) ∧ (machine kind).Meets (Truthful kind) (boot oracle) es := by
  intro h
  have hgoes : (((machine .whisperServer).exec (boot willing) (served ++ [.enter (.exit 0), .enter (.heartbeat 1)])).any fun d =>
      ((performs d (.step 3 : Ev Entry)).any fun a : Act => decide (a = .beat)) && d.shared.childExited &&
        (Shared.perform .beat d.shared).2.adapterRunning) = true := by decide +kernel
  obtain ⟨c, hc⟩ := Option.isSome_iff_exists.mp
    (show ((machine .whisperServer).exec (boot willing)
      (served ++ [.enter (.exit 0), .enter (.heartbeat 1)] ++ [.step 3])).isSome = true by decide +kernel)
  obtain ⟨d, hd, hd'⟩ := (Option.any_eq_true _ _).mp hgoes
  rw [Bool.and_eq_true, Bool.and_eq_true] at hd'
  obtain ⟨⟨hperforms, hexited⟩, hruns⟩ := hd'
  obtain ⟨a, ha, hbeat⟩ := (Option.any_eq_true _ _).mp hperforms
  obtain rfl : a = Act.beat := of_decide_eq_true hbeat
  have htruth := Meets.last (h .whisperServer willing _ c hc).2 hd ha hexited
  rw [hruns] at htruth
  cases htruth.1

end Lifecycle
end LocaiLink
