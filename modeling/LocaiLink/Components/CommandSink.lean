/-
# The sink for commands

An `AgentCommand` hands commands to the runtime and remembers the last ids that it handed
over, so that a command that comes twice is handled once. Every start of a pipeline makes a
sink of its own, with nothing remembered. A command is handled once if it comes back to the
sink that had it (`handled_once_iff`); one that comes to another sink is handled again
(`handled_twice`).
-/
import Mathlib.Data.List.Dedup
import LocaiLink.Base.Json
import LocaiLink.Base.Protocol

namespace LocaiLink
namespace CommandSink

open Machine

abbrev Command := Dict String Json

/-- What a source gives: one command or a list of them. -/
inductive Data
  | dict (cmd : Command)
  | list (cmds : List Command)

/-- The sink. Ids are kept up to equality, the latest is the last. -/
structure AgentCommand where
  dedupWindow : ℕ
  seen : List Canon := []

/-- `append` of a deque with a maximal length -/
def AgentCommand.append (id : Canon) (x : AgentCommand) : AgentCommand :=
  let seen := x.seen ++ [id]
  { x with seen := seen.drop (seen.length - x.dedupWindow) }

/-- What has come of commands: a sink, of this window, passed one to the runtime, which
returned normally. -/
inductive Mark
  | passed (sink window : ℕ) (id : Canon)
  | returned (sink : ℕ) (id : Canon)

/-- The sinks are numbered as they are made. `raises` says of each call of the runtime
whether it raises. -/
structure Agent where
  sinks : ℕ → AgentCommand
  nextSink : ℕ
  raises : ℕ → Bool
  tick : ℕ
  history : List Mark

/-! ### The code -/

inductive Act
  | isSeen (i : ℕ) (id : Canon)
  | callback (i : ℕ) (cmd : Command)
  | callbackRaises (i : ℕ) (cmd : Command)
  | append (i : ℕ) (id : Canon)

@[reducible] def Act.Resp : Act → Type
  | .isSeen _ _ | .callbackRaises _ _ => Bool
  | .callback _ _ | .append _ _ => Unit

def sinkSig : Sig := ⟨Act, Act.Resp, Empty⟩

instance : DecidableEq sinkSig.Lock := inferInstanceAs (DecidableEq Empty)

def idOf (cmd : Command) : Json := Json.getOr cmd "id"

namespace Agent

def setSink (i : ℕ) (f : AgentCommand → AgentCommand) (s : Agent) : Agent :=
  { s with sinks := Function.update s.sinks i (f (s.sinks i)) }

/-- The callback is entered, and later it ends. -/
def perform : (a : Act) → Agent → a.Resp × Agent
  | .isSeen i id, s => (decide (id ∈ (s.sinks i).seen), s)
  | .callback i cmd, s => ((), { s with history := .passed i (s.sinks i).dedupWindow (idOf cmd).canon :: s.history })
  | .callbackRaises i cmd, s =>
    (s.raises s.tick, { s with
      tick := s.tick + 1
      history := if s.raises s.tick then s.history else .returned i (idOf cmd).canon :: s.history })
  | .append i id, s => ((), s.setSink i (AgentCommand.append id))

end Agent

abbrev Code := Prog sinkSig

def act (a : Act) : Code a.Resp := Prog.call (σ := sinkSig) a

/-- `_dispatch`, for a command that is no duplicate -/
def handle (i : ℕ) (cmd : Command) : Code Bool := do
  act (.callback i cmd)
  if ← act (.callbackRaises i cmd) then pure false
  else
    if (idOf cmd).truthy then act (.append i (idOf cmd).canon)
    pure true

/-- `_dispatch` -/
def dispatch (i : ℕ) (cmd : Command) : Code Bool := do
  if (idOf cmd).truthy then
    if ← act (.isSeen i (idOf cmd).canon) then pure true else handle i cmd
  else handle i cmd

/-- `all(self._dispatch(cmd) for cmd in cmds)` -/
def dispatchAll (i : ℕ) : List Command → Code Bool
  | [] => pure true
  | cmd :: cmds => do
    if ← dispatch i cmd then dispatchAll i cmds else pure false

/-- `__call__` -/
def call (i : ℕ) : Data → Code Bool
  | .dict cmd => if cmd.entries = [] then pure true else dispatchAll i [cmd]
  | .list cmds => dispatchAll i cmds

/-- `Pipeline.run`, of a pipeline whose source gives these until it is stopped. -/
def run (i : ℕ) : List Data → Code Unit
  | [] => pure ()
  | data :: rest => do
    let _ ← call i data
    run i rest

/-- A pipeline with a command sink is started, or started again. -/
inductive Entry
  | start (dedupWindow : ℕ) (source : List Data)

def enter : Entry → Agent → Option (Code Unit × Agent)
  | .start dedupWindow source, s =>
    some (run s.nextSink source, { s with
      nextSink := s.nextSink + 1
      sinks := Function.update s.sinks s.nextSink { dedupWindow } })

def machine : Machine sinkSig Agent Entry where
  sem := Agent.perform
  reentrant _ := false
  enter := enter

/-- The agent with no pipeline. -/
def boot (raises : ℕ → Bool) : Sys sinkSig Agent :=
  ⟨{ sinks := fun _ => { dedupWindow := 0 }, nextSink := 0, raises, tick := 0, history := [] }, fun _ => none, []⟩

/-! ### Handled once -/

/-- The sink through which the id was last handled. The latest mark is the first. -/
def lastReturn (x : Canon) : List Mark → Option ℕ
  | [] => none
  | .returned j y :: h => if y = x then some j else lastReturn x h
  | .passed _ _ _ :: h => lastReturn x h

/-- The other ids that came since. -/
def others (x : Canon) : List Mark → List Canon
  | [] => []
  | .returned _ y :: h => if y = x then [] else others x h
  | .passed _ _ y :: h => if y = x ∨ y = .null then others x h else y :: others x h

/-- No id that was handled is passed on again before as many other ids have come as the
window of the sink is wide. -/
def HandledOnce : List Mark → Prop
  | [] => True
  | .passed _ window x :: h =>
    (x ≠ .null → ∀ j, lastReturn x h = some j → window ≤ (others x h).dedup.length) ∧ HandledOnce h
  | .returned _ _ :: h => HandledOnce h

/-- A command whose id was handled before was handled by this sink, which keeps its id, or
as many others have come since. -/
def ComesBack : Act → Agent → Prop
  | .callback i cmd, s => (idOf cmd).canon ≠ .null → ∀ j, lastReturn (idOf cmd).canon s.history = some j →
    (j = i ∧ (idOf cmd).truthy = true) ∨ (s.sinks i).dedupWindow ≤ (others (idOf cmd).canon s.history).dedup.length
  | _, _ => True

instance : DecidablePred HandledOnce := go
where
  go : (h : List Mark) → Decidable (HandledOnce h)
    | [] => .isTrue trivial
    | .passed _ window x :: h =>
      @instDecidableAnd _ _
        (inferInstanceAs (Decidable (x ≠ .null → ∀ j ∈ lastReturn x h, window ≤ (others x h).dedup.length))) (go h)
    | .returned _ _ :: h => go h

instance (a : Act) (s : Agent) : Decidable (ComesBack a s) := by
  cases a with
  | callback i cmd =>
    exact inferInstanceAs (Decidable ((idOf cmd).canon ≠ .null → ∀ j ∈ lastReturn (idOf cmd).canon s.history,
      (j = i ∧ (idOf cmd).truthy = true) ∨ (s.sinks i).dedupWindow ≤ (others (idOf cmd).canon s.history).dedup.length))
  | _ => exact inferInstanceAs (Decidable True)

/-! ### Where a thread is -/

/-- A command with an id to be kept: it was not remembered, it is passed on, it was handled. -/
inductive Phase
  | idle
  | checked (x : Canon)
  | calling (x : Canon)
  | ended (x : Canon)

def Phase.id : Phase → Option Canon
  | .idle => none
  | .checked x | .calling x | .ended x => some x

/-- The thread of a sink. -/
structure At where
  sink : ℕ
  phase : Phase := .idle

namespace At

def noteAct (g : At) : (a : Act) → a.Resp → At
  | .isSeen _ x, r => { g with phase := if r then .idle else .checked x }
  | .callback _ cmd, _ => { g with phase := if (idOf cmd).truthy then .calling (idOf cmd).canon else .idle }
  | .callbackRaises _ cmd, r =>
    { g with phase := if (idOf cmd).truthy = true ∧ r = false then .ended (idOf cmd).canon else .idle }
  | .append _ _, _ => { g with phase := .idle }

def note (g : At) : Deed sinkSig → At
  | .act a r => g.noteAct a r
  | .lock _ | .unlock _ => g

/-- What the thread does, and when. -/
def Permits (g : At) : Act → Prop
  | .isSeen i _ => g.sink = i ∧ g.phase = .idle
  | .callback i cmd => g.sink = i ∧ g.phase = if (idOf cmd).truthy then .checked (idOf cmd).canon else .idle
  | .callbackRaises i cmd => g.sink = i ∧ g.phase = if (idOf cmd).truthy then .calling (idOf cmd).canon else .idle
  | .append i x => g.sink = i ∧ g.phase = .ended x

end At

open At

/-- From there the code keeps to that, and ends in `Q`. -/
abbrev Keeps {α : Type} (Q : At → α → Prop) (g : At) (p : Code α) : Prop :=
  Prog.Follows (σ := sinkSig) note Permits Q g p

section Keeps

variable {i : ℕ} {g : At}

/-- Between two commands. -/
def Between (i : ℕ) (g : At) : Prop := g.sink = i ∧ g.phase = .idle

theorem keeps_act {a : Act} {Q : At → a.Resp → Prop} (hp : g.Permits a) (hQ : ∀ r, Q (g.noteAct a r) r) :
    Keeps Q g (act a) :=
  Prog.follows_call (σ := sinkSig) hp hQ

theorem keeps_handle {cmd : Command}
    (hg : g.sink = i ∧ g.phase = if (idOf cmd).truthy then .checked (idOf cmd).canon else .idle) :
    Keeps (fun g _ => Between i g) g (handle i cmd) := by
  unfold handle
  refine Prog.Follows.bind (Q := fun g _ => g.sink = i ∧
    g.phase = if (idOf cmd).truthy then .calling (idOf cmd).canon else .idle)
    (keeps_act (a := .callback i cmd) hg fun _ => ⟨hg.1, rfl⟩) fun g _ hg => ?_
  refine Prog.Follows.bind (Q := fun g (r : Bool) => g.sink = i ∧
    g.phase = if (idOf cmd).truthy = true ∧ r = false then .ended (idOf cmd).canon else .idle)
    (keeps_act (a := .callbackRaises i cmd) hg fun _ => ⟨hg.1, rfl⟩) fun g raised hg => ?_
  cases raised with
  | true => exact Prog.follows_pure ⟨hg.1, by simpa using hg.2⟩
  | false =>
    by_cases ht : (idOf cmd).truthy = true
    · rw [if_pos ht]
      have hended : g.phase = .ended (idOf cmd).canon := by simpa [ht] using hg.2
      exact Prog.Follows.bind (keeps_act (a := .append i (idOf cmd).canon) (Q := fun g _ => Between i g)
        ⟨hg.1, hended⟩ fun _ => ⟨hg.1, rfl⟩) fun g _ hg => Prog.follows_pure hg
    · rw [if_neg ht]
      exact Prog.follows_pure ⟨hg.1, by simpa [ht] using hg.2⟩

theorem keeps_dispatch {cmd : Command} (hg : Between i g) : Keeps (fun g _ => Between i g) g (dispatch i cmd) := by
  unfold dispatch
  by_cases ht : (idOf cmd).truthy = true
  · rw [if_pos ht]
    refine Prog.Follows.bind (Q := fun g (r : Bool) => g.sink = i ∧ g.phase = if r then .idle else .checked (idOf cmd).canon)
      (keeps_act (a := .isSeen i (idOf cmd).canon) hg fun _ => ⟨hg.1, rfl⟩) fun g seen hg => ?_
    cases seen with
    | true => exact Prog.follows_pure hg
    | false => exact keeps_handle ⟨hg.1, by rw [if_pos ht]; exact hg.2⟩
  · rw [if_neg ht]
    exact keeps_handle ⟨hg.1, by rw [if_neg ht]; exact hg.2⟩

theorem keeps_dispatchAll : ∀ (cmds : List Command) {g : At}, Between i g →
    Keeps (fun g _ => Between i g) g (dispatchAll i cmds)
  | [], _, hg => Prog.follows_pure hg
  | cmd :: cmds, _, hg => Prog.Follows.bind (keeps_dispatch hg) fun _ ok hg => by
    cases ok with
    | true => exact keeps_dispatchAll cmds hg
    | false => exact Prog.follows_pure hg

theorem keeps_call {data : Data} (hg : Between i g) : Keeps (fun g _ => Between i g) g (call i data) := by
  cases data with
  | dict cmd =>
    rw [call]
    split_ifs
    · exact Prog.follows_pure hg
    · exact keeps_dispatchAll [cmd] hg
  | list cmds => exact keeps_dispatchAll cmds hg

theorem keeps_run : ∀ (source : List Data) {g : At}, Between i g → Keeps (fun _ _ => True) g (run i source)
  | [], _, _ => Prog.follows_pure trivial
  | _ :: rest, _, hg => Prog.Follows.bind (keeps_call hg) fun _ _ hg => keeps_run rest hg

end Keeps

/-! ### What is remembered -/

section History

variable {x y : Canon} {i w : ℕ} {h : List Mark}

theorem others_passed (hy : y ≠ x) (hnull : y ≠ .null) : others x (.passed i w y :: h) = y :: others x h := by
  rw [others, if_neg (by rintro (rfl | rfl) <;> contradiction)]

theorem others_passed_subset : others x h ⊆ others x (.passed i w y :: h) := by
  rw [others]
  split_ifs
  · exact List.Subset.refl _
  · exact List.subset_cons_self _ _

theorem lastReturn_returned_ne (hy : y ≠ x) : lastReturn x (.returned i y :: h) = lastReturn x h := if_neg hy

theorem others_returned_ne (hy : y ≠ x) : others x (.returned i y :: h) = others x h := if_neg hy

/-- What is added to a history leaves what was not handled once before. -/
theorem HandledOnce.of_append : ∀ {l : List Mark}, HandledOnce (l ++ h) → HandledOnce h
  | [], hh => hh
  | .passed _ _ _ :: l, hh => HandledOnce.of_append (l := l) hh.2
  | .returned _ _ :: l, hh => HandledOnce.of_append (l := l) hh

theorem dedup_length_mono {l m : List Canon} (hs : l ⊆ m) : l.dedup.length ≤ m.dedup.length := by
  refine (List.subperm_of_subset (List.nodup_dedup l) fun a ha => ?_).length_le
  exact List.mem_dedup.mpr (hs (List.mem_dedup.mp ha))

theorem length_le_dedup {l m : List Canon} (hl : l.Nodup) (hs : l ⊆ m) : l.length ≤ m.dedup.length := by
  rw [← List.dedup_eq_self.mpr hl]
  exact dedup_length_mono hs

theorem truthy_of_canon {a : Json} (h : a.canon.truthy = true) : a.truthy = true := by
  rw [Json.truthy_canon]
  exact h

end History

/-- The id is kept, and what was kept after it has come since; or as many others have come
as the window is wide. -/
def Kept (sink : AgentCommand) (since : List Canon) (x : Canon) : Prop :=
  (∃ pre post, sink.seen = pre ++ x :: post ∧ post ⊆ since) ∨ sink.dedupWindow ≤ since.dedup.length

theorem Kept.mono {sink : AgentCommand} {l m : List Canon} {x : Canon} (hs : l ⊆ m) (h : Kept sink l x) : Kept sink m x := by
  rcases h with ⟨pre, post, hseen, hpost⟩ | hwide
  · exact .inl ⟨pre, post, hseen, List.Subset.trans hpost hs⟩
  · exact .inr (hwide.trans (dedup_length_mono hs))

/-- The id that is appended is kept. -/
theorem kept_append_self (sink : AgentCommand) (since : List Canon) (x : Canon) : Kept (sink.append x) since x := by
  by_cases hw : sink.dedupWindow = 0
  · exact .inr (hw ▸ Nat.zero_le _)
  · refine .inl ⟨sink.seen.drop (sink.seen.length + 1 - sink.dedupWindow), [], ?_, List.nil_subset _⟩
    rw [AgentCommand.append]
    simp only [List.length_append, List.length_singleton]
    rw [List.drop_append_of_le_length (by omega)]

/-- Another one stays, or falls out after as many as the window is wide. -/
theorem Kept.append {sink : AgentCommand} {since : List Canon} {x y : Canon} (hnodup : sink.seen.Nodup) (hy : y ∉ sink.seen)
    (hsince : y ∈ since) (h : Kept sink since x) : Kept (sink.append y) since x := by
  rcases h with ⟨pre, post, hseen, hpost⟩ | hwide
  · have hpost' : post ++ [y] ⊆ since := by
      intro z hz
      rcases List.mem_append.mp hz with hz | hz
      · exact hpost hz
      · rw [List.mem_singleton.mp hz]
        exact hsince
    have hlen : sink.seen.length = pre.length + 1 + post.length := by
      rw [hseen]
      simp
      omega
    by_cases hk : sink.seen.length + 1 - sink.dedupWindow ≤ pre.length
    · refine .inl ⟨pre.drop (sink.seen.length + 1 - sink.dedupWindow), post ++ [y], ?_, hpost'⟩
      rw [AgentCommand.append]
      simp only [List.length_append, List.length_singleton]
      rw [hseen] at hk ⊢
      rw [List.append_assoc, List.cons_append, List.drop_append_of_le_length hk]
    · right
      have hnodup' : (post ++ [y]).Nodup := by
        have hwhole : (sink.seen ++ [y]).Nodup := by
          rw [List.nodup_append]
          refine ⟨hnodup, List.nodup_singleton y, ?_⟩
          rintro a ha b hb rfl
          rw [List.mem_singleton.mp hb] at ha
          exact hy ha
        rw [hseen, List.append_assoc, List.cons_append] at hwhole
        exact (List.nodup_cons.mp (List.nodup_append.mp hwhole).2.1).2
      have hcount := length_le_dedup hnodup' hpost'
      rw [List.length_append, List.length_singleton] at hcount
      change sink.dedupWindow ≤ _
      omega
  · exact .inr hwide

/-! ### Between the sinks and their threads -/

def unmarked (u : Unit) (_ : At) (_ : sinkSig.Act) : Unit := u

/-- What holds of every run. -/
structure Remembers (s : Agent) (n : Notes At Unit) : Prop where
  apart : ∀ (j k : ℕ) (g g' : At), n.each[j]? = some g → n.each[k]? = some g' → g.sink = g'.sink → j = k
  made : ∀ g ∈ n.each, g.sink < s.nextSink
  past : ∀ x i, lastReturn x s.history = some i → i < s.nextSink
  unkept : ∀ g ∈ n.each, ∀ x, g.phase.id = some x → x ∉ (s.sinks g.sink).seen
  nodup : ∀ i, (s.sinks i).seen.Nodup
  called : ∀ g ∈ n.each, ∀ x, g.phase = .calling x ∨ g.phase = .ended x → ∀ y, x ≠ y →
    lastReturn y s.history = some g.sink → x ∈ others y s.history
  keeps : ∀ i x, x.truthy = true → lastReturn x s.history = some i →
    (∃ g ∈ n.each, g.sink = i ∧ g.phase = .ended x) ∨ Kept (s.sinks i) (others x s.history) x

section Remembers

variable {s : Agent} {n : Notes At Unit} {i : ℕ} {g : At}

/-- The thread of a sink is the one that has it. -/
theorem Remembers.own (h : Remembers s n) (hg : n.each[i]? = some g) {g₁ : At} (hg₁ : g₁ ∈ n.each)
    (hsink : g₁.sink = g.sink) : g₁ = g := by
  obtain ⟨j, hj⟩ := List.mem_iff_getElem?.mp hg₁
  obtain rfl := h.apart j i g₁ g hj hg hsink
  rw [hg, Option.some.injEq] at hj
  exact hj.symm

/-- Another thread than that of the sink, after a note. -/
theorem Remembers.other (h : Remembers s n) (hg : n.each[i]? = some g) {g' g₁ : At} (hg₁ : g₁ ∈ n.each.set i g') : g₁ = g' ∨ (g₁ ∈ n.each ∧ g₁.sink ≠ g.sink) := by
  have hlt : i < n.each.length := (List.getElem?_eq_some_iff.mp hg).1
  obtain ⟨j, hj⟩ := List.mem_iff_getElem?.mp hg₁
  by_cases hij : i = j
  · subst hij
    rw [List.getElem?_set_self hlt, Option.some.injEq] at hj
    exact .inl hj.symm
  · rw [List.getElem?_set_ne hij] at hj
    refine .inr ⟨List.mem_of_getElem? hj, fun hsame => hij ?_⟩
    exact h.apart i j g g₁ hg hj hsame.symm

theorem Remembers.apart_set (h : Remembers s n) (hg : n.each[i]? = some g) {g' : At} (hsink : g'.sink = g.sink) :
    ∀ (j k : ℕ) (g₁ g₂ : At), (n.each.set i g')[j]? = some g₁ → (n.each.set i g')[k]? = some g₂ → g₁.sink = g₂.sink → j = k := by
  have hlt : i < n.each.length := (List.getElem?_eq_some_iff.mp hg).1
  have hold {j : ℕ} {g₁ : At} (hj : (n.each.set i g')[j]? = some g₁) : ∃ g₀, n.each[j]? = some g₀ ∧ g₀.sink = g₁.sink := by
    by_cases hij : i = j
    · subst hij
      rw [List.getElem?_set_self hlt, Option.some.injEq] at hj
      exact ⟨g, hg, by rw [← hj, hsink]⟩
    · rw [List.getElem?_set_ne hij] at hj
      exact ⟨g₁, hj, rfl⟩
  intro j k g₁ g₂ hj hk hsame
  obtain ⟨f₁, hf₁, hs₁⟩ := hold hj
  obtain ⟨f₂, hf₂, hs₂⟩ := hold hk
  exact h.apart j k f₁ f₂ hf₁ hf₂ (hs₁.trans (hsame.trans hs₂.symm))

theorem Remembers.made_set (h : Remembers s n) (hg : n.each[i]? = some g) {g' : At} (hsink : g'.sink = g.sink) :
    ∀ g₁ ∈ n.each.set i g', g₁.sink < s.nextSink := by
  intro g₁ hg₁
  rcases h.other hg hg₁ with rfl | ⟨hold, -⟩
  · rw [hsink]
    exact h.made g (List.mem_of_getElem? hg)
  · exact h.made g₁ hold

/-- A thread that is about to keep another id is so still. -/
theorem ended_set (hg : n.each[i]? = some g) {g' : At} {k : ℕ} {x : Canon}
    (hnot : g.phase ≠ .ended x) (hk : ∃ g₁ ∈ n.each, g₁.sink = k ∧ g₁.phase = .ended x) :
    ∃ g₁ ∈ n.each.set i g', g₁.sink = k ∧ g₁.phase = .ended x := by
  obtain ⟨g₁, hg₁, hsink, hphase⟩ := hk
  obtain ⟨j, hj⟩ := List.mem_iff_getElem?.mp hg₁
  have hij : i ≠ j := by
    rintro rfl
    rw [hg, Option.some.injEq] at hj
    exact hnot (hj ▸ hphase)
  exact ⟨g₁, List.mem_iff_getElem?.mpr ⟨j, by rw [List.getElem?_set_ne hij, hj]⟩, hsink, hphase⟩

/-- A note on a thread, with nothing else changed. -/
theorem Remembers.note (h : Remembers s n) (hg : n.each[i]? = some g) {g' : At} (hsink : g'.sink = g.sink)
    (hunkept : ∀ x, g'.phase.id = some x → x ∉ (s.sinks g.sink).seen)
    (hcalled : ∀ x, g'.phase = .calling x ∨ g'.phase = .ended x → ∀ y, x ≠ y →
      lastReturn y s.history = some g.sink → x ∈ others y s.history)
    (hended : ∀ x, g.phase ≠ .ended x) : Remembers s ⟨n.each.set i g', ()⟩ := by
  refine ⟨h.apart_set hg hsink, h.made_set hg hsink, h.past, ?_, h.nodup, ?_, ?_⟩
  · intro g₁ hg₁ y hy
    rcases h.other hg hg₁ with rfl | ⟨hold, -⟩
    · rw [hsink]
      exact hunkept y hy
    · exact h.unkept g₁ hold y hy
  · intro g₁ hg₁ y hy
    rcases h.other hg hg₁ with rfl | ⟨hold, -⟩
    · rw [hsink]
      exact hcalled y hy
    · exact h.called g₁ hold y hy
  · intro k y ht hy
    exact (h.keeps k y ht hy).imp_left fun hw => ended_set hg (hended y) hw

theorem Remembers.isSeen (h : Remembers s n) (hg : n.each[i]? = some g) {k : ℕ} {x : Canon} (hP : g.Permits (.isSeen k x)) :
    Remembers s ⟨n.each.set i (g.noteAct (.isSeen k x) (decide (x ∈ (s.sinks k).seen))), ()⟩ := by
  obtain ⟨rfl, hidle⟩ := hP
  refine h.note hg rfl ?_ ?_ fun y => by rw [hidle]; simp
  · intro y hy
    by_cases hseen : x ∈ (s.sinks g.sink).seen
    · simp [noteAct, hseen, Phase.id] at hy
    · obtain rfl : x = y := by simpa [noteAct, hseen, Phase.id] using hy
      exact hseen
  · intro y hy
    by_cases hseen : x ∈ (s.sinks g.sink).seen <;> simp [noteAct, hseen] at hy

/-- The command is passed on: its id has come since every other one was handled. -/
theorem Remembers.callback (h : Remembers s n) (hg : n.each[i]? = some g) {k : ℕ} {cmd : Command}
    (hP : g.Permits (.callback k cmd)) :
    Remembers (Agent.perform (.callback k cmd) s).2 ⟨n.each.set i (g.noteAct (.callback k cmd) ()), ()⟩ := by
  obtain ⟨rfl, hphase⟩ := hP
  have hmem := List.mem_of_getElem? hg
  have hended (y : Canon) : g.phase ≠ .ended y := by
    rw [hphase]
    split_ifs <;> simp
  -- the mark alone
  have h' : Remembers (Agent.perform (.callback g.sink cmd) s).2 n := by
    refine ⟨h.apart, h.made, h.past, h.unkept, h.nodup, ?_, ?_⟩
    · intro g₁ hg₁ y hy z hz hlast
      exact others_passed_subset (h.called g₁ hg₁ y hy z hz hlast)
    · intro k y ht hy
      exact (h.keeps k y ht hy).imp_right fun hk => hk.mono others_passed_subset
  refine h'.note hg rfl ?_ ?_ hended
  · intro y hy
    by_cases ht : (idOf cmd).truthy = true
    · obtain rfl : (idOf cmd).canon = y := by simpa [noteAct, ht, Phase.id] using hy
      rw [if_pos ht] at hphase
      exact h.unkept g hmem _ (by rw [hphase]; rfl)
    · simp [noteAct, ht, Phase.id] at hy
  · intro y hy z hz hlast
    by_cases ht : (idOf cmd).truthy = true
    · obtain rfl : (idOf cmd).canon = y := by simpa [noteAct, ht] using hy
      have hnull : (idOf cmd).canon ≠ .null := by
        intro hnull
        rw [Json.truthy_congr (b := .null) hnull] at ht
        cases ht
      change (idOf cmd).canon ∈ others z (.passed g.sink _ (idOf cmd).canon :: s.history)
      rw [others_passed hz hnull]
      exact List.mem_cons_self
    · simp [noteAct, ht] at hy

/-- The runtime returns. -/
theorem Remembers.callbackRaises (h : Remembers s n) (hg : n.each[i]? = some g) {k : ℕ} {cmd : Command}
    (hP : g.Permits (.callbackRaises k cmd)) :
    Remembers (Agent.perform (.callbackRaises k cmd) s).2
      ⟨n.each.set i (g.noteAct (.callbackRaises k cmd) (s.raises s.tick)), ()⟩ := by
  obtain ⟨rfl, hphase⟩ := hP
  have hmem := List.mem_of_getElem? hg
  have hended (y : Canon) : g.phase ≠ .ended y := by
    rw [hphase]
    split_ifs <;> simp
  have hnow (y : Canon) (hy : (g.noteAct (.callbackRaises g.sink cmd) (s.raises s.tick)).phase.id = some y) :
      (idOf cmd).canon = y ∧ (idOf cmd).truthy = true ∧ g.phase = .calling y := by
    by_cases ht : (idOf cmd).truthy = true
    · cases hr : s.raises s.tick with
      | true => simp [noteAct, ht, hr, Phase.id] at hy
      | false =>
        obtain rfl : (idOf cmd).canon = y := by simpa [noteAct, ht, hr, Phase.id] using hy
        exact ⟨rfl, ht, by rw [hphase, if_pos ht]⟩
    · simp [noteAct, ht, Phase.id] at hy
  have hunkept (y : Canon) (hy : (g.noteAct (.callbackRaises g.sink cmd) (s.raises s.tick)).phase.id = some y) :
      y ∉ (s.sinks g.sink).seen := h.unkept g hmem y (by rw [(hnow y hy).2.2]; rfl)
  cases hr : s.raises s.tick with
  | true =>
    have h' : Remembers (Agent.perform (.callbackRaises g.sink cmd) s).2 n := by
      have hhistory : (Agent.perform (.callbackRaises g.sink cmd) s).2.history = s.history := if_pos hr
      refine ⟨h.apart, h.made, ?_, h.unkept, h.nodup, ?_, ?_⟩
      · rw [hhistory]
        exact h.past
      · rw [hhistory]
        exact h.called
      · rw [hhistory]
        exact h.keeps
    refine h'.note hg rfl (hr ▸ hunkept) ?_ hended
    intro y hy
    simp [noteAct] at hy
  | false =>
    have hhistory : (Agent.perform (.callbackRaises g.sink cmd) s).2.history =
        .returned g.sink (idOf cmd).canon :: s.history := by
      change (if s.raises s.tick = true then s.history else _) = _
      rw [hr]
      rfl
    have hsinks : (Agent.perform (.callbackRaises g.sink cmd) s).2.sinks = s.sinks := rfl
    have hphase' : (g.noteAct (.callbackRaises g.sink cmd) false).phase =
        if (idOf cmd).truthy then .ended (idOf cmd).canon else .idle := by simp [noteAct]
    rw [hr] at hnow hunkept
    refine ⟨h.apart_set hg rfl, h.made_set hg rfl, ?_, ?_, h.nodup, ?_, ?_⟩
    · intro x j hx
      rw [hhistory, lastReturn] at hx
      split_ifs at hx with hxid
      · cases hx
        exact h.made g hmem
      · exact h.past x j hx
    · intro g₁ hg₁ y hy
      rcases h.other hg hg₁ with rfl | ⟨hold, -⟩
      · exact hunkept y hy
      · exact h.unkept g₁ hold y hy
    · intro g₁ hg₁ y hy z hz hlast
      rw [hhistory] at hlast ⊢
      rcases h.other hg hg₁ with rfl | ⟨hold, hne⟩
      · have hy' : (g.noteAct (.callbackRaises g.sink cmd) false).phase.id = some y := by
          rcases hy with hy | hy <;> rw [hy] <;> rfl
        obtain ⟨rfl, -, hcalling⟩ := hnow y hy'
        rw [lastReturn_returned_ne hz] at hlast
        rw [others_returned_ne hz]
        exact h.called g hmem _ (.inl hcalling) z hz hlast
      · by_cases hzid : (idOf cmd).canon = z
        · rw [lastReturn, if_pos hzid, Option.some.injEq] at hlast
          exact absurd hlast.symm hne
        · rw [lastReturn_returned_ne hzid] at hlast
          rw [others_returned_ne hzid]
          exact h.called g₁ hold y hy z hz hlast
    · intro k y ht hy
      rw [hhistory] at hy ⊢
      by_cases hyid : (idOf cmd).canon = y
      · rw [lastReturn, if_pos hyid, Option.some.injEq] at hy
        subst hyid
        have hlt : i < n.each.length := (List.getElem?_eq_some_iff.mp hg).1
        refine .inl ⟨g.noteAct (.callbackRaises g.sink cmd) false, List.mem_set hlt _, hy, ?_⟩
        rw [hphase', if_pos (truthy_of_canon ht)]
      · rw [lastReturn_returned_ne hyid] at hy
        rw [others_returned_ne hyid]
        exact (h.keeps k y ht hy).imp_left fun hw => ended_set hg (hended y) hw

theorem Remembers.append (h : Remembers s n) (hg : n.each[i]? = some g) {k : ℕ} {x : Canon} (hP : g.Permits (.append k x)) :
    Remembers (Agent.perform (.append k x) s).2 ⟨n.each.set i (g.noteAct (.append k x) ()), ()⟩ := by
  obtain ⟨rfl, hended⟩ := hP
  have hmem := List.mem_of_getElem? hg
  have hnot : x ∉ (s.sinks g.sink).seen := h.unkept g hmem x (by rw [hended]; rfl)
  have hthis : (Agent.perform (.append g.sink x) s).2.sinks g.sink = (s.sinks g.sink).append x := Function.update_self ..
  have hother {j : ℕ} (hj : j ≠ g.sink) : (Agent.perform (.append g.sink x) s).2.sinks j = s.sinks j :=
    Function.update_of_ne hj ..
  refine ⟨h.apart_set hg rfl, h.made_set hg rfl, h.past, ?_, ?_, ?_, ?_⟩
  · intro g₁ hg₁ y hy
    rcases h.other hg hg₁ with rfl | ⟨hold, hne⟩
    · cases hy
    · rw [hother hne]
      exact h.unkept g₁ hold y hy
  · intro j
    by_cases hj : j = g.sink
    · subst hj
      rw [hthis]
      refine List.Nodup.sublist (List.drop_sublist _ _) ?_
      rw [List.nodup_append]
      refine ⟨h.nodup g.sink, List.nodup_singleton x, ?_⟩
      rintro a ha b hb rfl
      rw [List.mem_singleton.mp hb] at ha
      exact hnot ha
    · rw [hother hj]
      exact h.nodup j
  · intro g₁ hg₁ y hy z hz hlast
    rcases h.other hg hg₁ with rfl | ⟨hold, -⟩
    · rcases hy with hy | hy <;> cases hy
    · exact h.called g₁ hold y hy z hz hlast
  · intro j y ht hy
    by_cases hj : j = g.sink
    · subst hj
      rw [hthis]
      right
      by_cases hxy : x = y
      · rw [← hxy]
        exact kept_append_self _ _ x
      · rcases h.keeps g.sink y ht hy with ⟨g₁, hg₁, hsink, hphase⟩ | hkept
        · obtain rfl := h.own hg hg₁ hsink
          rw [hended] at hphase
          cases hphase
          exact absurd rfl hxy
        · exact hkept.append (h.nodup g.sink) hnot (h.called g hmem x (.inr hended) y hxy hy)
    · rw [hother hj]
      refine (h.keeps j y ht hy).imp_left ?_
      rintro ⟨g₁, hg₁, rfl, hphase⟩
      obtain ⟨l, hl⟩ := List.mem_iff_getElem?.mp hg₁
      have hil : i ≠ l := by
        rintro rfl
        rw [hg, Option.some.injEq] at hl
        exact hj (hl ▸ rfl)
      exact ⟨g₁, List.mem_iff_getElem?.mpr ⟨l, by rw [List.getElem?_set_ne hil, hl]⟩, rfl, hphase⟩

end Remembers

/-! ### The runs -/

section Runs

variable {s : Agent} {n : Notes At Unit} {i : ℕ} {g : At}

theorem Remembers.act (h : Remembers s n) (hg : n.each[i]? = some g) {a : Act} (hP : g.Permits a) :
    Remembers (Agent.perform a s).2 ⟨n.each.set i (g.noteAct a (Agent.perform a s).1), ()⟩ := by
  cases a with
  | isSeen k x => exact h.isSeen hg hP
  | callback k cmd => exact h.callback hg hP
  | callbackRaises k cmd => exact h.callbackRaises hg hP
  | append k x => exact h.append hg hP

/-- A command that passes has not been handled, or comes back after enough others. -/
theorem Remembers.once (h : Remembers s n) (hg : n.each[i]? = some g) {k : ℕ} {cmd : Command}
    (hP : g.Permits (.callback k cmd)) (hC : ComesBack (.callback k cmd) s) (hnull : (idOf cmd).canon ≠ .null) {j : ℕ}
    (hj : lastReturn (idOf cmd).canon s.history = some j) :
    (s.sinks k).dedupWindow ≤ (others (idOf cmd).canon s.history).dedup.length := by
  obtain ⟨rfl, hphase⟩ := hP
  rcases hC hnull j hj with ⟨rfl, ht⟩ | hwide
  · rw [if_pos ht] at hphase
    have hnot := h.unkept g (List.mem_of_getElem? hg) _ (by rw [hphase]; rfl)
    rcases h.keeps g.sink _ (Json.truthy_canon _ ▸ ht) hj with ⟨g₁, hg₁, hsink, hended⟩ | ⟨pre, post, hseen, -⟩ | hwide
    · obtain rfl := h.own hg hg₁ hsink
      rw [hphase] at hended
      cases hended
    · rw [hseen] at hnot
      exact absurd (List.mem_append_right _ List.mem_cons_self) hnot
    · exact hwide
  · exact hwide

theorem handledOnce_act (h : Remembers s n) (hg : n.each[i]? = some g) {a : Act} (hP : g.Permits a) (hC : ComesBack a s)
    (ho : HandledOnce s.history) : HandledOnce (Agent.perform a s).2.history := by
  cases a with
  | isSeen | append => exact ho
  | callback k cmd => exact ⟨fun hnull j hj => h.once hg hP hC hnull hj, ho⟩
  | callbackRaises k cmd =>
    change HandledOnce (if s.raises s.tick then s.history else _)
    split_ifs
    · exact ho
    · exact ho

/-- What a thread starts with: the sink that is made for it. -/
def born : Entry → Agent → At
  | .start _ _, s => { sink := s.nextSink }

theorem Remembers.append_start (h : Remembers s n) (w : ℕ) :
    Remembers { s with nextSink := s.nextSink + 1, sinks := Function.update s.sinks s.nextSink { dedupWindow := w } }
      ⟨n.each ++ [{ sink := s.nextSink }], ()⟩ := by
  have hold {j : ℕ} (hj : j < s.nextSink) :
      Function.update s.sinks s.nextSink { dedupWindow := w } j = s.sinks j := Function.update_of_ne (Nat.ne_of_lt hj) ..
  have hcases {g : At} (hg : g ∈ n.each ++ [{ sink := s.nextSink }]) : g ∈ n.each ∨ g = { sink := s.nextSink } := by
    simpa using hg
  have hplace {j : ℕ} {g : At} (hj : (n.each ++ [{ sink := s.nextSink }])[j]? = some g) :
      n.each[j]? = some g ∨ (j = n.each.length ∧ g.sink = s.nextSink) := by
    rcases Nat.lt_trichotomy j n.each.length with hlt | rfl | hgt
    · rw [List.getElem?_append_left hlt] at hj
      exact .inl hj
    · rw [List.getElem?_concat_length, Option.some.injEq] at hj
      exact .inr ⟨rfl, by rw [← hj]⟩
    · rw [List.getElem?_eq_none (by simp; omega)] at hj
      cases hj
  refine ⟨?_, ?_, ?_, ?_, ?_, ?_, ?_⟩
  · intro j k g g' hj hk hsame
    rcases hplace hj with hj | ⟨rfl, hs⟩
    · rcases hplace hk with hk | ⟨rfl, hs'⟩
      · exact h.apart j k g g' hj hk hsame
      · exact absurd (hsame.trans hs') (Nat.ne_of_lt (h.made g (List.mem_of_getElem? hj)))
    · rcases hplace hk with hk | ⟨rfl, -⟩
      · exact absurd (hsame.symm.trans hs) (Nat.ne_of_lt (h.made g' (List.mem_of_getElem? hk)))
      · rfl
  · intro g hg
    rcases hcases hg with hg | rfl
    · exact Nat.lt_succ_of_lt (h.made g hg)
    · exact Nat.lt_succ_self _
  · intro x j hx
    exact Nat.lt_succ_of_lt (h.past x j hx)
  · intro g hg x hx
    rcases hcases hg with hg | rfl
    · change x ∉ (Function.update s.sinks s.nextSink _ g.sink).seen
      rw [hold (h.made g hg)]
      exact h.unkept g hg x hx
    · cases hx
  · intro j
    change (Function.update s.sinks s.nextSink _ j).seen.Nodup
    by_cases hj : j = s.nextSink
    · rw [hj, Function.update_self]
      exact List.nodup_nil
    · rw [Function.update_of_ne hj]
      exact h.nodup j
  · intro g hg x hx y hy hlast
    rcases hcases hg with hg | rfl
    · exact h.called g hg x hx y hy hlast
    · rcases hx with hx | hx <;> cases hx
  · intro j x ht hx
    rcases h.keeps j x ht hx with ⟨g, hg, hgj⟩ | hkept
    · exact .inl ⟨g, List.mem_append_left _ hg, hgj⟩
    · right
      change Kept (Function.update s.sinks s.nextSink _ j) _ x
      rw [hold (h.past x j hx)]
      exact hkept

theorem remembers_boot (raises : ℕ → Bool) : Remembers (boot raises).shared ⟨[], ()⟩ where
  apart j k g g' hj := by cases hj
  made g hg := by cases hg
  past x i hx := by cases hx
  unkept g hg := by cases hg
  nodup i := List.nodup_nil
  called g hg := by cases hg
  keeps i x _ hx := by cases hx

/-- The history only grows. -/
theorem history_grows {es : List (Ev Entry)} {c d : Sys sinkSig Agent} (he : machine.exec c es = some d) :
    ∃ l, d.shared.history = l ++ c.shared.history := by
  induction es generalizing c with
  | nil =>
    obtain rfl := Option.some.inj he
    exact ⟨[], rfl⟩
  | cons e es ih =>
    obtain ⟨c', hc, he⟩ := Option.bind_eq_some_iff.mp he
    obtain ⟨l, hl⟩ := ih he
    obtain ⟨l', hl'⟩ : ∃ l', c'.shared.history = l' ++ c.shared.history := by
      rcases machine.step_shared hc with ⟨a, -, hs⟩ | ⟨-, hs⟩ | ⟨-, x, p, -, hx⟩
      · rw [hs]
        cases a with
        | isSeen | append => exact ⟨[], rfl⟩
        | callback k cmd => exact ⟨[_], rfl⟩
        | callbackRaises k cmd =>
          change ∃ l', (if c.shared.raises c.shared.tick then c.shared.history else _) = l' ++ c.shared.history
          split_ifs
          · exact ⟨[], rfl⟩
          · exact ⟨[_], rfl⟩
      · exact ⟨[], by rw [hs]; rfl⟩
      · cases x
        obtain ⟨-, hs⟩ := Prod.mk.inj (Option.some.inj hx)
        exact ⟨[], by rw [← hs]; rfl⟩
    exact ⟨l ++ l', by rw [hl, hl', List.append_assoc]⟩

/-- What was handled once in the end came back to its sink all along. -/
theorem comesBack_of_handledOnce {es : List (Ev Entry)} {c d : Sys sinkSig Agent} (he : machine.exec c es = some d)
    (ho : HandledOnce d.shared.history) : machine.Meets ComesBack c es := by
  induction es generalizing c with
  | nil => trivial
  | cons e es ih =>
    obtain ⟨c', hc, he⟩ := Option.bind_eq_some_iff.mp he
    refine ⟨fun a ha => ?_, fun c'' hc'' => ?_⟩
    · obtain ⟨c'', hc'', hs⟩ := machine.performs_step ha
      obtain rfl := Option.some.inj (hc.symm.trans hc'')
      obtain ⟨l, hl⟩ := history_grows he
      rw [hl] at ho
      have hnow : HandledOnce c'.shared.history := ho.of_append
      rw [hs] at hnow
      cases a with
      | callback k cmd => exact fun hnull j hj => .inr (hnow.1 hnull j hj)
      | _ => trivial
    · obtain rfl := Option.some.inj (hc.symm.trans hc'')
      exact ih he

/-- **Handled once.** In a run no command is handled again, before as many others have come
as the window is wide, just if every command that is handed on was last handled by the sink
that hands it on. -/
theorem handled_once_iff (raises : ℕ → Bool) {es : List (Ev Entry)} {c : Sys sinkSig Agent}
    (he : machine.exec (boot raises) es = some c) :
    HandledOnce c.shared.history ↔ machine.Meets ComesBack (boot raises) es := by
  refine ⟨comesBack_of_handledOnce he, fun hm => ?_⟩
  have hstart : Tied note Permits (boot raises) [] := .nil
  have hnoted : machine.MeetsNoted note born unmarked (fun s _ _ a => ComesBack a s) (boot raises) ⟨[], ()⟩ es :=
    meetsNoted_of_meets (fun _ _ _ _ h => h) hm
  have hrun := exec_follows (I := fun s _ n => Remembers s n ∧ HandledOnce s.history) ?_ ?_ ?_ ?_ hstart
    ⟨remembers_boot raises, trivial⟩ hnoted he
  · exact hrun.2.2
  · rintro s held n i g a ⟨h, ho⟩ hg hP hC
    exact ⟨h.act hg hP, handledOnce_act h hg hP hC ho⟩
  · rintro s held held' n i g ⟨⟩
  · rintro s held held' n i g ⟨⟩
  · rintro s held n ⟨w, source⟩ p s' ⟨h, ho⟩ hx
    obtain ⟨rfl, rfl⟩ := Prod.mk.inj (Option.some.inj hx)
    exact ⟨keeps_run source ⟨rfl, rfl⟩, h.append_start w, ho⟩

end Runs

/-! ### The backlog and the live sample -/

/-- A command with an id. -/
def commandWith (id : String) : Command := .ofList [("id", .str id), ("type", .str "UPDATE_AGENT")]

/-- A backlog poller and a subscription, each with a sink of its own, get one command. -/
def twoSinks : List (Ev Entry) :=
  .enter (.start 2000 [.list [commandWith "c1"]]) :: .enter (.start 2000 [.dict (commandWith "c1")]) ::
    (List.replicate 4 (.step 0) ++ List.replicate 4 (.step 1))

theorem handled_twice : ∃ es c, machine.exec (boot fun _ => false) es = some c ∧ ¬HandledOnce c.shared.history := by
  have hrun : (machine.exec (boot fun _ => false) twoSinks).any (fun c => ¬HandledOnce c.shared.history) = true := by
    decide +kernel
  obtain ⟨c, hc, htwice⟩ := (Option.any_eq_true _ _).mp hrun
  exact ⟨_, c, hc, of_decide_eq_true htwice⟩

/-- Twice to one sink: the second time it is seen. -/
def oneSink : List (Ev Entry) :=
  .enter (.start 2000 [.list [commandWith "c1"], .dict (commandWith "c1")]) :: List.replicate 5 (.step 0)

theorem handled_once_one_sink : ∃ c, machine.exec (boot fun _ => false) oneSink = some c ∧
    HandledOnce c.shared.history := by
  have hrun : (machine.exec (boot fun _ => false) oneSink).isSome = true := by
    decide +kernel
  have hmeets : machine.checks (fun (a : Act) s => decide (ComesBack a s)) (boot fun _ => false) oneSink = true := by
    decide +kernel
  obtain ⟨c, hc⟩ := Option.isSome_iff_exists.mp hrun
  exact ⟨c, hc, (handled_once_iff (fun _ => false) hc).mpr
    (meets_of_checks (fun (a : Act) s (h : decide (ComesBack a s) = true) => of_decide_eq_true h) hmeets)⟩

end CommandSink
end LocaiLink
