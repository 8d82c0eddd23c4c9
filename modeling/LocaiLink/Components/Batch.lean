/-
# A list of commands in one delivery

A source gives the sink a list, and the sink passes what is fresh in it to the runtime: the
commands it does not remember. It stops at the first item that fails, and the pipeline does
not deliver the rest again. So the list is passed on in full just if nothing fresh stands
behind the first item that fails (`batch_iff`). Here an item is whatever the source found in
the list, a dictionary or not.

Key definitions: `callItems`, `fresh`, `NothingBehind`.
Key theorems: `calls_callItems`, `batch_iff`.
-/
import LocaiLink.Base.Ghost
import LocaiLink.Components.CommandSink

namespace LocaiLink
namespace CommandSink

/-! ### The code -/

/-- `_dispatch` of any item: `none` where it raises. What is no dictionary has no `get`. -/
def dispatchItem (i : ℕ) (item : Json) : Code (Option Bool) :=
  match item.dict with
  | none => pure none
  | some cmd => do
    let ok ← dispatch i cmd
    pure (some ok)

/-- `all(self._dispatch(cmd) for cmd in cmds)` over any items: `none` where it raises -/
def callItems (i : ℕ) : List Json → Code (Option Bool)
  | [] => pure (some true)
  | item :: items => do
    let r ← dispatchItem i item
    if r = some true then callItems i items else pure r

/-- The commands a path passes to the runtime, in order. -/
def passedOn (as : List Act) : List Command :=
  as.filterMap fun
    | .callback _ cmd => some cmd
    | _ => none

/-- What the sink passes on of a list. -/
def calls (i : ℕ) (items : List Json) (s : Agent) : List Command :=
  passedOn (Prog.trace machine.sem (callItems i items) s)

/-- What it answers. -/
def answer (i : ℕ) (items : List Json) (s : Agent) : Option Bool :=
  (Prog.run machine.sem (callItems i items) s).1

/-! ### What a list should come to -/

namespace AgentCommand

/-- `cmd_id and cmd_id in self._seen` -/
def remembers (x : AgentCommand) (cmd : Command) : Bool :=
  (idOf cmd).truthy && decide ((idOf cmd).canon ∈ x.seen)

/-- The sink after a command that was handled. -/
def note (cmd : Command) (x : AgentCommand) : AgentCommand :=
  if (idOf cmd).truthy then x.append (idOf cmd).canon else x

/-- Every command among the items is remembered. -/
def RemembersAll (x : AgentCommand) (items : List Json) : Prop :=
  ∀ item ∈ items, ∀ cmd, item.dict = some cmd → x.remembers cmd = true

end AgentCommand

/-- Every item has its turn. A command that is not remembered then is fresh; it is the `n`th
that is passed on, and `raises n` says whether the runtime raises. -/
def fresh (raises : ℕ → Bool) : List Json → AgentCommand → ℕ → List Command
  | [], _, _ => []
  | item :: items, x, n =>
    match item.dict with
    | none => fresh raises items x n
    | some cmd =>
      if x.remembers cmd then fresh raises items x n
      else cmd :: fresh raises items (if raises n then x else x.note cmd) (n + 1)

/-- Every item is a command, which is remembered or handled. -/
def NoneFails (raises : ℕ → Bool) : List Json → AgentCommand → ℕ → Prop
  | [], _, _ => True
  | item :: items, x, n =>
    match item.dict with
    | none => False
    | some cmd =>
      if x.remembers cmd then NoneFails raises items x n
      else raises n = false ∧ NoneFails raises items (x.note cmd) (n + 1)

/-- Behind the first item that is no dictionary, or whose handling raises, stand only items
that are no dictionaries and commands that are remembered. -/
def NothingBehind (raises : ℕ → Bool) : List Json → AgentCommand → ℕ → Prop
  | [], _, _ => True
  | item :: items, x, n =>
    match item.dict with
    | none => x.RemembersAll items
    | some cmd =>
      if x.remembers cmd then NothingBehind raises items x n
      else if raises n then x.RemembersAll items
      else NothingBehind raises items (x.note cmd) (n + 1)

section Equations

variable {raises : ℕ → Bool} {item : Json} {items : List Json} {cmd : Command} {x : AgentCommand} {n : ℕ}

theorem fresh_other (hd : item.dict = none) : fresh raises (item :: items) x n = fresh raises items x n := by
  rw [fresh, hd]

theorem fresh_dict (hd : item.dict = some cmd) : fresh raises (item :: items) x n =
    if x.remembers cmd then fresh raises items x n
    else cmd :: fresh raises items (if raises n then x else x.note cmd) (n + 1) := by
  rw [fresh, hd]

theorem noneFails_other (hd : item.dict = none) : ¬NoneFails raises (item :: items) x n := by
  rw [NoneFails, hd]
  exact not_false

theorem noneFails_dict (hd : item.dict = some cmd) : NoneFails raises (item :: items) x n ↔
    if x.remembers cmd then NoneFails raises items x n
    else raises n = false ∧ NoneFails raises items (x.note cmd) (n + 1) := by
  rw [NoneFails, hd]

theorem nothingBehind_other (hd : item.dict = none) :
    NothingBehind raises (item :: items) x n ↔ x.RemembersAll items := by
  rw [NothingBehind, hd]

theorem nothingBehind_dict (hd : item.dict = some cmd) : NothingBehind raises (item :: items) x n ↔
    if x.remembers cmd then NothingBehind raises items x n
    else if raises n then x.RemembersAll items
    else NothingBehind raises items (x.note cmd) (n + 1) := by
  rw [NothingBehind, hd]

/-- Nothing is fresh just if all is remembered. -/
theorem fresh_eq_nil_iff : fresh raises items x n = [] ↔ x.RemembersAll items := by
  induction items with
  | nil =>
    refine iff_of_true rfl ?_
    intro item hitem
    exact absurd hitem List.not_mem_nil
  | cons item items ih =>
    have hcons : x.RemembersAll (item :: items) ↔
        (∀ cmd, item.dict = some cmd → x.remembers cmd = true) ∧ x.RemembersAll items := by
      simp [AgentCommand.RemembersAll]
    rw [hcons]
    cases hd : item.dict with
    | none => rw [fresh_other hd, ih]; simp
    | some cmd =>
      rw [fresh_dict hd]
      by_cases hr : x.remembers cmd = true
      · rw [if_pos hr, ih]
        simp [hr]
      · rw [if_neg hr]
        simp [hr]

end Equations

/-! ### What one item comes to -/

section Item

variable {i : ℕ} {item : Json} {cmd : Command} {s : Agent}

theorem run_act (a : Act) : Prog.run machine.sem (act a) s = Agent.perform a s := rfl

theorem trace_act (a : Act) : Prog.trace machine.sem (act a) s = [a] := rfl

theorem dispatchItem_other (hd : item.dict = none) : dispatchItem i item = pure none := by
  rw [dispatchItem, hd]

theorem dispatchItem_dict (hd : item.dict = some cmd) : dispatchItem i item = (dispatch i cmd >>= fun ok => pure (some ok)) := by
  rw [dispatchItem, hd]

/-- A command that is remembered is not passed on. -/
theorem dispatch_remembered (hr : (s.sinks i).remembers cmd = true) :
    Prog.run machine.sem (dispatch i cmd) s = (true, s) ∧
      passedOn (Prog.trace machine.sem (dispatch i cmd) s) = [] := by
  obtain ⟨ht, hseen⟩ := Bool.and_eq_true_iff.mp hr
  have hacts : Agent.perform (.isSeen i (idOf cmd).canon) s = (true, s) := Prod.ext hseen rfl
  unfold dispatch
  rw [if_pos ht]
  constructor
  · rw [Prog.run_bind, run_act, hacts]
    rfl
  · rw [Prog.trace_bind, trace_act, run_act, hacts]
    rfl

/-- What follows the end of the callback. -/
def ended (i : ℕ) (cmd : Command) (raised : Bool) : Code Bool :=
  if raised then pure false
  else do
    if (idOf cmd).truthy then act (.append i (idOf cmd).canon)
    pure true

/-- The state then. -/
def called (i : ℕ) (cmd : Command) (s : Agent) : Agent :=
  (Agent.perform (.callbackRaises i cmd) (Agent.perform (.callback i cmd) s).2).2

theorem run_handle : Prog.run machine.sem (handle i cmd) s =
    Prog.run machine.sem (ended i cmd (s.raises s.tick)) (called i cmd s) := rfl

theorem trace_handle : Prog.trace machine.sem (handle i cmd) s =
    .callback i cmd :: .callbackRaises i cmd ::
      Prog.trace machine.sem (ended i cmd (s.raises s.tick)) (called i cmd s) := rfl

/-- What handling a command does. -/
theorem handle_alone (i : ℕ) (cmd : Command) (s : Agent) :
    (Prog.run machine.sem (handle i cmd) s).1 = !s.raises s.tick ∧
      (Prog.run machine.sem (handle i cmd) s).2.sinks i = (if s.raises s.tick then s.sinks i else (s.sinks i).note cmd) ∧
      (Prog.run machine.sem (handle i cmd) s).2.tick = s.tick + 1 ∧
      (Prog.run machine.sem (handle i cmd) s).2.raises = s.raises ∧
      passedOn (Prog.trace machine.sem (handle i cmd) s) = [cmd] := by
  rw [run_handle, trace_handle]
  cases s.raises s.tick with
  | true => exact ⟨rfl, rfl, rfl, rfl, rfl⟩
  | false =>
    rw [ended, if_neg Bool.false_ne_true, if_neg Bool.false_ne_true, AgentCommand.note]
    by_cases ht : (idOf cmd).truthy = true
    · rw [if_pos ht, if_pos ht]
      exact ⟨rfl, Function.update_self .., rfl, rfl, rfl⟩
    · rw [if_neg ht, if_neg ht]
      exact ⟨rfl, rfl, rfl, rfl, rfl⟩

/-- A fresh command is passed on, and handled unless the runtime raises. -/
theorem dispatch_fresh (i : ℕ) (hr : (s.sinks i).remembers cmd = false) :
    Prog.run machine.sem (dispatch i cmd) s = Prog.run machine.sem (handle i cmd) s ∧
      passedOn (Prog.trace machine.sem (dispatch i cmd) s) = passedOn (Prog.trace machine.sem (handle i cmd) s) := by
  unfold dispatch
  by_cases ht : (idOf cmd).truthy = true
  · have hseen : decide ((idOf cmd).canon ∈ (s.sinks i).seen) = false := by
      simpa [AgentCommand.remembers, ht] using hr
    have hacts : Agent.perform (.isSeen i (idOf cmd).canon) s = (false, s) := Prod.ext hseen rfl
    rw [if_pos ht, Prog.run_bind, Prog.trace_bind, trace_act, run_act, hacts]
    exact ⟨rfl, rfl⟩
  · rw [if_neg ht]
    exact ⟨rfl, rfl⟩

end Item

/-! ### What a list comes to -/

section List

variable {i : ℕ} {item : Json} {items : List Json} {cmd : Command} {s : Agent}

theorem passedOn_append (as bs : List Act) : passedOn (as ++ bs) = passedOn as ++ passedOn bs :=
  List.filterMap_append

/-- An item that is no dictionary ends it. -/
theorem callItems_other (i : ℕ) (items : List Json) (s : Agent) (hd : item.dict = none) : calls i (item :: items) s = [] ∧ answer i (item :: items) s = none := by
  unfold calls answer
  rw [callItems, dispatchItem_other hd, Prog.trace_bind, Prog.run_bind]
  exact ⟨rfl, rfl⟩

/-- A command: the rest comes after it if it does not fail. -/
theorem callItems_dict (i : ℕ) (items : List Json) (s : Agent) (hd : item.dict = some cmd) :
    calls i (item :: items) s = passedOn (Prog.trace machine.sem (dispatch i cmd) s) ++
        (if (Prog.run machine.sem (dispatch i cmd) s).1 then calls i items (Prog.run machine.sem (dispatch i cmd) s).2
          else []) ∧
      answer i (item :: items) s =
        if (Prog.run machine.sem (dispatch i cmd) s).1 then answer i items (Prog.run machine.sem (dispatch i cmd) s).2
        else some false := by
  unfold calls answer
  rw [callItems, dispatchItem_dict hd]
  simp only [Prog.trace_bind, Prog.run_bind, Prog.trace_pure, Prog.run_pure, List.append_nil, Option.some.injEq]
  cases (Prog.run machine.sem (dispatch i cmd) s).1 with
  | true =>
    simp only [if_true, and_true]
    exact passedOn_append _ _
  | false => simp [passedOn]

/-- The sink answers `True` just if no item fails, and passes on what is fresh just if
nothing fresh stands behind an item that fails. -/
theorem calls_callItems : ∀ (items : List Json) (s : Agent),
    (answer i items s = some true ↔ NoneFails s.raises items (s.sinks i) s.tick) ∧
      (calls i items s = fresh s.raises items (s.sinks i) s.tick ↔ NothingBehind s.raises items (s.sinks i) s.tick)
  | [], s => ⟨iff_of_true rfl trivial, iff_of_true rfl trivial⟩
  | item :: items, s => by
    cases hd : item.dict with
    | none =>
      obtain ⟨hcalls, hanswer⟩ := callItems_other i items s hd
      refine ⟨iff_of_false (by rw [hanswer]; nofun) (noneFails_other hd), ?_⟩
      rw [hcalls, fresh_other hd, nothingBehind_other hd, eq_comm, fresh_eq_nil_iff]
    | some cmd =>
      obtain ⟨hcalls, hanswer⟩ := callItems_dict i items s hd
      rw [hcalls, hanswer, fresh_dict hd, noneFails_dict hd, nothingBehind_dict hd]
      by_cases hr : (s.sinks i).remembers cmd = true
      · obtain ⟨hrun, hpassed⟩ := dispatch_remembered hr
        rw [hrun, hpassed, if_pos hr, if_pos hr, if_pos hr]
        exact calls_callItems items s
      · obtain ⟨hrun, hpassed⟩ := dispatch_fresh i (Bool.eq_false_iff.mpr hr)
        obtain ⟨hok, hsink, htick, hraises, hone⟩ := handle_alone i cmd s
        rw [hrun, hpassed, hone, if_neg hr, if_neg hr, if_neg hr, hok]
        by_cases hraise : s.raises s.tick = true
        · rw [hraise]
          refine ⟨iff_of_false (by simp) (by simp), ?_⟩
          simp only [Bool.not_true, Bool.false_eq_true, if_false, if_true, List.append_nil]
          rw [List.cons.injEq, eq_comm (a := []), fresh_eq_nil_iff]
          simp
        · obtain ⟨hanswers, hcallsAll⟩ := calls_callItems items (Prog.run machine.sem (handle i cmd) s).2
          rw [hsink, htick, hraises, if_neg hraise] at hanswers hcallsAll
          rw [if_neg hraise, if_neg hraise]
          simp only [Bool.eq_false_iff.mpr hraise, Bool.not_false, if_true, true_and]
          refine ⟨hanswers, ?_⟩
          rw [List.singleton_append, List.cons.injEq]
          simp [hcallsAll]

/-- Commands alone go through the sink as they did. -/
theorem callItems_commands (i : ℕ) : ∀ cmds : List Command,
    callItems i (cmds.map fun cmd => .obj cmd.entries) = (call i (.list cmds) >>= fun ok => pure (some ok))
  | [] => rfl
  | cmd :: cmds => by
    have hd : (Json.obj cmd.entries).dict = some cmd := congrArg some (Dict.ofList_entries cmd)
    have hleft : callItems i ((cmd :: cmds).map fun cmd => .obj cmd.entries) =
        (dispatch i cmd).bind fun ok =>
          if some ok = some true then callItems i (cmds.map fun cmd => .obj cmd.entries) else pure (some ok) := by
      rw [List.map_cons, callItems, dispatchItem_dict hd]
      exact Prog.bind_assoc' _ _ _
    have hright : (call i (.list (cmd :: cmds)) >>= fun ok => pure (some ok)) =
        (dispatch i cmd).bind fun ok =>
          Prog.bind (if ok then dispatchAll i cmds else pure false) fun ok => pure (some ok) :=
      Prog.bind_assoc' _ _ _
    rw [hleft, hright, callItems_commands i cmds]
    refine congrArg _ (funext fun ok => ?_)
    cases ok with
    | true => rfl
    | false => rfl

/-- **The batch is passed on.** Every fresh command of a list is passed to the runtime, once
and in order, and the answer is `True` just if no item fails: that holds just if nothing
fresh stands behind the first item that fails. -/
theorem batch_iff (i : ℕ) (items : List Json) (s : Agent) :
    (calls i items s = fresh s.raises items (s.sinks i) s.tick ∧
      (answer i items s = some true ↔ NoneFails s.raises items (s.sinks i) s.tick)) ↔
    NothingBehind s.raises items (s.sinks i) s.tick := by
  obtain ⟨hanswer, hcalls⟩ := calls_callItems (i := i) items s
  rw [and_iff_left hanswer]
  exact hcalls

end List

/-- An agent with one sink, which has passed nothing on. -/
def newSink : Agent :=
  { sinks := fun _ => { dedupWindow := 2000 }, nextSink := 1, raises := fun _ => false, tick := 0, history := [] }

/-- A text stands before a command, and the command is not passed on. -/
theorem command_dropped : ¬∀ (i : ℕ) (items : List Json) (s : Agent),
    calls i items s = fresh s.raises items (s.sinks i) s.tick ∧
      (answer i items s = some true ↔ NoneFails s.raises items (s.sinks i) s.tick) := by
  intro h
  have hlengths := congrArg List.length (h 0 [.str "c0", .obj (commandWith "c1").entries] newSink).1
  have hnone : (calls 0 [.str "c0", .obj (commandWith "c1").entries] newSink).length = 0 := by
    decide +kernel
  have hone : (fresh newSink.raises [.str "c0", .obj (commandWith "c1").entries] (newSink.sinks 0) newSink.tick).length = 1 := by
    decide +kernel
  omega

end CommandSink
end LocaiLink
