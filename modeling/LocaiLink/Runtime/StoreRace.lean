/-
# The session store under the runtime's threads

The state manager has no lock: starts and stops hold the operations lock, serving
and uninstalling the other one, deploys and updates both, a push none. So the
steps of two mutators can mix. A run in which every mutator that takes effect
finds what it has read (`Current`) persists what the mutators make of the
document one after another, in the order they took effect (`persisted_in_order`).
In `uninstall_resurrected` a start works on the list it read before an uninstall
assigned a new one, and brings the removed pipeline back.
-/
import LocaiLink.Runtime.StoreSteps
import LocaiLink.Runtime.History

namespace LocaiLink
namespace StateManager

open AgentRuntime

/-- The runtime's threads, with the steps of the store. -/
def race (V : Validator) : Machine microSig Shared Entry where
  sem := Shared.perform
  reentrant := isReentrant
  enter e s := (enter V e s.atomic).map fun p => (expand p.1, { s with rt := p.2 })

instance : DecidableEq microSig.Lock := inferInstanceAs (DecidableEq Lock)

/-- A process that starts on a session file. -/
def raceStart (V : Validator) (dev : Device) (session : AgentConfig) : Sys microSig Shared where
  shared := ⟨boot dev session, Heap.load session⟩
  held _ := none
  threads := [expand (run V)]

/-- The mutator that takes effect in a step: at its change in place, or at its
assignment of something new. -/
def effect : Micro → Option Store.Op
  | .st (.upsert _ c) => some (.updatePipelineConfig c)
  | .st (.setActive _ pid b) => some (.setPipelineStatus pid b)
  | .st (.assign (.removePipeline pid) _) => some (.removePipeline pid)
  | .st (.setCache op _) => some op
  | _ => none

/-- What a mutator goes on with is still there: the list it holds is the current
one (or has the same entry for the id), the new list has what the current one
has less the id, the new document has the current flags. And a flush succeeds. -/
def Current : Micro → Shared → Prop
  | .st (.upsert l _), s => l = s.heap.current
  | .st (.setActive l pid _), s => s.heap.first l pid = s.heap.first s.heap.current pid
  | .st (.assign (.removePipeline pid) l), s => s.heap.lists l = s.heap.others pid
  | .st (.assign _ l), s => l = s.heap.current
  | .st (.setCache op d), s => d = op.apply s.heap.view
  | .st .flush, s => (s.rt.ask .flush).written = .whole
  | _, _ => True

/-- The document after a step: the mutator's work where it takes effect. -/
def applyEffect (d : AgentConfig) (a : Micro) : AgentConfig := ((effect a).map fun op => op.apply d).getD d

theorem view_perform (a : Micro) (s : Shared) (h : Current a s) :
    (Shared.perform a s).2.heap.view = applyEffect s.heap.view a := by
  cases a with
  | rt a => rfl
  | st a =>
    cases a with
    | readList | readActive => rfl
    | flush => rfl
    | keepOthers pid => exact Heap.view_keepOthers pid s.heap
    | upsert l c =>
      obtain rfl : l = s.heap.current := h
      exact Heap.view_upsert c s.heap
    | setActive l pid b => exact Heap.view_setActive b h
    | setCache op d =>
      obtain rfl : d = op.apply s.heap.view := h
      exact Heap.view_setCache _ _
    | assign op l =>
      cases op with
      | removePipeline pid => exact Heap.view_assign_others h
      | updatePipelineConfig | setPipelineStatus | updateFullConfig | restore =>
        obtain rfl : l = s.heap.current := h
        exact Heap.view_assign_current s.heap

/-! ### Every change is flushed -/

def isFlush (a : Micro) : Prop := a = .st .flush

def takesEffect (a : Micro) : Prop := (effect a).isSome = true

/-- The file has the document. -/
def Flushed (s : Shared) : Prop := s.heap.disk = some s.heap.view

theorem followed_steps (op : Store.Op) : (steps op).Followed takesEffect isFlush := by
  have hflush : (step .flush).Comes isFlush := .inl rfl
  have hdone : (step .flush).Followed takesEffect isFlush := ⟨fun h => (by cases h), fun _ => trivial⟩
  cases op with
  | updatePipelineConfig c =>
    exact ⟨fun h => (by cases h), fun l => ⟨fun _ _ => .inr fun _ => hflush, fun _ => ⟨fun _ _ => hflush, fun _ => hdone⟩⟩⟩
  | setPipelineStatus pid b =>
    exact ⟨fun h => (by cases h), fun l => ⟨fun _ _ => hflush, fun _ => hdone⟩⟩
  | removePipeline pid =>
    exact ⟨fun h => (by cases h), fun l => ⟨fun _ _ => hflush, fun _ => hdone⟩⟩
  | updateFullConfig c =>
    exact ⟨fun h => (by cases h), fun flags => ⟨fun _ _ => hflush, fun _ => hdone⟩⟩
  | restore snapshot => exact ⟨fun _ _ => hflush, fun _ => hdone⟩

theorem followed_expandAct (a : Act) : (expandAct a).Followed takesEffect isFlush := by
  by_cases h : ∃ op, a = .store op
  · obtain ⟨op, rfl⟩ := h
    exact followed_steps op
  · have hcall : expandAct a = Prog.call (σ := microSig) (.rt a) := by
      cases a <;> first | rfl | exact absurd ⟨_, rfl⟩ h
    rw [hcall]
    exact ⟨fun h => (by cases h), fun _ => trivial⟩

theorem followed_expand {α : Type} : ∀ p : Code α, (expand p).Followed takesEffect isFlush
  | .ret _ => trivial
  | Prog.act a k => (followed_expandAct a).bind fun r => followed_expand (k r)
  | .lock _ k => followed_expand k
  | .unlock _ k => followed_expand k

theorem flushed_perform (a : Micro) (s : Shared) (ha : ¬takesEffect a) (hc : Current a s) (h : Flushed s) :
    Flushed (Shared.perform a s).2 := by
  have hview : (Shared.perform a s).2.heap.view = s.heap.view := by
    rw [view_perform a s hc, applyEffect]
    cases he : effect a with
    | none => rfl
    | some op => exact absurd (by rw [takesEffect, he]; rfl) ha
  unfold Flushed
  rw [hview]
  cases a with
  | rt a => exact h
  | st a =>
    cases a with
    | flush =>
      have hw : (s.rt.ask .flush).written = .whole := hc
      change (s.heap.flush (s.rt.ask .flush).written).disk = _
      rw [hw]
      rfl
    | readList | readActive | keepOthers | upsert | assign | setCache => exact h
    | setActive => exact absurd rfl ha

/-! ### Runs -/

/-- The mutators of a run, in the order they took effect. -/
def mutators (V : Validator) (dev : Device) (session : AgentConfig) (es : List (Ev Entry)) : List Store.Op :=
  ((race V).trace (raceStart V dev session) es).filterMap effect

/-- The file is what the mutators make of the session one after another, in some order. -/
def Serializable (V : Validator) (dev : Device) (session : AgentConfig) (es : List (Ev Entry)) (s : Shared) : Prop :=
  ∃ order : List Store.Op, order.Perm (mutators V dev session es) ∧
    s.heap.disk = some (order.foldl (fun d op => op.apply d) session)

theorem foldl_applyEffect : ∀ (as : List Micro) (d : AgentConfig),
    as.foldl applyEffect d = (as.filterMap effect).foldl (fun d op => op.apply d) d
  | [], _ => rfl
  | a :: as, d => by
    have ih := foldl_applyEffect as
    rw [List.foldl_cons, List.filterMap_cons, applyEffect]
    cases effect a with
    | none => exact ih d
    | some op => exact ih (op.apply d)

/-- **No update is lost and none comes back** in a run in which every mutator
takes effect on what it has read: once all threads are done, the file is what
the mutators make of the session in the order they took effect. -/
theorem persisted_in_order (V : Validator) (dev : Device) (session : AgentConfig) (es : List (Ev Entry))
    (c : Sys microSig Shared) (hexec : (race V).exec (raceStart V dev session) es = some c)
    (hdone : ∀ p ∈ c.threads, p = .ret ()) (hcurrent : (race V).Meets Current (raceStart V dev session) es) :
    Serializable V dev session es c.shared := by
  have hview := (Machine.exec_view (M := race V) (I := fun _ => True) (fun s => s.heap.view) applyEffect
    (fun a s _ hc => ⟨trivial, view_perform a s hc⟩)
    (fun x s p s' hx _ => by
      obtain ⟨q, -, hq⟩ := Option.map_eq_some_iff.mp hx
      cases hq
      exact ⟨trivial, rfl⟩) trivial hcurrent hexec).2
  have howes : Machine.Owes takesEffect isFlush Flushed c := by
    refine Machine.exec_followed (M := race V) (C := Current) ?_ flushed_perform ?_ ?_ hcurrent hexec
    · rintro a s rfl hc
      have hw : (s.rt.ask .flush).written = .whole := hc
      change (s.heap.flush (s.rt.ask .flush).written).disk = _
      rw [hw]
      rfl
    · intro x s p s' hx
      obtain ⟨q, -, hq⟩ := Option.map_eq_some_iff.mp hx
      cases hq
      exact ⟨followed_expand q.1, id⟩
    · refine ⟨fun p hp => ?_, .inl ?_⟩
      · rw [List.mem_singleton.mp hp]
        exact followed_expand (run V)
      · exact congrArg some (Heap.view_load session).symm
  have hflushed : Flushed c.shared := howes.clean.resolve_right fun ⟨p, hp, hcomes⟩ => by
    rw [hdone p hp] at hcomes
    exact hcomes
  refine ⟨_, List.Perm.refl _, ?_⟩
  have hfold := foldl_applyEffect ((race V).trace (raceStart V dev session) es) (Heap.load session).view
  rw [hflushed, hview]
  refine congrArg some (hfold.trans ?_)
  rw [Heap.view_load, mutators]

/-! ### Two runs -/

/-- A device with two models. -/
def twoModels : AgentConfig := deviceConfig [modelConfig "a" false, modelConfig "b" false]

/-- The boot, and two threads of the health server that enter: one starts `a`
and one uninstalls `b`. -/
def startAndUninstall : List (Ev Entry) :=
  List.replicate 7 (.step 0) ++
    [.enter (.command none (command "START_MODEL_INFERENCE" [("pipeline_id", .str "a")])),
      .enter (.command none (command "UNINSTALL_MODEL" [("pipeline_id", .str "b")]))]

/-- One thread after the other. -/
def oneByOne : List (Ev Entry) := startAndUninstall ++ List.replicate 22 (.step 1) ++ List.replicate 13 (.step 2)

/-- The uninstall happens while the start holds the list it has read. -/
def uninstallDuringStart : List (Ev Entry) :=
  startAndUninstall ++ List.replicate 13 (.step 1) ++ List.replicate 13 (.step 2) ++ List.replicate 9 (.step 1)

def isDone (c : Sys microSig Shared) : Bool := c.threads.all fun p => match p with
  | .ret _ => true
  | _ => false

theorem done_of_isDone {c : Sys microSig Shared} (h : isDone c = true) : ∀ p ∈ c.threads, p = .ret () := by
  intro p hp
  have hp' := List.all_eq_true.mp h p hp
  cases p with
  | ret _ => rfl
  | act | lock | unlock => cases hp'

/-- `Current` of the steps that start and uninstall. -/
def isCurrent : Micro → Shared → Bool
  | .st (.upsert l _), s => l = s.heap.current
  | .st (.setActive l pid _), s => s.heap.first l pid = s.heap.first s.heap.current pid
  | .st (.assign (.removePipeline pid) l), s => s.heap.lists l = s.heap.others pid
  | .st (.assign _ l), s => l = s.heap.current
  | .st (.setCache _ _), _ => false
  | .st .flush, s => (s.rt.ask .flush).written = .whole
  | _, _ => true

theorem current_of_isCurrent (a : Micro) (s : Shared) (h : isCurrent a s = true) : Current a s := by
  unfold isCurrent at h
  unfold Current
  split at h <;> simp_all

/-- The two threads one after the other persist what they did. -/
theorem persisted_one_by_one :
    ∃ c, (race .strict).exec (raceStart .strict plainDevice twoModels) oneByOne = some c ∧
      Serializable .strict plainDevice twoModels oneByOne c.shared := by
  have hrun : ((race .strict).exec (raceStart .strict plainDevice twoModels) oneByOne).map isDone = some true := by
    decide +kernel
  have hchecks : (race .strict).checks isCurrent (raceStart .strict plainDevice twoModels) oneByOne = true := by
    decide +kernel
  obtain ⟨c, hc, hdone⟩ := Option.map_eq_some_iff.mp hrun
  exact ⟨c, hc, persisted_in_order .strict plainDevice twoModels oneByOne c hc (done_of_isDone hdone)
    (Machine.meets_of_checks current_of_isCurrent hchecks)⟩

/-- The mutator can enter an id into the document. -/
def enters (pid : String) : Store.Op → Bool
  | .updatePipelineConfig c => c.id = pid
  | .updateFullConfig c | .restore c => pid ∈ ids c
  | _ => false

/-- One after another, nothing brings an id back but what enters it. -/
theorem occ_foldl_apply {pid : String} : ∀ {ops : List Store.Op} {d : AgentConfig},
    (∀ op ∈ ops, enters pid op = false) → Store.occ pid d.pipelines = [] →
      Store.occ pid (ops.foldl (fun d op => op.apply d) d).pipelines = []
  | [], _, _, hd => hd
  | op :: ops, d, h, hd => by
    have hop := h op List.mem_cons_self
    refine occ_foldl_apply (d := op.apply d) (fun op' h' => h op' (List.mem_cons_of_mem _ h')) ?_
    cases op with
    | updatePipelineConfig c =>
      have hne : pid ≠ c.id := fun he => by simp [enters, he] at hop
      rw [Store.Op.apply, Store.occ_updateEntry, if_neg hne]
      exact hd
    | setPipelineStatus pid' b =>
      rw [Store.Op.apply, Store.occ_setStatus, hd]
      split_ifs <;> rfl
    | removePipeline pid' =>
      rw [Store.Op.apply, Store.occ_removeEntry, hd, ite_self]
    | updateFullConfig c =>
      have hnot : pid ∉ ids c := by simpa [enters] using hop
      refine List.filter_eq_nil_iff.mpr fun p hp he => hnot ?_
      obtain ⟨p', hp', rfl⟩ := List.mem_map.mp hp
      refine List.mem_map.mpr ⟨p', hp', ?_⟩
      have hid : _ = pid := of_decide_eq_true he
      rw [← hid]
      split <;> rfl
    | restore snapshot =>
      have hnot : pid ∉ ids snapshot := by simpa [enters] using hop
      refine List.filter_eq_nil_iff.mpr fun p hp he => hnot (List.mem_map.mpr ⟨p, hp, of_decide_eq_true he⟩)

def removes (pid : String) : Store.Op → Bool
  | .removePipeline p => p = pid
  | _ => false

/-- `b` was removed, nothing entered it, and in the end it is persisted. -/
theorem uninstall_resurrected :
    ∃ c, (race .strict).exec (raceStart .strict plainDevice twoModels) uninstallDuringStart = some c ∧
      (∀ p ∈ c.threads, p = .ret ()) ∧ ¬Serializable .strict plainDevice twoModels uninstallDuringStart c.shared := by
  have hrun : ((race .strict).exec (raceStart .strict plainDevice twoModels) uninstallDuringStart).map
      (fun c => (isDone c, c.shared.heap.disk.map ids)) = some (true, some ["a", "b"]) := by
    decide +kernel
  have henters : (mutators .strict plainDevice twoModels uninstallDuringStart).all (fun op => !enters "b" op) = true := by
    decide +kernel
  have hremoves : (mutators .strict plainDevice twoModels uninstallDuringStart).any (removes "b") = true := by
    decide +kernel
  obtain ⟨c, hc, hend⟩ := Option.map_eq_some_iff.mp hrun
  have hdone : isDone c = true := congrArg Prod.fst hend
  have hdisk : c.shared.heap.disk.map ids = some ["a", "b"] := congrArg Prod.snd hend
  refine ⟨c, hc, done_of_isDone hdone, ?_⟩
  rintro ⟨order, hperm, horder⟩
  obtain ⟨op, hop, hremove⟩ := List.any_eq_true.mp hremoves
  obtain ⟨before, after, rfl⟩ := List.append_of_mem (hperm.mem_iff.mpr hop)
  cases op with
  | removePipeline pid =>
    obtain rfl : pid = "b" := of_decide_eq_true hremove
    have hafter : ∀ op ∈ after, enters "b" op = false := fun op h => by
      have hmem := hperm.mem_iff.mp (List.mem_append_right before (List.mem_cons_of_mem (.removePipeline "b") h))
      simpa using List.all_eq_true.mp henters op hmem
    rw [List.foldl_append, List.foldl_cons] at horder
    have hgone := occ_foldl_apply (d := Store.Op.apply (.removePipeline "b")
      (before.foldl (fun d op => op.apply d) twoModels)) hafter (by
        rw [Store.Op.apply, Store.occ_removeEntry, if_pos rfl])
    rw [horder, Option.map_some, Option.some.injEq] at hdisk
    have hmem : "b" ∈ ids (after.foldl (fun d op => op.apply d) (Store.Op.apply (.removePipeline "b")
        (before.foldl (fun d op => op.apply d) twoModels))) := by
      rw [hdisk]
      decide
    exact Store.occ_ne_nil hmem hgone
  | updatePipelineConfig | setPipelineStatus | updateFullConfig | restore => cases hremove

end StateManager
end LocaiLink
