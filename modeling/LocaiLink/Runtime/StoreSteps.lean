/-
# The session store, step by step

The mutators of `StateManager` are not atomic: each reads the list of pipelines,
works on it and assigns it, and then flushes. Python's lists and dictionaries are
objects, so what a mutator holds on to is a reference: a `Heap` has the cached
document with the list it names now, all lists and all entries. `steps` is the
code of each mutator; run alone it does what the mutator does to the document
(`run_steps`).
-/
import LocaiLink.Runtime.Spec

namespace LocaiLink

/-- The state manager with its objects: the list the document's "pipelines" names
now, the lists, the entries, and the file. No entry is twice in a list. -/
structure Heap where
  rest : AgentConfig
  current : ℕ
  lists : ℕ → List ℕ
  entries : ℕ → PipelineConfig
  nextList : ℕ
  nextEntry : ℕ
  disk : Option AgentConfig
  current_lt : current < nextList
  entries_lt : ∀ l, ∀ e ∈ lists l, e < nextEntry
  nodup : ∀ l, (lists l).Nodup

namespace Heap

/-- The document as a value. -/
def view (h : Heap) : AgentConfig := { h.rest with pipelines := (h.lists h.current).map h.entries }

/-- The list with the entry of an id replaced by a new one, or the new one
appended, and the active flag the new one gets. -/
def place (entries : ℕ → PipelineConfig) (id : String) (n : ℕ) : List ℕ → List ℕ × Bool
  | [] => ([n], false)
  | e :: l =>
    if (entries e).id = id then (n :: l, (entries e).active)
    else (e :: (place entries id n l).1, (place entries id n l).2)

theorem mem_place (entries : ℕ → PipelineConfig) (id : String) (n : ℕ) : ∀ (l : List ℕ),
    ∀ x ∈ (place entries id n l).1, x = n ∨ x ∈ l
  | [], x, hx => .inl (List.mem_singleton.mp hx)
  | e :: l, x, hx => by
    have ih := mem_place entries id n l
    unfold place at hx
    split_ifs at hx
    · exact (List.mem_cons.mp hx).imp_right (List.mem_cons_of_mem _)
    · rcases List.mem_cons.mp hx with rfl | hx
      · exact .inr List.mem_cons_self
      · exact (ih x hx).imp_right (List.mem_cons_of_mem _)

theorem nodup_place (entries : ℕ → PipelineConfig) (id : String) {n : ℕ} : ∀ {l : List ℕ},
    l.Nodup → n ∉ l → (place entries id n l).1.Nodup
  | [], _, _ => List.nodup_singleton n
  | e :: l, hl, hn => by
    rw [List.nodup_cons] at hl
    rw [List.mem_cons, not_or] at hn
    have ih := nodup_place entries id hl.2 hn.2
    unfold place
    split_ifs
    · exact List.nodup_cons.mpr ⟨hn.2, hl.2⟩
    · refine List.nodup_cons.mpr ⟨fun he => ?_, ih⟩
      rcases mem_place entries id n l e he with h | h
      · exact hn.1 h.symm
      · exact hl.1 h

/-- The loop of `update_pipeline_config`, in place. -/
def upsert (l : ℕ) (c : PipelineConfig) (h : Heap) : Heap :=
  let r := place h.entries c.id h.nextEntry (h.lists l)
  { h with
    lists := Function.update h.lists l r.1
    entries := Function.update h.entries h.nextEntry { c with active := r.2 }
    nextEntry := h.nextEntry + 1
    entries_lt := by
      intro l' e he
      by_cases hl : l' = l
      · subst hl
        rw [Function.update_self] at he
        rcases mem_place _ _ _ _ e he with rfl | he
        · exact Nat.lt_succ_self _
        · exact Nat.lt_succ_of_lt (h.entries_lt l' e he)
      · rw [Function.update_of_ne hl] at he
        exact Nat.lt_succ_of_lt (h.entries_lt l' e he)
    nodup := by
      intro l'
      by_cases hl : l' = l
      · subst hl
        rw [Function.update_self]
        exact nodup_place _ _ (h.nodup l') fun hn => Nat.lt_irrefl _ (h.entries_lt l' _ hn)
      · rw [Function.update_of_ne hl]
        exact h.nodup l' }

/-- The first entry of an id in a list. -/
def first (h : Heap) (l : ℕ) (pid : String) : Option ℕ := (h.lists l).find? fun e => (h.entries e).id = pid

/-- The loop of `set_pipeline_status`, in place. -/
def setActive (l : ℕ) (pid : String) (b : Bool) (h : Heap) : Heap :=
  match h.first l pid with
  | none => h
  | some e => { h with entries := Function.update h.entries e { h.entries e with active := b } }

/-- The entries of the current list with other ids. -/
def others (h : Heap) (pid : String) : List ℕ := (h.lists h.current).filter fun e => (h.entries e).id ≠ pid

/-- The comprehension of `remove_pipeline`: a new list, of the same entries. -/
def keepOthers (pid : String) (h : Heap) : Heap :=
  { h with
    lists := Function.update h.lists h.nextList (h.others pid)
    nextList := h.nextList + 1
    current_lt := Nat.lt_succ_of_lt h.current_lt
    entries_lt := by
      intro l e he
      by_cases hl : l = h.nextList
      · subst hl
        rw [Function.update_self] at he
        exact h.entries_lt _ e (List.mem_of_mem_filter he)
      · rw [Function.update_of_ne hl] at he
        exact h.entries_lt l e he
    nodup := by
      intro l
      by_cases hl : l = h.nextList
      · subst hl
        rw [Function.update_self]
        exact (h.nodup _).filter _
      · rw [Function.update_of_ne hl]
        exact h.nodup l }

/-- `self._cache["pipelines"] = ..`; a list that is assigned is in use. -/
def assign (l : ℕ) (h : Heap) : Heap :=
  { h with
    current := l
    nextList := max h.nextList (l + 1)
    current_lt := lt_of_lt_of_le (Nat.lt_succ_self l) (Nat.le_max_right _ _) }

/-- `self._cache = ..`, with a document whose objects are all new. -/
def setCache (d : AgentConfig) (h : Heap) : Heap :=
  { h with
    rest := d
    current := h.nextList
    lists := Function.update h.lists h.nextList (List.range' h.nextEntry d.pipelines.length)
    entries := fun e => if h.nextEntry ≤ e then (d.pipelines[e - h.nextEntry]?).getD (h.entries e) else h.entries e
    nextList := h.nextList + 1
    nextEntry := h.nextEntry + d.pipelines.length
    current_lt := Nat.lt_succ_self _
    entries_lt := by
      intro l e he
      by_cases hl : l = h.nextList
      · subst hl
        rw [Function.update_self] at he
        exact (List.mem_range'_1.mp he).2
      · rw [Function.update_of_ne hl] at he
        exact Nat.lt_add_right _ (h.entries_lt l e he)
    nodup := by
      intro l
      by_cases hl : l = h.nextList
      · subst hl
        rw [Function.update_self]
        exact List.nodup_range'
      · rw [Function.update_of_ne hl]
        exact h.nodup l }

/-- `_flush`: the document as it is now. -/
def flush (w : Store.Written) (h : Heap) : Heap :=
  { h with
    disk := match w with
      | .whole => some h.view
      | .nothing => h.disk
      | .torn => none }

/-- A document that was just loaded. -/
def load (d : AgentConfig) : Heap :=
  setCache d
    { rest := d, current := 0, lists := fun _ => [], entries := fun _ => ⟨"", false, ⟨"", .empty⟩, none⟩
      nextList := 1, nextEntry := 0, disk := some d
      current_lt := Nat.zero_lt_one
      entries_lt := fun _ _ h => by cases h
      nodup := fun _ => List.nodup_nil }

/-! ### What each step does to the document -/

theorem map_update_of_not_mem {f : ℕ → PipelineConfig} {n : ℕ} {v : PipelineConfig} {l : List ℕ} (h : n ∉ l) :
    l.map (Function.update f n v) = l.map f :=
  List.map_congr_left fun e he => Function.update_of_ne (fun hn : e = n => h (hn ▸ he)) _ _

theorem map_place (f : ℕ → PipelineConfig) (c : PipelineConfig) {n : ℕ} : ∀ {l : List ℕ}, n ∉ l →
    (place f c.id n l).1.map (Function.update f n { c with active := (place f c.id n l).2 }) =
      Store.updateEntry c (l.map f)
  | [], _ => by simp [place, Store.updateEntry]
  | e :: l, hn => by
    rw [List.mem_cons, not_or] at hn
    have ih := map_place f c hn.2
    unfold place
    rw [List.map_cons, Store.updateEntry]
    split_ifs with he
    · rw [List.map_cons, Function.update_self, map_update_of_not_mem hn.2]
    · rw [List.map_cons, Function.update_of_ne (Ne.symm hn.1), ih]

theorem view_upsert (c : PipelineConfig) (h : Heap) :
    (h.upsert h.current c).view = Store.Op.apply (.updatePipelineConfig c) h.view := by
  have hn : h.nextEntry ∉ h.lists h.current := fun hn => Nat.lt_irrefl _ (h.entries_lt _ _ hn)
  have hmap := map_place h.entries c hn
  unfold view upsert Store.Op.apply
  simp only [Function.update_self]
  rw [hmap]

/-- The first entry of an id gets its flag; the others are other objects. -/
theorem map_setActive (f : ℕ → PipelineConfig) (pid : String) (b : Bool) : ∀ {l : List ℕ}, l.Nodup →
    (match l.find? fun e => (f e).id = pid with
      | none => l.map f
      | some e => l.map (Function.update f e { f e with active := b })) = Store.setStatus pid b (l.map f)
  | [], _ => rfl
  | e :: l, hl => by
    rw [List.nodup_cons] at hl
    have ih := map_setActive f pid b hl.2
    rw [List.map_cons, Store.setStatus]
    by_cases he : (f e).id = pid
    · rw [List.find?_cons_of_pos (by simpa using he), if_pos he]
      simp only
      rw [List.map_cons, Function.update_self, map_update_of_not_mem hl.1]
    · rw [List.find?_cons_of_neg (by simpa using he), if_neg he, ← ih]
      cases hfind : l.find? fun e => (f e).id = pid with
      | none => rfl
      | some e' =>
        have hne : e ≠ e' := fun h => hl.1 (h ▸ List.mem_of_find?_eq_some hfind)
        simp only
        rw [List.map_cons, Function.update_of_ne hne]

theorem view_setActive {h : Heap} {l : ℕ} {pid : String} (b : Bool) (hl : h.first l pid = h.first h.current pid) :
    (h.setActive l pid b).view = Store.Op.apply (.setPipelineStatus pid b) h.view := by
  have hmap := map_setActive h.entries pid b (h.nodup h.current)
  unfold setActive
  rw [hl]
  unfold first
  cases hfind : (h.lists h.current).find? fun e => (h.entries e).id = pid with
  | none =>
    rw [hfind] at hmap
    exact congrArg (fun l => { h.rest with pipelines := l }) hmap
  | some e =>
    rw [hfind] at hmap
    exact congrArg (fun l => { h.rest with pipelines := l }) hmap

theorem view_keepOthers (pid : String) (h : Heap) : (h.keepOthers pid).view = h.view := by
  unfold view keepOthers
  simp only
  rw [Function.update_of_ne (Nat.ne_of_lt h.current_lt)]

theorem view_assign_current (h : Heap) : (h.assign h.current).view = h.view := rfl

theorem view_assign_others {h : Heap} {l : ℕ} {pid : String} (hl : h.lists l = h.others pid) :
    (h.assign l).view = Store.Op.apply (.removePipeline pid) h.view := by
  have hmap : (h.others pid).map h.entries = Store.removeEntry pid ((h.lists h.current).map h.entries) := by
    unfold others Store.removeEntry
    rw [List.filter_map]
    rfl
  unfold view assign Store.Op.apply
  simp only
  rw [hl, hmap]

theorem map_range' (f : ℕ → PipelineConfig) (ps : List PipelineConfig) (n : ℕ) :
    (List.range' n ps.length).map (fun e => if n ≤ e then (ps[e - n]?).getD (f e) else f e) = ps := by
  refine List.ext_getElem (by simp) fun i hi hi' => ?_
  have hps : ps[i]? = some ps[i] := List.getElem?_eq_getElem hi'
  simp [hps]

theorem view_setCache (d : AgentConfig) (h : Heap) : (h.setCache d).view = d := by
  have hmap := map_range' h.entries d.pipelines h.nextEntry
  unfold view setCache
  simp only [Function.update_self]
  rw [hmap]

theorem view_load (d : AgentConfig) : (load d).view = d := view_setCache d _

end Heap

/-! ### The code of the mutators -/

/-- The steps on the state manager's objects. An assignment says which mutator it
belongs to. -/
inductive StoreAct
  | readList
  | upsert (l : ℕ) (c : PipelineConfig)
  | setActive (l : ℕ) (pid : String) (active : Bool)
  | keepOthers (pid : String)
  | readActive
  | assign (op : Store.Op) (l : ℕ)
  | setCache (op : Store.Op) (d : AgentConfig)
  | flush

/-- What the runtime's threads do: their own actions, and the store's steps. -/
inductive Micro
  | rt (a : Act)
  | st (a : StoreAct)

@[reducible] def Micro.Resp : Micro → Type
  | .rt a => a.Resp
  | .st .readList | .st (.keepOthers _) => ℕ
  | .st .readActive => Dict String Bool
  | .st _ => Unit

def microSig : Sig := ⟨Micro, Micro.Resp, Lock⟩

/-- The runtime, and the objects of its state manager. -/
structure Shared where
  rt : Rt
  heap : Heap

namespace Shared

/-- The runtime with the store as the value it has. -/
def atomic (s : Shared) : Rt := { s.rt with store := some ⟨s.heap.view, s.heap.disk⟩ }

def onHeap (f : Heap → Heap) (s : Shared) : Shared := { s with heap := f s.heap }

def perform : (a : Micro) → Shared → a.Resp × Shared
  | .rt a, s => ((Rt.perform a s.atomic).1, { s with rt := (Rt.perform a s.atomic).2 })
  | .st .readList, s => (s.heap.current, s)
  | .st (.upsert l c), s => ((), s.onHeap (.upsert l c))
  | .st (.setActive l pid b), s => ((), s.onHeap (.setActive l pid b))
  | .st (.keepOthers pid), s => (s.heap.nextList, s.onHeap (.keepOthers pid))
  | .st .readActive, s => (Store.oldActive s.heap.view.pipelines, s)
  | .st (.assign _ l), s => ((), s.onHeap (.assign l))
  | .st (.setCache _ d), s => ((), s.onHeap (.setCache d))
  | .st .flush, s => ((), ⟨s.rt.tock, s.heap.flush (s.rt.ask .flush).written⟩)

end Shared

namespace StateManager

def step (a : StoreAct) : Prog microSig (Micro.Resp (.st a)) := Prog.call (σ := microSig) (.st a)

/-- The mutators of `StateManager`. -/
def steps : Store.Op → Prog microSig Unit
  | .updatePipelineConfig c => do
    let pipelinesList ← step .readList
    step (.upsert pipelinesList c)
    step (.assign (.updatePipelineConfig c) pipelinesList)
    step .flush
  | .setPipelineStatus pid b => do
    let pipelinesList ← step .readList
    step (.setActive pipelinesList pid b)
    step .flush
  | .removePipeline pid => do
    let others ← step (.keepOthers pid)
    step (.assign (.removePipeline pid) others)
    step .flush
  | .updateFullConfig c => do
    let oldActive ← step .readActive
    step (.setCache (.updateFullConfig c) { c with pipelines := Store.withFlags oldActive c.pipelines })
    step .flush
  | .restore snapshot => do
    step (.setCache (.restore snapshot) snapshot)
    step .flush

/-- An action of the runtime: a store operation takes its steps. -/
def expandAct : (a : Act) → Prog microSig a.Resp
  | .store op => steps op
  | a => Prog.call (σ := microSig) (.rt a)

/-- The runtime's code with each store operation as the steps it takes. -/
def expand {α : Type} : Code α → Prog microSig α
  | .ret a => .ret a
  | Prog.act a k => expandAct a >>= fun r => expand (k r)
  | .lock l k => .lock l (expand k)
  | .unlock l k => .unlock l (expand k)

/-! ### Run alone, the steps are the operation -/

/-- The flush at the end, over objects that say what the operation makes of the document. -/
theorem atomic_flush (op : Store.Op) (s : Shared) (h : Heap) (hview : h.view = op.apply s.heap.view)
    (hdisk : h.disk = s.heap.disk) :
    (Shared.perform (.st .flush) { s with heap := h }).2.atomic = s.atomic.performStore op := by
  have hstore : (s.atomic.performStore op) = { s.rt with
      store := some (Store.perform op (s.rt.ask .flush).written ⟨s.heap.view, s.heap.disk⟩)
      tick := s.rt.tick + 1 } := rfl
  have hflush : (Shared.perform (.st .flush) { s with heap := h }).2.atomic = { s.rt with
      store := some ⟨h.view, (h.flush (s.rt.ask .flush).written).disk⟩
      tick := s.rt.tick + 1 } := rfl
  rw [hstore, hflush]
  unfold Heap.flush Store.perform
  cases (s.rt.ask .flush).written <;> simp only [hview, hdisk]

theorem run_steps (op : Store.Op) (s : Shared) :
    ((Prog.run Shared.perform (steps op) s).2).atomic = s.atomic.performStore op := by
  have hflush := atomic_flush op s
  cases op with
  | updatePipelineConfig c =>
    exact hflush ((s.heap.upsert s.heap.current c).assign s.heap.current) (Heap.view_upsert c s.heap) rfl
  | setPipelineStatus pid b =>
    refine hflush (s.heap.setActive s.heap.current pid b) (Heap.view_setActive b rfl) ?_
    unfold Heap.setActive
    split <;> rfl
  | removePipeline pid =>
    refine hflush ((s.heap.keepOthers pid).assign s.heap.nextList) ?_ rfl
    have hlist : (s.heap.keepOthers pid).lists s.heap.nextList = (s.heap.keepOthers pid).others pid := by
      unfold Heap.others Heap.keepOthers
      simp only
      rw [Function.update_self, Function.update_of_ne (Nat.ne_of_lt s.heap.current_lt)]
      rfl
    rw [Heap.view_assign_others hlist, Heap.view_keepOthers]
  | updateFullConfig c =>
    refine hflush (s.heap.setCache { c with
      pipelines := Store.withFlags (Store.oldActive s.heap.view.pipelines) c.pipelines }) ?_ rfl
    exact Heap.view_setCache _ _
  | restore snapshot => exact hflush (s.heap.setCache snapshot) (Heap.view_setCache _ _) rfl

/-- An action other than a store operation leaves the store alone. -/
theorem perform_store (a : Act) (s : Rt) (h : ∀ op, a ≠ .store op) : (Rt.perform a s).2.store = s.store := by
  by_cases hq : Rt.Quiet a
  · exact congrArg Rt.Core.store (Rt.core_perform hq s)
  cases a with
  | store op => exact absurd rfl (h op)
  | join i me =>
    simp only [Rt.perform, Rt.join]
    split_ifs <;> rfl
  | updateArgs pid args =>
    simp only [Rt.perform, Rt.modifyStored]
    split <;> rfl
  | setConfig | popConfig | setPipe | popPipe | setAgentConfig | publishConfigs | newPipeline | startThread
  | stop => rfl
  | _ => exact absurd trivial hq

theorem run_expandAct (a : Act) (s : Shared) :
    (Prog.run Shared.perform (expandAct a) s).1 = (Rt.perform a s.atomic).1 ∧
      (Prog.run Shared.perform (expandAct a) s).2.atomic = (Rt.perform a s.atomic).2 := by
  by_cases h : ∃ op, a = .store op
  · obtain ⟨op, rfl⟩ := h
    exact ⟨rfl, run_steps op s⟩
  · have hne : ∀ op, a ≠ .store op := fun op he => h ⟨op, he⟩
    have hstore := perform_store a s.atomic hne
    have hrun : Prog.run Shared.perform (expandAct a) s = Shared.perform (.rt a) s := by
      cases a <;> first | rfl | exact absurd rfl (hne _)
    rw [hrun]
    refine ⟨rfl, ?_⟩
    change { (Rt.perform a s.atomic).2 with store := some (Store.mk s.heap.view s.heap.disk) } = _
    rw [show some (Store.mk s.heap.view s.heap.disk) = s.atomic.store from rfl, ← hstore]

/-- **A thread alone cannot tell the steps from the operations.** -/
theorem run_expand {α : Type} : ∀ (p : Code α) (s : Shared),
    (Prog.run Shared.perform (expand p) s).1 = (s.atomic.run p).1 ∧
      (Prog.run Shared.perform (expand p) s).2.atomic = (s.atomic.run p).2
  | .ret a, s => ⟨rfl, rfl⟩
  | Prog.act a k, s => by
    obtain ⟨hres, hstate⟩ := run_expandAct a s
    have ih := run_expand (k (Prog.run Shared.perform (expandAct a) s).1)
      (Prog.run Shared.perform (expandAct a) s).2
    have hbind := Prog.run_bind (σ := microSig) Shared.perform (expandAct a) (fun r => expand (k r)) s
    rw [hres, hstate] at ih
    rw [expand, hbind, hres]
    exact ih
  | .lock _ k, s => run_expand k s
  | .unlock _ k, s => run_expand k s

end StateManager
end LocaiLink
