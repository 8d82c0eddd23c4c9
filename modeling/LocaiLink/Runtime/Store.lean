/-
# The session store

The pipelines list of the session document and what the mutators of
`StateManager` make of it. They look an id up by the first entry that has it;
only the merge of active flags reads the list as a dictionary, where the last
entry counts. Ids need not be distinct, so `occ` takes all entries of an id:
each mutator changes those of its own id only, and the first of them at most
(`occ_updateEntry`, `occ_setStatus`, `occ_removeEntry`, `get?_oldActive`).
-/
import LocaiLink.Runtime.Config

namespace LocaiLink

/-- A loaded state manager: the cached document, and what the session file
reads back as (`none` when it cannot be read). -/
structure Store where
  cache : AgentConfig
  disk : Option AgentConfig

namespace Store

/-- `update_pipeline_config`: the entry with that id is replaced and keeps its
active flag, or a new one is appended, inactive. -/
def updateEntry (c : PipelineConfig) : List PipelineConfig → List PipelineConfig
  | [] => [{ c with active := false }]
  | p :: l => if p.id = c.id then { c with active := p.active } :: l else p :: updateEntry c l

/-- `set_pipeline_status`: the first entry with that id. -/
def setStatus (pid : String) (active : Bool) : List PipelineConfig → List PipelineConfig
  | [] => []
  | p :: l => if p.id = pid then { p with active := active } :: l else p :: setStatus pid active l

/-- `remove_pipeline`: every entry with that id. -/
def removeEntry (pid : String) (l : List PipelineConfig) : List PipelineConfig :=
  l.filter fun p => p.id ≠ pid

/-- The active flags of a list, by id, the last one of each. -/
def oldActive (l : List PipelineConfig) : Dict String Bool := .ofList (l.map fun p => (p.id, p.active))

/-- The new entries, each with the flag that is known for its id. -/
def withFlags (flags : Dict String Bool) (new : List PipelineConfig) : List PipelineConfig :=
  new.map fun p => match flags.get? p.id with
    | some b => { p with active := b }
    | none => p

/-- `update_full_config`: the new entries, with the flags of the old ones. -/
def mergeActive (old new : List PipelineConfig) : List PipelineConfig := withFlags (oldActive old) new

/-- The operations on the store that change it. -/
inductive Op
  | updatePipelineConfig (c : PipelineConfig)
  | setPipelineStatus (pid : String) (active : Bool)
  | removePipeline (pid : String)
  | updateFullConfig (c : AgentConfig)
  | restore (snapshot : AgentConfig)

/-- What an operation makes of the document. -/
def Op.apply : Op → AgentConfig → AgentConfig
  | .updatePipelineConfig c, d => { d with pipelines := updateEntry c d.pipelines }
  | .setPipelineStatus pid b, d => { d with pipelines := setStatus pid b d.pipelines }
  | .removePipeline pid, d => { d with pipelines := removeEntry pid d.pipelines }
  | .updateFullConfig c, d => { c with pipelines := mergeActive d.pipelines c.pipelines }
  | .restore snapshot, _ => snapshot

/-- What becomes of the file when it is written: the whole text, nothing (it
could not be opened), or a part of it, which does not read back. -/
inductive Written | whole | nothing | torn
  deriving DecidableEq

/-- The operation, and the flush after it. -/
def perform (op : Op) (w : Written) (s : Store) : Store where
  cache := op.apply s.cache
  disk := match w with
    | .whole => some (op.apply s.cache)
    | .nothing => s.disk
    | .torn => none

/-! ### The entries of an id -/

/-- The entries of an id, in order. -/
def occ (pid : String) (l : List PipelineConfig) : List PipelineConfig := l.filter fun p => p.id = pid

/-- A config entered over the first entry of its id. -/
def upsertHead (c : PipelineConfig) : List PipelineConfig → List PipelineConfig
  | [] => [{ c with active := false }]
  | p :: l => { c with active := p.active } :: l

def setHead (active : Bool) : List PipelineConfig → List PipelineConfig
  | [] => []
  | p :: l => { p with active := active } :: l

theorem occ_cons (pid : String) (p : PipelineConfig) (l : List PipelineConfig) :
    occ pid (p :: l) = if p.id = pid then p :: occ pid l else occ pid l := by
  by_cases h : p.id = pid <;> simp [occ, h]

theorem occ_updateEntry (c : PipelineConfig) (pid : String) : ∀ l : List PipelineConfig,
    occ pid (updateEntry c l) = if pid = c.id then upsertHead c (occ pid l) else occ pid l
  | [] => by
    rw [updateEntry, occ_cons]
    by_cases h : c.id = pid
    · simp [h, occ, upsertHead]
    · simp [h, Ne.symm h]
  | p :: l => by
    have ih := occ_updateEntry c pid l
    unfold updateEntry
    by_cases hp : p.id = c.id
    · rw [if_pos hp, occ_cons, occ_cons]
      by_cases h : c.id = pid
      · simp [h, hp.trans h, upsertHead]
      · simp [h, Ne.symm h, hp ▸ h]
    · rw [if_neg hp, occ_cons, occ_cons, ih]
      by_cases h : p.id = pid
      · simp [h ▸ hp, h]
      · simp [h]

theorem occ_setStatus (pid' : String) (b : Bool) (pid : String) : ∀ l : List PipelineConfig,
    occ pid (setStatus pid' b l) = if pid = pid' then setHead b (occ pid l) else occ pid l
  | [] => by simp [setStatus, occ, setHead]
  | p :: l => by
    have ih := occ_setStatus pid' b pid l
    unfold setStatus
    by_cases hp : p.id = pid'
    · rw [if_pos hp, occ_cons, occ_cons]
      by_cases h : pid' = pid
      · simp [h, hp.trans h, setHead]
      · simp [hp, h, Ne.symm h]
    · rw [if_neg hp, occ_cons, occ_cons, ih]
      by_cases h : p.id = pid
      · simp [h ▸ hp, h]
      · simp [h]

theorem occ_removeEntry (pid' pid : String) (l : List PipelineConfig) :
    occ pid (removeEntry pid' l) = if pid = pid' then [] else occ pid l := by
  unfold occ removeEntry
  rw [List.filter_filter]
  split_ifs with h
  · refine List.filter_eq_nil_iff.mpr fun p _ => ?_
    simp [h]
  · refine List.filter_congr fun p _ => ?_
    by_cases hp : p.id = pid
    · simp [hp, h]
    · simp [hp]

theorem occ_of_nodup : ∀ {l : List PipelineConfig}, (l.map (·.id)).Nodup → ∀ p ∈ l, occ p.id l = [p]
  | [], _, p, hp => by cases hp
  | a :: l, h, p, hp => by
    rw [List.map_cons, List.nodup_cons] at h
    rw [occ_cons]
    have hnot : occ a.id l = [] := List.filter_eq_nil_iff.mpr fun q hq he =>
      h.1 (List.mem_map.mpr ⟨q, hq, by simpa using he⟩)
    rcases List.mem_cons.mp hp with rfl | hp
    · rw [if_pos rfl, hnot]
    · have hne : a.id ≠ p.id := fun he => h.1 (List.mem_map.mpr ⟨p, hp, he.symm⟩)
      rw [if_neg hne, occ_of_nodup h.2 p hp]

theorem occ_of_not_mem {l : List PipelineConfig} {q : String} (h : q ∉ l.map (·.id)) : occ q l = [] :=
  List.filter_eq_nil_iff.mpr fun p hp he => h (List.mem_map.mpr ⟨p, hp, by simpa using he⟩)

theorem occ_ne_nil {l : List PipelineConfig} {q : String} (h : q ∈ l.map (·.id)) : occ q l ≠ [] := by
  obtain ⟨p, hp, rfl⟩ := List.mem_map.mp h
  exact List.ne_nil_of_mem (List.mem_filter.mpr ⟨hp, by simp⟩)

/-- The merge reads the last entry of an id. -/
theorem get?_oldActive (l : List PipelineConfig) (pid : String) :
    (oldActive l).get? pid = (occ pid l).getLast?.map (·.active) := by
  rw [oldActive, Dict.get?_ofList, occ, ← List.map_reverse, List.find?_map, Option.map_map,
    ← List.head?_reverse, ← List.filter_reverse, List.head?_filter]
  rfl

end Store
end LocaiLink
