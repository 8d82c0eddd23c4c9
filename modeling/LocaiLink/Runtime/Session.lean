/-
# The session files

`StateManager` on the files of the configs directory: the document it caches as
the raw dictionary it was read as, the mutators on it (`none` where one raises,
and then nothing has changed), and `_flush`, which opens the file, and so
empties it, before it writes the text. The process may die in between: a write
that has got `k` characters far leaves those. On the dumps of configs the mutators
are those of the typed store (`mutate_modelDump`).
-/
import LocaiLink.Base.JsonTrip
import LocaiLink.Runtime.Store

namespace LocaiLink
namespace Session

open JsonText

abbrev Doc := Dict String Json

/-! ### The mutators on the raw document -/

export Json (iterate)

/-- `p["id"]`. -/
def entryId (p : Json) : Option Json := p.get? "id"

/-- `p.get("active", False)`. -/
def entryActive (p : Json) : Json := (p.get? "active").getD (.bool false)

/-- `p["active"] = active`, on a dictionary. -/
def setActive (active : Json) : Json → Json
  | .obj l => .obj (Dict.setEntry "active" active l)
  | p => p

/-- Whether a value can be the key of a dictionary. -/
def hashable : Json → Bool
  | .arr _ | .obj _ => false
  | _ => true

/-- `update_pipeline_config`, on the list. -/
def replaceEntry (c : PipelineConfig) : List Json → Option (List Json)
  | [] => some [setActive (.bool false) c.modelDump]
  | p :: l => (entryId p).bind fun i =>
    if i.eq (.str c.id) then some (setActive (entryActive p) c.modelDump :: l)
    else (replaceEntry c l).map (p :: ·)

/-- `set_pipeline_status`, on the list. -/
def markEntry (pid : String) (active : Bool) : List Json → Option (List Json)
  | [] => some []
  | p :: l => (entryId p).bind fun i =>
    if i.eq (.str pid) then some (setActive (.bool active) p :: l) else (markEntry pid active l).map (p :: ·)

/-- `remove_pipeline`, on the list. -/
def dropEntries (pid : String) : List Json → Option (List Json)
  | [] => some []
  | p :: l => (entryId p).bind fun i =>
    (dropEntries pid l).map fun l => if i.eq (.str pid) then l else p :: l

/-- The flags of the old entries by their ids, the last one of an id first. -/
def flags : List Json → Option (List (Json × Json))
  | [] => some []
  | p :: l => (entryId p).bind fun i =>
    if hashable i then (flags l).map (· ++ [(i, entryActive p)]) else none

/-- `update_full_config`, on an entry of the new config. -/
def carryActive (old : List (Json × Json)) (c : PipelineConfig) : Json :=
  match old.find? fun e => e.1.eq (.str c.id) with
  | some e => setActive e.2 c.modelDump
  | none => c.modelDump

/-- `cache.get("pipelines", [])`. -/
def pipelines (d : Doc) : Json := (d.get? "pipelines").getD (.arr [])

/-- The dump of an agent config as a dictionary, with other entries of pipelines. -/
def agentDoc (c : AgentConfig) (entries : List Json) : Doc where
  entries := [("version", .float c.version), ("identity", c.identity.modelDump),
    ("transport", dumpOpt TransportConfig.modelDump c.transport),
    ("logging", c.logging.modelDump), ("reporting", c.reporting.modelDump), ("pipelines", .arr entries)]
  nodup := by simp

def updatePipelineConfig (c : PipelineConfig) (d : Doc) : Option Doc :=
  match pipelines d with
  | .arr l => (replaceEntry c l).map fun l => d.set "pipelines" (.arr l)
  | _ => none

def setPipelineStatus (pid : String) (active : Bool) (d : Doc) : Option Doc :=
  match d.get? "pipelines" with
  | none => some d
  | some (.arr l) => (markEntry pid active l).map fun l => d.set "pipelines" (.arr l)
  | some j => (iterate j).bind fun l => if l = [] then some d else none

def removePipeline (pid : String) (d : Doc) : Option Doc :=
  match d.get? "pipelines" with
  | none => some d
  | some j => (iterate j).bind fun l => (dropEntries pid l).map fun l => d.set "pipelines" (.arr l)

def updateFullConfig (c : AgentConfig) (d : Doc) : Option Doc :=
  (iterate (pipelines d)).bind fun l => (flags l).map fun old => agentDoc c (c.pipelines.map (carryActive old))

/-- The document a config is stored as. -/
def docOf (c : AgentConfig) : Doc := agentDoc c (c.pipelines.map PipelineConfig.modelDump)

/-- The operations that change the store, with the values they write: dumps of
models and documents, in which no dictionary has a key twice. -/
inductive Op
  | updatePipelineConfig (c : PipelineConfig) (proper : Proper c.modelDump)
  | setPipelineStatus (pid : String) (active : Bool)
  | removePipeline (pid : String)
  | updateFullConfig (c : AgentConfig) (proper : Proper c.modelDump)
  | restore (snapshot : Option Doc) (proper : ∀ d, snapshot = some d → Proper (.ofDict d))

/-- What an operation makes of the document, `none` where it raises. -/
def Op.mutate : Op → Doc → Option Doc
  | .updatePipelineConfig c _ => Session.updatePipelineConfig c
  | .setPipelineStatus pid active => Session.setPipelineStatus pid active
  | .removePipeline pid => Session.removePipeline pid
  | .updateFullConfig c _ => Session.updateFullConfig c
  | .restore snapshot _ => fun d => some (snapshot.getD d)

/-! ### The manager and its files -/

/-- A state manager and the configs directory: the files by their names. -/
structure Manager where
  cache : Option Doc
  current : Option String
  files : Dict String (List Char)

/-- The names `session_*.json` stands for. -/
def isSession (name : String) : Bool :=
  Text.startsWith name "session_" && Text.endsWith name ".json" && '/' ∉ name.toList

/-- `_get_latest_session_file`. -/
def latest (files : Dict String (List Char)) : Option String :=
  ((files.keys.filter isSession).insertionSort (· ≤ ·)).getLast?

def versionOk (d : Doc) : Bool := ((d.get? "version").getD .null).eq (.float SCHEMA_VERSION)

/-- What a session file is loaded as: what is no dictionary or of another version is nothing. -/
def loadText (s : List Char) : Option Doc :=
  match loads s with
  | some (.obj l) => if versionOk (Dict.ofList l) then some (Dict.ofList l) else none
  | _ => none

/-- The file `load_state` reads. -/
def target (explicitPath : Option String) (files : Dict String (List Char)) : Option String :=
  match explicitPath with
  | some p => if files.contains p then some p else none
  | none => latest files

def loadState (explicitPath : Option String) (m : Manager) : Option Doc × Manager :=
  match m.cache.filter fun d => d.entries ≠ [] with
  | some d => (some d, m)
  | none => match target explicitPath m.files with
    | none => (none, m)
    | some p => match (m.files.get? p).bind loadText with
      | none => (none, m)
      | some d => (some d, { m with cache := some d, current := some p })

/-- `{"identity": {}, "pipelines": []}` -/
def blank : Doc := .ofList [("identity", .obj []), ("pipelines", .arr [])]

def ensureLoaded (m : Manager) : Manager :=
  match m.cache with
  | some _ => m
  | none => match loadState none m with
    | (some _, m) => m
    | (none, m) => { m with cache := some blank }

/-- How far a flush gets: not so far as to open the file, or so many characters into the text. -/
inductive Reach
  | unopened
  | upTo (k : ℕ)

def flush (w : Reach) (m : Manager) : Manager :=
  match m.cache.filter (fun d => d.entries ≠ []), m.current, w with
  | some d, some p, .upTo k => { m with files := m.files.set p ((dumps (.ofDict d)).take k) }
  | _, _, _ => m

/-- A new document, into the cache and to the file. -/
def replaceCache (w : Reach) (m : Manager) : Option Doc → Manager
  | none => m
  | some d => flush w { m with cache := some d }

def perform (op : Op) (w : Reach) (m : Manager) : Manager :=
  match op with
  | .restore none _ => m
  | .restore (some d) _ => flush w { m with cache := some d }
  | op => replaceCache w (ensureLoaded m) ((ensureLoaded m).cache.bind op.mutate)

/-- `bootstrap`: a new session under a name with the time in it. -/
def bootstrap (filename : String) (c : AgentConfig) (w : Reach) (m : Manager) : Manager :=
  flush w { m with cache := some (docOf c), current := some filename }

/-- What the next process loads. -/
def recovered (m : Manager) : Option Doc := (loadState none { cache := none, current := none, files := m.files }).1

/-! ### Well-formed documents -/

theorem proper_setActive {a p : Json} (ha : Proper a) (hp : Proper p) : Proper (setActive a p) := by
  cases p with
  | obj l => exact ⟨Dict.nodup_setEntry _ _ _ hp.1, properMembers_setEntry ha hp.2⟩
  | _ => exact hp

theorem proper_entryActive {p : Json} (hp : Proper p) : Proper (entryActive p) := by
  unfold entryActive
  cases h : p.get? "active" with
  | none => trivial
  | some a => exact proper_get? hp h

theorem proper_replaceEntry {c : PipelineConfig} (hc : Proper c.modelDump) : ∀ {l l' : List Json},
    ProperItems l → replaceEntry c l = some l' → ProperItems l'
  | [], l', _, h => by
    obtain rfl := Option.some.inj h
    exact ⟨proper_setActive trivial hc, trivial⟩
  | p :: l, l', hl, h => by
    obtain ⟨i, -, h⟩ := Option.bind_eq_some_iff.mp h
    split_ifs at h
    · obtain rfl := Option.some.inj h
      exact ⟨proper_setActive (proper_entryActive hl.1) hc, hl.2⟩
    · obtain ⟨m, hm, rfl⟩ := Option.map_eq_some_iff.mp h
      exact ⟨hl.1, proper_replaceEntry hc hl.2 hm⟩

theorem proper_markEntry {pid : String} {b : Bool} : ∀ {l l' : List Json},
    ProperItems l → markEntry pid b l = some l' → ProperItems l'
  | [], l', _, h => by
    obtain rfl := Option.some.inj h
    trivial
  | p :: l, l', hl, h => by
    obtain ⟨i, -, h⟩ := Option.bind_eq_some_iff.mp h
    split_ifs at h
    · obtain rfl := Option.some.inj h
      exact ⟨proper_setActive trivial hl.1, hl.2⟩
    · obtain ⟨m, hm, rfl⟩ := Option.map_eq_some_iff.mp h
      exact ⟨hl.1, proper_markEntry hl.2 hm⟩

theorem proper_dropEntries {pid : String} : ∀ {l l' : List Json},
    ProperItems l → dropEntries pid l = some l' → ProperItems l'
  | [], l', _, h => by
    obtain rfl := Option.some.inj h
    trivial
  | p :: l, l', hl, h => by
    obtain ⟨i, -, h⟩ := Option.bind_eq_some_iff.mp h
    obtain ⟨m, hm, rfl⟩ := Option.map_eq_some_iff.mp h
    have ih := proper_dropEntries hl.2 hm
    split_ifs
    · exact ih
    · exact ⟨hl.1, ih⟩

theorem proper_flags : ∀ {l : List Json} {old : List (Json × Json)}, ProperItems l → flags l = some old →
    ∀ e ∈ old, Proper e.2
  | [], old, _, h, e, he => by
    obtain rfl := Option.some.inj h
    cases he
  | p :: l, old, hl, h, e, he => by
    obtain ⟨i, -, h⟩ := Option.bind_eq_some_iff.mp h
    split_ifs at h
    obtain ⟨m, hm, rfl⟩ := Option.map_eq_some_iff.mp h
    rcases List.mem_append.mp he with he | he
    · exact proper_flags hl.2 hm e he
    · obtain rfl := List.mem_singleton.mp he
      exact proper_entryActive hl.1

theorem proper_carryActive {old : List (Json × Json)} (hold : ∀ e ∈ old, Proper e.2) {c : PipelineConfig}
    (hc : Proper c.modelDump) : Proper (carryActive old c) := by
  unfold carryActive
  split
  · rename_i e he
    exact proper_setActive (hold e (List.mem_of_find?_eq_some he)) hc
  · exact hc

theorem proper_iterate {j : Json} {l : List Json} (hj : Proper j) (h : iterate j = some l) : ProperItems l := by
  cases j with
  | arr m =>
    obtain rfl := Option.some.inj h
    exact hj
  | obj m =>
    obtain rfl := Option.some.inj h
    rw [properItems_iff, List.forall_mem_map]
    exact fun _ _ => trivial
  | str s =>
    obtain rfl := Option.some.inj h
    rw [properItems_iff, List.forall_mem_map]
    exact fun _ _ => trivial
  | _ => cases h

theorem proper_set {d : Doc} (hd : Proper (.ofDict d)) {l : List Json} (hl : ProperItems l) :
    Proper (.ofDict (d.set "pipelines" (.arr l))) :=
  proper_ofDict (properMembers_setEntry (a := .arr l) hl hd.2)

theorem proper_pipelines {d : Doc} (hd : Proper (.ofDict d)) : Proper (pipelines d) := by
  unfold pipelines
  cases h : d.get? "pipelines" with
  | none => trivial
  | some a => exact proper_lookup hd.2 h

theorem proper_agentDoc {c : AgentConfig} (hc : Proper c.modelDump) {l : List Json} (hl : ProperItems l) :
    Proper (.ofDict (agentDoc c l)) := by
  obtain ⟨-, h₁, h₂, h₃, h₄, h₅, -⟩ := hc
  exact ⟨(agentDoc c l).nodup, h₁, h₂, h₃, h₄, h₅, hl, trivial⟩

theorem proper_updatePipelineConfig {c : PipelineConfig} (hc : Proper c.modelDump) {d d' : Doc}
    (hd : Proper (.ofDict d)) (h : updatePipelineConfig c d = some d') : Proper (.ofDict d') := by
  have hp := proper_pipelines hd
  unfold updatePipelineConfig at h
  split at h
  · rename_i l hl
    rw [hl] at hp
    obtain ⟨m, hm, rfl⟩ := Option.map_eq_some_iff.mp h
    exact proper_set hd (proper_replaceEntry hc hp hm)
  · cases h

theorem proper_setPipelineStatus {pid : String} {b : Bool} {d d' : Doc} (hd : Proper (.ofDict d))
    (h : setPipelineStatus pid b d = some d') : Proper (.ofDict d') := by
  unfold setPipelineStatus at h
  split at h
  · obtain rfl := Option.some.inj h
    exact hd
  · rename_i l hl
    obtain ⟨m, hm, rfl⟩ := Option.map_eq_some_iff.mp h
    have hp : Proper (.arr l) := proper_lookup hd.2 hl
    exact proper_set hd (proper_markEntry hp hm)
  · obtain ⟨m, -, h⟩ := Option.bind_eq_some_iff.mp h
    split_ifs at h
    obtain rfl := Option.some.inj h
    exact hd

theorem proper_removePipeline {pid : String} {d d' : Doc} (hd : Proper (.ofDict d))
    (h : removePipeline pid d = some d') : Proper (.ofDict d') := by
  unfold removePipeline at h
  split at h
  · obtain rfl := Option.some.inj h
    exact hd
  · rename_i j hj
    obtain ⟨l, hl, h⟩ := Option.bind_eq_some_iff.mp h
    obtain ⟨m, hm, rfl⟩ := Option.map_eq_some_iff.mp h
    exact proper_set hd (proper_dropEntries (proper_iterate (proper_lookup hd.2 hj) hl) hm)

theorem proper_updateFullConfig {c : AgentConfig} (hc : Proper c.modelDump) {d d' : Doc} (hd : Proper (.ofDict d))
    (h : updateFullConfig c d = some d') : Proper (.ofDict d') := by
  obtain ⟨l, hl, h⟩ := Option.bind_eq_some_iff.mp h
  obtain ⟨old, hold, rfl⟩ := Option.map_eq_some_iff.mp h
  have hflags := proper_flags (proper_iterate (proper_pipelines hd) hl) hold
  have hentries : ProperItems (c.pipelines.map PipelineConfig.modelDump) := by
    obtain ⟨-, -, -, -, -, -, h, -⟩ := hc
    exact h
  refine proper_agentDoc hc (properItems_iff.mpr ?_)
  rw [List.forall_mem_map]
  intro p hp
  exact proper_carryActive hflags (properItems_iff.mp hentries _ (List.mem_map_of_mem hp))

theorem proper_mutate {op : Op} {d d' : Doc} (hd : Proper (.ofDict d)) (h : op.mutate d = some d') :
    Proper (.ofDict d') := by
  cases op with
  | updatePipelineConfig c hc => exact proper_updatePipelineConfig hc hd h
  | setPipelineStatus pid b => exact proper_setPipelineStatus hd h
  | removePipeline pid => exact proper_removePipeline hd h
  | updateFullConfig c hc => exact proper_updateFullConfig hc hd h
  | restore snapshot hs =>
    obtain rfl := Option.some.inj h
    cases snapshot with
    | none => exact hd
    | some s => exact hs s rfl

/-! ### The dumps of configs -/

theorem ofDict_docOf (c : AgentConfig) : Json.ofDict (docOf c) = c.modelDump := rfl

theorem eq_str (s t : String) : (Json.str s).eq (.str t) = decide (s = t) := by
  simp [Json.eq, Json.canon]

theorem entryId_modelDump (c : PipelineConfig) : entryId c.modelDump = some (.str c.id) := by
  simp [entryId, PipelineConfig.modelDump, Json.get?]

theorem entryActive_modelDump (c : PipelineConfig) : entryActive c.modelDump = .bool c.active := by
  simp [entryActive, PipelineConfig.modelDump, Json.get?, List.lookup_cons]

theorem setActive_modelDump (c : PipelineConfig) (b : Bool) :
    setActive (.bool b) c.modelDump = PipelineConfig.modelDump { c with active := b } := by
  simp [setActive, PipelineConfig.modelDump, Dict.setEntry]

theorem pipelines_docOf (c : AgentConfig) (l : List Json) : (agentDoc c l).get? "pipelines" = some (.arr l) := by
  simp [agentDoc, Dict.get?, List.lookup_cons]

theorem set_agentDoc (c : AgentConfig) (l l' : List Json) :
    (agentDoc c l).set "pipelines" (.arr l') = agentDoc c l' :=
  Dict.ext_entries (by simp [agentDoc, Dict.set, Dict.setEntry])

theorem replaceEntry_map (c : PipelineConfig) : ∀ l : List PipelineConfig,
    replaceEntry c (l.map PipelineConfig.modelDump) = some ((Store.updateEntry c l).map PipelineConfig.modelDump)
  | [] => by rw [List.map_nil, replaceEntry, setActive_modelDump, Store.updateEntry, List.map_singleton]
  | p :: l => by
    have ih := replaceEntry_map c l
    rw [List.map_cons, replaceEntry, entryId_modelDump, Option.bind_some, eq_str, entryActive_modelDump,
      setActive_modelDump, ih, Store.updateEntry]
    by_cases h : p.id = c.id
    · simp [h]
    · simp [h]

theorem markEntry_map (pid : String) (b : Bool) : ∀ l : List PipelineConfig,
    markEntry pid b (l.map PipelineConfig.modelDump) = some ((Store.setStatus pid b l).map PipelineConfig.modelDump)
  | [] => rfl
  | p :: l => by
    have ih := markEntry_map pid b l
    rw [List.map_cons, markEntry, entryId_modelDump, Option.bind_some, eq_str, setActive_modelDump, ih,
      Store.setStatus]
    by_cases h : p.id = pid
    · simp [h]
    · simp [h]

theorem dropEntries_map (pid : String) : ∀ l : List PipelineConfig,
    dropEntries pid (l.map PipelineConfig.modelDump) = some ((Store.removeEntry pid l).map PipelineConfig.modelDump)
  | [] => rfl
  | p :: l => by
    have ih := dropEntries_map pid l
    rw [List.map_cons, dropEntries, entryId_modelDump, Option.bind_some, eq_str, ih, Option.map_some]
    by_cases h : p.id = pid
    · simp [h, Store.removeEntry]
    · simp [h, Store.removeEntry]

theorem flags_map : ∀ l : List PipelineConfig, flags (l.map PipelineConfig.modelDump) =
    some ((l.map fun p => (Json.str p.id, Json.bool p.active)).reverse)
  | [] => rfl
  | p :: l => by
    have ih := flags_map l
    rw [List.map_cons, flags, entryId_modelDump, Option.bind_some, ih, entryActive_modelDump]
    simp [hashable]

theorem carryActive_eq (l : List PipelineConfig) (c : PipelineConfig) :
    carryActive (l.map fun p => (Json.str p.id, Json.bool p.active)).reverse c =
      PipelineConfig.modelDump (match (Store.oldActive l).get? c.id with
        | some b => { c with active := b }
        | none => c) := by
  have hfind : (l.map fun p => (Json.str p.id, Json.bool p.active)).reverse.find? (fun e => e.1.eq (.str c.id)) =
      (l.reverse.find? fun p => decide (p.id = c.id)).map fun p => (Json.str p.id, Json.bool p.active) := by
    rw [← List.map_reverse, List.find?_map]
    congr 2
    funext p
    exact eq_str p.id c.id
  have hold : (Store.oldActive l).get? c.id = (l.reverse.find? fun p => decide (p.id = c.id)).map (·.active) := by
    rw [Store.oldActive, Dict.get?_ofList, ← List.map_reverse, List.find?_map, Option.map_map]
    rfl
  unfold carryActive
  rw [hfind, hold]
  cases l.reverse.find? fun p => decide (p.id = c.id) with
  | none => rfl
  | some p => exact setActive_modelDump c p.active

/-- The typed operation on configs that an operation on documents stands for. -/
def Op.IsTyped : Op → Store.Op → Prop
  | .updatePipelineConfig c _, .updatePipelineConfig c' => c = c'
  | .setPipelineStatus pid b, .setPipelineStatus pid' b' => pid = pid' ∧ b = b'
  | .removePipeline pid, .removePipeline pid' => pid = pid'
  | .updateFullConfig c _, .updateFullConfig c' => c = c'
  | .restore snapshot _, .restore c => snapshot = some (docOf c)
  | _, _ => False

/-- On the documents of configs the operations do not raise, and are those of the typed store. -/
theorem mutate_docOf {op : Op} {op' : Store.Op} (h : op.IsTyped op') (d : AgentConfig) :
    op.mutate (docOf d) = some (docOf (op'.apply d)) := by
  cases op <;> cases op' <;> try exact h.elim
  · obtain rfl := h
    rename_i c _
    have hp : pipelines (docOf d) = .arr (d.pipelines.map PipelineConfig.modelDump) := by
      rw [pipelines, docOf, pipelines_docOf, Option.getD_some]
    rw [Op.mutate, updatePipelineConfig, hp]
    simp only
    rw [replaceEntry_map, Option.map_some, docOf, set_agentDoc]
    rfl
  · obtain ⟨rfl, rfl⟩ := h
    rw [Op.mutate, setPipelineStatus, docOf, pipelines_docOf]
    simp only
    rw [markEntry_map, Option.map_some, set_agentDoc]
    rfl
  · obtain rfl := h
    rw [Op.mutate, removePipeline, docOf, pipelines_docOf]
    simp only [iterate, Option.bind_some]
    rw [dropEntries_map, Option.map_some, set_agentDoc]
    rfl
  · obtain rfl := h
    rename_i c _
    have hp : pipelines (docOf d) = .arr (d.pipelines.map PipelineConfig.modelDump) := by
      rw [pipelines, docOf, pipelines_docOf, Option.getD_some]
    rw [Op.mutate, updateFullConfig, hp]
    simp only [iterate, Option.bind_some]
    have hentries : c.pipelines.map (carryActive (d.pipelines.map fun p => (Json.str p.id, Json.bool p.active)).reverse) =
        (Store.mergeActive d.pipelines c.pipelines).map PipelineConfig.modelDump := by
      rw [Store.mergeActive, Store.withFlags, List.map_map]
      exact List.map_congr_left fun p _ => carryActive_eq d.pipelines p
    rw [flags_map, Option.map_some, hentries]
    rfl
  · rename_i snapshot _ c
    have hs : snapshot = some (docOf c) := h
    rw [Op.mutate, hs]
    rfl

end Session
end LocaiLink
