/-
# Crashes while a session is written

A process that dies during an operation of the store leaves the session file as
it was, with the whole new text, or torn: with a part of the text. What the next
process loads (`recovered`) is the state before or the state after exactly when
the file it picks is not torn and what is in it has the schema version
(`recovered_perform_iff`); the file is opened, and so emptied, before the text is
written, so every operation that writes can leave it torn, and then an unattended
boot starts over from the factory defaults (`boot_torn`).
-/
import LocaiLink.Runtime.Session

namespace LocaiLink
namespace Session

open JsonText

/-- The manager holds `d`, and its session file `p` reads back as `d`. -/
structure Backed (m : Manager) (d : Doc) (p : String) : Prop where
  cache : m.cache = some d
  current : m.current = some p
  file : ∃ t, m.files.get? p = some t ∧ loads t = some (.ofDict d)

/-- The state after the operation: where it raises, the one before. -/
def after (op : Op) (d : Doc) : Doc := (op.mutate d).getD d

/-- Whether the operation gets to writing: it does not raise, has something to
restore, and what it has made is not empty. -/
def Op.writes (op : Op) (d : Doc) : Bool :=
  match op with
  | .restore none _ => false
  | op => (op.mutate d).any fun d' => d'.entries ≠ []

/-- What is in the file then, `none` where it has not been opened. -/
def left (op : Op) (w : Reach) (d : Doc) : Option (List Char) :=
  match w with
  | .unopened => none
  | .upTo k => if op.writes d then some ((dumps (.ofDict (after op d))).take k) else none

/-- Whether that is the whole text. -/
def written (op : Op) (w : Reach) (d : Doc) : Store.Written :=
  match w with
  | .unopened => .nothing
  | .upTo k =>
    if op.writes d then if k < (dumps (.ofDict (after op d))).length then .torn else .whole else .nothing

/-- Whether what the operation makes of the document has the schema version. -/
def Op.versionOk (op : Op) (d : Doc) : Bool :=
  match op with
  | .updateFullConfig c _ => (Json.float c.version).eq (.float SCHEMA_VERSION)
  | .restore (some s) _ => Session.versionOk s
  | _ => Session.versionOk d

/-! ### One operation -/

theorem Backed.proper {m : Manager} {d : Doc} {p : String} (h : Backed m d p) : Proper (.ofDict d) := by
  obtain ⟨t, -, ht⟩ := h.file
  exact loads_proper ht

theorem proper_after (op : Op) {d : Doc} (hd : Proper (.ofDict d)) : Proper (.ofDict (after op d)) := by
  unfold after
  cases h : op.mutate d with
  | none => exact hd
  | some d' => exact proper_mutate hd h

theorem filter_nonempty {d : Doc} (h : d.entries ≠ []) : (some d).filter (fun d : Doc => d.entries ≠ []) = some d := by
  simp [Option.filter, h]

theorem flush_unopened (m : Manager) : flush .unopened m = m := by
  unfold flush
  split <;> first | rfl | contradiction

/-- A flush of a document into the session file. -/
theorem flush_upTo (m : Manager) {d : Doc} {p : String} (hc : m.cache = some d) (hp : m.current = some p) (k : ℕ) :
    flush (.upTo k) m = if d.entries ≠ [] then { m with files := m.files.set p ((dumps (.ofDict d)).take k) } else m := by
  unfold flush
  rw [hc, hp]
  split_ifs with h
  · rw [filter_nonempty h]
  · have hnone : (some d).filter (fun d : Doc => d.entries ≠ []) = none := by simp [Option.filter, h]
    rw [hnone]

theorem ensureLoaded_of_cache {m : Manager} {d : Doc} (h : m.cache = some d) : ensureLoaded m = m := by
  rw [ensureLoaded, h]

theorem withCache_self {m : Manager} {d : Doc} (h : m.cache = some d) : { m with cache := some d } = m := by
  rw [← h]

theorem flush_empty {m : Manager} {d : Doc} (hc : m.cache = some d) (hd : d.entries = []) (w : Reach) :
    flush w m = m := by
  have hnone : (some d).filter (fun d : Doc => d.entries ≠ []) = none := by simp [Option.filter, hd]
  unfold flush
  rw [hc, hnone]

/-- A new document in the cache and a flush, which writes nothing where the document is empty. -/
theorem flush_withCache (m : Manager) (d' : Doc) (w : Reach) :
    flush w { m with cache := some d' } = if d'.entries ≠ [] then flush w { m with cache := some d' }
      else { m with cache := some d' } := by
  by_cases hd : d'.entries = []
  · rw [if_neg (not_not.mpr hd), flush_empty rfl hd]
  · rw [if_pos hd]

/-- On a loaded manager an operation is what it makes of the document, and a flush where it writes. -/
theorem perform_of_cache {m : Manager} {d : Doc} (h : m.cache = some d) (op : Op) (w : Reach) :
    perform op w m = if op.writes d then flush w { m with cache := some (after op d) }
      else { m with cache := some (after op d) } := by
  have hmutate : ∀ f : Doc → Option Doc,
      replaceCache w m (m.cache.bind f) =
      if (f d).any (fun d' => d'.entries ≠ []) then flush w { m with cache := some ((f d).getD d) }
        else { m with cache := some ((f d).getD d) } := by
    intro f
    rw [h, Option.bind_some]
    cases hf : f d with
    | none => simp [replaceCache, withCache_self h]
    | some d' =>
      simp only [Option.getD_some, Option.any_some, decide_eq_true_eq]
      exact flush_withCache m d' w
  cases op with
  | restore s hs =>
    cases s with
    | none => exact (withCache_self h).symm
    | some s =>
      have hwrites : Op.writes (.restore (some s) hs) d = decide (s.entries ≠ []) := rfl
      rw [perform, hwrites, after, Op.mutate, Option.getD_some, Option.getD_some]
      simp only [decide_eq_true_eq]
      exact flush_withCache m s w
  | _ =>
    have hload := ensureLoaded_of_cache h
    simp only [perform, Op.writes, after]
    rw [hload]
    exact hmutate _

theorem nonempty_of_writes {op : Op} {d : Doc} (h : op.writes d = true) : (after op d).entries ≠ [] := by
  have hany : ∀ x : Option Doc, (x.any fun d' => d'.entries ≠ []) = true → (x.getD d).entries ≠ [] := by
    intro x hx
    cases x with
    | none => cases hx
    | some d' => simpa using hx
  cases op with
  | restore s hs =>
    cases s with
    | none => cases h
    | some s => exact hany _ h
  | _ => exact hany _ h

/-- The session files, after the operation and whatever stopped it. -/
theorem files_perform {m : Manager} {d : Doc} {p : String} (h : Backed m d p) (op : Op) (w : Reach) :
    (perform op w m).files = match left op w d with
      | none => m.files
      | some t => m.files.set p t := by
  rw [perform_of_cache h.cache]
  cases w with
  | unopened =>
    rw [flush_unopened, ite_self]
    rfl
  | upTo k =>
    unfold left
    simp only
    by_cases hw : op.writes d = true
    · rw [if_pos hw, if_pos hw, flush_upTo { m with cache := some (after op d) } rfl h.current,
        if_pos (nonempty_of_writes hw)]
    · rw [if_neg hw, if_neg hw]

/-- What the session file reads back as then. -/
theorem loads_perform {m : Manager} {d : Doc} {p : String} (h : Backed m d p) (op : Op) (w : Reach) :
    ∃ t, (perform op w m).files.get? p = some t ∧ loads t = match written op w d with
      | .whole => some (.ofDict (after op d))
      | .nothing => some (.ofDict d)
      | .torn => none := by
  have hproper := proper_after op h.proper
  rw [files_perform h]
  cases w with
  | unopened => exact h.file
  | upTo k =>
    simp only [left, written]
    by_cases hw : op.writes d = true
    · rw [if_pos hw, if_pos hw]
      refine ⟨_, Dict.get?_set_self _ _ _, ?_⟩
      by_cases hk : k < (dumps (.ofDict (after op d))).length
      · rw [if_pos hk]
        exact loads_take hproper hk
      · rw [if_neg hk, List.take_of_length_le (Nat.le_of_not_lt hk)]
        exact loads_dumps hproper
    · rw [if_neg hw, if_neg hw]
      exact h.file

theorem get?_perform_of_ne {m : Manager} {d : Doc} {p q : String} (h : Backed m d p) (op : Op) (w : Reach)
    (hq : q ≠ p) : (perform op w m).files.get? q = m.files.get? q := by
  rw [files_perform h]
  split
  · rfl
  · exact Dict.get?_set_of_ne _ _ hq

theorem latest_perform {m : Manager} {d : Doc} {p : String} (h : Backed m d p) (op : Op) (w : Reach) :
    latest (perform op w m).files = latest m.files := by
  obtain ⟨t, ht, -⟩ := h.file
  rw [files_perform h]
  split
  · rfl
  · rw [latest, latest, Dict.keys_set _ _ ht]

/-- After an operation that has written the whole text the manager is backed again. -/
theorem Backed.perform {m : Manager} {d : Doc} {p : String} (h : Backed m d p) {op : Op} {w : Reach}
    (hw : written op w d = .whole) : Backed (perform op w m) (after op d) p := by
  obtain ⟨t, ht, hl⟩ := loads_perform h op w
  rw [hw] at hl
  have hcache := perform_of_cache h.cache op w
  cases w with
  | unopened => cases hw
  | upTo k =>
    have hwrites : op.writes d = true := by
      by_contra hn
      rw [written, if_neg hn] at hw
      cases hw
    rw [if_pos hwrites, flush_upTo { m with cache := some (after op d) } rfl h.current, if_pos (nonempty_of_writes hwrites)] at hcache
    refine ⟨?_, ?_, t, ht, hl⟩
    · rw [hcache]
    · rw [hcache]
      exact h.current

/-- So it is from its first session on. -/
theorem backed_bootstrap (filename : String) (c : AgentConfig) (hc : Proper c.modelDump) (m : Manager) {k : ℕ}
    (hk : (dumps c.modelDump).length ≤ k) :
    Backed (bootstrap filename c (.upTo k) m) (docOf c) filename := by
  have hflush := flush_upTo { m with cache := some (docOf c), current := some filename } rfl rfl k
  have hne : (docOf c).entries ≠ [] := List.cons_ne_nil _ _
  rw [if_pos hne, ofDict_docOf, List.take_of_length_le hk] at hflush
  rw [bootstrap, hflush]
  exact ⟨rfl, rfl, _, Dict.get?_set_self _ _ _, loads_dumps hc⟩

/-! ### What the next process loads -/

theorem recovered_eq (m : Manager) :
    recovered m = (latest m.files).bind fun p => (m.files.get? p).bind loadText := by
  unfold recovered loadState
  simp only [Option.filter_none, target]
  cases latest m.files with
  | none => rfl
  | some p =>
    simp only [Option.bind_some]
    cases (m.files.get? p).bind loadText <;> rfl

theorem loadText_of_loads {t : List Char} {d : Doc} (h : loads t = some (.ofDict d)) :
    loadText t = if versionOk d then some d else none := by
  have hdict : Dict.ofList d.entries = d := Dict.ofList_entries d
  rw [loadText, h, Json.ofDict]
  simp only
  rw [hdict]

theorem loadText_of_torn {t : List Char} (h : loads t = none) : loadText t = none := by
  rw [loadText, h]

theorem versionOk_set (d : Doc) (l : List Json) : versionOk (d.set "pipelines" (.arr l)) = versionOk d := by
  have hget : (d.set "pipelines" (.arr l)).get? "version" = d.get? "version" := Dict.get?_set_of_ne d _ (by decide)
  rw [versionOk, hget, versionOk]

theorem versionOk_agentDoc (c : AgentConfig) (l : List Json) :
    versionOk (agentDoc c l) = (Json.float c.version).eq (.float SCHEMA_VERSION) := by
  simp [versionOk, agentDoc, Dict.get?]

/-- Of the operations only those that bring a whole document can change its version. -/
theorem versionOk_mutate {op : Op} {d d' : Doc} (h : op.mutate d = some d') : versionOk d' = op.versionOk d := by
  cases op with
  | updatePipelineConfig c hc =>
    simp only [Op.mutate, updatePipelineConfig] at h
    split at h
    · obtain ⟨l, -, rfl⟩ := Option.map_eq_some_iff.mp h
      exact versionOk_set d l
    · cases h
  | setPipelineStatus pid b =>
    simp only [Op.mutate, setPipelineStatus] at h
    split at h
    · obtain rfl := Option.some.inj h
      rfl
    · obtain ⟨l, -, rfl⟩ := Option.map_eq_some_iff.mp h
      exact versionOk_set d l
    · obtain ⟨l, -, h⟩ := Option.bind_eq_some_iff.mp h
      split_ifs at h
      obtain rfl := Option.some.inj h
      rfl
  | removePipeline pid =>
    simp only [Op.mutate, removePipeline] at h
    split at h
    · obtain rfl := Option.some.inj h
      rfl
    · obtain ⟨m, -, h⟩ := Option.bind_eq_some_iff.mp h
      obtain ⟨l, -, rfl⟩ := Option.map_eq_some_iff.mp h
      exact versionOk_set d l
  | updateFullConfig c hc =>
    obtain ⟨l, -, h⟩ := Option.bind_eq_some_iff.mp h
    obtain ⟨old, -, rfl⟩ := Option.map_eq_some_iff.mp h
    exact versionOk_agentDoc c _
  | restore snapshot hs =>
    obtain rfl := Option.some.inj h
    cases snapshot <;> rfl

theorem versionOk_after {op : Op} {d : Doc} (h : op.writes d = true) : versionOk (after op d) = op.versionOk d := by
  obtain ⟨d', hd'⟩ : ∃ d', op.mutate d = some d' := by
    cases hm : op.mutate d with
    | some d' => exact ⟨d', rfl⟩
    | none =>
      cases op with
      | restore s hs => cases hm
      | _ =>
        simp only [Op.writes] at h
        rw [hm] at h
        cases h
  rw [after, hd']
  exact versionOk_mutate hd'

theorem writes_of_whole {op : Op} {w : Reach} {d : Doc} (h : written op w d = .whole) : op.writes d = true := by
  cases w with
  | unopened => cases h
  | upTo k =>
    by_contra hn
    rw [written, if_neg hn] at h
    cases h

/-- Where another session file is the latest, the operation does not enter what is loaded. -/
theorem recovered_of_other {m : Manager} {d : Doc} {p : String} (h : Backed m d p) (op : Op) (w : Reach)
    (hp : latest m.files ≠ some p) : recovered (perform op w m) = recovered m := by
  rw [recovered_eq, recovered_eq, latest_perform h]
  cases hl : latest m.files with
  | none => rfl
  | some q =>
    have hq : q ≠ p := fun he => hp (by rw [hl, he])
    rw [Option.bind_some, Option.bind_some, get?_perform_of_ne h op w hq]

/-- Where the manager's own file is the latest, what is loaded is what that is left as. -/
theorem recovered_of_latest {m : Manager} {d : Doc} {p : String} (h : Backed m d p) (op : Op) (w : Reach)
    (hp : latest m.files = some p) : recovered (perform op w m) = match written op w d with
      | .whole => if op.versionOk d then some (after op d) else none
      | .nothing => if versionOk d then some d else none
      | .torn => none := by
  obtain ⟨t, ht, hl⟩ := loads_perform h op w
  rw [recovered_eq, latest_perform h, hp, Option.bind_some, ht, Option.bind_some]
  cases hw : written op w d with
  | whole =>
    rw [hw] at hl
    rw [loadText_of_loads hl, versionOk_after (writes_of_whole hw)]
  | nothing =>
    rw [hw] at hl
    rw [loadText_of_loads hl]
  | torn =>
    rw [hw] at hl
    exact loadText_of_torn hl

/-- **What a crash leaves.** The next process loads the state before or the state
after just when the session file it picks is some other one that reads as either,
or the manager's own, which is not torn and has the schema version. -/
theorem recovered_perform_iff {m : Manager} {d : Doc} {p : String} (h : Backed m d p) (op : Op) (w : Reach) :
    (recovered (perform op w m) = some d ∨ recovered (perform op w m) = some (after op d)) ↔
      if latest m.files = some p then
        match written op w d with
        | .whole => op.versionOk d = true
        | .nothing => versionOk d = true
        | .torn => False
      else recovered m = some d ∨ recovered m = some (after op d) := by
  split_ifs with hp
  · rw [recovered_of_latest h op w hp]
    cases written op w d with
    | whole => cases hv : op.versionOk d <;> simp
    | nothing => cases hv : versionOk d <;> simp
    | torn => simp
  · rw [recovered_of_other h op w hp]

/-! ### A device that is booted again -/

/-- How `run` resolves the identity without a config of its own to start from. -/
inductive Boot
  | resumed (c : AgentConfig)
  | onboarded
  | enrolled
  | refused
  | factory

/-- Auto-resume, then the fallback ladder: the keys of the command line, the marker
of a fleet device, the default configuration. -/
def boot (V : Validator) (registrationKey fleetKey fleetMarker : Bool) (m : Manager) : Boot :=
  match (recovered m).bind fun d => V.agentConfig (.ofDict d) with
  | some c => .resumed c
  | none =>
    if registrationKey then .onboarded
    else if fleetKey then .enrolled
    else if fleetMarker then .refused
    else .factory

/-- With its session torn a device without keys does not come back as itself. -/
theorem boot_torn (V : Validator) {m : Manager} {d : Doc} {p : String} (h : Backed m d p) (op : Op) (w : Reach)
    (hp : latest m.files = some p) (hw : written op w d = .torn) (fleetMarker : Bool) :
    boot V false false fleetMarker (perform op w m) = if fleetMarker then .refused else .factory := by
  have hnone : recovered (perform op w m) = none := by
    rw [recovered_of_latest h op w hp, hw]
  rw [boot, hnone]
  rfl

/-! ### One device -/

def deviceDoc : Doc where
  entries := [("version", .float SCHEMA_VERSION), ("identity", .obj [("device_id", .str "d1")]),
    ("pipelines", .arr [.obj [("id", .str "p1"), ("active", .bool false)]])]
  nodup := by decide

def deviceFile : String := "session_20260101_120000.json"

def deviceManager : Manager where
  cache := some deviceDoc
  current := some deviceFile
  files := ⟨[(deviceFile, dumps (.ofDict deviceDoc))], by decide⟩

theorem proper_deviceDoc : Proper (.ofDict deviceDoc) := by
  simp [Json.ofDict, deviceDoc, Proper, ProperMembers, ProperItems]

theorem backed_deviceManager : Backed deviceManager deviceDoc deviceFile :=
  ⟨rfl, rfl, _, rfl, loads_dumps proper_deviceDoc⟩

/-- A status that is written to its end is there after the crash. -/
theorem recovered_whole_write :
    recovered (perform (.setPipelineStatus "p1" true) (.upTo 1000) deviceManager) = some deviceDoc ∨
      recovered (perform (.setPipelineStatus "p1" true) (.upTo 1000) deviceManager) =
        some (after (.setPipelineStatus "p1" true) deviceDoc) := by
  refine (recovered_perform_iff backed_deviceManager (.setPipelineStatus "p1" true) (.upTo 1000)).mpr ?_
  have hlatest : latest deviceManager.files = some deviceFile := by decide +kernel
  have hwhole : written (.setPipelineStatus "p1" true) (.upTo 1000) deviceDoc = .whole := by decide +kernel
  rw [if_pos hlatest, hwhole]
  decide +kernel

/-- A process that dies with the file just opened leaves nothing to load. -/
theorem torn_session_lost : ¬∀ (m : Manager) (d : Doc) (p : String) (op : Op) (w : Reach), Backed m d p →
    latest m.files = some p → versionOk d = true → op.versionOk d = true →
      recovered (perform op w m) = some d ∨ recovered (perform op w m) = some (after op d) := by
  intro hall
  have hlatest : latest deviceManager.files = some deviceFile := by decide +kernel
  have hlost : recovered (perform (.setPipelineStatus "p1" true) (.upTo 0) deviceManager) = none :=
    Option.isNone_iff_eq_none.mp (by decide +kernel)
  have hor := hall deviceManager deviceDoc deviceFile (.setPipelineStatus "p1" true) (.upTo 0) backed_deviceManager
    hlatest (by decide +kernel) (by decide +kernel)
  rw [hlost] at hor
  rcases hor with hor | hor <;> cases hor

end Session
end LocaiLink
