/-
# When a push reaches its target

The swap is a diff against `agent_config`, and the persisted flags are merged
from the session document, so an applied push reaches its target only where
these agree with what runs (`SwapReaches`): every running pipeline is known to
the old config or the new one, a restart that is skipped was not needed, and the
flag the merge reads is the right one. `push_reaches_iff` is exact. A pipeline
that was started from an inline config outlives the push that does not name it
(`push_leaves_stray`).
-/
import LocaiLink.Runtime.Push
import LocaiLink.Runtime.Threads

namespace LocaiLink
namespace AgentRuntime

open Rt

/-- The state a push has to reach: the active ids run, from their new entries;
the new entries are stored; and they are persisted with the flag `is running`,
in the file too when it could be written. -/
structure ReachesTarget (new : AgentConfig) (u : Rt) : Prop where
  running : ∀ pid, (u.built pid).isSome = true ↔ ∃ p ∈ new.pipelines, p.id = pid ∧ p.active = true
  built : ∀ p ∈ new.pipelines, ∀ b, u.built p.id = some b → p.eq b = true
  configs : ∀ pid, u.stored pid = new.pipelines.find? fun p => p.id = pid
  persisted : ∀ d, u.doc = some d →
    d.pipelines = new.pipelines.map fun p => { p with active := (u.built p.id).isSome }
  file : u.FlushOk → u.Synced

/-- The swap acts on the id of an entry: it starts the entry, or stops what runs. -/
def touched (s : Rt) (p : PipelineConfig) : Bool :=
  if p.active then !((s.built p.id).isSome && (s.stored p.id).any p.eq) else (s.built p.id).isSome

/-- Where the state before a push has to agree with the two configs. -/
structure SwapReaches (new : AgentConfig) (s : Rt) : Prop where
  known : ∀ pid, (s.built pid).isSome = true → pid ∈ ids s.agentConfig ∨ pid ∈ ids new
  skipped : ∀ p ∈ new.pipelines, p.active = true → ∀ b c, s.built p.id = some b → s.stored p.id = some c →
    p.eq c = true → p.eq b = true
  flags : ∀ p ∈ new.pipelines, ∀ l, s.occ p.id = some l →
    (((if touched s p then l.tail else l).getLast?).map (·.active)).getD p.active = p.active

/-! ### One entry -/

theorem isSome_built_swapLoc (x : Loc) (p : PipelineConfig) : (swapLoc x p).built.isSome = p.active := by
  unfold swapLoc
  split_ifs with hp hskip hrun
  · simp only [Bool.and_eq_true] at hskip
    rw [hskip.1, hp]
  · exact hp.symm
  · exact (Bool.eq_false_iff.mpr hp).symm
  · rw [Bool.eq_false_iff.mpr hrun, Bool.eq_false_iff.mpr hp]

/-- The flag the merge reads after the entry was handled. -/
theorem flag_swapLoc (s : Rt) (p : PipelineConfig) {l : List PipelineConfig}
    (h : (swapLoc (s.loc p.id) p).occ = some l) :
    ∃ l₀, s.occ p.id = some l₀ ∧ (l.getLast?.map (·.active)).getD p.active =
      ((((if touched s p then l₀.tail else l₀).getLast?).map (·.active)).getD p.active) := by
  have hlast : ∀ (q : PipelineConfig) (r : List PipelineConfig), q.active = p.active →
      (((q :: r).getLast?).map (·.active)).getD p.active = ((r.getLast?).map (·.active)).getD p.active := by
    intro q r hq
    cases r with
    | nil => exact hq
    | cons a r => rw [List.getLast?_cons_cons]
  unfold swapLoc at h
  unfold touched
  split_ifs at h with hp hskip hrun
  · refine ⟨l, h, ?_⟩
    rw [if_pos hp, show ((s.built p.id).isSome && (s.stored p.id).any p.eq) = true from hskip]
    simp
  · obtain ⟨l₀, hl₀, rfl⟩ := Option.map_eq_some_iff.mp h
    refine ⟨l₀, hl₀, ?_⟩
    rw [if_pos hp, show ((s.built p.id).isSome && (s.stored p.id).any p.eq) = false by simpa [loc] using hskip]
    cases l₀ with
    | nil => simp [Store.upsertHead, Store.setHead, hp]
    | cons a r => exact hlast _ r hp.symm
  · obtain ⟨l₀, hl₀, rfl⟩ := Option.map_eq_some_iff.mp h
    refine ⟨l₀, hl₀, ?_⟩
    rw [if_neg hp, show (s.built p.id).isSome = true from hrun]
    cases l₀ with
    | nil => rfl
    | cons a r => exact hlast _ r (Bool.eq_false_iff.mpr hp).symm
  · refine ⟨l, h, ?_⟩
    rw [if_neg hp, show (s.built p.id).isSome = false by simpa [loc] using hrun]
    simp

/-! ### The state after an applied push -/

theorem applied_views (new : AgentConfig) (t : Rt) (pid : String) :
    (applied new t).stored pid = t.stored pid ∧ (applied new t).built pid = t.built pid := by
  unfold applied Rt.stored Rt.built
  simp only [tock]
  rw [performStore_configs, performStore_pipelines]
  exact ⟨rfl, rfl⟩

theorem applied_doc (new : AgentConfig) (t : Rt) :
    (applied new t).doc = t.doc.map (Store.Op.apply (.updateFullConfig new)) :=
  doc_performStore _ t

/-- The merge has the right flags exactly when it reads the right ones. -/
theorem mergeActive_eq_iff (old new : List PipelineConfig) :
    Store.mergeActive old new = new ↔
      ∀ p ∈ new, ((Store.occ p.id old).getLast?.map (·.active)).getD p.active = p.active := by
  unfold Store.mergeActive Store.withFlags
  conv_lhs => rw [← List.map_id new, List.map_map, List.map_inj_left]
  refine forall₂_congr fun p _ => ?_
  simp only [Function.comp, id_eq, Store.get?_oldActive]
  cases (Store.occ p.id old).getLast?.map (·.active) with
  | none => simp
  | some b =>
    cases p
    simp

/-- What an applied push has made of the id of a new entry, and of the others. -/
theorem swapped_entry {new : AgentConfig} {s t : Rt} (hids : (ids new).Nodup)
    (h : Swapped new s.agentConfig s t) {p : PipelineConfig} (hp : p ∈ new.pipelines) :
    t.built p.id = (swapLoc (s.loc p.id) p).built ∧ t.occ p.id = (swapLoc (s.loc p.id) p).occ := by
  have hmem : p.id ∈ ids new := List.mem_map.mpr ⟨p, hp, rfl⟩
  rw [h.built p.id hmem, h.occ p.id hmem, Store.occ_of_nodup hids p hp]
  exact ⟨rfl, rfl⟩

theorem swapped_running_iff {new : AgentConfig} {s t : Rt} (hids : (ids new).Nodup)
    (h : Swapped new s.agentConfig s t) :
    (∀ pid, (t.built pid).isSome = true ↔ ∃ p ∈ new.pipelines, p.id = pid ∧ p.active = true) ↔
      ∀ pid, (s.built pid).isSome = true → pid ∈ ids s.agentConfig ∨ pid ∈ ids new := by
  have hnew : ∀ p ∈ new.pipelines, (t.built p.id).isSome = p.active := fun p hp => by
    rw [(swapped_entry hids h hp).1, isSome_built_swapLoc]
  constructor
  · intro hrun pid hpid
    by_contra hno
    rw [not_or] at hno
    rw [← h.other pid hno.1 hno.2, hrun pid] at hpid
    obtain ⟨p, hp, rfl, -⟩ := hpid
    exact hno.2 (List.mem_map.mpr ⟨p, hp, rfl⟩)
  · intro hknown pid
    constructor
    · intro hpid
      by_cases hmem : pid ∈ ids new
      · obtain ⟨p, hp, rfl⟩ := List.mem_map.mp hmem
        exact ⟨p, hp, rfl, (hnew p hp).symm.trans hpid⟩
      · exfalso
        by_cases hold : pid ∈ ids s.agentConfig
        · rw [h.removed pid hold hmem] at hpid
          cases hpid
        · rw [h.other pid hold hmem] at hpid
          exact (hknown pid hpid).elim hold hmem
    · rintro ⟨p, hp, rfl, hactive⟩
      rw [hnew p hp, hactive]

theorem swapped_built_iff {new : AgentConfig} {s t : Rt} (hids : (ids new).Nodup)
    (h : Swapped new s.agentConfig s t) :
    (∀ p ∈ new.pipelines, ∀ b, t.built p.id = some b → p.eq b = true) ↔
      ∀ p ∈ new.pipelines, p.active = true → ∀ b c, s.built p.id = some b → s.stored p.id = some c →
        p.eq c = true → p.eq b = true := by
  refine forall₂_congr fun p hp => ?_
  rw [(swapped_entry hids h hp).1]
  unfold swapLoc
  split_ifs with ha hskip hrun
  · -- the restart was skipped: the instance is the old one
    obtain ⟨-, hst⟩ := (Bool.and_eq_true _ _).mp hskip
    obtain ⟨c, hc, hpc⟩ := (Option.any_eq_true _ _).mp hst
    exact ⟨fun hall _ b _ hb _ _ => hall b hb, fun hall b hb => hall ha b c hb hc hpc⟩
  · refine iff_of_true (fun b hb => ?_) fun _ b c hb hc hpc => absurd ?_ hskip
    · cases hb
      exact PipelineConfig.eq_refl p
    · exact (Bool.and_eq_true _ _).mpr ⟨by rw [loc, hb]; rfl, by rw [loc, hc]; exact hpc⟩
  · exact iff_of_true (fun b hb => by cases hb) fun ha' => absurd ha' ha
  · refine iff_of_true (fun b hb => absurd (by rw [hb]; rfl) hrun) fun ha' => absurd ha' ha

theorem swapped_flags_iff {new : AgentConfig} {s t : Rt} (hids : (ids new).Nodup)
    (h : Swapped new s.agentConfig s t) (hstore : t.store.isSome = s.store.isSome) :
    (∀ d, t.doc = some d → Store.mergeActive d.pipelines new.pipelines = new.pipelines) ↔
      ∀ p ∈ new.pipelines, ∀ l, s.occ p.id = some l →
        (((if touched s p then l.tail else l).getLast?).map (·.active)).getD p.active = p.active := by
  have hocc : ∀ d, t.doc = some d → ∀ p ∈ new.pipelines,
      (swapLoc (s.loc p.id) p).occ = some (Store.occ p.id d.pipelines) := fun d hd p hp => by
    rw [← (swapped_entry hids h hp).2, Rt.occ, hd, Option.map_some]
  constructor
  · intro hmerge p hp l hl
    have hsome : t.doc.isSome = true := by
      obtain ⟨d₀, hd₀, -⟩ := Option.map_eq_some_iff.mp hl
      rw [doc, Option.isSome_map, hstore, ← show s.doc.isSome = s.store.isSome from Option.isSome_map, hd₀]
      rfl
    obtain ⟨d, hd⟩ := Option.isSome_iff_exists.mp hsome
    obtain ⟨l₀, hl₀, hflag⟩ := flag_swapLoc s p (hocc d hd p hp)
    rw [hl] at hl₀
    cases hl₀
    rw [← hflag]
    exact (mergeActive_eq_iff d.pipelines new.pipelines).mp (hmerge d hd) p hp
  · intro hflags d hd
    refine (mergeActive_eq_iff _ _).mpr fun p hp => ?_
    obtain ⟨l₀, hl₀, hflag⟩ := flag_swapLoc s p (hocc d hd p hp)
    rw [hflag]
    exact hflags p hp l₀ hl₀

/-- The new entries with the flag `is running` are the new entries, once each of
them runs if it is active. -/
theorem map_running_eq {new : AgentConfig} {u : Rt}
    (h : ∀ p ∈ new.pipelines, (u.built p.id).isSome = p.active) :
    (new.pipelines.map fun p => { p with active := (u.built p.id).isSome }) = new.pipelines := by
  conv_rhs => rw [← List.map_id new.pipelines]
  refine List.map_congr_left fun p hp => ?_
  rw [h p hp]
  rfl

/-- **When an applied push reaches its target**: exactly when every running
pipeline is known to the old or the new config, each instance whose restart is
skipped was built from a config equal to its new entry, and the session document
has the right flag for each entry. -/
theorem push_reaches_iff (V : Validator) (me : Option ℕ) (raw : Json) (s : Rt) (new : AgentConfig)
    (hnew : validated V s raw = some new) (hids : (ids new).Nodup)
    (hok : (s.run (applyAgentConfig V me raw)).1.ok = true) :
    ReachesTarget new (s.run (applyAgentConfig V me raw)).2 ↔ SwapReaches new s := by
  obtain ⟨t, hrun, hstore, hs⟩ : ∃ t, (s.run (applyAgentConfig V me raw)).2 = applied new t ∧
      t.store.isSome = s.store.isSome ∧ Swapped new s.agentConfig s t := by
    rcases applyAgentConfig_cases V me raw s with ⟨msg, t, ht, -⟩ | ⟨new', hnew', hrun⟩
    · rw [ht] at hok
      cases hok
    · cases hnew.symm.trans (validated_of_accepted hnew')
      rw [hrun] at hok ⊢
      rcases swapTo_cases V me new s with ⟨msg, t, ht, htrun, hs⟩ | ⟨msg, t, u, ht, -⟩ | ⟨msg, t, ht⟩
      · refine ⟨t, by rw [ht], ?_, hs⟩
        rw [← htrun]
        exact run_hasStore (applyConfig V me new s.agentConfig) s
      · rw [ht] at hok
        cases hok
      · rw [ht] at hok
        cases hok
  rw [hrun]
  have hviews := applied_views new t
  have hbuilt : ∀ p ∈ new.pipelines, ((applied new t).built p.id).isSome = p.active := fun p hp => by
    rw [(hviews p.id).2, (swapped_entry hids hs hp).1, isSome_built_swapLoc]
  have hdoc : ∀ (P : AgentConfig → Prop), (∀ d, (applied new t).doc = some d → P d) ↔
      ∀ d, t.doc = some d → P (Store.Op.apply (.updateFullConfig new) d) := fun P => by
    rw [applied_doc]
    cases t.doc <;> simp
  have hfile : (applied new t).FlushOk → (applied new t).Synced := fun hf => by
    have hperform := perform_oracle (.store (.updateFullConfig new)) t
    have hf' : t.FlushOk := fun n => by
      rw [← hperform]
      exact hf n
    exact synced_performStore hf' (.updateFullConfig new)
  have hconfigs : ∀ pid, (applied new t).stored pid = new.pipelines.find? fun p => p.id = pid := fun pid => by
    rw [(hviews pid).1, hs.stored]
    by_cases hmem : pid ∈ ids new
    · obtain ⟨p, hp, rfl⟩ := List.mem_map.mp hmem
      have hfind : new.pipelines.find? (fun q => q.id = p.id) = (Store.occ p.id new.pipelines).head? :=
        List.head?_filter.symm
      rw [hfind, Store.occ_of_nodup hids p hp]
      rfl
    · rw [Store.occ_of_not_mem hmem, ← List.head?_filter]
      exact congrArg List.head? (Store.occ_of_not_mem hmem).symm
  constructor
  · rintro ⟨hrunning, hb, -, hpersisted, -⟩
    refine ⟨(swapped_running_iff hids hs).mp fun pid => ?_, (swapped_built_iff hids hs).mp fun p hp b hpb => ?_,
      (swapped_flags_iff hids hs hstore).mp ?_⟩
    · rw [← (hviews pid).2]
      exact hrunning pid
    · exact hb p hp b ((hviews p.id).2.trans hpb)
    · rw [map_running_eq hbuilt] at hpersisted
      exact (hdoc fun d => d.pipelines = new.pipelines).mp hpersisted
  · rintro ⟨hknown, hskipped, hflags⟩
    refine ⟨fun pid => ?_, fun p hp b hpb => ?_, hconfigs, ?_, hfile⟩
    · rw [(hviews pid).2]
      exact (swapped_running_iff hids hs).mpr hknown pid
    · exact (swapped_built_iff hids hs).mpr hskipped p hp b ((hviews p.id).2.symm.trans hpb)
    · rw [map_running_eq hbuilt]
      exact (hdoc fun d => d.pipelines = new.pipelines).mpr ((swapped_flags_iff hids hs hstore).mpr hflags)

/-- The booted device, pushed the config it has. -/
theorem push_reaches_device :
    ReachesTarget (deviceConfig [commandCenter])
        (bootedDevice.run (applyAgentConfig .strict (some 0) (deviceConfig [commandCenter]).modelDump)).2 ↔
      SwapReaches (deviceConfig [commandCenter]) bootedDevice :=
  push_reaches_iff .strict (some 0) (deviceConfig [commandCenter]).modelDump bootedDevice _ rfl (by decide)
    (by decide +kernel)

/-- The device once model `m` was started from an inline config. -/
def strayDevice : Rt :=
  (bootedDevice.run (handleCommand .strict (some 0) (startModelCommand "m" (modelConfig "m" false)))).2

/-- The push of the config the device booted with is applied, and `m` still runs. -/
theorem push_leaves_stray :
    validated .strict strayDevice (deviceConfig [commandCenter]).modelDump = some (deviceConfig [commandCenter]) ∧
      (ids (deviceConfig [commandCenter])).Nodup ∧
      (strayDevice.run (applyAgentConfig .strict (some 0) (deviceConfig [commandCenter]).modelDump)).1.ok = true ∧
      ¬ReachesTarget (deviceConfig [commandCenter])
        (strayDevice.run (applyAgentConfig .strict (some 0) (deviceConfig [commandCenter]).modelDump)).2 := by
  refine ⟨rfl, by decide, by decide +kernel, fun h => ?_⟩
  obtain ⟨p, hp, hid, -⟩ := (h.running "m").mp (by decide +kernel)
  rw [List.mem_singleton.mp hp] at hid
  exact absurd hid (by decide)

end AgentRuntime
end LocaiLink
