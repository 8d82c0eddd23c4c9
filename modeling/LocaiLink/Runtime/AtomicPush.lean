/-
# When a failed push changes nothing

A push that fails swaps back to `agent_config`, which is not where it came from:
deploys, starts and stops change the maps and leave `agent_config` as it is. The
way back leads home when the maps agree with `agent_config` on the ids the push
is about (`InSync`); then what is stored, what runs, the agent config and the
persisted state are as before (`failed_push_unchanged_iff`). The invariant on the
way is `Agrees`: wherever the swap stopped, an instance that runs was built from
what is stored. `failed_push_drops_stray` is the push that does not come home.
-/
import LocaiLink.Runtime.HotSwap
import LocaiLink.Runtime.History

namespace LocaiLink
namespace AgentRuntime

open Rt

/-- An id runs as an entry says: the instance of an active entry, built from a
config equal to it, and none for an inactive or a missing entry. -/
def RunsAs : Option PipelineConfig → Option PipelineConfig → Prop
  | some e, b => if e.active then ∃ c, b = some c ∧ e.eq c = true else b = none
  | none, b => b = none

/-- The maps agree with `agent_config`: in what is stored, and on the ids of the
two configs in what runs. The last entry of an id is the one that counts. -/
structure InSync (new : AgentConfig) (s : Rt) : Prop where
  configs : ∀ q, s.stored q = (Store.occ q s.agentConfig.pipelines).getLast?
  running : ∀ q, q ∈ ids s.agentConfig ∨ q ∈ ids new →
    RunsAs (Store.occ q s.agentConfig.pipelines).getLast? (s.built q)

/-- Nothing has changed: the agent config, what is stored, what runs and from
which config, and the persisted state, in memory and in its file. -/
structure Unchanged (s t : Rt) : Prop where
  agentConfig : t.agentConfig = s.agentConfig
  stored : ∀ q, t.stored q = s.stored q
  built : ∀ q, optEq PipelineConfig.eq (t.built q) (s.built q) = true
  persisted : t.doc = s.doc
  file : s.FlushOk → s.Synced → t.store = s.store

/-! ### The way back -/

/-- Two instances that run as one entry were built from equal configs. -/
theorem RunsAs.eq {e b c : Option PipelineConfig} (hb : RunsAs e b) (hc : RunsAs e c) :
    optEq PipelineConfig.eq b c = true := by
  cases e with
  | none =>
    rw [show b = none from hb, show c = none from hc]
    rfl
  | some e =>
    simp only [RunsAs] at hb hc
    split_ifs at hb hc
    · obtain ⟨x, rfl, hx⟩ := hb
      obtain ⟨y, rfl, hy⟩ := hc
      rw [PipelineConfig.eq_comm] at hx
      exact PipelineConfig.eq_trans hx hy
    · rw [hb, hc]
      rfl

/-- What runs as an entry says still does when it was built from an equal config. -/
theorem RunsAs.of_eq {e b c : Option PipelineConfig} (hb : RunsAs e b) (h : optEq PipelineConfig.eq b c = true) :
    RunsAs e c := by
  have hnone : b = none → c = none := fun hb => by
    rw [hb] at h
    cases c <;> [rfl; cases h]
  cases e with
  | none => exact hnone hb
  | some e =>
    by_cases ha : e.active = true
    · simp only [RunsAs, if_pos ha] at hb ⊢
      obtain ⟨x, rfl, hx⟩ := hb
      cases c with
      | none => cases h
      | some y => exact ⟨y, rfl, PipelineConfig.eq_trans hx h⟩
    · simp only [RunsAs, if_neg ha] at hb ⊢
      exact hnone hb

theorem runsAs_swapLoc {x : Loc} (h : Agrees x) (e : PipelineConfig) : RunsAs (some e) (swapLoc x e).built := by
  by_cases ha : e.active = true
  · simp only [RunsAs, if_pos ha]
    by_cases hskip : (x.built.isSome && x.stored.any e.eq) = true
    · rw [swapLoc_skip ha hskip]
      obtain ⟨hb, hst⟩ := (Bool.and_eq_true _ _).mp hskip
      obtain ⟨b, hb⟩ := Option.isSome_iff_exists.mp hb
      obtain ⟨c, hc, hec⟩ := (Option.any_eq_true _ _).mp hst
      exact ⟨b, hb, PipelineConfig.eq_trans hec (h b c hb hc)⟩
    · rw [swapLoc_start ha hskip]
      exact ⟨e, rfl, PipelineConfig.eq_refl e⟩
  · simp only [RunsAs, if_neg ha]
    have ha' : e.active = false := Bool.eq_false_iff.mpr ha
    cases hb : x.built with
    | none => rw [swapLoc_pass ha' hb, hb]
    | some b => rw [swapLoc_stop ha' (by rw [hb]; rfl)]

/-- After all entries of an id, the last one counts. -/
theorem runsAs_foldl {x : Loc} (h : Agrees x) : ∀ {l : List PipelineConfig}, l ≠ [] →
    RunsAs l.getLast? (l.foldl swapLoc x).built
  | [], hne => absurd rfl hne
  | [e], _ => runsAs_swapLoc h e
  | e :: f :: l, _ => by
    rw [List.foldl_cons, List.getLast?_cons_cons]
    exact runsAs_foldl (h.swapLoc e) (by simp)

theorem InSync.agrees {new : AgentConfig} {s : Rt} (h : InSync new s) {q : String} (hq : q ∈ ids s.agentConfig) :
    Agrees (s.loc q) := by
  intro b c hb hc
  have hrun := h.running q (.inl hq)
  rw [← h.configs, show s.stored q = some c from hc, show s.built q = some b from hb] at hrun
  simp only [RunsAs] at hrun
  split_ifs at hrun
  obtain ⟨b', hb', hcb⟩ := hrun
  cases hb'
  exact hcb

/-- What runs after the swap there and back is what ran before. -/
theorem built_back {new : AgentConfig} {s t u : Rt} (h : InSync new s) (hf : SwapFailed new s.agentConfig s t)
    (hs : Swapped s.agentConfig new t u) (q : String) : optEq PipelineConfig.eq (u.built q) (s.built q) = true := by
  by_cases hold : q ∈ ids s.agentConfig
  · refine RunsAs.eq ?_ (h.running q (.inl hold))
    rw [hs.built q hold]
    exact runsAs_foldl (hf.agrees q (h.agrees hold)) (Store.occ_ne_nil hold)
  · have hnone : Store.occ q s.agentConfig.pipelines = [] := Store.occ_of_not_mem hold
    by_cases hnew : q ∈ ids new
    · have hrun : s.built q = none := by
        have h' := h.running q (.inr hnew)
        rwa [hnone, List.getLast?_nil] at h'
      rw [hs.removed q hnew hold, hrun]
      rfl
    · rw [hs.other q hnew hold, show t.built q = s.built q from congrArg Loc.built (hf.other q hold hnew)]
      exact optEq_refl PipelineConfig.eq_refl _

theorem reverted_views (snapshot : Option AgentConfig) (u : Rt) :
    (reverted snapshot u).agentConfig = u.agentConfig ∧ (∀ q, (reverted snapshot u).stored q = u.stored q) ∧
      ∀ q, (reverted snapshot u).built q = u.built q := by
  cases snapshot with
  | none => exact ⟨rfl, fun _ => rfl, fun _ => rfl⟩
  | some d =>
    refine ⟨performStore_agentConfig _ u, fun q => ?_, fun q => ?_⟩
    · exact stored_congr (performStore_configs _ u) q
    · rw [Rt.built, reverted, performStore_pipelines, Rt.built]

theorem reverted_doc {s u : Rt} (h : u.store.isSome = s.store.isSome) : (reverted s.doc u).doc = s.doc := by
  cases hd : s.doc with
  | none =>
    have hs : s.store.isSome = false := by
      rw [← show s.doc.isSome = s.store.isSome from Option.isSome_map, hd]
      rfl
    have hu : u.store = none := by
      rw [hs] at h
      simpa using h
    rw [reverted, doc, hu]
    rfl
  | some d =>
    have hs : u.doc.isSome = true := by
      rw [show u.doc.isSome = u.store.isSome from Option.isSome_map, h,
        ← show s.doc.isSome = s.store.isSome from Option.isSome_map, hd]
      rfl
    obtain ⟨d', hd'⟩ := Option.isSome_iff_exists.mp hs
    rw [reverted, doc_performStore, hd']
    rfl

/-- A file in step with the document is the same store as another one that is. -/
theorem store_eq_of_synced {s t : Rt} (hs : s.Synced) (ht : t.Synced) (h : t.doc = s.doc) : t.store = s.store := by
  unfold doc at h
  cases hst : s.store with
  | none =>
    rw [hst] at h
    exact Option.map_eq_none_iff.mp h
  | some st =>
    rw [hst] at h
    obtain ⟨st', hst', hc⟩ := Option.map_eq_some_iff.mp h
    rw [hst']
    cases st
    cases st'
    have h1 := hs _ hst
    have h2 := ht _ hst'
    simp_all

/-! ### A push that fails -/

/-- It was refused, or it was swapped back. -/
theorem failed_push_cases (V : Validator) (me : Option ℕ) (raw : Json) (s : Rt)
    (hfail : (s.run (applyAgentConfig V me raw)).1.ok = false)
    (hrestart : (s.run (applyAgentConfig V me raw)).1.scheduledRestart = false) :
    (accepted V s raw = none ∧ SameViews s (s.run (applyAgentConfig V me raw)).2) ∨
      ∃ new t u, accepted V s raw = some new ∧ (s.run (applyAgentConfig V me raw)).2 = reverted s.doc u ∧
        u.store.isSome = s.store.isSome ∧ SwapFailed new s.agentConfig s t ∧ Swapped s.agentConfig new t u := by
  rcases applyAgentConfig_cases V me raw s with ⟨msg, t, ht, hc, hnew⟩ | ⟨new, hnew, hrun⟩
  · rw [ht]
    exact .inl ⟨hnew, SameViews.of_core hc⟩
  · rw [hrun] at hfail hrestart ⊢
    rcases swapTo_cases V me new s with ⟨msg, t, ht, -⟩ | ⟨msg, t, u, ht, hstore, hf, hs⟩ | ⟨msg, t, ht⟩
    · rw [ht] at hfail
      cases hfail
    · rw [ht]
      exact .inr ⟨new, t, u, hnew, rfl, hstore, hf, hs⟩
    · rw [ht] at hrestart
      cases hrestart

theorem unchanged_of_sameViews {s t : Rt} (h : SameViews s t) (hfile : s.FlushOk → s.Synced → t.store = s.store) :
    Unchanged s t where
  agentConfig := h.agentConfig
  stored := stored_congr h.configs
  built q := by
    rw [show t.built q = s.built q from congrArg Loc.built (h.loc q)]
    exact optEq_refl PipelineConfig.eq_refl _
  persisted := h.doc
  file := hfile

theorem unchanged_of_inSync {new : AgentConfig} {s t u : Rt} (h : InSync new s)
    (hstore : u.store.isSome = s.store.isSome) (hf : SwapFailed new s.agentConfig s t)
    (hs : Swapped s.agentConfig new t u)
    (hfile : s.FlushOk → s.Synced → (reverted s.doc u).store = s.store) : Unchanged s (reverted s.doc u) := by
  obtain ⟨hagent, hstored, hbuilt⟩ := reverted_views s.doc u
  refine ⟨hagent.trans hs.agentConfig, fun q => ?_, fun q => ?_, reverted_doc hstore, hfile⟩
  · rw [hstored, hs.stored, h.configs]
  · rw [hbuilt]
    exact built_back h hf hs q

/-- The way back ends where `agent_config` says, so a state that it comes back to
was in sync. -/
theorem inSync_of_unchanged {new : AgentConfig} {s t u : Rt} (hagree : ∀ q ∈ ids s.agentConfig, Agrees (s.loc q))
    (hf : SwapFailed new s.agentConfig s t) (hs : Swapped s.agentConfig new t u)
    (h : Unchanged s (reverted s.doc u)) : InSync new s := by
  obtain ⟨-, hstored, hbuilt⟩ := reverted_views s.doc u
  have hback : ∀ q, optEq PipelineConfig.eq (u.built q) (s.built q) = true := fun q => hbuilt q ▸ h.built q
  refine ⟨fun q => ?_, fun q hq => ?_⟩
  · rw [← h.stored, hstored, hs.stored]
  · refine RunsAs.of_eq ?_ (hback q)
    by_cases hold : q ∈ ids s.agentConfig
    · rw [hs.built q hold]
      exact runsAs_foldl (hf.agrees q (hagree q hold)) (Store.occ_ne_nil hold)
    · rw [Store.occ_of_not_mem hold]
      exact hs.removed q (hq.resolve_left hold) hold

/-- **When a failed push is atomic**: in every history of a device, a push that
fails without asking for a restart changes nothing when it was refused, or when
the maps were in sync with `agent_config`; and only then, as far as what runs
agreed with what was stored. -/
theorem failed_push_unchanged_iff (V : Validator) (dev : Device) (session : AgentConfig) (es : List Event) (s : Rt)
    (_hist : history V (resume V dev session) es = some s) (me : Option ℕ) (raw : Json)
    (hfail : (s.run (applyAgentConfig V me raw)).1.ok = false)
    (hrestart : (s.run (applyAgentConfig V me raw)).1.scheduledRestart = false) :
    ((∀ new, accepted V s raw = some new → InSync new s) → Unchanged s (s.run (applyAgentConfig V me raw)).2) ∧
      ((∀ q ∈ ids s.agentConfig, Agrees (s.loc q)) → Unchanged s (s.run (applyAgentConfig V me raw)).2 →
        ∀ new, accepted V s raw = some new → InSync new s) := by
  have hfile : (s.run (applyAgentConfig V me raw)).2.doc = s.doc →
      s.FlushOk → s.Synced → (s.run (applyAgentConfig V me raw)).2.store = s.store := fun hd hf hs =>
    store_eq_of_synced hs (run_synced _ s ⟨hf, hs⟩).2 hd
  rcases failed_push_cases V me raw s hfail hrestart with ⟨hnew, hsame⟩ | ⟨new, t, u, hnew, hrun, hstore, hf, hs⟩
  · refine ⟨fun _ => unchanged_of_sameViews hsame (hfile hsame.doc), fun _ _ new h => ?_⟩
    rw [hnew] at h
    cases h
  · rw [hrun] at hfile ⊢
    refine ⟨fun h => ?_, fun hagree h new' hnew' => ?_⟩
    · exact unchanged_of_inSync (h new hnew) hstore hf hs (hfile (reverted_doc hstore))
    · cases hnew.symm.trans hnew'
      exact inSync_of_unchanged hagree hf hs h

/-- A config whose second pipeline cannot start without a Zenoh session. -/
def zenohConfig : AgentConfig := deviceConfig [commandCenter, ⟨"z", true, ⟨"zenoh_sub", .empty⟩, none⟩]

theorem bootedDevice_inSync (new : AgentConfig) : InSync new bootedDevice := by
  have hconfigs : bootedDevice.configs = Dict.empty.set "command_center" ⟨commandCenter, false⟩ := Dict.ext_entries rfl
  have hpipes : bootedDevice.pipelines = Dict.empty.set "command_center" ⟨commandCenter, 0⟩ := Dict.ext_entries rfl
  have hagent : bootedDevice.agentConfig = deviceConfig [commandCenter] := rfl
  refine ⟨fun q => ?_, fun q _ => ?_⟩
  · rw [stored, hconfigs, hagent, deviceConfig, Store.occ_cons, Dict.get?_set]
    by_cases hq : q = "command_center"
    · subst hq
      rfl
    · rw [if_neg hq, if_neg (show commandCenter.id ≠ q from Ne.symm hq)]
      rfl
  · rw [built, hpipes, hagent, deviceConfig, Store.occ_cons, Dict.get?_set]
    by_cases hq : q = "command_center"
    · subst hq
      exact ⟨commandCenter, rfl, PipelineConfig.eq_refl _⟩
    · rw [if_neg hq, if_neg (show commandCenter.id ≠ q from Ne.symm hq)]
      rfl

/-- So the push that fails on the booted device changes nothing. -/
theorem failed_push_on_booted : Unchanged bootedDevice
    (bootedDevice.run (applyAgentConfig .strict (some 0) zenohConfig.modelDump)).2 :=
  (failed_push_unchanged_iff .strict plainDevice (deviceConfig [commandCenter]) [] bootedDevice rfl (some 0)
    zenohConfig.modelDump (by decide +kernel) (by decide +kernel)).1 fun new _ => bootedDevice_inSync new

/-- With model `m` started from an inline config, the push that is reverted
forgets its config. -/
theorem failed_push_drops_stray :
    history .strict (resume .strict plainDevice (deviceConfig [commandCenter]))
        [.command (some 0) (startModelCommand "m" (modelConfig "m" false))] = some strayDevice ∧
      (strayDevice.run (applyAgentConfig .strict (some 0) zenohConfig.modelDump)).1.ok = false ∧
      (strayDevice.run (applyAgentConfig .strict (some 0) zenohConfig.modelDump)).1.scheduledRestart = false ∧
      ¬Unchanged strayDevice (strayDevice.run (applyAgentConfig .strict (some 0) zenohConfig.modelDump)).2 := by
  refine ⟨rfl, by decide +kernel, by decide +kernel, fun h => ?_⟩
  have hbefore : (strayDevice.stored "m").isSome = true := by decide +kernel
  rw [← h.stored] at hbefore
  exact absurd hbefore (by decide +kernel)

end AgentRuntime
end LocaiLink
