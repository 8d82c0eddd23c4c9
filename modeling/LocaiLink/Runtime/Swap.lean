/-
# What a swap does to each pipeline

`apply_config` goes through the removed ids and then through the new entries,
one after another, and each step is about one id. So what it makes of an id is
the fold of the entries with that id (`swapLoc`), and the other ids stay as
they are. A swap that fails stops somewhere on the way: then at least the
running instances still agree with what is stored for them (`Agrees`).
-/
import LocaiLink.Runtime.Spec

namespace LocaiLink
namespace AgentRuntime

open Rt

/-- What an entry of the new config does to its id when nothing fails. -/
def swapLoc (x : Loc) (p : PipelineConfig) : Loc :=
  if p.active then
    if x.built.isSome && x.stored.any p.eq then x
    else ⟨some p, some p, x.occ.map fun l => Store.setHead true (Store.upsertHead p l)⟩
  else if x.built.isSome then ⟨x.stored, none, x.occ.map (Store.setHead false)⟩
  else x

theorem swapLoc_skip {x : Loc} {p : PipelineConfig} (hp : p.active = true)
    (h : (x.built.isSome && x.stored.any p.eq) = true) : swapLoc x p = x := by
  rw [swapLoc, if_pos hp, if_pos h]

theorem swapLoc_start {x : Loc} {p : PipelineConfig} (hp : p.active = true)
    (h : ¬(x.built.isSome && x.stored.any p.eq) = true) :
    swapLoc x p = ⟨some p, some p, x.occ.map fun l => Store.setHead true (Store.upsertHead p l)⟩ := by
  rw [swapLoc, if_pos hp, if_neg h]

theorem swapLoc_stop {x : Loc} {p : PipelineConfig} (hp : p.active = false) (h : x.built.isSome = true) :
    swapLoc x p = ⟨x.stored, none, x.occ.map (Store.setHead false)⟩ := by
  rw [swapLoc, if_neg (by simp [hp]), if_pos h]

theorem swapLoc_pass {x : Loc} {p : PipelineConfig} (hp : p.active = false) (h : x.built = none) :
    swapLoc x p = x := by
  rw [swapLoc, if_neg (by simp [hp]), if_neg (by simp [h])]

/-- The running instance of an id, if there is one, was built from a config that
equals the stored one. -/
def Agrees (x : Loc) : Prop := ∀ b c, x.built = some b → x.stored = some c → c.eq b = true

theorem Agrees.of_not_running {c : Option PipelineConfig} {o : Option (List PipelineConfig)} :
    Agrees ⟨c, none, o⟩ := fun _ _ h => by cases h

theorem Agrees.swapLoc {x : Loc} (h : Agrees x) (p : PipelineConfig) : Agrees (swapLoc x p) := by
  unfold AgentRuntime.swapLoc
  split_ifs
  · exact h
  · intro b c hb hc
    cases hb
    cases hc
    exact PipelineConfig.eq_refl p
  · exact .of_not_running
  · exact h

/-- What a stop, done or failed, makes of the views of its id. -/
theorem Agrees.startFailed {pid : String} {s t : Rt} (h : StartFailed pid s t) (hs : Agrees (s.loc pid)) :
    Agrees (t.loc pid) := by
  rcases h with h | ⟨-, h⟩
  · rw [h.loc]
    exact hs
  · rw [h.loc]
    exact .of_not_running

theorem StartFailed.touches {pid : String} {s t : Rt} (h : StartFailed pid s t) : Touches pid s t :=
  h.elim (fun h => h.touches pid) fun h => h.2.touches

/-! ### One entry -/

/-- The start of an active entry: done as `swapLoc` says, or failed. -/
theorem startEntry_cases (V : Validator) (me : Option ℕ) (p : PipelineConfig) (s : Rt) (hp : p.active = true) :
    (∃ t, s.run (startPipeline V me p.id (some p.modelDump)) = (false, t) ∧ StartFailed p.id s t) ∨
      (∃ t, s.run (startPipeline V me p.id (some p.modelDump)) = (true, t) ∧ Touches p.id s t ∧
        t.loc p.id = swapLoc (s.loc p.id) p) := by
  rcases startPipeline_cases V me p.id (some p.modelDump) s with
    ⟨b, hplan, hrun⟩ | ⟨t, hrun, hf⟩ | ⟨plan, t, hplan, hrun, hs⟩
  · rw [planOf_modelDump] at hplan
    split_ifs at hplan with hskip
    cases hplan
    exact .inr ⟨s, hrun, ⟨rfl, fun _ _ => rfl⟩, (swapLoc_skip (x := s.loc p.id) hp hskip).symm⟩
  · exact .inl ⟨t, hrun, hf⟩
  · rw [planOf_modelDump] at hplan
    split_ifs at hplan with hskip
    cases hplan
    exact .inr ⟨t, hrun, hs.touches rfl, (hs.loc rfl).trans (swapLoc_start (x := s.loc p.id) hp hskip).symm⟩

/-- The stop of an inactive entry that runs, likewise. -/
theorem stopEntry_cases (me : Option ℕ) (p : PipelineConfig) (s : Rt) (hp : p.active = false)
    (hrun : (s.built p.id).isSome = true) :
    (∃ t, s.run (stopPipeline me p.id) = (false, t) ∧ StartFailed p.id s t) ∨
      (∃ t, s.run (stopPipeline me p.id) = (true, t) ∧ Touches p.id s t ∧
        t.loc p.id = swapLoc (s.loc p.id) p) := by
  rcases stopPipeline_cases me p.id s with ⟨-, hb⟩ | ⟨t, ht, -, hs⟩ | ⟨t, ht, -, hs⟩
  · rw [hb] at hrun
    cases hrun
  · exact .inl ⟨t, ht, .inl hs⟩
  · exact .inr ⟨t, ht, hs.touches, hs.loc.trans (swapLoc_stop (x := s.loc p.id) hp hrun).symm⟩

/-! ### The removed ids -/

/-- The removed pipelines after `stopRemoved`: only they have changed, and when
nothing failed none of them runs. -/
theorem stopRemoved_spec (me : Option ℕ) : ∀ (l : List String) (s : Rt),
    (s.run (stopRemoved me l)).2.agentConfig = s.agentConfig ∧
    (∀ q, q ∉ l → (s.run (stopRemoved me l)).2.loc q = s.loc q) ∧
    (∀ q, Agrees (s.loc q) → Agrees ((s.run (stopRemoved me l)).2.loc q)) ∧
    ((s.run (stopRemoved me l)).1 = .ok () → ∀ q ∈ l, (s.run (stopRemoved me l)).2.built q = none)
  | [], s => ⟨rfl, fun _ _ => rfl, fun _ h => h, fun _ _ h => by cases h⟩
  | pid :: l, s => by
    have hstep : ∃ b t, s.run (stopPipeline me pid) = (b, t) ∧ Touches pid s t ∧
        (Agrees (s.loc pid) → Agrees (t.loc pid)) ∧ (b = true → t.built pid = none) := by
      rcases stopPipeline_cases me pid s with ⟨h, hb⟩ | ⟨t, h, -, hs⟩ | ⟨t, h, hb, hs⟩
      · exact ⟨true, s, h, ⟨rfl, fun _ _ => rfl⟩, id, fun _ => hb⟩
      · exact ⟨false, t, h, hs.touches pid, Agrees.startFailed (.inl hs), fun h => by cases h⟩
      · exact ⟨true, t, h, hs.touches, Agrees.startFailed (.inr ⟨hb, hs⟩), fun _ => congrArg Loc.built hs.loc⟩
    obtain ⟨b, t, hrun, htouch, hagree, hdone⟩ := hstep
    have hagree' : ∀ q, Agrees (s.loc q) → Agrees (t.loc q) := fun q hq => by
      by_cases h : q = pid
      · subst h
        exact hagree hq
      · rw [htouch.loc q h]
        exact hq
    simp only [stopRemoved, run_bind, hrun]
    cases b with
    | false =>
      refine ⟨htouch.agentConfig, fun q hq => htouch.loc q fun h => ?_, hagree', fun h => by cases h⟩
      exact hq (h ▸ List.mem_cons_self)
    | true =>
      obtain ⟨h1, h2, h3, h4⟩ := stopRemoved_spec me l t
      refine ⟨h1.trans htouch.agentConfig, fun q hq => ?_, fun q hq => h3 q (hagree' q hq), fun hok q hq => ?_⟩
      · rw [List.mem_cons, not_or] at hq
        exact (h2 q hq.2).trans (htouch.loc q hq.1)
      · by_cases hl : q ∈ l
        · exact h4 hok q hl
        · have hq' : q = pid := (List.mem_cons.mp hq).resolve_right hl
          subst hq'
          exact (congrArg Loc.built (h2 q hl)).trans (hdone rfl)

/-! ### The new entries -/

/-- The entries of an id fold over what was there for it. -/
theorem startActive_spec (V : Validator) (me : Option ℕ) : ∀ (l : List PipelineConfig) (s : Rt),
    (s.run (startActive V me l)).2.agentConfig = s.agentConfig ∧
    (∀ q, q ∉ l.map (·.id) → (s.run (startActive V me l)).2.loc q = s.loc q) ∧
    (∀ q, Agrees (s.loc q) → Agrees ((s.run (startActive V me l)).2.loc q)) ∧
    ((s.run (startActive V me l)).1 = .ok () →
      ∀ q, (s.run (startActive V me l)).2.loc q = (Store.occ q l).foldl swapLoc (s.loc q))
  | [], s => ⟨rfl, fun _ _ => rfl, fun _ h => h, fun _ _ => rfl⟩
  | p :: l, s => by
    -- the entry is passed over, has failed, or is done; then the rest follows
    have hstep : (∃ e t, s.run (startActive V me (p :: l)) = (.error e, t) ∧ StartFailed p.id s t) ∨
        (∃ t, s.run (startActive V me (p :: l)) = t.run (startActive V me l) ∧ Touches p.id s t ∧
          t.loc p.id = swapLoc (s.loc p.id) p) := by
      simp only [startActive]
      split_ifs with hp
      · simp only [run_bind]
        rcases startEntry_cases V me p s hp with ⟨t, hrun, hf⟩ | ⟨t, hrun, hd⟩
        · rw [hrun]
          exact .inl ⟨_, t, rfl, hf⟩
        · rw [hrun]
          exact .inr ⟨t, rfl, hd⟩
      · have hp' : p.active = false := by simpa using hp
        have hget : perform (.getPipe p.id) s = (s.pipelines.get? p.id, s) := rfl
        cases hb : s.pipelines.get? p.id with
        | none =>
          simp only [run_bind, run_act, hget, hb, Option.isSome_none, Bool.false_eq_true, ↓reduceIte]
          have hb' : s.built p.id = none := by rw [Rt.built, hb, Option.map_none]
          exact .inr ⟨s, rfl, ⟨rfl, fun _ _ => rfl⟩, (swapLoc_pass (x := s.loc p.id) hp' hb').symm⟩
        | some pipe =>
          simp only [run_bind, run_act, hget, hb, Option.isSome_some, ↓reduceIte]
          have hb' : (s.built p.id).isSome = true := by rw [Rt.built, hb]; rfl
          rcases stopEntry_cases me p s hp' hb' with ⟨t, hrun, hf⟩ | ⟨t, hrun, hd⟩
          · rw [hrun]
            exact .inl ⟨_, t, rfl, hf⟩
          · rw [hrun]
            exact .inr ⟨t, rfl, hd⟩
    rcases hstep with ⟨e, t, hrun, hf⟩ | ⟨t, hrun, htouch, hloc⟩
    · rw [hrun]
      refine ⟨hf.touches.agentConfig, fun q hq => hf.touches.loc q fun h => ?_, fun q hq => ?_, fun h => by cases h⟩
      · exact hq (h ▸ List.mem_cons_self)
      · by_cases h : q = p.id
        · subst h
          exact Agrees.startFailed hf hq
        · rw [hf.touches.loc q h]
          exact hq
    · rw [hrun]
      obtain ⟨h1, h2, h3, h4⟩ := startActive_spec V me l t
      refine ⟨h1.trans htouch.agentConfig, fun q hq => ?_, fun q hq => h3 q ?_, fun hok q => ?_⟩
      · rw [List.map_cons, List.mem_cons, not_or] at hq
        exact (h2 q hq.2).trans (htouch.loc q hq.1)
      · by_cases h : q = p.id
        · subst h
          rw [hloc]
          exact hq.swapLoc p
        · rw [htouch.loc q h]
          exact hq
      · rw [h4 hok q, Store.occ_cons]
        by_cases h : p.id = q
        · subst h
          rw [if_pos rfl, List.foldl_cons, hloc]
        · rw [if_neg h, htouch.loc q (Ne.symm h)]

/-! ### The whole swap -/

theorem mem_removedIds {old new : AgentConfig} {q : String} :
    q ∈ removedIds old new ↔ q ∈ ids old ∧ q ∉ ids new := by
  simp [removedIds]

/-- What the swap makes of an id: the fold of its new entries, or, for an id
that is removed, no running instance. -/
theorem diffAndSwap_spec (V : Validator) (me : Option ℕ) (old new : AgentConfig) (s : Rt) :
    let r := s.run (diffAndSwapPipelines V me old new)
    r.2.agentConfig = s.agentConfig ∧
    (∀ q, q ∉ ids old → q ∉ ids new → r.2.loc q = s.loc q) ∧
    (∀ q, Agrees (s.loc q) → Agrees (r.2.loc q)) ∧
    (r.1 = .ok () → (∀ q ∈ ids new, r.2.loc q = (Store.occ q new.pipelines).foldl swapLoc (s.loc q)) ∧
      ∀ q ∈ ids old, q ∉ ids new → r.2.built q = none) := by
  have horder : ∀ q, q ∈ (perform (.setOrder (removedIds old new)) s).1 ↔ q ∈ ids old ∧ q ∉ ids new := fun q =>
    (((s.ask .order).order (removedIds old new)).2.mem_iff).trans mem_removedIds
  have hsame : SameViews s (perform (.setOrder (removedIds old new)) s).2 :=
    sameViews_quiet (a := .setOrder (removedIds old new)) trivial s
  generalize hr : perform (.setOrder (removedIds old new)) s = r at horder hsame
  obtain ⟨l, s₀⟩ := r
  obtain ⟨h1, h2, h3, h4⟩ := stopRemoved_spec me l s₀
  simp only [diffAndSwapPipelines, run_bind, run_act, hr]
  generalize hr₁ : s₀.run (stopRemoved me l) = r₁ at h1 h2 h3 h4
  obtain ⟨res, s₁⟩ := r₁
  have hother : ∀ q, ¬(q ∈ ids old ∧ q ∉ ids new) → s₁.loc q = s.loc q := fun q hq =>
    (h2 q fun hm => hq ((horder q).mp hm)).trans (hsame.loc q)
  have hagree : ∀ q, Agrees (s.loc q) → Agrees (s₁.loc q) := fun q hq => h3 q (by rwa [hsame.loc])
  cases res with
  | error e =>
    exact ⟨h1.trans hsame.agentConfig, fun q hq _ => hother q fun h => hq h.1, hagree, fun h => by cases h⟩
  | ok u =>
    obtain ⟨k1, k2, k3, k4⟩ := startActive_spec V me new.pipelines s₁
    refine ⟨k1.trans (h1.trans hsame.agentConfig), fun q hq hq' => (k2 q hq').trans (hother q fun h => hq h.1),
      fun q hq => k3 q (hagree q hq), fun hok => ⟨fun q hq => ?_, fun q hq hq' => ?_⟩⟩
    · rw [k4 hok q, hother q fun h => h.2 hq]
    · exact (congrArg Loc.built (k2 q hq')).trans (h4 rfl q ((horder q).mpr ⟨hq, hq'⟩))

/-! ### apply_config -/

theorem stored_publish (l : List PipelineConfig) (q : String) :
    ((Rt.publish l).get? q).map (·.conf) = (Store.occ q l).getLast? := by
  rw [Rt.publish, Dict.get?_ofList, Store.occ, ← List.map_reverse, List.find?_map, Option.map_map,
    ← List.head?_reverse, ← List.filter_reverse, List.head?_filter, Option.map_map]
  exact Option.map_id'

/-- What a swap that succeeded has done. -/
structure Swapped (target previous : AgentConfig) (s t : Rt) : Prop where
  agentConfig : t.agentConfig = target
  stored : ∀ q, t.stored q = (Store.occ q target.pipelines).getLast?
  built : ∀ q ∈ ids target, t.built q = ((Store.occ q target.pipelines).foldl swapLoc (s.loc q)).built
  occ : ∀ q ∈ ids target, t.occ q = ((Store.occ q target.pipelines).foldl swapLoc (s.loc q)).occ
  removed : ∀ q ∈ ids previous, q ∉ ids target → t.built q = none
  other : ∀ q, q ∉ ids previous → q ∉ ids target → t.built q = s.built q

/-- What a swap that failed has left. -/
structure SwapFailed (target previous : AgentConfig) (s t : Rt) : Prop where
  agentConfig : t.agentConfig = s.agentConfig
  other : ∀ q, q ∉ ids previous → q ∉ ids target → t.loc q = s.loc q
  agrees : ∀ q, Agrees (s.loc q) → Agrees (t.loc q)

theorem applyConfig_cases (V : Validator) (me : Option ℕ) (target previous : AgentConfig) (s : Rt) :
    (∃ e t, s.run (applyConfig V me target previous) = (.error e, t) ∧ SwapFailed target previous s t) ∨
      (∃ t, s.run (applyConfig V me target previous) = (.ok (), t) ∧ Swapped target previous s t) := by
  have hspec := diffAndSwap_spec V me previous target s
  unfold applyConfig
  simp only [run_locked, run_bind]
  generalize s.run (diffAndSwapPipelines V me previous target) = r at hspec
  obtain ⟨res, t⟩ := r
  obtain ⟨h1, h2, h3, h4⟩ := hspec
  cases res with
  | error e => exact .inl ⟨e, t, rfl, h1, h2, h3⟩
  | ok u =>
    have hsame : SameViews t (perform (.rebuildHandlers target.logging target.reporting) t).2 :=
      sameViews_quiet (a := .rebuildHandlers target.logging target.reporting) trivial t
    simp only [run_locked, run_bind, run_act]
    cases he : (perform (.rebuildHandlers target.logging target.reporting) t).1 with
    | some e =>
      exact .inl ⟨e, _, rfl, hsame.agentConfig.trans h1, fun q hq hq' => (hsame.loc q).trans (h2 q hq hq'),
        fun q hq => by rw [hsame.loc]; exact h3 q hq⟩
    | none =>
      obtain ⟨k1, k2⟩ := h4 rfl
      refine .inr ⟨_, rfl, rfl, stored_publish target.pipelines, fun q hq => ?_, fun q hq => ?_,
        fun q hq hq' => ?_, fun q hq hq' => ?_⟩
      · exact (congrArg Loc.built (hsame.loc q)).trans (congrArg Loc.built (k1 q hq))
      · exact (congrArg Loc.occ (hsame.loc q)).trans (congrArg Loc.occ (k1 q hq))
      · exact (congrArg Loc.built (hsame.loc q)).trans (k2 q hq hq')
      · exact (congrArg Loc.built (hsame.loc q)).trans (congrArg Loc.built (h2 q hq hq'))

end AgentRuntime
end LocaiLink
