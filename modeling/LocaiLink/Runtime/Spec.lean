/-
# What the pipeline functions do

One lemma for each function: every way it can end, and the state it leaves. The
state is looked at one id at a time (`Loc`): what is stored for the id, what its
running instance was built from, and its entries in the session document. A
function that is about one id leaves the others alone (`Touches`).
-/
import LocaiLink.Runtime.Commands

namespace LocaiLink
namespace Rt

/-- The code of one thread, run from a state with no other thread in between. -/
abbrev run {α : Type} (s : Rt) (p : Code α) : α × Rt := Prog.run perform p s

/-- The type of the answer is left out of the simplifier's index, where it
would be seen through. -/
@[simp] theorem run_act (s : Rt) (a : Act) : @run (no_index a.Resp) s (Code.act a) = perform a s := rfl

@[simp] theorem run_locked {α : Type} (s : Rt) (l : Lock) (p : Code α) :
    s.run (Code.locked l p) = s.run p :=
  Prog.run_locked perform (σ := rtSig) l p s

@[simp] theorem run_pure {α : Type} (s : Rt) (a : α) : s.run (pure a : Code α) = (a, s) := rfl

@[simp] theorem run_bind {α β : Type} (s : Rt) (p : Code α) (f : α → Code β) :
    s.run (p >>= f) = (s.run p).2.run (f (s.run p).1) :=
  Prog.run_bind perform (σ := rtSig) p f s

/-! ### The views -/

/-- The stored config of an id. -/
def stored (s : Rt) (pid : String) : Option PipelineConfig := (s.configs.get? pid).map (·.conf)

/-- The config the running instance of an id was built from. -/
def built (s : Rt) (pid : String) : Option PipelineConfig := (s.pipelines.get? pid).map (·.conf)

/-- The document of the state manager, which each of its operations flushes. -/
def doc (s : Rt) : Option AgentConfig := s.store.map (·.cache)

/-- The entries of an id in the document, when there is one. -/
def occ (s : Rt) (pid : String) : Option (List PipelineConfig) := s.doc.map fun d => Store.occ pid d.pipelines

/-- What the state holds for one id. -/
structure Loc where
  stored : Option PipelineConfig
  built : Option PipelineConfig
  occ : Option (List PipelineConfig)

def loc (s : Rt) (pid : String) : Loc := ⟨s.stored pid, s.built pid, s.occ pid⟩

@[simp] theorem doc_performStore (op : Store.Op) (s : Rt) : (s.performStore op).doc = s.doc.map op.apply := by
  unfold performStore doc
  split
  · rename_i h
    rw [h]
    rfl
  · rename_i st h
    rw [h]
    rfl

@[simp] theorem performStore_agentConfig (op : Store.Op) (s : Rt) :
    (s.performStore op).agentConfig = s.agentConfig := by
  unfold performStore
  split <;> rfl

@[simp] theorem performStore_configs (op : Store.Op) (s : Rt) : (s.performStore op).configs = s.configs := by
  unfold performStore
  split <;> rfl

@[simp] theorem performStore_pipelines (op : Store.Op) (s : Rt) :
    (s.performStore op).pipelines = s.pipelines := by
  unfold performStore
  split <;> rfl

/-! ### Steps that leave the views as they are -/

/-- The same views, up to what only threads and surroundings notice. -/
structure SameViews (s t : Rt) : Prop where
  agentConfig : t.agentConfig = s.agentConfig
  configs : t.configs = s.configs
  pipelines : t.pipelines = s.pipelines
  doc : t.doc = s.doc

namespace SameViews

variable {s t u : Rt}

theorem refl (s : Rt) : SameViews s s := ⟨rfl, rfl, rfl, rfl⟩

theorem trans (h : SameViews s t) (h' : SameViews t u) : SameViews s u where
  agentConfig := h'.agentConfig.trans h.agentConfig
  configs := h'.configs.trans h.configs
  pipelines := h'.pipelines.trans h.pipelines
  doc := h'.doc.trans h.doc

theorem of_core (h : t.core = s.core) : SameViews s t where
  agentConfig := congrArg Core.agentConfig h
  configs := congrArg Core.configs h
  pipelines := congrArg Core.pipelines h
  doc := congrArg (fun c => c.store.map (·.cache)) h

theorem loc (h : SameViews s t) (pid : String) : t.loc pid = s.loc pid := by
  unfold Rt.loc Rt.stored Rt.built Rt.occ
  rw [h.configs, h.pipelines, h.doc]

end SameViews

theorem sameViews_quiet {a : Act} (h : Quiet a) (s : Rt) : SameViews s (perform a s).2 :=
  .of_core (core_perform h s)

/-- Changes at one id only, and none of the agent config. -/
structure Touches (pid : String) (s t : Rt) : Prop where
  agentConfig : t.agentConfig = s.agentConfig
  loc : ∀ q, q ≠ pid → t.loc q = s.loc q

theorem Touches.trans {pid : String} {s t u : Rt} (h : Touches pid s t) (h' : Touches pid t u) :
    Touches pid s u where
  agentConfig := h'.agentConfig.trans h.agentConfig
  loc q hq := (h'.loc q hq).trans (h.loc q hq)

theorem SameViews.touches {s t : Rt} (h : SameViews s t) (pid : String) : Touches pid s t :=
  ⟨h.agentConfig, fun q _ => h.loc q⟩

/-- The views of a state, put together from what they are made of. -/
theorem loc_eq {s : Rt} {pid : String} {c b : Option PipelineConfig} {o : Option (List PipelineConfig)}
    (hc : s.stored pid = c) (hb : s.built pid = b) (ho : s.occ pid = o) : s.loc pid = ⟨c, b, o⟩ := by
  rw [loc, hc, hb, ho]

theorem stored_congr {s t : Rt} (h : t.configs = s.configs) (pid : String) : t.stored pid = s.stored pid := by
  rw [stored, h, stored]

theorem occ_setPipelineStatus (s : Rt) (b : Bool) (pid q : String) :
    (s.performStore (.setPipelineStatus pid b)).occ q =
      if q = pid then (s.occ q).map (Store.setHead b) else s.occ q := by
  unfold occ
  rw [doc_performStore, Option.map_map]
  split_ifs with h
  · rw [Option.map_map]
    exact congrArg (fun f => s.doc.map f) (funext fun d => by
      simp only [Function.comp, Store.Op.apply, Store.occ_setStatus, if_pos h])
  · exact congrArg (fun f => s.doc.map f) (funext fun d => by
      simp only [Function.comp, Store.Op.apply, Store.occ_setStatus, if_neg h])

theorem occ_updatePipelineConfig (s : Rt) (c : PipelineConfig) (q : String) :
    (s.performStore (.updatePipelineConfig c)).occ q =
      if q = c.id then (s.occ q).map (Store.upsertHead c) else s.occ q := by
  unfold occ
  rw [doc_performStore, Option.map_map]
  split_ifs with h
  · rw [Option.map_map]
    exact congrArg (fun f => s.doc.map f) (funext fun d => by
      simp only [Function.comp, Store.Op.apply, Store.occ_updateEntry, if_pos h])
  · exact congrArg (fun f => s.doc.map f) (funext fun d => by
      simp only [Function.comp, Store.Op.apply, Store.occ_updateEntry, if_neg h])

theorem stored_setConfig (pid : String) (c : PipelineConfig) (s : Rt) (q : String) :
    (perform (.setConfig pid c) s).2.stored q = if q = pid then some c else s.stored q := by
  change ((s.configs.set pid ⟨c, false⟩).get? q).map _ = _
  rw [Dict.get?_set]
  split_ifs <;> rfl

end Rt

namespace AgentRuntime

open Rt

/-! ### Stopping -/

/-- The state after the run flag was cleared and the thread joined. -/
def told (me : Option ℕ) (pipe : Pipe) (s : Rt) : Rt :=
  (perform (.join pipe.thread me) (perform (.stop pipe.thread) s).2).2

/-- The thread is still alive then. -/
def stillAlive (me : Option ℕ) (pipe : Pipe) (s : Rt) : Bool :=
  (perform (.isAlive pipe.thread) (told me pipe s)).1

theorem join_same (i : ℕ) (me : Option ℕ) (s : Rt) : SameViews s (s.join i me) := by
  unfold Rt.join
  split_ifs <;> exact ⟨rfl, rfl, rfl, rfl⟩

theorem told_same (me : Option ℕ) (pipe : Pipe) (s : Rt) : SameViews s (told me pipe s) :=
  SameViews.trans (t := (perform (.stop pipe.thread) s).2) ⟨rfl, rfl, rfl, rfl⟩ (join_same _ _ _)

/-- The state after a stop that succeeded. -/
def stopped (me : Option ℕ) (pid : String) (pipe : Pipe) (s : Rt) : Rt :=
  (perform (.popPipe pid) (told me pipe s)).2.performStore (.setPipelineStatus pid false)

theorem run_stopPipeline (me : Option ℕ) (pid : String) (s : Rt) :
    s.run (stopPipeline me pid) =
      match s.pipelines.get? pid with
      | none => (true, s)
      | some pipe =>
        if stillAlive me pipe s then (false, told me pipe s) else (true, stopped me pid pipe s) := by
  unfold stopPipeline
  simp only [run_locked, run_bind, run_act]
  rw [show perform (.getPipe pid) s = (s.pipelines.get? pid, s) from rfl]
  cases s.pipelines.get? pid with
  | none => rfl
  | some pipe =>
    simp only [run_bind, run_act]
    change (told me pipe s).run (if stillAlive me pipe s = true then _ else _) = _
    cases stillAlive me pipe s <;> rfl

/-- What a stop has done when it succeeded. -/
structure Stopped (pid : String) (s t : Rt) : Prop where
  touches : Touches pid s t
  loc : t.loc pid = ⟨s.stored pid, none, (s.occ pid).map (Store.setHead false)⟩

theorem Stopped.trans_same {pid : String} {s t u : Rt} (h : Stopped pid s t) (h' : SameViews t u) :
    Stopped pid s u where
  touches := h.touches.trans (h'.touches pid)
  loc := (h'.loc pid).trans h.loc

theorem stopped_spec (me : Option ℕ) (pid : String) (pipe : Pipe) (s : Rt) :
    Stopped pid s (stopped me pid pipe s) := by
  have hs := told_same me pipe s
  have hpipes : (stopped me pid pipe s).pipelines = s.pipelines.erase pid := by
    rw [stopped, performStore_pipelines]
    exact congrArg (fun d => Dict.erase d pid) hs.pipelines
  have hconfigs : (stopped me pid pipe s).configs = s.configs := by
    rw [stopped, performStore_configs]
    exact hs.configs
  have hocc : ∀ q, (stopped me pid pipe s).occ q =
      if q = pid then (s.occ q).map (Store.setHead false) else s.occ q := fun q => by
    rw [stopped, occ_setPipelineStatus]
    have : (perform (.popPipe pid) (told me pipe s)).2.occ q = s.occ q :=
      congrArg Loc.occ (hs.loc q)
    rw [this]
  refine ⟨⟨?_, fun q hq => ?_⟩, loc_eq (stored_congr hconfigs pid) ?_ ?_⟩
  · rw [stopped, performStore_agentConfig]
    exact hs.agentConfig
  · refine loc_eq (stored_congr hconfigs q) ?_ ?_
    · rw [Rt.built, hpipes, Dict.get?_erase_of_ne _ hq, Rt.built]
    · rw [hocc, if_neg hq]
  · rw [Rt.built, hpipes, Dict.get?_erase_self, Option.map_none]
  · rw [hocc, if_pos rfl]

/-- A stop finds nothing to stop, or the thread does not end in time and all
stays tracked, or the pipeline is stopped. -/
theorem stopPipeline_cases (me : Option ℕ) (pid : String) (s : Rt) :
    (s.run (stopPipeline me pid) = (true, s) ∧ s.built pid = none) ∨
      (∃ t, s.run (stopPipeline me pid) = (false, t) ∧ (s.built pid).isSome = true ∧ SameViews s t) ∨
      (∃ t, s.run (stopPipeline me pid) = (true, t) ∧ (s.built pid).isSome = true ∧ Stopped pid s t) := by
  rw [run_stopPipeline]
  cases hp : s.pipelines.get? pid with
  | none =>
    left
    exact ⟨rfl, by rw [Rt.built, hp, Option.map_none]⟩
  | some pipe =>
    have hb : (s.built pid).isSome = true := by rw [Rt.built, hp]; rfl
    simp only
    cases ha : stillAlive me pipe s with
    | true => exact .inr (.inl ⟨_, rfl, hb, told_same me pipe s⟩)
    | false => exact .inr (.inr ⟨_, rfl, hb, stopped_spec me pid pipe s⟩)

/-! ### Starting -/

theorem run_planStart (V : Validator) (pid : String) (data : Option Json) (s : Rt) :
    s.run (planStart V pid data) = (planOf V pid data (s.stored pid) (s.built pid).isSome, s) := by
  rw [show (s.built pid).isSome = (s.pipelines.get? pid).isSome by rw [Rt.built, Option.isSome_map]]
  rfl

theorem planOf_modelDump (V : Validator) (pid : String) (c : PipelineConfig) (stored : Option PipelineConfig)
    (running : Bool) : planOf V pid (some c.modelDump) stored running =
      if running && stored.any c.eq then .error true else .ok ⟨some c, c, running⟩ := by
  have hdump : V.pipelineConfig (withId pid c.modelDump) = some c := V.pipelineConfig_modelDump c
  simp only [PipelineConfig.modelDump] at hdump
  simp only [planOf, PipelineConfig.modelDump, hdump]

theorem createComponents_same (c : PipelineConfig) (s : Rt) :
    SameViews s (s.run (createComponents c)).2 := by
  have hsource : SameViews s (perform (.createComponent c.source) s).2 :=
    sameViews_quiet (a := .createComponent c.source) trivial s
  unfold createComponents
  simp only [run_bind, run_act]
  split
  · exact hsource
  · split
    · exact hsource
    · rename_i sink _
      exact hsource.trans (sameViews_quiet (a := .createComponent sink) trivial _)

/-- What a start that was carried out has done, with a config of the id. The
entry is set inactive if an instance ran, replaced, and set active. -/
structure Started (pid : String) (plan : Plan) (s t : Rt) : Prop where
  touches : plan.conf.id = pid → Touches pid s t
  loc : plan.conf.id = pid → t.loc pid = ⟨plan.pending.or (s.stored pid), some plan.conf,
    (s.occ pid).map fun l => Store.setHead true (Store.upsertHead plan.conf l)⟩

/-- What a start that failed may have done: nothing that shows, or it has
stopped the instance that ran. -/
def StartFailed (pid : String) (s t : Rt) : Prop :=
  SameViews s t ∨ ((s.built pid).isSome = true ∧ Stopped pid s t)

/-- The rest of a start once the components are there: `carryOut`'s last steps. -/
def commitStart (pid : String) (plan : Plan) (s : Rt) : Rt :=
  let s₁ := (perform (.newPipeline plan.conf) s).2
  let s₂ := match plan.pending with
    | some c => (perform (.setConfig pid c) s₁).2
    | none => s₁
  let s₃ := (perform (.setPipe pid ⟨plan.conf, s.nextThread⟩) s₂).2
  let s₄ := (perform (.startThread s.nextThread) s₃).2
  (s₄.performStore (.updatePipelineConfig plan.conf)).performStore (.setPipelineStatus pid true)

theorem run_carryOut (me : Option ℕ) (pid : String) (plan : Plan) (s : Rt) :
    s.run (carryOut me pid plan) =
      let r := s.run (stopIfRunning me pid plan.needsRestart)
      let u := r.2.run (createComponents plan.conf)
      if r.1 then if u.1.isSome then (false, u.2) else (true, commitStart pid plan u.2)
      else (false, r.2) := by
  unfold carryOut
  rw [run_bind]
  generalize s.run (stopIfRunning me pid plan.needsRestart) = r
  obtain ⟨b, t⟩ := r
  cases b with
  | false => rfl
  | true =>
    simp only [↓reduceIte, run_bind]
    generalize t.run (createComponents plan.conf) = u
    obtain ⟨e, u⟩ := u
    cases e with
    | some e => rfl
    | none => cases hp : plan.pending <;> simp only [commitStart, hp] <;> rfl

theorem get?_commitStart_pipelines (pid : String) (plan : Plan) (s : Rt) :
    (commitStart pid plan s).pipelines = s.pipelines.set pid ⟨plan.conf, s.nextThread⟩ := by
  unfold commitStart
  simp only [performStore_pipelines]
  cases plan.pending <;> rfl

theorem commitStart_stored (pid : String) (plan : Plan) (s : Rt) (q : String) :
    (commitStart pid plan s).stored q = if q = pid then plan.pending.or (s.stored pid) else s.stored q := by
  unfold commitStart Rt.stored
  simp only [performStore_configs]
  cases plan.pending with
  | none =>
    change (s.configs.get? q).map _ = _
    split_ifs with h
    · rw [h, Option.none_or]
    · rfl
  | some c =>
    change ((s.configs.set pid ⟨c, false⟩).get? q).map _ = _
    rw [Dict.get?_set]
    split_ifs <;> rfl

theorem commitStart_occ (pid : String) (plan : Plan) (s : Rt) (q : String) :
    (commitStart pid plan s).occ q =
      let l := if q = plan.conf.id then (s.occ q).map (Store.upsertHead plan.conf) else s.occ q
      if q = pid then l.map (Store.setHead true) else l := by
  have h : ∀ v : Rt, v.doc = s.doc → ((v.performStore (.updatePipelineConfig plan.conf)).performStore
      (.setPipelineStatus pid true)).occ q =
      let l := if q = plan.conf.id then (s.occ q).map (Store.upsertHead plan.conf) else s.occ q
      if q = pid then l.map (Store.setHead true) else l := by
    intro v hv
    rw [occ_setPipelineStatus, occ_updatePipelineConfig, show v.occ q = s.occ q by rw [Rt.occ, hv, Rt.occ]]
  unfold commitStart
  cases plan.pending <;> exact h _ rfl

theorem commitStart_agentConfig (pid : String) (plan : Plan) (s : Rt) :
    (commitStart pid plan s).agentConfig = s.agentConfig := by
  unfold commitStart
  simp only [performStore_agentConfig]
  cases plan.pending <;> rfl

theorem setHead_upsertHead (c : PipelineConfig) (b : Bool) : ∀ l : List PipelineConfig,
    Store.setHead true (Store.upsertHead c (Store.setHead b l)) = Store.setHead true (Store.upsertHead c l)
  | [] => rfl
  | _ :: _ => rfl

/-- A commit, over what a stop may have done before. -/
theorem commitStart_spec {pid : String} {plan : Plan} {s t u : Rt} (htu : SameViews t u)
    (h : t = s ∨ Stopped pid s t) : Started pid plan s (commitStart pid plan u) := by
  have hagent : u.agentConfig = s.agentConfig := by
    rw [htu.agentConfig]
    rcases h with rfl | h
    · rfl
    · exact h.touches.agentConfig
  have hother : ∀ q, q ≠ pid → u.loc q = s.loc q := fun q hq => by
    rw [htu.loc]
    rcases h with rfl | h
    · rfl
    · exact h.touches.loc q hq
  have hstored : u.stored pid = s.stored pid := by
    rw [show u.stored pid = t.stored pid from congrArg Loc.stored (htu.loc pid)]
    rcases h with rfl | h
    · rfl
    · exact congrArg Loc.stored h.loc
  have hocc : (u.occ pid).map (fun l => Store.setHead true (Store.upsertHead plan.conf l)) =
      (s.occ pid).map fun l => Store.setHead true (Store.upsertHead plan.conf l) := by
    rw [show u.occ pid = t.occ pid from congrArg Loc.occ (htu.loc pid)]
    rcases h with rfl | h
    · rfl
    · rw [show t.occ pid = _ from congrArg Loc.occ h.loc, Option.map_map]
      exact congrArg (fun f => (s.occ pid).map f) (funext fun l => setHead_upsertHead plan.conf false l)
  have hpipe := get?_commitStart_pipelines pid plan u
  refine ⟨fun hid => ⟨?_, fun q hq => ?_⟩, fun hid => loc_eq ?_ ?_ ?_⟩
  · rw [commitStart_agentConfig, hagent]
  · rw [← hother q hq]
    refine loc_eq ?_ ?_ ?_
    · rw [commitStart_stored, if_neg hq]
    · rw [Rt.built, hpipe, Dict.get?_set_of_ne _ _ hq, Rt.built]
    · rw [commitStart_occ, hid]
      simp only [if_neg hq]
  · rw [commitStart_stored, if_pos rfl, hstored]
  · rw [Rt.built, hpipe, Dict.get?_set_self, Option.map_some]
  · rw [commitStart_occ, hid]
    simp only [↓reduceIte, Option.map_map]
    exact hocc

/-- A start ends with what it decided at once, or fails, or is carried out. -/
theorem startPipeline_cases (V : Validator) (me : Option ℕ) (pid : String) (data : Option Json) (s : Rt) :
    (∃ b, planOf V pid data (s.stored pid) (s.built pid).isSome = .error b ∧
      s.run (startPipeline V me pid data) = (b, s)) ∨
    (∃ t, s.run (startPipeline V me pid data) = (false, t) ∧ StartFailed pid s t) ∨
    (∃ plan t, planOf V pid data (s.stored pid) (s.built pid).isSome = .ok plan ∧
      s.run (startPipeline V me pid data) = (true, t) ∧ Started pid plan s t) := by
  unfold startPipeline
  simp only [run_locked, run_bind, run_planStart]
  cases planOf V pid data (s.stored pid) (s.built pid).isSome with
  | error b => exact .inl ⟨b, rfl, rfl⟩
  | ok plan =>
    right
    simp only [run_carryOut]
    -- the stop before: failed, or there was nothing to stop, or done
    have hstop : (∃ t, s.run (stopIfRunning me pid plan.needsRestart) = (false, t) ∧ SameViews s t) ∨
        ∃ t, s.run (stopIfRunning me pid plan.needsRestart) = (true, t) ∧
          (t = s ∨ (s.built pid).isSome = true ∧ Stopped pid s t) := by
      cases plan.needsRestart with
      | false => exact .inr ⟨s, rfl, .inl rfl⟩
      | true =>
        rcases stopPipeline_cases me pid s with ⟨h, -⟩ | ⟨t, ht, -, hs⟩ | ⟨t, ht, hb, hs⟩
        · exact .inr ⟨s, h, .inl rfl⟩
        · exact .inl ⟨t, ht, hs⟩
        · exact .inr ⟨t, ht, .inr ⟨hb, hs⟩⟩
    rcases hstop with ⟨t, ht, hs⟩ | ⟨t, ht, hs⟩
    · rw [ht]
      exact .inl ⟨t, rfl, .inl hs⟩
    · rw [ht]
      have hsame := createComponents_same plan.conf t
      cases (t.run (createComponents plan.conf)).1 with
      | some e =>
        refine .inl ⟨(t.run (createComponents plan.conf)).2, by simp, ?_⟩
        rcases hs with rfl | ⟨hb, hs⟩
        · exact .inl hsame
        · exact .inr ⟨hb, hs.trans_same hsame⟩
      | none =>
        refine .inr ⟨plan, commitStart pid plan (t.run (createComponents plan.conf)).2, rfl, by simp, ?_⟩
        exact commitStart_spec hsame (hs.imp_right And.right)

end AgentRuntime
end LocaiLink
