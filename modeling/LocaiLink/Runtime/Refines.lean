/-
# What is persisted of each pipeline

The session document has one entry for each stored config, and its flag says
whether the pipeline runs (`PersistedRefines`). Of one id this is a relation
between its three views (`Refined`), so each function keeps it by what it does
to its own id: a stop clears the flag and the instance, a start enters the
config, the instance and the flag, an uninstall removes all of them.
-/
import LocaiLink.Runtime.AtomicPush
import LocaiLink.Runtime.Quiet

namespace LocaiLink
namespace AgentRuntime

open Rt Code

/-- What the entries of an id have to be: none without a stored config, else the
one that has its id, source and sink, and says whether the pipeline runs. -/
def EntriesRefine (c : Option PipelineConfig) (running : Bool) (l : List PipelineConfig) : Prop :=
  match c with
  | none => l = []
  | some c => ∃ e, l = [e] ∧ e.id = c.id ∧ e.source = c.source ∧ e.sink = c.sink ∧ e.active = running

/-- The persisted pipelines, in the document and in its file, refine the maps. -/
def PersistedRefines (s : Rt) : Prop :=
  ∃ d, s.store = some ⟨d, some d⟩ ∧
    ∀ pid, EntriesRefine (s.stored pid) (s.built pid).isSome (Store.occ pid d.pipelines)

/-- The same of one id's views, with a flag of its own. -/
def RefinedAs (running : Bool) (x : Loc) : Prop := ∃ l, x.occ = some l ∧ EntriesRefine x.stored running l

def Refined (x : Loc) : Prop := RefinedAs x.built.isSome x

def AllRefined (s : Rt) : Prop := ∀ pid, Refined (s.loc pid)

theorem persistedRefines_of {s : Rt} (h : AllRefined s) (hs : s.Synced) : PersistedRefines s := by
  obtain ⟨l, hl, -⟩ := h ""
  obtain ⟨d, hd, -⟩ := Option.map_eq_some_iff.mp hl
  obtain ⟨st, hst, hc⟩ := Option.map_eq_some_iff.mp hd
  have hdisk : st.disk = some d := hc ▸ hs st hst
  refine ⟨d, ?_, fun pid => ?_⟩
  · rw [hst, ← hdisk, ← hc]
  · obtain ⟨l', hl', hr⟩ := h pid
    have hocc : s.occ pid = some (Store.occ pid d.pipelines) := by rw [Rt.occ, hd, Option.map_some]
    have hocc' : s.occ pid = some l' := hl'
    rw [hocc, Option.some.injEq] at hocc'
    rw [hocc']
    exact hr

/-! ### One id -/

theorem RefinedAs.stopped {b : Bool} {x : Loc} (h : RefinedAs b x) :
    Refined ⟨x.stored, none, x.occ.map (Store.setHead false)⟩ := by
  obtain ⟨l, hl, hr⟩ := h
  refine ⟨Store.setHead false l, by rw [hl, Option.map_some], ?_⟩
  change EntriesRefine x.stored false (Store.setHead false l)
  cases hc : x.stored with
  | none =>
    rw [hc] at hr
    rw [show l = [] from hr]
    rfl
  | some c =>
    rw [hc] at hr
    obtain ⟨e, rfl, hid, hsource, hsink, -⟩ := hr
    exact ⟨{ e with active := false }, rfl, hid, hsource, hsink, rfl⟩

theorem RefinedAs.started {b : Bool} {x : Loc} (h : RefinedAs b x) (p : PipelineConfig) :
    Refined ⟨some p, some p, x.occ.map fun l => Store.setHead true (Store.upsertHead p l)⟩ := by
  obtain ⟨l, hl, hr⟩ := h
  refine ⟨Store.setHead true (Store.upsertHead p l), by rw [hl, Option.map_some], { p with active := true }, ?_,
    rfl, rfl, rfl, rfl⟩
  cases hc : x.stored with
  | none =>
    rw [hc] at hr
    rw [show l = [] from hr]
    rfl
  | some c =>
    rw [hc] at hr
    obtain ⟨e, rfl, -⟩ := hr
    rfl

/-- A config that is entered keeps the flag, so a pipeline that runs needs its entry. -/
theorem Refined.updated {x : Loc} (h : Refined x) (p : PipelineConfig)
    (hrun : x.built.isSome = true → x.stored.isSome = true) :
    Refined ⟨some p, x.built, x.occ.map (Store.upsertHead p)⟩ := by
  obtain ⟨l, hl, hr⟩ := h
  refine ⟨Store.upsertHead p l, by rw [hl, Option.map_some], ?_⟩
  cases hc : x.stored with
  | none =>
    have hnot : x.built.isSome = false := by
      rw [hc] at hrun
      exact Bool.eq_false_iff.mpr fun h => by cases hrun h
    rw [hc] at hr
    rw [show l = [] from hr]
    exact ⟨{ p with active := false }, rfl, rfl, rfl, rfl, hnot.symm⟩
  | some c =>
    rw [hc] at hr
    obtain ⟨e, rfl, -, -, -, hactive⟩ := hr
    exact ⟨{ p with active := e.active }, rfl, rfl, rfl, rfl, hactive⟩

theorem Refined.swapLoc {x : Loc} (h : Refined x) (p : PipelineConfig) : Refined (swapLoc x p) := by
  unfold AgentRuntime.swapLoc
  split_ifs
  · exact h
  · exact h.started p
  · exact h.stopped
  · exact h

/-! ### One function -/

theorem AllRefined.at {s t : Rt} (h : AllRefined s) (pid : String) (hother : ∀ q, q ≠ pid → t.loc q = s.loc q)
    (hpid : Refined (t.loc pid)) : AllRefined t := by
  intro q
  by_cases hq : q = pid
  · rw [hq]
    exact hpid
  · rw [hother q hq]
    exact h q

theorem AllRefined.same {s t : Rt} (h : AllRefined s) (ht : SameViews s t) : AllRefined t := fun q => by
  rw [ht.loc]
  exact h q

theorem AllRefined.stopped {pid : String} {s t : Rt} (h : AllRefined s) (ht : Stopped pid s t) : AllRefined t :=
  h.at pid ht.touches.loc (ht.loc ▸ (h pid).stopped)

theorem AllRefined.stopPipeline {s : Rt} (h : AllRefined s) (me : Option ℕ) (pid : String) :
    AllRefined (s.run (stopPipeline me pid)).2 := by
  rcases stopPipeline_cases me pid s with ⟨hrun, -⟩ | ⟨t, hrun, -, ht⟩ | ⟨t, hrun, -, ht⟩
  · rw [hrun]
    exact h
  · rw [hrun]
    exact h.same ht
  · rw [hrun]
    exact h.stopped ht

/-- A stored config has the id it is stored under. -/
theorem RefinedAs.stored_id {b : Bool} {s : Rt} {pid : String} (h : RefinedAs b (s.loc pid)) {c : PipelineConfig}
    (hc : s.stored pid = some c) : c.id = pid := by
  obtain ⟨l, hl, hr⟩ := h
  rw [show (s.loc pid).stored = some c from hc] at hr
  obtain ⟨e, rfl, hid, -⟩ := hr
  obtain ⟨d, -, hd⟩ := Option.map_eq_some_iff.mp hl
  have he : e ∈ Store.occ pid d.pipelines := by
    rw [hd]
    exact List.mem_singleton_self e
  have hpid : e.id = pid := by simpa using (List.mem_filter.mp he).2
  exact hid.symm.trans hpid

/-- A start with a config of the id, or with the stored one. -/
theorem AllRefined.startPipeline {s : Rt} (h : AllRefined s) (V : Validator) (me : Option ℕ) (pid : String)
    (data : Option Json)
    (hid : ∀ plan, planOf V pid data (s.stored pid) (s.built pid).isSome = .ok plan → plan.conf.id = pid ∧
      plan.pending.or (s.stored pid) = some plan.conf) :
    AllRefined (s.run (startPipeline V me pid data)).2 := by
  rcases startPipeline_cases V me pid data s with ⟨b, -, hrun⟩ | ⟨t, hrun, hf⟩ | ⟨plan, t, hplan, hrun, hs⟩
  · rw [hrun]
    exact h
  · rw [hrun]
    rcases hf with hf | ⟨-, hf⟩
    · exact h.same hf
    · exact h.stopped hf
  · obtain ⟨hconf, hstored⟩ := hid plan hplan
    rw [hrun]
    refine h.at _ (hs.touches hconf).loc ?_
    rw [hs.loc hconf, hstored]
    exact (h pid).started plan.conf

theorem AllRefined.startWith {s : Rt} (h : AllRefined s) (V : Validator) (me : Option ℕ) {pid : String}
    {c : PipelineConfig} (hc : c.id = pid) : AllRefined (s.run (AgentRuntime.startPipeline V me pid (some c.modelDump))).2 := by
  refine h.startPipeline V me pid _ fun plan hplan => ?_
  rw [planOf_modelDump] at hplan
  split_ifs at hplan
  cases hplan
  exact ⟨hc, rfl⟩

theorem AllRefined.startStored {s : Rt} (h : AllRefined s) (V : Validator) (me : Option ℕ) (pid : String) :
    AllRefined (s.run (AgentRuntime.startPipeline V me pid none)).2 := by
  refine h.startPipeline V me pid _ fun plan hplan => ?_
  cases hc : s.stored pid with
  | none =>
    rw [hc] at hplan
    cases hplan
  | some c =>
    rw [hc] at hplan
    cases hplan
    exact ⟨(h pid).stored_id hc, rfl⟩

/-! ### The commands that set or remove a config -/

/-- A config that is entered in the map and in the document. -/
theorem AllRefined.entered {s u : Rt} (h : AllRefined s) {c : PipelineConfig}
    (hrun : (s.built c.id).isSome = true → (s.stored c.id).isSome = true)
    (hstored : ∀ q, u.stored q = if q = c.id then some c else s.stored q) (hbuilt : ∀ q, u.built q = s.built q)
    (hocc : ∀ q, u.occ q = s.occ q) : AllRefined (u.performStore (.updatePipelineConfig c)) := by
  have hconfigs : ∀ q, (u.performStore (.updatePipelineConfig c)).stored q = u.stored q :=
    stored_congr (performStore_configs _ u)
  have hpipes : ∀ q, (u.performStore (.updatePipelineConfig c)).built q = s.built q := fun q => by
    rw [← hbuilt q, Rt.built, performStore_pipelines, Rt.built]
  have hentries := fun q => occ_updatePipelineConfig u c q
  refine h.at c.id (fun q hq => loc_eq ?_ (hpipes q) ?_) ?_
  · rw [hconfigs, hstored, if_neg hq]
  · rw [hentries, if_neg hq, hocc]
  · have hloc : (u.performStore (.updatePipelineConfig c)).loc c.id =
        ⟨some c, s.built c.id, (s.occ c.id).map (Store.upsertHead c)⟩ := by
      refine loc_eq ?_ (hpipes c.id) ?_
      · rw [hconfigs, hstored, if_pos rfl]
      · rw [hentries, if_pos rfl, hocc]
    rw [hloc]
    exact (h c.id).updated c hrun

/-- The commit of a deploy, over an instance only where its config is stored. -/
theorem AllRefined.committed {s : Rt} (h : AllRefined s) {cmd : DeployModelCommand}
    (hid : cmd.config.id = cmd.pipelineId)
    (hrun : (s.built cmd.pipelineId).isSome = true → (s.stored cmd.pipelineId).isSome = true) :
    AllRefined (committed cmd s) := by
  refine h.entered (hid ▸ hrun) (fun q => ?_) (fun _ => rfl) (fun _ => rfl)
  rw [stored_setConfig, hid]

theorem AllRefined.deployWorker {s : Rt} (h : AllRefined s) (j : ℕ) {cmd : DeployModelCommand}
    (hid : cmd.config.id = cmd.pipelineId)
    (hrun : (s.built cmd.pipelineId).isSome = true → (s.stored cmd.pipelineId).isSome = true) :
    AllRefined (s.run (deployWorker j cmd)).2 := by
  rcases deploys_deployWorker j cmd s with hsame | ⟨u, hu, hsame⟩
  · exact h.same hsame
  · have hstored : u.stored cmd.pipelineId = s.stored cmd.pipelineId := congrArg Loc.stored (hu.loc _)
    have hbuilt : u.built cmd.pipelineId = s.built cmd.pipelineId := congrArg Loc.built (hu.loc _)
    refine ((h.same hu).committed hid ?_).same hsame
    rw [hstored, hbuilt]
    exact hrun

theorem AllRefined.updatePipeline {s : Rt} (h : AllRefined s) (V : Validator) (me : Option ℕ)
    (cmd : UpdatePipelineCommand) : AllRefined (s.run (updatePipeline V me cmd)).2 := by
  have hreport : ∀ (t : Rt) (b : Bool), AllRefined t → AllRefined (t.run (if b = true then
      reportCommand cmd.id .completed s!"Pipeline '{cmd.pipelineId}' updated"
    else reportCommand cmd.id .failed s!"Failed to update pipeline '{cmd.pipelineId}'")).2 := fun t b ht =>
    ht.same ((Quietly.ite (quietly_reportCommand ..) (quietly_reportCommand ..)).same t)
  unfold AgentRuntime.updatePipeline
  simp only
  split_ifs with hid
  · exact h.same ((quietly_reportCommand ..).same s)
  have hid' : cmd.config.id = cmd.pipelineId := not_not.mp hid
  simp only [run_bind, run_locked]
  refine hreport _ _ ?_
  change AllRefined (s.run (if (s.pipelines.get? cmd.pipelineId).isSome = true then _ else _)).2
  cases hp : s.pipelines.get? cmd.pipelineId with
  | some pipe => exact h.startWith V me hid'
  | none =>
    have hbuilt : s.built cmd.pipelineId = none := by rw [Rt.built, hp, Option.map_none]
    refine h.entered (u := (perform (.setConfig cmd.pipelineId cmd.config) s).2) (fun hrun => ?_) (fun q => ?_)
      (fun _ => rfl) (fun _ => rfl)
    · rw [hid', hbuilt] at hrun
      cases hrun
    · rw [stored_setConfig, hid']

/-- The stored config of an id, changed in place and persisted. -/
theorem AllRefined.modified {s : Rt} (h : AllRefined s) {pid : String} {c : PipelineConfig}
    {f : PipelineConfig → PipelineConfig} (hc : s.stored pid = some c) (hf : (f c).id = c.id) :
    AllRefined ((s.modifyStored pid f).performStore (.updatePipelineConfig (f c))) := by
  obtain ⟨st, hst, rfl⟩ := Option.map_eq_some_iff.mp hc
  have hid : (f st.conf).id = pid := hf.trans ((h pid).stored_id hc)
  have hmod : s.modifyStored pid f = { s with
      configs := s.configs.set pid { st with conf := f st.conf }
      agentConfig := if st.shared then
          { s.agentConfig with pipelines := modifyLast pid f s.agentConfig.pipelines }
        else s.agentConfig } := by
    unfold modifyStored
    rw [hst]
  rw [hmod]
  refine h.entered (fun _ => by rw [hid, hc]; rfl) (fun q => ?_) (fun _ => rfl) (fun _ => rfl)
  rw [hid]
  change ((s.configs.set pid { st with conf := f st.conf }).get? q).map _ = _
  rw [Dict.get?_set]
  split_ifs <;> rfl

theorem AllRefined.configureServing {s : Rt} (h : AllRefined s) (cmd : StartServingCommand) :
    AllRefined (s.run (configureServing cmd)).2 := by
  unfold AgentRuntime.configureServing
  simp only [run_locked, run_bind, run_act]
  rw [show perform (.getConfig cmd.pipelineId) s = (s.stored cmd.pipelineId, s) from rfl]
  cases hc : s.stored cmd.pipelineId with
  | none => exact h.same ((quietly_reportCommand ..).same s)
  | some c =>
    have hmod := h.modified (f := Rt.updateArgs (servingArgs cmd)) hc rfl
    have hstored : (s.modifyStored cmd.pipelineId (Rt.updateArgs (servingArgs cmd))).stored cmd.pipelineId =
        some (Rt.updateArgs (servingArgs cmd) c) := by
      obtain ⟨st, hst, rfl⟩ := Option.map_eq_some_iff.mp hc
      unfold modifyStored Rt.stored
      rw [hst]
      simp only
      rw [Dict.get?_set_self]
      rfl
    simp only [run_bind, run_act]
    rw [show perform (.updateArgs cmd.pipelineId (servingArgs cmd)) s =
      ((s.modifyStored cmd.pipelineId (Rt.updateArgs (servingArgs cmd))).stored cmd.pipelineId,
        s.modifyStored cmd.pipelineId (Rt.updateArgs (servingArgs cmd))) from rfl]
    simp only [hstored]
    exact hmod

theorem AllRefined.startServing {s : Rt} (h : AllRefined s) (V : Validator) (me : Option ℕ)
    (cmd : StartServingCommand) : AllRefined (s.run (startServing V me cmd)).2 := by
  have hconf := h.configureServing cmd
  unfold AgentRuntime.startServing
  simp only [run_bind]
  generalize s.run (AgentRuntime.configureServing cmd) = r at hconf
  obtain ⟨found, t⟩ := r
  cases found with
  | false => exact hconf
  | true =>
    have hstart := AllRefined.startStored hconf V me cmd.pipelineId
    simp only [↓reduceIte, run_bind]
    refine hstart.same (Quietly.same ?_ _)
    refine Quietly.ite (.bind (quietly_reportCommand ..) fun _ => ?_) (quietly_reportCommand ..)
    exact .bind (quietly_act trivial) fun _ => quietly_act trivial

/-- The state after a config was removed from the map and from the document. -/
theorem AllRefined.removed {s u : Rt} (h : AllRefined s) {pid : String} (hu : SameViews s u) :
    AllRefined ((perform (.popConfig pid) u).2.performStore (.removePipeline pid)) := by
  have hocc : ∀ q, ((perform (.popConfig pid) u).2.performStore (.removePipeline pid)).occ q =
      if q = pid then (s.occ q).map fun _ => [] else s.occ q := fun q => by
    have hdoc : (perform (.popConfig pid) u).2.doc = s.doc := hu.doc
    rw [Rt.occ, doc_performStore, hdoc, Rt.occ, Option.map_map]
    split_ifs with hq
    · rw [Option.map_map]
      refine congrArg (fun f => s.doc.map f) (funext fun d => ?_)
      simp only [Function.comp, Store.Op.apply, Store.occ_removeEntry, if_pos hq]
    · refine congrArg (fun f => s.doc.map f) (funext fun d => ?_)
      simp only [Function.comp, Store.Op.apply, Store.occ_removeEntry, if_neg hq]
  have hstored : ∀ q, ((perform (.popConfig pid) u).2.performStore (.removePipeline pid)).stored q =
      if q = pid then none else s.stored q := fun q => by
    rw [stored_congr (performStore_configs _ _) q, show s.stored q = u.stored q from
      (congrArg Loc.stored (hu.loc q)).symm]
    change ((u.configs.erase pid).get? q).map _ = _
    rw [Dict.get?_erase]
    split_ifs <;> rfl
  have hbuilt : ∀ q, ((perform (.popConfig pid) u).2.performStore (.removePipeline pid)).built q = s.built q :=
    fun q => by
      rw [Rt.built, performStore_pipelines]
      exact congrArg Loc.built (hu.loc q)
  refine h.at pid (fun q hq => loc_eq ?_ (hbuilt q) ?_) ?_
  · rw [hstored, if_neg hq]
  · rw [hocc, if_neg hq]
  · obtain ⟨l, hl, -⟩ := h pid
    refine ⟨[], ?_, ?_⟩
    · change ((perform (.popConfig pid) u).2.performStore (.removePipeline pid)).occ pid = _
      rw [hocc, if_pos rfl, show s.occ pid = some l from hl, Option.map_some]
    · change EntriesRefine (((perform (.popConfig pid) u).2.performStore (.removePipeline pid)).stored pid) _ []
      rw [hstored, if_pos rfl]
      rfl

theorem AllRefined.removeConfig {s : Rt} (h : AllRefined s) (id pid : String) (filename extension : Option String) :
    AllRefined (s.run (removeConfig id pid filename extension)).2 := by
  unfold AgentRuntime.removeConfig
  simp only [run_locked, run_bind, run_act]
  split
  · exact h.same ((quietly_reportCommand ..).same s)
  · exact h.removed (SameViews.refl s)

end AgentRuntime
end LocaiLink
