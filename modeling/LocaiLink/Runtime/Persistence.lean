/-
# What each command does to the persisted state

Each command keeps the relation between the maps and what is persisted, except
where the code does not look (`CommandKeeps`): a start whose config has another
id, and a push with an id twice, or one that is reverted to an `agent_config`
that the maps have moved away from (`Settled`), or cannot even be reverted.
-/
import LocaiLink.Runtime.Refines

namespace LocaiLink
namespace AgentRuntime

open Rt Code

/-! ### Uninstalls -/

theorem AllRefined.uninstallModel {s : Rt} (h : AllRefined s) (me : Option ℕ) (id pid : String) (forceStop : Bool)
    (filename extension : Option String) :
    AllRefined (s.run (uninstallModel me id pid forceStop filename extension)).2 := by
  have hremove : ∀ t, AllRefined t → AllRefined (t.run (removeAndFinish id pid filename extension)).2 := by
    intro t ht
    unfold removeAndFinish
    have hremoved := ht.removeConfig id pid filename extension
    rw [run_bind]
    generalize t.run (AgentRuntime.removeConfig id pid filename extension) = r at hremoved
    obtain ⟨res, u⟩ := r
    cases res with
    | error e => exact hremoved
    | ok artifact => exact hremoved.same ((quietly_finishUninstall id pid artifact).same u)
  unfold AgentRuntime.uninstallModel
  rw [run_bind]
  change AllRefined (s.run (if ((s.pipelines.get? pid).isSome && !forceStop) = true then _
    else stopIfRunning me pid (s.pipelines.get? pid).isSome >>= _)).2
  split
  · exact h.same ((quietly_reportCommand ..).same s)
  · have hstop : AllRefined (s.run (stopIfRunning me pid (s.pipelines.get? pid).isSome)).2 := by
      unfold stopIfRunning
      split
      · exact h.stopPipeline me pid
      · exact h
    rw [run_bind]
    generalize s.run (stopIfRunning me pid (s.pipelines.get? pid).isSome) = r at hstop
    obtain ⟨done, t⟩ := r
    cases done with
    | false => exact hstop.same ((quietly_reportCommand ..).same t)
    | true => exact hremove t hstop

theorem AllRefined.uninstallCommand {s : Rt} (h : AllRefined s) (me : Option ℕ) (cmd : UninstallModelCommand) :
    AllRefined (s.run (uninstallCommand me cmd)).2 := by
  unfold AgentRuntime.uninstallCommand
  simp only
  split
  · exact h.same ((quietly_reportCommand ..).same s)
  split
  · exact h.same ((quietly_reportCommand ..).same s)
  · exact h.uninstallModel me _ _ _ _ _

/-! ### Pushes -/

/-- An id whose `agent_config` entry is what the maps say of it. -/
def Settled (s : Rt) : Prop :=
  ∀ q, match (Store.occ q s.agentConfig.pipelines).getLast? with
    | none => s.stored q = none
    | some p => ∃ c, s.stored q = some c ∧ c.id = p.id ∧ c.source = p.source ∧ c.sink = p.sink ∧
        p.active = (s.built q).isSome

/-- The branch that restarts is not taken, the one that reverts only where it
leads back, and no id is named twice. -/
def PushKeeps (V : Validator) (me : Option ℕ) (raw : Json) (s : Rt) : Prop :=
  ∀ new, accepted V s raw = some new → (ids new).Nodup ∧
    (s.run (applyAgentConfig V me raw)).1.scheduledRestart = false ∧
    ((s.run (applyAgentConfig V me raw)).1.ok = false → Settled s)

theorem occ_mergeActive (old new : List PipelineConfig) (q : String) :
    Store.occ q (Store.mergeActive old new) = (Store.occ q new).map fun p =>
      match (Store.occ q old).getLast?.map (·.active) with
      | some b => { p with active := b }
      | none => p := by
  unfold Store.mergeActive Store.withFlags Store.occ
  rw [List.filter_map]
  have hid : ∀ p : PipelineConfig, (match (Store.oldActive old).get? p.id with
      | some b => { p with active := b }
      | none => p).id = p.id := fun p => by split <;> rfl
  have hfilter : (new.filter ((fun p : PipelineConfig => decide (p.id = q)) ∘ fun p =>
      match (Store.oldActive old).get? p.id with
      | some b => { p with active := b }
      | none => p)) = new.filter fun p => p.id = q :=
    List.filter_congr fun p _ => by simp only [Function.comp, hid]
  refine (congrArg (List.map _) hfilter).trans ?_
  refine List.map_congr_left fun p hp => ?_
  have hq : p.id = q := by simpa using (List.mem_filter.mp hp).2
  rw [Store.get?_oldActive, hq]
  rfl

/-- What the merge makes of the entry of an id that was just swapped. -/
theorem Refined.merged {x : Loc} (h : Refined x) {p : PipelineConfig} (hrun : x.built.isSome = p.active)
    {l : List PipelineConfig} (hl : x.occ = some l) :
    (match l.getLast?.map (·.active) with
      | some b => { p with active := b }
      | none => p) = p := by
  obtain ⟨l', hl', hr⟩ := h
  rw [hl, Option.some.injEq] at hl'
  subst hl'
  cases hc : x.stored with
  | none =>
    rw [hc] at hr
    rw [show l = [] from hr]
    rfl
  | some c =>
    rw [hc] at hr
    obtain ⟨e, rfl, -, -, -, hactive⟩ := hr
    change { p with active := e.active } = p
    rw [hactive, hrun]

/-- A push that is applied. -/
theorem AllRefined.of_applied {s t : Rt} (h : AllRefined s) {new : AgentConfig} (hids : (ids new).Nodup)
    (hs : Swapped new s.agentConfig s t) (hstore : t.doc.isSome = true) : AllRefined (applied new t) := by
  obtain ⟨d, hd⟩ := Option.isSome_iff_exists.mp hstore
  intro q
  have hdoc : (applied new t).occ q = some (Store.occ q (Store.mergeActive d.pipelines new.pipelines)) := by
    rw [Rt.occ, applied_doc, hd]
    rfl
  obtain ⟨hstored, hbuilt⟩ := applied_views new t q
  refine ⟨_, hdoc, ?_⟩
  change EntriesRefine ((applied new t).stored q) ((applied new t).built q).isSome _
  rw [hstored, hbuilt, hs.stored, occ_mergeActive]
  by_cases hq : q ∈ ids new
  · obtain ⟨p, hp, rfl⟩ := List.mem_map.mp hq
    have hocc : t.occ p.id = some (Store.occ p.id d.pipelines) := by rw [Rt.occ, hd, Option.map_some]
    have hswap := (h p.id).swapLoc p
    have hentry : ((Store.occ p.id new.pipelines).foldl AgentRuntime.swapLoc (s.loc p.id)) =
        AgentRuntime.swapLoc (s.loc p.id) p := by
      rw [Store.occ_of_nodup hids p hp]
      rfl
    have hrun := isSome_built_swapLoc (s.loc p.id) p
    have hmerged := hswap.merged hrun (l := Store.occ p.id d.pipelines) (by
      rw [← hocc, hs.occ p.id hq, hentry])
    rw [hs.built p.id hq, hentry, hrun, Store.occ_of_nodup hids p hp, List.map_singleton, hmerged]
    exact ⟨p, rfl, rfl, rfl, rfl, rfl⟩
  · rw [Store.occ_of_not_mem hq]
    rfl

theorem isSome_built_foldl : ∀ {l : List PipelineConfig} {p : PipelineConfig} (x : Loc), l.getLast? = some p →
    (l.foldl swapLoc x).built.isSome = p.active
  | [e], p, x, h => by
    cases h
    exact isSome_built_swapLoc x e
  | e :: f :: l, p, x, h => by
    rw [List.foldl_cons]
    exact isSome_built_foldl (AgentRuntime.swapLoc x e) (by rwa [List.getLast?_cons_cons] at h)

/-- A push that is reverted. -/
theorem AllRefined.of_reverted {new : AgentConfig} {s t u : Rt} (h : AllRefined s) (hsettled : Settled s)
    (hstore : u.store.isSome = s.store.isSome) (hs : Swapped s.agentConfig new t u) :
    AllRefined (reverted s.doc u) := by
  obtain ⟨-, hstored, hbuilt⟩ := reverted_views s.doc u
  intro q
  obtain ⟨l, hl, hr⟩ := h q
  have hocc : (reverted s.doc u).occ q = some l := by
    rw [Rt.occ, reverted_doc hstore]
    exact hl
  refine ⟨l, hocc, ?_⟩
  change EntriesRefine ((reverted s.doc u).stored q) ((reverted s.doc u).built q).isSome l
  rw [hstored, hbuilt, hs.stored]
  have hq := hsettled q
  cases hlast : (Store.occ q s.agentConfig.pipelines).getLast? with
  | none =>
    rw [hlast] at hq
    rw [show (s.loc q).stored = none from hq] at hr
    exact hr
  | some p =>
    rw [hlast] at hq
    obtain ⟨c, hc, hid, hsource, hsink, hactive⟩ := hq
    rw [show (s.loc q).stored = some c from hc] at hr
    obtain ⟨e, rfl, heid, hesource, hesink, heactive⟩ := hr
    have hmem : p ∈ Store.occ q s.agentConfig.pipelines := List.mem_of_getLast? hlast
    have hq : q ∈ ids s.agentConfig := by
      obtain ⟨hp, hpq⟩ := List.mem_filter.mp hmem
      exact List.mem_map.mpr ⟨p, hp, by simpa using hpq⟩
    refine ⟨e, rfl, heid.trans hid, hesource.trans hsource, hesink.trans hsink, ?_⟩
    rw [hs.built q hq, isSome_built_foldl _ hlast, hactive]
    exact heactive

theorem AllRefined.applyAgentConfig {s : Rt} (h : AllRefined s) (V : Validator) (me : Option ℕ) (raw : Json)
    (hkeeps : PushKeeps V me raw s) : AllRefined (s.run (applyAgentConfig V me raw)).2 := by
  rcases applyAgentConfig_cases V me raw s with ⟨msg, t, ht, hc, -⟩ | ⟨new, hnew, hrun⟩
  · rw [ht]
    exact h.same (SameViews.of_core hc)
  · obtain ⟨hids, hrestart, hsettled⟩ := hkeeps new hnew
    rw [hrun] at hrestart hsettled ⊢
    rcases swapTo_cases V me new s with ⟨msg, t, ht, htrun, hs⟩ | ⟨msg, t, u, ht, hstore, -, hs⟩ | ⟨msg, t, ht⟩
    · rw [ht]
      refine h.of_applied hids hs ?_
      obtain ⟨l, hl, -⟩ := h ""
      obtain ⟨d, hd, -⟩ := Option.map_eq_some_iff.mp hl
      have hhas := run_hasStore (applyConfig V me new s.agentConfig) s
      rw [htrun] at hhas
      rw [Rt.doc, Option.isSome_map, hhas, ← Option.isSome_map (f := (·.cache))]
      exact Option.isSome_iff_exists.mpr ⟨d, hd⟩
    · rw [ht] at hsettled ⊢
      exact h.of_reverted (hsettled rfl) hstore hs
    · rw [ht] at hrestart
      cases hrestart

/-! ### Commands -/

/-- A command that keeps the relation. -/
def CommandKeeps (V : Validator) (me : Option ℕ) (s : Rt) : Command → Prop
  | .startModel _ pid config => config.id = pid
  | .updateAgentConfig _ config => PushKeeps V me config.modelDump s
  | _ => True

theorem AllRefined.dispatch {s : Rt} (h : AllRefined s) (V : Validator) (me : Option ℕ) (cmd : Command)
    (hkeeps : CommandKeeps V me s cmd) : AllRefined (s.run (dispatch V me cmd)).2 := by
  have hreport : ∀ (t : Rt) (b : Bool) (id pid : String) (done failed : String) (running : Bool), AllRefined t →
      AllRefined (t.run (reportOutcome id pid b done failed running)).2 := fun t b id pid done failed running ht =>
    ht.same ((quietly_reportOutcome ..).same t)
  cases cmd with
  | deployModel cmd => exact h.same ((quietly_deployModel cmd).same s)
  | cancelDeploy id pid => exact h.same ((quietly_cancelDeploy id pid).same s)
  | startModel id pid config =>
    simp only [AgentRuntime.dispatch, run_bind]
    have hstart := h.startWith V me (c := config) hkeeps
    exact hstart.same ((Quietly.ite (quietly_reportCommand ..) (quietly_reportCommand ..)).same _)
  | startModelInference id pid =>
    simp only [AgentRuntime.dispatch, run_bind]
    exact hreport _ _ _ _ _ _ _ (h.startStored V me pid)
  | stopModelInference id pid =>
    simp only [AgentRuntime.dispatch, run_bind]
    exact hreport _ _ _ _ _ _ _ (h.stopPipeline me pid)
  | startServing cmd => exact h.startServing V me cmd
  | stopServing id pid =>
    simp only [AgentRuntime.dispatch, stopServing, run_bind]
    have hstop := hreport _ (s.run (AgentRuntime.stopPipeline me pid)).1 id pid s!"Serving stopped for {pid}"
      s!"Failed to stop {pid}" false (h.stopPipeline me pid)
    refine hstop.same (Quietly.same (Quietly.ite ?_ (quietly_pure _)) _)
    exact .bind (quietly_act (a := .getServing) trivial) fun _ => .ite (quietly_act trivial) (quietly_pure _)
  | uninstallModel cmd => exact h.uninstallCommand me cmd
  | updatePipeline cmd => exact h.updatePipeline V me cmd
  | status id => exact h
  | updateAgent id => exact h.same ((quietly_updateAgent id).same s)
  | updateAgentConfig id config =>
    simp only [AgentRuntime.dispatch, run_bind]
    exact (h.applyAgentConfig V me _ hkeeps).same ((quietly_reportCommand ..).same _)

theorem AllRefined.handleCommand {s : Rt} (h : AllRefined s) (V : Validator) (me : Option ℕ) (data : Json)
    (hkeeps : ∀ cmd, V.command (Templating.resolveTemplates (identityContext s.agentConfig.identity) data) =
      some cmd → CommandKeeps V me s cmd) : AllRefined (s.run (handleCommand V me data)).2 := by
  unfold AgentRuntime.handleCommand
  have hcurrent : perform .getAgentConfig s = (s.agentConfig, s) := rfl
  simp only [run_bind, run_act, hcurrent]
  split
  · rename_i cmd hcmd
    exact h.dispatch V me cmd (hkeeps cmd hcmd)
  · split
    · exact h.same ((Quietly.ite (quietly_pure _) (quietly_reportCommand ..)).same s)
    · exact h

end AgentRuntime
end LocaiLink
