/-
# The serving views along commands

Each command keeps the three views in step but where its handler does not look
(`CommandAgrees`): a start in a mode that is not announced, a stop of what the
health server names by another command than `STOP_SERVING`, two models served at
once, a start that loses the instance.
-/
import LocaiLink.Runtime.Serving

namespace LocaiLink
namespace AgentRuntime

open Rt Code

/-! ### One function -/

/-- The view of one id after a step that nobody hears of. -/
theorem InStep.at_unheard {s t : Rt} (h : InStep s) {pid : String} {c b : Option PipelineConfig} (ht : At pid s t c b)
    (hu : Unheard s t) (hpid : (b.isSome && c.any serveMode) = serves s pid) : InStep t := by
  refine h.unheard hu fun q => ?_
  rw [ht.serves]
  split_ifs with hq
  · rw [hq, hpid]
  · rfl

/-- The same views of the maps, and nothing heard. -/
theorem InStep.same {s t : Rt} (h : InStep s) (ht : SameViews s t) (hu : Unheard s t) : InStep t :=
  h.unheard hu (serves_same ht)

/-- A start that nobody hears of must leave what is served as it is. -/
def StartAgrees (s : Rt) (pid : String) : StartOutcome → Prop
  | .kept _ => True
  | .lost => serves s pid = false
  | .started conf => serveMode conf = serves s pid

theorem InStep.startPipeline {s : Rt} (h : InStep s) (V : Validator) (me : Option ℕ) (pid : String) (data : Option Json)
    (hk : StartAgrees s pid (startOutcome V me pid data s)) : InStep (s.run (startPipeline V me pid data)).2 := by
  have heff := startPipeline_effect V me pid data s
  have hu := unheard_inner (does_startPipeline V me pid data) s
  generalize startOutcome V me pid data s = o at heff hk
  generalize s.run (AgentRuntime.startPipeline V me pid data) = r at heff hu ⊢
  obtain ⟨b, t⟩ := r
  cases heff with
  | kept ht => exact h.same ht hu
  | lost ht => exact h.at_unheard ht hu hk.symm
  | started ht => exact h.at_unheard ht hu hk

/-- A model was announced as not served, or has no id to announce. -/
structure ToldOff (pid : String) (s t : Rt) : Prop where
  views : SameViews s t
  serving : t.serving = s.serving
  told : ∀ q, lastServing t.reports q = if q = pid ∧ pid ≠ "" then false else lastServing s.reports q

theorem reportCommand_unheard (s : Rt) (cid : String) (status : Status) (output : String) :
    Unheard s (s.run (reportCommand cid status output)).2 :=
  unheard_perform (a := .report (.command cid status output)) trivial s

theorem toldOff_reported (s : Rt) (pid : String) (installed : Option Bool) (running : Bool) (n : ℕ) (m : ℕ) (port : Json) :
    ToldOff pid s (reported (.model pid installed running n false m port) s) where
  views := sameViews_quiet (a := .report _) trivial s
  serving := by unfold reported perform; simp only; split <;> rfl
  told := lastServing_model s pid installed running n false m port

theorem Unheard.toldOff {pid : String} {s t u : Rt} (h : Unheard s t) (hs : SameViews s t) (h' : ToldOff pid t u) :
    ToldOff pid s u where
  views := hs.trans h'.views
  serving := h'.serving.trans h.serving
  told q := by rw [h'.told, h.told]

theorem ToldOff.unheard {pid : String} {s t u : Rt} (h : ToldOff pid s t) (hs : SameViews t u) (h' : Unheard t u) :
    ToldOff pid s u where
  views := h.views.trans hs
  serving := h'.serving.trans h.serving
  told q := by rw [h'.told, h.told]

/-- The outcome of a start or a stop that succeeded announces the model. -/
theorem reportOutcome_toldOff (s : Rt) (cid pid done failed : String) (running : Bool) :
    ToldOff pid s (s.run (reportOutcome cid pid true done failed running)).2 := by
  have hcmd := reportCommand_unheard s cid .completed done
  exact hcmd.toldOff ((quietly_reportCommand ..).same s) (toldOff_reported ..)

theorem InStep.failed {s : Rt} (h : InStep s) (cid pid done failed : String) (running : Bool) :
    InStep (s.run (reportOutcome cid pid false done failed running)).2 :=
  h.same ((quietly_reportCommand ..).same s) (reportCommand_unheard s cid .failed failed)

/-- After a step of one id that nobody hears of, the model is not served, and is
announced so. -/
theorem InStep.toldOff {s x t : Rt} (h : InStep s) {pid : String} {c b : Option PipelineConfig} (hx : At pid s x c b)
    (hu : Unheard s x) (ht : ToldOff pid x t) (hoff : (b.isSome && c.any serveMode) = false)
    (hs : s.serving ≠ some pid) : InStep t := by
  have hpid : serves t pid = false := by rw [serves_same ht.views, hx.serves, if_pos rfl, hoff]
  have htold (q : String) : lastServing t.reports q = if q = pid ∧ pid ≠ "" then false else lastServing s.reports q := by
    rw [ht.told, hu.told]
  have hempty : lastServing t.reports "" = false := by
    rw [htold]
    split_ifs
    · rfl
    · exact h.silent
  refine h.at pid (fun q hq => ?_) (fun q hq => ?_) ?_ hempty (ht.serving.trans hu.serving) (fun he => absurd he hs)
    fun _ => hpid
  · rw [serves_same ht.views, hx.serves, if_neg hq]
  · rw [htold, if_neg fun hq' => hq hq'.1]
  · rw [hpid]
    by_cases he : pid = ""
    · rw [he, hempty]
    · rw [htold, if_pos ⟨rfl, he⟩]

/-- The same where the health server named the model and is told that nothing is
served any more. -/
theorem InStep.cleared {s x t : Rt} (h : InStep s) {pid : String} {c b : Option PipelineConfig} (hx : At pid s x c b)
    (hu : Unheard s x) (ht : ToldOff pid x t) (hoff : (b.isSome && c.any serveMode) = false)
    (hs : ∀ q, q ≠ pid → serves s q = false) : InStep (perform (.setServing none) t).2 := by
  have hnone (q : String) : serves t q = false := by
    rw [serves_same ht.views, hx.serves]
    split_ifs with hq
    · exact hoff
    · exact hs q hq
  have hlast (q : String) (hq : q ≠ pid ∨ pid = "") : lastServing t.reports q = lastServing s.reports q := by
    rw [ht.told, hu.told, if_neg]
    tauto
  refine ⟨fun pid hpid => (Option.some_ne_none pid hpid.symm).elim, fun _ => hnone, fun q => ?_, ?_⟩
  · refine Eq.trans ?_ (hnone q).symm
    change lastServing t.reports q = false
    by_cases hq : q = pid
    · by_cases he : pid = ""
      · rw [hlast q (.inr he), hq, he, h.silent]
      · rw [ht.told, if_pos ⟨hq, he⟩]
    · rw [hlast q (.inl hq), h.told, hs q hq]
  · change lastServing t.reports "" = false
    by_cases he : pid = ""
    · rw [hlast "" (.inr he), h.silent]
    · rw [hlast "" (.inl (Ne.symm he)), h.silent]

/-! ### Stops -/

theorem At.of_not_running {pid : String} {s : Rt} (hb : s.built pid = none) : At pid s s (s.stored pid) none :=
  hb ▸ At.refl pid s

theorem InStep.not_serving {s : Rt} (h : InStep s) {pid : String} (hb : s.built pid = none) : s.serving ≠ some pid := by
  intro hs
  have hserves := h.someone pid hs
  rw [serves, hb] at hserves
  cases hserves

/-- A stop, and what is announced of it. -/
theorem InStep.stopModelInference {s : Rt} (h : InStep s) (me : Option ℕ) (cid pid done failed : String)
    (hk : s.serving = some pid → Stuck me pid s) :
    InStep ((s.run (stopPipeline me pid)).2.run
      (reportOutcome cid pid (s.run (stopPipeline me pid)).1 done failed false)).2 := by
  have heff := stopPipeline_effect me pid s
  have hu := unheard_inner (does_stopPipeline me pid) s
  generalize s.run (stopPipeline me pid) = r at heff hu ⊢
  obtain ⟨b, t⟩ := r
  cases heff with
  | idle hb => exact h.toldOff (.of_not_running hb) hu (reportOutcome_toldOff ..) rfl (h.not_serving hb)
  | stuck _ ht => exact (h.same ht hu).failed ..
  | stopped hs hb ht => exact h.toldOff ht hu (reportOutcome_toldOff ..) rfl fun he => hs (hk he)

/-- What `STOP_SERVING` does after a stop that succeeded. -/
theorem run_clearServing (pid : String) (t : Rt) :
    (t.run (do if (← act .getServing) = some pid then act (.setServing none))).2 =
      if t.serving = some pid then (perform (.setServing none) t).2 else t := by
  rw [run_bind]
  change (t.run (if t.serving = some pid then _ else _)).2 = _
  split_ifs <;> rfl

theorem InStep.stopServing {s : Rt} (h : InStep s) (me : Option ℕ) (cid pid : String)
    (hk : s.serving = some pid → Stuck me pid s ∨ ∀ q, q ≠ pid → serves s q = false) :
    InStep (s.run (stopServing me cid pid)).2 := by
  have heff := stopPipeline_effect me pid s
  have hu := unheard_inner (does_stopPipeline me pid) s
  unfold AgentRuntime.stopServing
  simp only [run_bind]
  generalize s.run (stopPipeline me pid) = r at heff hu ⊢
  obtain ⟨b, t⟩ := r
  have hoff := reportOutcome_toldOff t cid pid s!"Serving stopped for {pid}" s!"Failed to stop {pid}" false
  cases heff with
  | stuck hs ht =>
    exact (h.same ht hu).failed cid pid s!"Serving stopped for {pid}" s!"Failed to stop {pid}" false
  | idle hb =>
    have hserving := h.not_serving hb
    refine Eq.subst (motive := InStep) (run_clearServing pid _).symm ?_
    rw [if_neg (by rw [hoff.serving, hu.serving]; exact hserving)]
    exact h.toldOff (.of_not_running hb) hu hoff rfl hserving
  | stopped hs hb ht =>
    refine Eq.subst (motive := InStep) (run_clearServing pid _).symm ?_
    split_ifs with hserving
    · rw [hoff.serving, hu.serving] at hserving
      exact h.cleared ht hu hoff rfl ((hk hserving).resolve_left hs)
    · rw [hoff.serving, hu.serving] at hserving
      exact h.toldOff ht hu hoff rfl hserving

/-! ### Starts -/

/-- A start that is announced as not serving. -/
def InferenceAgrees (s : Rt) (pid : String) : StartOutcome → Prop
  | .kept _ => True
  | .lost => serves s pid = false
  | .started conf => serveMode conf = false

theorem serves_of_stored {s : Rt} {pid : String} {c : PipelineConfig} (hc : s.stored pid = some c)
    (hs : serves s pid = true) : serveMode c = true := by
  unfold serves at hs
  rw [hc, Bool.and_eq_true] at hs
  exact hs.2

theorem InStep.startModelInference {s : Rt} (h : InStep s) (V : Validator) (me : Option ℕ) (cid pid done failed : String)
    (hk : InferenceAgrees s pid (startOutcome V me pid none s)) :
    InStep ((s.run (AgentRuntime.startPipeline V me pid none)).2.run
      (reportOutcome cid pid (s.run (AgentRuntime.startPipeline V me pid none)).1 done failed true)).2 := by
  have heff := startPipeline_effect V me pid none s
  have hu := unheard_inner (does_startPipeline V me pid none) s
  have hstored := startOutcome_stored V me pid s
  generalize startOutcome V me pid none s = o at heff hk hstored
  generalize s.run (AgentRuntime.startPipeline V me pid none) = r at heff hu ⊢
  obtain ⟨b, t⟩ := r
  cases heff with
  | kept ht =>
    obtain rfl : b = false := hstored
    exact (h.same ht hu).failed ..
  | lost ht => exact (h.at_unheard ht hu hk.symm).failed ..
  | @started conf t ht =>
    have hmode : serveMode conf = false := hk
    have hserving : s.serving ≠ some pid := fun hs => by
      rw [serves_of_stored hstored (h.someone pid hs)] at hmode
      cases hmode
    exact h.toldOff ht hu (reportOutcome_toldOff ..) hmode hserving

/-- The config of a pipeline that is put into the serve mode. -/
theorem serveMode_updateArgs (cmd : StartServingCommand) (c : PipelineConfig) :
    serveMode (Rt.updateArgs (servingArgs cmd) c) = true := by
  have hmode : (Rt.updateArgs (servingArgs cmd) c).source.args.get? "mode" = some (.str "serve") := by
    simp [Rt.updateArgs, servingArgs, Dict.get?_set]
  rw [serveMode, hmode]
  rfl

theorem stored_modifyStored (s : Rt) (pid : String) (f : PipelineConfig → PipelineConfig) (q : String) :
    (s.modifyStored pid f).stored q = if q = pid then (s.stored pid).map f else s.stored q := by
  unfold modifyStored Rt.stored
  cases hc : s.configs.get? pid with
  | none => split_ifs with hq <;> simp [hq, hc]
  | some c =>
    simp only [Dict.get?_set]
    split_ifs <;> rfl

theorem configureServing_run (cmd : StartServingCommand) (s : Rt) :
    match s.stored cmd.pipelineId with
    | none => (s.run (configureServing cmd)).1 = false ∧ SameViews s (s.run (configureServing cmd)).2
    | some c => (s.run (configureServing cmd)).1 = true ∧ At cmd.pipelineId s (s.run (configureServing cmd)).2
        (some (Rt.updateArgs (servingArgs cmd) c)) (s.built cmd.pipelineId) := by
  unfold configureServing
  simp only [run_locked, run_bind, run_act]
  rw [show perform (.getConfig cmd.pipelineId) s = (s.stored cmd.pipelineId, s) from rfl]
  cases hc : s.stored cmd.pipelineId with
  | none => exact ⟨rfl, (quietly_reportCommand ..).same s⟩
  | some c =>
    have hmod (q : String) := stored_modifyStored s cmd.pipelineId (Rt.updateArgs (servingArgs cmd)) q
    have hbuilt (q : String) : (s.modifyStored cmd.pipelineId (Rt.updateArgs (servingArgs cmd))).built q = s.built q := by
      unfold modifyStored
      split <;> rfl
    simp only [run_bind, run_act]
    rw [show perform (.updateArgs cmd.pipelineId (servingArgs cmd)) s =
      ((s.modifyStored cmd.pipelineId (Rt.updateArgs (servingArgs cmd))).stored cmd.pipelineId,
        s.modifyStored cmd.pipelineId (Rt.updateArgs (servingArgs cmd))) from rfl]
    simp only [hmod, ↓reduceIte, hc, Option.map_some]
    refine ⟨rfl, fun q => ?_, fun q => ?_⟩
    · refine (stored_congr (performStore_configs _ _) q).trans ((hmod q).trans ?_)
      rw [hc, Option.map_some]
    · refine Eq.trans ?_ ((hbuilt q).trans ?_)
      · exact congrArg (fun d => (Dict.get? d q).map Pipe.conf) (performStore_pipelines _ _)
      · split_ifs with hq <;> [rw [hq]; rfl]

theorem unheard_configureServing (cmd : StartServingCommand) (s : Rt) :
    Unheard s (s.run (configureServing cmd)).2 := by
  have hdoes : Does Silent (configureServing cmd) := by
    refine .locked (.bind (does_act (a := .getConfig _) trivial) fun c => ?_) _
    cases c with
    | none => exact .bind (does_act (a := .report (.command _ _ _)) trivial) fun _ => does_pure _
    | some c =>
      refine .bind (does_act (a := .updateArgs _ _) trivial) fun updated => ?_
      cases updated with
      | none => exact does_pure _
      | some config => exact .bind (does_act (a := .store _) trivial) fun _ => does_pure _
  exact hdoes.unheard (fun _ => id) s

theorem At.trans {pid : String} {s t u : Rt} {c b c' b' : Option PipelineConfig} (h : At pid s t c b)
    (h' : At pid t u c' b') : At pid s u c' b' where
  stored q := by
    rw [h'.stored, h.stored]
    split_ifs <;> rfl
  built q := by
    rw [h'.built, h.built]
    split_ifs <;> rfl

/-- A start that was announced as serving, and named to the health server. -/
theorem InStep.toldOn {s x t : Rt} (h : InStep s) {pid : String} {c : PipelineConfig} (hx : At pid s x (some c) (some c))
    (hu : Unheard s x) (hmode : serveMode c = true) (hpid : pid ≠ "") (hviews : SameViews x t)
    (htold : ∀ q, lastServing t.reports q = if q = pid then true else lastServing x.reports q)
    (hserving : t.serving = some pid) : InStep t := by
  have hserves (q : String) : serves t q = if q = pid then true else serves s q := by
    rw [serves_same hviews, hx.serves]
    simp only [Option.isSome_some, Option.any_some, hmode, Bool.and_self]
  refine ⟨fun q hq => ?_, fun hn => ?_, fun q => ?_, ?_⟩
  · rw [hserving, Option.some.injEq] at hq
    rw [hserves, if_pos hq.symm]
  · rw [hserving] at hn
    cases hn
  · rw [htold, hserves, hu.told, h.told]
  · rw [htold, if_neg (Ne.symm hpid), hu.told, h.silent]

/-- A start whose success is announced as serving. -/
def ServingAgrees (s : Rt) (pid : String) : StartOutcome → Prop
  | .kept _ => serves s pid = true
  | .lost => serves s pid = false
  | .started _ => pid ≠ ""

theorem InStep.startServing {s : Rt} (h : InStep s) (V : Validator) (me : Option ℕ) (cmd : StartServingCommand)
    (hk : (s.stored cmd.pipelineId).isSome = true → ServingAgrees s cmd.pipelineId
      (startOutcome V me cmd.pipelineId none (s.run (configureServing cmd)).2)) :
    InStep (s.run (startServing V me cmd)).2 := by
  have hconf := configureServing_run cmd s
  have huc := unheard_configureServing cmd s
  unfold AgentRuntime.startServing
  simp only [run_bind]
  generalize s.run (configureServing cmd) = r at hconf huc hk ⊢
  obtain ⟨found, x⟩ := r
  cases hc : s.stored cmd.pipelineId with
  | none =>
    rw [hc] at hconf
    obtain ⟨rfl, hx⟩ := hconf
    exact h.same hx huc
  | some c =>
    rw [hc] at hconf hk
    obtain ⟨rfl, hx⟩ := hconf
    have heff := startPipeline_effect V me cmd.pipelineId none x
    have hu := huc.trans (unheard_inner (does_startPipeline V me cmd.pipelineId none) x)
    have hstored := startOutcome_stored V me cmd.pipelineId x
    have hmode : serveMode (Rt.updateArgs (servingArgs cmd) c) = true := serveMode_updateArgs cmd c
    replace hk := hk rfl
    simp only [↓reduceIte, run_bind]
    generalize startOutcome V me cmd.pipelineId none x = o at heff hk hstored
    generalize x.run (AgentRuntime.startPipeline V me cmd.pipelineId none) = r at heff hu ⊢
    obtain ⟨b, t⟩ := r
    have hfailed (hserves : InStep t) :
        InStep (t.run (reportCommand cmd.id .failed s!"Failed to start serving {cmd.pipelineId}")).2 :=
      hserves.same ((quietly_reportCommand ..).same t) (reportCommand_unheard ..)
    cases heff with
    | kept ht =>
      obtain rfl : b = false := hstored
      refine hfailed (h.at_unheard (hx.trans_same ht) hu ?_)
      have hrun : (s.built cmd.pipelineId).isSome = true := by
        have hserves : serves s cmd.pipelineId = true := hk
        unfold serves at hserves
        exact (Bool.and_eq_true _ _ ▸ hserves).1
      rw [hrun, Option.any_some, hmode]
      exact (hk : serves s cmd.pipelineId = true).symm
    | lost ht => exact hfailed (h.at_unheard (hx.trans ht) hu (hk : serves s cmd.pipelineId = false).symm)
    | @started conf t ht =>
      have hx' : x.stored cmd.pipelineId = some (Rt.updateArgs (servingArgs cmd) c) := by
        rw [hx.stored, if_pos rfl]
      obtain rfl : Rt.updateArgs (servingArgs cmd) c = conf := Option.some.inj (hx'.symm.trans hstored)
      have hne : cmd.pipelineId ≠ "" := hk
      let u := (t.run (reportCommand cmd.id .completed
        s!"Serving started for {cmd.pipelineId} on {cmd.host}:{cmd.port}")).2
      have htu : SameViews t u := (quietly_reportCommand ..).same t
      have hcmd : Unheard t u := reportCommand_unheard ..
      have hmodel (q : String) := lastServing_model u cmd.pipelineId none false 0 true 1 (.int cmd.port) q
      let v := reported (.model cmd.pipelineId none false 0 true 1 (.int cmd.port)) u
      have huv : SameViews u v := sameViews_quiet (a := .report _) trivial u
      have hviews : SameViews t (perform (.setServing (some cmd.pipelineId)) v).2 := (htu.trans huv).trans ⟨rfl, rfl, rfl, rfl⟩
      refine h.toldOn (t := (perform (.setServing (some cmd.pipelineId)) v).2) (hx.trans ht) hu hmode hne hviews
        (fun q => (hmodel q).trans ?_) rfl
      rw [hcmd.told]
      simp only [hne, ne_eq, not_false_eq_true, and_true]

theorem InStep.reportCommand {s : Rt} (h : InStep s) (cid : String) (status : Status) (output : String) :
    InStep (s.run (reportCommand cid status output)).2 :=
  h.same ((quietly_reportCommand ..).same s) (reportCommand_unheard ..)

/-! ### Updates -/

theorem setConfig_at (pid : String) (c : PipelineConfig) (s : Rt) :
    At pid s (perform (.setConfig pid c) s).2 (some c) (s.built pid) where
  stored := stored_setConfig pid c s
  built q := by
    split_ifs with hq
    · rw [hq]
      rfl
    · rfl

theorem performStore_same (op : Store.Op) (s : Rt) (q : String) :
    (s.performStore op).stored q = s.stored q ∧ (s.performStore op).built q = s.built q :=
  ⟨stored_congr (performStore_configs op s) q, congrArg (fun d => (Dict.get? d q).map Pipe.conf) (performStore_pipelines op s)⟩

theorem At.performStore {pid : String} {s t : Rt} {c b : Option PipelineConfig} (h : At pid s t c b) (op : Store.Op) :
    At pid s (t.performStore op) c b where
  stored q := (performStore_same op t q).1.trans (h.stored q)
  built q := (performStore_same op t q).2.trans (h.built q)

theorem InStep.updatePipeline {s : Rt} (h : InStep s) (V : Validator) (me : Option ℕ) (cmd : UpdatePipelineCommand)
    (hk : cmd.config.id = cmd.pipelineId → (s.built cmd.pipelineId).isSome = true →
      StartAgrees s cmd.pipelineId (startOutcome V me cmd.pipelineId (some cmd.config.modelDump) s)) :
    InStep (s.run (updatePipeline V me cmd)).2 := by
  unfold AgentRuntime.updatePipeline
  simp only
  split_ifs with hid
  · exact h.reportCommand ..
  have hreport (t : Rt) (b : Bool) (ht : InStep t) : InStep (t.run (if b = true then
      AgentRuntime.reportCommand cmd.id .completed s!"Pipeline '{cmd.pipelineId}' updated"
    else AgentRuntime.reportCommand cmd.id .failed s!"Failed to update pipeline '{cmd.pipelineId}'")).2 := by
    split_ifs <;> exact ht.reportCommand ..
  simp only [run_bind, run_locked]
  refine hreport _ _ ?_
  change InStep (s.run (if (s.pipelines.get? cmd.pipelineId).isSome = true then _ else _)).2
  cases hp : s.pipelines.get? cmd.pipelineId with
  | some pipe =>
    have hb : (s.built cmd.pipelineId).isSome = true := by rw [Rt.built, hp]; rfl
    exact h.startPipeline V me _ _ (hk (not_not.mp hid) hb)
  | none =>
    have hb : s.built cmd.pipelineId = none := by rw [Rt.built, hp, Option.map_none]
    have hat := (setConfig_at cmd.pipelineId cmd.config s).performStore (.updatePipelineConfig cmd.config)
    have hu : Unheard s ((perform (.setConfig cmd.pipelineId cmd.config) s).2.performStore
        (.updatePipelineConfig cmd.config)) :=
      Unheard.trans (t := (perform (.setConfig cmd.pipelineId cmd.config) s).2) ⟨rfl, fun _ => rfl⟩
        (unheard_perform (a := .store (.updatePipelineConfig cmd.config)) trivial _)
    refine h.at_unheard hat hu ?_
    rw [serves, hb]
    rfl

/-! ### Uninstalls -/

theorem perform_cwd (a : Act) (s : Rt) : (perform a s).2.cwd = s.cwd := by
  have hfile {fails : Option String} {f : Rt → Rt} (hf : ∀ t, (f t).cwd = t.cwd) : (s.fileOp fails f).2.cwd = s.cwd := by
    unfold fileOp
    split
    · rfl
    · exact hf s.tock
  cases a <;> simp only [perform] <;> try rfl
  case updateArgs => unfold modifyStored; split <;> rfl
  case createComponent => split <;> rfl
  case join => unfold Rt.join; split_ifs <;> rfl
  case store => unfold performStore; split <;> rfl
  case attachResponse => split <;> [split; skip] <;> rfl
  case dropWorker => split <;> [split; skip] <;> rfl
  case mkdir p => exact hfile (f := setNode p _) fun _ => rfl
  case unlink p => exact hfile (f := setNode p _) fun _ => rfl
  case create p => exact hfile (f := setNode p _) fun _ => rfl
  case append p chunk => exact hfile fun t => by unfold appendTo; split <;> rfl
  case replace p q => exact hfile (f := fun t => (t.setNode p none).setNode q (s.node p)) fun _ => rfl
  case savePending => split <;> rfl
  case report => split <;> rfl
  case setDeployment => unfold setDeployment; split <;> [skip; split] <;> rfl

/-- The working directory stays. -/
theorem run_cwd {α : Type} (p : Code α) (s : Rt) : (s.run p).2.cwd = s.cwd :=
  Prog.run_keeps perform (σ := rtSig) (I := fun t => t.cwd = s.cwd) (fun a t ht => (perform_cwd a t).trans ht) p s rfl

theorem stopPipeline_configs (me : Option ℕ) (pid : String) (s : Rt) : (s.run (stopPipeline me pid)).2.configs = s.configs := by
  rw [run_stopPipeline]
  cases s.pipelines.get? pid with
  | none => rfl
  | some pipe =>
    simp only
    split_ifs
    · exact (told_same me pipe s).configs
    · rw [stopped, performStore_configs]
      exact (told_same me pipe s).configs

/-- What the locked part of an uninstall finds in the way: another pipeline that
uses the artifact. -/
def sharedWith (pid : String) (filename extension : Option String) (s : Rt) : Option (Path × String) :=
  (artifactPath ⟨1, s.cwd⟩ (s.stored pid) filename extension).bind fun p =>
    (sharer pid p s.configs).map fun other => (p, other)

theorem toldOff_finishUninstall (cid pid : String) (artifact : Option Path) (s : Rt) :
    ToldOff pid s (s.run (finishUninstall cid pid artifact)).2 := by
  have hdelete : SameViews s (s.run (deleteArtifact artifact)).2 ∧ Unheard s (s.run (deleteArtifact artifact)).2 := by
    have hdoes := does_deleteArtifact artifact
    refine ⟨Quietly.same ⟨hdoes.only.mono fun a ha => ?_⟩ s, hdoes.unheard (fun a ha => ?_) s⟩
    · cases a <;> trivial
    · cases a <;> trivial
  have hnotice (u : Rt) : SameViews u (u.run (reportModelUninstalledToControl pid)).2 ∧
      Unheard u (u.run (reportModelUninstalledToControl pid)).2 := by
    refine ⟨(quietly_reportModelUninstalledToControl pid).same u, ?_⟩
    exact (does_reportModelUninstalledToControl pid).unheard (fun a ha => by cases a <;> trivial) u
  unfold finishUninstall
  simp only [run_bind]
  generalize s.run (deleteArtifact artifact) = r at hdelete
  obtain ⟨deleted, t⟩ := r
  have hmodel := hdelete.2.toldOff hdelete.1 (toldOff_reported t pid (some false) false 0 0 (.int 0))
  have hcmd (output : String) := hmodel.unheard ((quietly_reportCommand cid .completed output).same _)
    (reportCommand_unheard _ cid .completed output)
  by_cases hloop : Text.startsWith cid "loopback-" = true
  · simp only [if_pos hloop]
    exact (hcmd _).unheard (hnotice _).1 (hnotice _).2
  · simp only [if_neg hloop]
    exact hcmd _

/-- An uninstall that stops what is served must go through, and the health server
must not name the model. -/
def UninstallAgrees (me : Option ℕ) (s : Rt) (pid : String) (forceStop : Bool) (filename extension : Option String) :
    Prop :=
  forceStop = true → serves s pid = true → ¬Stuck me pid s →
    s.serving ≠ some pid ∧ sharedWith pid filename extension s = none

/-- The locked part of an uninstall that another pipeline is in the way of. -/
theorem removeConfig_shared (cid : String) {pid : String} {filename extension : Option String} {s : Rt} {found : Path × String}
    (h : sharedWith pid filename extension s = some found) :
    ∃ t, s.run (removeConfig cid pid filename extension) = (.error (), t) ∧ SameViews s t ∧ Unheard s t := by
  unfold removeConfig
  simp only [run_locked, run_bind, run_act]
  split
  · exact ⟨_, rfl, (quietly_reportCommand ..).same s, reportCommand_unheard ..⟩
  · rename_i hnone
    exact absurd (h.symm.trans hnone) (Option.some_ne_none found)

/-- The locked part that nothing is in the way of. -/
theorem removeConfig_free (cid : String) {pid : String} {filename extension : Option String} {s : Rt}
    (h : sharedWith pid filename extension s = none) :
    ∃ artifact t, s.run (removeConfig cid pid filename extension) = (.ok artifact, t) ∧
      At pid s t none (s.built pid) ∧ Unheard s t := by
  unfold removeConfig
  simp only [run_locked, run_bind, run_act]
  split
  · rename_i p other hsome
    exact absurd (h.symm.trans hsome).symm (Option.some_ne_none (p, other))
  · have hpop : At pid s (perform (.popConfig pid) s).2 none (s.built pid) := by
      refine ⟨fun q => ?_, fun q => by split_ifs with hq <;> [rw [hq]; skip] <;> rfl⟩
      change ((s.configs.erase pid).get? q).map _ = _
      rw [Dict.get?_erase]
      split_ifs <;> rfl
    refine ⟨_, _, rfl, hpop.performStore (.removePipeline pid), ?_⟩
    exact Unheard.trans (t := (perform (.popConfig pid) s).2) ⟨rfl, fun _ => rfl⟩
      (unheard_perform (a := .store (.removePipeline pid)) trivial _)

/-- The part of an uninstall after the stop. -/
theorem InStep.removeAndFinish {s x : Rt} (h : InStep s) {pid : String} (hx : At pid s x (s.stored pid) none)
    (hu : Unheard s x) (cid : String) (filename extension : Option String)
    (hk : serves s pid = true → s.serving ≠ some pid ∧ sharedWith pid filename extension x = none) :
    InStep (x.run (removeAndFinish cid pid filename extension)).2 := by
  unfold AgentRuntime.removeAndFinish
  rw [run_bind]
  cases hshared : sharedWith pid filename extension x with
  | some found =>
    obtain ⟨t, hrun, hsame, hut⟩ := removeConfig_shared cid hshared
    have hoff : serves s pid = false := by
      by_contra hne
      have hfree := (hk (Bool.eq_true_of_not_eq_false hne)).2
      rw [hshared] at hfree
      cases hfree
    rw [hrun]
    exact h.at_unheard (hx.trans_same hsame) (hu.trans hut) hoff.symm
  | none =>
    obtain ⟨artifact, t, hrun, hat, hut⟩ := removeConfig_free cid hshared
    have hserving : s.serving ≠ some pid := fun hs => (hk (h.someone pid hs)).1 hs
    rw [hrun]
    have hbuilt : x.built pid = none := by rw [hx.built, if_pos rfl]
    rw [hbuilt] at hat
    exact h.toldOff (hx.trans hat) (hu.trans hut) (toldOff_finishUninstall ..) rfl hserving

theorem InStep.uninstallModel {s : Rt} (h : InStep s) (me : Option ℕ) (cid pid : String) (forceStop : Bool)
    (filename extension : Option String) (hk : UninstallAgrees me s pid forceStop filename extension) :
    InStep (s.run (uninstallModel me cid pid forceStop filename extension)).2 := by
  have hbuilt : (s.built pid).isSome = (s.pipelines.get? pid).isSome := by rw [Rt.built, Option.isSome_map]
  unfold AgentRuntime.uninstallModel
  rw [run_bind]
  change InStep (s.run (if ((s.pipelines.get? pid).isSome && !forceStop) = true then _
    else stopIfRunning me pid (s.pipelines.get? pid).isSome >>= _)).2
  split
  · exact h.reportCommand ..
  · rename_i hforce
    rw [run_bind]
    cases hp : (s.pipelines.get? pid).isSome with
    | false =>
      rw [hp] at hbuilt
      have hb : s.built pid = none := Option.isSome_eq_false_iff.mp hbuilt |> Option.isNone_iff_eq_none.mp
      refine h.removeAndFinish (.of_not_running hb) (.refl s) cid filename extension fun hs => ?_
      rw [serves, hb] at hs
      cases hs
    | true =>
      rw [hp, Bool.true_and, Bool.not_eq_true', Bool.not_eq_false] at hforce
      have heff := stopPipeline_effect me pid s
      have hu := unheard_inner (does_stopPipeline me pid) s
      have hconfigs := stopPipeline_configs me pid s
      have hcwd := run_cwd (stopPipeline me pid) s
      simp only [stopIfRunning, ↓reduceIte]
      generalize s.run (stopPipeline me pid) = r at heff hu hconfigs hcwd ⊢
      obtain ⟨b, t⟩ := r
      cases heff with
      | idle hb =>
        rw [hb, hp] at hbuilt
        cases hbuilt
      | stuck hs ht => exact (h.same ht hu).reportCommand ..
      | stopped hs hb ht =>
        refine h.removeAndFinish ht hu cid filename extension fun hserves => ?_
        obtain ⟨hserving, hshared⟩ := hk hforce hserves hs
        refine ⟨hserving, ?_⟩
        rw [← hshared, sharedWith, sharedWith, ht.stored, if_pos rfl]
        exact congrArg₂ (fun cwd configs => (artifactPath ⟨1, cwd⟩ (s.stored pid) filename extension).bind fun p =>
          (sharer pid p configs).map fun other => (p, other)) hcwd hconfigs

/-! ### Deploys -/

/-- The worker comes to its commit. -/
def Commits (j : ℕ) (cmd : DeployModelCommand) (s : Rt) : Prop :=
  Act.setConfig cmd.pipelineId cmd.config ∈ Prog.trace (σ := rtSig) perform (deployWorker j cmd) s

/-- A commit over a running instance must leave its mode as it is. -/
def DeployAgrees (j : ℕ) (cmd : DeployModelCommand) (s : Rt) : Prop :=
  (s.built cmd.pipelineId).isSome = true → Commits j cmd s → serveMode cmd.config = serves s cmd.pipelineId

theorem InStep.deployWorker {s : Rt} (h : InStep s) (j : ℕ) (cmd : DeployModelCommand) (hk : DeployAgrees j cmd s) :
    InStep (s.run (deployWorker j cmd)).2 := by
  let I (t : Rt) : Prop := (∀ q, t.built q = s.built q) ∧ (∀ q, serves t q = serves s q) ∧ Unheard s t
  have hstill {a : Act} (hq : Quiet a) (ha : Silent a) {t : Rt} (ht : I t) : I (perform a t).2 := by
    have hs := sameViews_quiet hq t
    refine ⟨fun q => (congrArg Loc.built (hs.loc q)).trans (ht.1 q), fun q => ?_, ht.2.2.trans (unheard_perform ha t)⟩
    rw [serves_same hs, ht.2.1]
  have hstep (a : Act) (ha : a ∈ Prog.trace (σ := rtSig) perform (AgentRuntime.deployWorker j cmd) s) (t : Rt) (ht : I t) :
      I (perform a t).2 := by
    have hworking : Working j cmd a := (does_deployWorker j cmd).only.trace perform a ha
    cases a with
    | setConfig pid c =>
      obtain ⟨rfl, rfl⟩ := hworking
      have hat := setConfig_at cmd.pipelineId cmd.config t
      refine ⟨fun q => ?_, fun q => ?_, ht.2.2.trans ⟨rfl, fun _ => rfl⟩⟩
      · rw [hat.built, ← ht.1 q]
        split_ifs with hq <;> [rw [hq]; rfl]
      · rw [hat.serves]
        split_ifs with hq
        · subst hq
          rw [ht.1, Option.any_some]
          cases hb : s.built cmd.pipelineId with
          | none =>
            rw [serves, hb]
            rfl
          | some b => exact hk (by rw [hb]; rfl) ha
        · exact ht.2.1 q
    | store op =>
      refine ⟨fun q => (performStore_same op t q).2.trans (ht.1 q), fun q => ?_,
        ht.2.2.trans (unheard_perform (a := .store op) trivial t)⟩
      obtain ⟨hstored, hbuilt⟩ := performStore_same op t q
      change serves (t.performStore op) q = _
      rw [← ht.2.1 q, serves, hstored, hbuilt, serves]
    | report r =>
      refine hstill (a := .report r) trivial ?_ ht
      cases r <;> trivial
    | _ =>
      first
      | exact hworking.elim
      | refine hstill ?_ ?_ ht <;> trivial
  obtain ⟨-, hserves, hu⟩ := Prog.run_keeps_trace perform (σ := rtSig) (I := I) (AgentRuntime.deployWorker j cmd) s hstep
    ⟨fun _ => rfl, fun _ => rfl, Unheard.refl s⟩
  exact h.unheard hu hserves

/-! ### Commands -/

/-- A name of a payload, where it is given. -/
def given (x : Option String) : Option String := x.filter (· ≠ "")

/-- A command that keeps the views in step. Pushes of a whole config are not looked at. -/
def CommandAgrees (V : Validator) (me : Option ℕ) (s : Rt) : Command → Prop
  | .startModel _ pid config => StartAgrees s pid (startOutcome V me pid (some config.modelDump) s)
  | .startModelInference _ pid => InferenceAgrees s pid (startOutcome V me pid none s)
  | .stopModelInference _ pid => s.serving = some pid → Stuck me pid s
  | .startServing cmd => (s.stored cmd.pipelineId).isSome = true → ServingAgrees s cmd.pipelineId
      (startOutcome V me cmd.pipelineId none (s.run (configureServing cmd)).2)
  | .stopServing _ pid => s.serving = some pid → Stuck me pid s ∨ ∀ q, q ≠ pid → serves s q = false
  | .uninstallModel cmd => (given cmd.filenameOnServer).all isSafeBasename = true →
      (given cmd.fileExtension).all isSafeExtension = true →
      UninstallAgrees me s cmd.pipelineId cmd.forceStop (given cmd.filenameOnServer) (given cmd.fileExtension)
  | .updatePipeline cmd => cmd.config.id = cmd.pipelineId → (s.built cmd.pipelineId).isSome = true →
      StartAgrees s cmd.pipelineId (startOutcome V me cmd.pipelineId (some cmd.config.modelDump) s)
  | .updateAgentConfig _ _ => False
  | _ => True

theorem all_of_not_any {x : Option String} {f : String → Bool} (h : ¬(x.any fun n => !f n) = true) : x.all f = true := by
  cases x with
  | none => rfl
  | some n => simpa using h

theorem InStep.uninstallCommand {s : Rt} (h : InStep s) (V : Validator) (me : Option ℕ) (cmd : UninstallModelCommand)
    (hk : CommandAgrees V me s (.uninstallModel cmd)) : InStep (s.run (uninstallCommand me cmd)).2 := by
  unfold AgentRuntime.uninstallCommand
  simp only
  split
  · exact h.reportCommand ..
  rename_i hname
  split
  · exact h.reportCommand ..
  rename_i hext
  exact h.uninstallModel me _ _ _ _ _ (hk (all_of_not_any hname) (all_of_not_any hext))

theorem InStep.dispatch {s : Rt} (h : InStep s) (V : Validator) (me : Option ℕ) (cmd : Command)
    (hk : CommandAgrees V me s cmd) : InStep (s.run (dispatch V me cmd)).2 := by
  cases cmd with
  | deployModel cmd =>
    refine h.same ((quietly_deployModel cmd).same s) ((does_deployModel cmd).unheard (fun a ha => ?_) s)
    cases a with
    | report r => cases r <;> trivial
    | _ => trivial
  | cancelDeploy cid pid =>
    refine h.same ((quietly_cancelDeploy cid pid).same s) ((does_cancelDeploy cid pid).unheard (fun a ha => ?_) s)
    cases a with
    | report r => cases r <;> trivial
    | _ => trivial
  | startModel cid pid config =>
    simp only [AgentRuntime.dispatch, run_bind]
    have hstart := h.startPipeline V me pid _ hk
    split_ifs <;> exact hstart.reportCommand ..
  | startModelInference cid pid =>
    simp only [AgentRuntime.dispatch, run_bind]
    exact h.startModelInference V me cid pid _ _ hk
  | stopModelInference cid pid =>
    simp only [AgentRuntime.dispatch, run_bind]
    exact h.stopModelInference me cid pid _ _ hk
  | startServing cmd => exact h.startServing V me cmd hk
  | stopServing cid pid => exact h.stopServing me cid pid hk
  | uninstallModel cmd => exact h.uninstallCommand V me cmd hk
  | updatePipeline cmd => exact h.updatePipeline V me cmd hk
  | status cid => exact h
  | updateAgent cid =>
    refine h.same ((quietly_updateAgent cid).same s) (Does.unheard (P := Silent) ?_ (fun _ => id) s)
    refine .bind (does_act (a := .canUpdate) trivial) fun able => .ite ?_ (does_act (a := .report (.command _ _ _)) trivial)
    exact .bind (does_act (a := .report (.command _ _ _)) trivial) fun _ => does_act (a := .requestUpdate) trivial
  | updateAgentConfig cid config => exact hk.elim

theorem InStep.handleCommand {s : Rt} (h : InStep s) (V : Validator) (me : Option ℕ) (data : Json)
    (hk : ∀ cmd, V.command (Templating.resolveTemplates (identityContext s.agentConfig.identity) data) = some cmd →
      CommandAgrees V me s cmd) : InStep (s.run (handleCommand V me data)).2 := by
  unfold AgentRuntime.handleCommand
  have hcurrent : perform .getAgentConfig s = (s.agentConfig, s) := rfl
  simp only [run_bind, run_act, hcurrent]
  split
  · rename_i cmd hcmd
    exact h.dispatch V me cmd (hk cmd hcmd)
  · split
    · split_ifs
      · exact h
      · exact h.reportCommand ..
    · exact h

end AgentRuntime
end LocaiLink
