/-
# The serving views along a history

A boot starts what was active, one pipeline after another, and announces it; what
Control was told before the restart stays until then (`Reannounced`). From there
on the views agree after every step of a history whose steps keep them
(`views_agree`). `served_for_inference` has a step that does not: a pipeline that
was served and stopped is started for inference.
-/
import LocaiLink.Runtime.Recovery
import LocaiLink.Runtime.Served

namespace LocaiLink
namespace AgentRuntime

open Rt Code

/-! ### Boots -/

/-- A process that starts on a session file, when Control was told these reports. -/
def bootTold (dev : Device) (session : AgentConfig) (reports : List Report) : Rt :=
  { boot dev session with reports }

/-- What a recovered pipeline is announced for: it serves, or has a model. -/
def announces (c : PipelineConfig) : Bool :=
  serveMode c || truthy ((c.source.args.get? "model_path").getD .null)

/-- The pipeline is started and announced when one of its turns comes. -/
def Reannounced (V : Validator) (pid : String) : List String → Rt → Prop
  | [], _ => False
  | q :: l, s => (q = pid ∧ ∃ c, startOutcome V none q none s = .started c ∧ announces c = true) ∨
      Reannounced V pid l (s.run (recoverOne V q)).2

/-- A start in the recovery is heard of when it succeeds, so it must not lose what
another one served, and what serves must have an id. -/
def RecoverAgrees (s : Rt) (pid : String) : StartOutcome → Prop
  | .kept _ => True
  | .lost => serves s pid = false
  | .started c => serveMode c = true → pid ≠ ""

def RecoveryAgrees (V : Validator) : List String → Rt → Prop
  | [], _ => True
  | q :: l, s => RecoverAgrees s q (startOutcome V none q none s) ∧ RecoveryAgrees V l (s.run (recoverOne V q)).2

/-- In a recovery with these pipelines to go: the views agree but for what is still
to be announced. -/
structure InRecovery (V : Validator) (l : List String) (s : Rt) : Prop where
  someone : ∀ pid, s.serving = some pid → serves s pid = true
  nobody : s.serving = none → ∀ pid, serves s pid = false
  told : ∀ pid, ¬Reannounced V pid l s → lastServing s.reports pid = serves s pid
  silent : lastServing s.reports "" = false

/-- What `reannounce` does for a stored config. -/
theorem run_reannounce {pid : String} {s : Rt} {c : PipelineConfig} (hc : s.stored pid = some c) :
    (s.run (reannounce pid)).2 =
      if serveMode c then
        (perform (.setServing (some pid))
          (reported (.model pid none false 0 true 1 ((c.source.args.get? "port").getD (.int 0))) s)).2
      else if truthy ((c.source.args.get? "model_path").getD .null) then
        reported (.model pid none true 1 false 0 (.int 0)) s
      else s := by
  have hget : perform (.getConfig pid) s = (some c, s) := by
    rw [← hc]
    rfl
  unfold reannounce
  rw [run_bind, run_act, hget]
  change (s.run (if ((c.source.args.get? "mode").getD .null).eq (.str "serve") = true then _
    else if truthy ((c.source.args.get? "model_path").getD .null) = true then _ else _)).2 = _
  unfold serveMode
  split_ifs <;> rfl

/-- The model flags after a report of one model. -/
theorem told_reported {s : Rt} (pid : String) (h : lastServing s.reports "" = false) (installed : Option Bool)
    (running : Bool) (n : ℕ) (serving : Bool) (m : ℕ) (port : Json) (hon : serving = true → pid ≠ "") (q : String) :
    lastServing (reported (.model pid installed running n serving m port) s).reports q =
      if q = pid then serving else lastServing s.reports q := by
  rw [lastServing_model]
  by_cases hpid : pid = ""
  · have hoff : serving = false := Bool.eq_false_iff.mpr fun hs => hon hs hpid
    split_ifs with h1 h2 h2
    · rfl
    · exact absurd h1.1 h2
    · rw [h2, hpid, h, hoff]
    · rfl
  · simp only [hpid, ne_eq, not_false_eq_true, and_true]

/-- One pipeline of the recovery. -/
theorem InRecovery.step {V : Validator} {q : String} {l : List String} {s : Rt} (h : InRecovery V (q :: l) s)
    (hk : RecoverAgrees s q (startOutcome V none q none s)) : InRecovery V l (s.run (recoverOne V q)).2 := by
  have hlater {pid : String} (hpid : ¬Reannounced V pid l (s.run (recoverOne V q)).2)
      (hnow : ¬(q = pid ∧ ∃ c, startOutcome V none q none s = .started c ∧ announces c = true)) :
      lastServing s.reports pid = serves s pid := h.told pid fun hre => hre.elim hnow hpid
  have heff := startPipeline_effect V none q none s
  have hu := unheard_inner (does_startPipeline V none q none) s
  have hstored := startOutcome_stored V none q s
  unfold recoverOne at hlater ⊢
  rw [run_bind] at hlater ⊢
  generalize startOutcome V none q none s = o at heff hk hstored hlater
  generalize s.run (startPipeline V none q none) = r at heff hu hlater ⊢
  obtain ⟨b, t⟩ := r
  cases heff with
  | kept ht =>
    obtain rfl : b = false := hstored
    have hserves := serves_same ht
    refine ⟨fun pid hs => ?_, fun hn pid => ?_, fun pid hpid => ?_, ?_⟩
    · exact (hserves pid).trans (h.someone pid (hu.serving ▸ hs))
    · exact (hserves pid).trans (h.nobody (hu.serving ▸ hn) pid)
    · refine (hu.told pid).trans ((hlater hpid ?_).trans (hserves pid).symm)
      rintro ⟨-, c, hc, -⟩
      cases hc
    · exact (hu.told "").trans h.silent
  | lost ht =>
    have hoff : serves s q = false := hk
    have hserves (pid : String) : serves t pid = serves s pid := by
      rw [ht.serves]
      split_ifs with hq
      · rw [hq, hoff]
        rfl
      · rfl
    refine ⟨fun pid hs => ?_, fun hn pid => ?_, fun pid hpid => ?_, ?_⟩
    · exact (hserves pid).trans (h.someone pid (hu.serving ▸ hs))
    · exact (hserves pid).trans (h.nobody (hu.serving ▸ hn) pid)
    · refine (hu.told pid).trans ((hlater hpid ?_).trans (hserves pid).symm)
      rintro ⟨-, c, hc, -⟩
      cases hc
    · exact (hu.told "").trans h.silent
  | @started c t ht =>
    have hserves (pid : String) : serves t pid = if pid = q then serveMode c else serves s pid := by
      rw [ht.serves]
      rfl
    have hsilent : lastServing t.reports "" = false := (hu.told "").trans h.silent
    have hc : t.stored q = some c := by rw [ht.stored, if_pos rfl]
    have hrun := run_reannounce hc
    simp only [↓reduceIte] at hlater ⊢
    rw [hrun] at hlater ⊢
    cases hmode : serveMode c with
    | true =>
      simp only [hmode, ↓reduceIte] at hlater hserves ⊢
      have htold := told_reported q hsilent none false 0 true 1 ((c.source.args.get? "port").getD (.int 0)) fun _ => hk hmode
      let r : Report := .model q none false 0 true 1 ((c.source.args.get? "port").getD (.int 0))
      have hreported : SameViews t (reported r t) := sameViews_quiet (a := .report r) trivial t
      have hviews : SameViews t (perform (.setServing (some q)) (reported r t)).2 :=
        hreported.trans ⟨rfl, rfl, rfl, rfl⟩
      refine ⟨fun pid hs => ?_, fun hn => (Option.some_ne_none q hn).elim, fun pid hpid => ?_, ?_⟩
      · obtain rfl : q = pid := Option.some.inj hs
        exact (serves_same hviews q).trans ((hserves q).trans (if_pos rfl))
      · refine (htold pid).trans (Eq.trans ?_ ((serves_same hviews pid).trans (hserves pid)).symm)
        split_ifs with hq
        · rfl
        · exact (hu.told pid).trans (hlater hpid fun hre => hq hre.1.symm)
      · refine (htold "").trans ?_
        rw [if_neg (Ne.symm (hk hmode)), hsilent]
    | false =>
      -- the stored config has another mode, so this one was not served before
      have hoff : serves s q = false := by
        by_contra hne
        rw [serves_of_stored hstored (Bool.eq_true_of_not_eq_false hne)] at hmode
        cases hmode
      have hsame (pid : String) : serves t pid = serves s pid := by
        rw [hserves, hmode]
        split_ifs with hq
        · rw [hq, hoff]
        · rfl
      simp only [hmode, Bool.false_eq_true, ↓reduceIte] at hlater ⊢
      by_cases hpath : truthy ((c.source.args.get? "model_path").getD .null) = true
      · simp only [hpath, ↓reduceIte] at hlater ⊢
        have hviews := (toldOff_reported t q none true 1 0 (.int 0))
        have htold := told_reported q hsilent none true 1 false 0 (.int 0) fun hf => by cases hf
        refine ⟨fun pid hs => ?_, fun hn pid => ?_, fun pid hpid => ?_, ?_⟩
        · rw [hviews.serving] at hs
          rw [serves_same hviews.views, hsame]
          exact h.someone pid (hu.serving ▸ hs)
        · rw [hviews.serving] at hn
          rw [serves_same hviews.views, hsame]
          exact h.nobody (hu.serving ▸ hn) pid
        · rw [serves_same hviews.views, hsame, htold]
          split_ifs with hq
          · rw [hq, hoff]
          · exact (hu.told pid).trans (hlater hpid fun hre => hq hre.1.symm)
        · rw [htold]
          split_ifs
          · rfl
          · exact hsilent
      · simp only [hpath, Bool.false_eq_true, ↓reduceIte] at hlater ⊢
        refine ⟨fun pid hs => ?_, fun hn pid => ?_, fun pid hpid => ?_, hsilent⟩
        · exact (hsame pid).trans (h.someone pid (hu.serving ▸ hs))
        · exact (hsame pid).trans (h.nobody (hu.serving ▸ hn) pid)
        · refine (hu.told pid).trans ((hlater hpid ?_).trans (hsame pid).symm)
          rintro ⟨-, c', hc', hann⟩
          cases hc'
          rw [announces, hmode, Bool.false_or] at hann
          exact hpath hann

theorem InRecovery.recoverActive {V : Validator} : ∀ {l : List String} {s : Rt}, InRecovery V l s →
    RecoveryAgrees V l s → InStep (s.run (recoverActive V l)).2
  | [], _, h, _ => ⟨h.someone, h.nobody, fun pid => h.told pid id, h.silent⟩
  | q :: l, s, h, hk => by
    simp only [AgentRuntime.recoverActive, run_bind]
    exact (h.step hk.1).recoverActive hk.2

/-- The state of a booting process once the saved configs are entered. -/
def enteredTold (dev : Device) (session : AgentConfig) (reports : List Report) : Rt :=
  ((bootTold dev session reports).run (recoverConfigs session.pipelines)).2

/-- A boot after which the views agree: each start of the recovery keeps them, and
what Control was told to be serving is announced again. -/
structure BootAgrees (V : Validator) (dev : Device) (session : AgentConfig) (reports : List Report) : Prop where
  recovery : RecoveryAgrees V (activeIds session) (enteredTold dev session reports)
  announced : ∀ pid, lastServing reports pid = true →
    Reannounced V pid (activeIds session) (enteredTold dev session reports)

def resumeTold (V : Validator) (dev : Device) (session : AgentConfig) (reports : List Report) : Rt :=
  ((bootTold dev session reports).run (run V)).2

theorem recoverConfigs_unheard (l : List PipelineConfig) (s : Rt) : Unheard s (s.run (recoverConfigs l)).2 := by
  have hdoes : ∀ l : List PipelineConfig, Does Inner (recoverConfigs l) := by
    intro l
    induction l with
    | nil => exact does_pure _
    | cons p l ih => exact .bind (does_act (a := .setConfig p.id p) trivial) fun _ => ih
  exact unheard_inner (hdoes l) s

theorem InStep.resumeTold {V : Validator} {dev : Device} {session : AgentConfig} {reports : List Report}
    (hsilent : lastServing reports "" = false) (hk : BootAgrees V dev session reports) :
    InStep (resumeTold V dev session reports) := by
  obtain ⟨-, hpipes, -⟩ := recoverConfigs_spec session.pipelines (bootTold dev session reports)
  have hu := recoverConfigs_unheard session.pipelines (bootTold dev session reports)
  have hoff (pid : String) : serves (enteredTold dev session reports) pid = false := by
    have hb : (enteredTold dev session reports).built pid = none := by
      rw [enteredTold, Rt.built, hpipes]
      rfl
    rw [serves, hb]
    rfl
  have hnone : (enteredTold dev session reports).serving = none := hu.serving
  have hstart : InRecovery V (activeIds session) (enteredTold dev session reports) := by
    refine ⟨fun pid hs => ?_, fun _ => hoff, fun pid hpid => ?_, (hu.told "").trans hsilent⟩
    · rw [hnone] at hs
      cases hs
    · refine ((hu.told pid).trans ?_).trans (hoff pid).symm
      exact Bool.eq_false_iff.mpr fun ht => hpid (hk.announced pid ht)
  have hrec := hstart.recoverActive hk.recovery
  unfold AgentRuntime.resumeTold AgentRuntime.run
  rw [run_bind]
  change InStep ((bootTold dev session reports).run (do
    recoverConfigs session.pipelines
    recoverActive V (activeIds session)
    act (.report (.lifecycle true))
    flushPendingUninstallReports)).2
  simp only [run_bind]
  have hafter (s : Rt) : SameViews s (s.run (do
      act (.report (.lifecycle true))
      flushPendingUninstallReports)).2 ∧ Unheard s (s.run (do
      act (.report (.lifecycle true))
      flushPendingUninstallReports)).2 := by
    refine ⟨Quietly.same (.bind (quietly_act (a := .report (.lifecycle true)) trivial) fun _ => quietly_flushPendingUninstallReports) s, ?_⟩
    refine Does.unheard (P := Silent) (.bind (does_act (a := .report (.lifecycle true)) trivial) fun _ => ?_) (fun _ => id) s
    exact does_flushPendingUninstallReports.mono fun a ha => by cases a <;> trivial
  exact hrec.same (hafter _).1 (hafter _).2

/-! ### Histories -/

/-- One event, handled to its end. Control keeps what it was told before a boot. -/
def Event.applyTold (V : Validator) : Event → Rt → Option Rt
  | .boot zenoh oracle, s => (s.store.bind (·.disk)).map fun session =>
      resumeTold V ⟨zenoh, s.files, s.cwd, s.pending, oracle⟩ session s.reports
  | e, s => e.apply V s

def historyTold (V : Validator) : Rt → List Event → Option Rt
  | s, [] => some s
  | s, e :: es => (e.applyTold V s).bind fun t => historyTold V t es

/-- An event that keeps the views in step, in the state before it. -/
def Event.Agrees (V : Validator) : Event → Rt → Prop
  | .command me data, s => ∀ cmd, V.command
      (Templating.resolveTemplates (identityContext s.agentConfig.identity) data) = some cmd → CommandAgrees V me s cmd
  | .worker j, s => DeployAgrees j (s.jobs j).cmd (s.setJob j fun t => { t with entered := true })
  | .boot zenoh oracle, s => ∀ session, s.store.bind (·.disk) = some session →
      BootAgrees V ⟨zenoh, s.files, s.cwd, s.pending, oracle⟩ session s.reports

def AgreeAlong (V : Validator) : Rt → List Event → Prop
  | _, [] => True
  | s, e :: es => e.Agrees V s ∧ ∀ t, e.applyTold V s = some t → AgreeAlong V t es

/-- One event. -/
theorem InStep.event {V : Validator} {e : Event} {s t : Rt} (h : InStep s) (hk : e.Agrees V s)
    (ht : e.applyTold V s = some t) : InStep t := by
  cases e with
  | command me data =>
    obtain rfl := Option.some.inj ht
    exact h.handleCommand V me data hk
  | worker j =>
    simp only [Event.applyTold, Event.apply, Option.ite_none_right_eq_some, Option.some.injEq] at ht
    obtain ⟨-, rfl⟩ := ht
    have hentered : InStep (s.setJob j fun t => { t with entered := true }) := ⟨h.someone, h.nobody, h.told, h.silent⟩
    exact hentered.deployWorker j (s.jobs j).cmd hk
  | boot zenoh oracle =>
    obtain ⟨session, hsession, rfl⟩ := Option.map_eq_some_iff.mp ht
    exact InStep.resumeTold h.silent (hk session hsession)

theorem InStep.history {V : Validator} : ∀ {es : List Event} {s t : Rt}, InStep s → AgreeAlong V s es →
    historyTold V s es = some t → InStep t
  | [], _, _, h, _, ht => Option.some.inj ht ▸ h
  | e :: es, s, t, h, hk, ht => by
    obtain ⟨u, hu, ht⟩ := Option.bind_eq_some_iff.mp ht
    exact (h.event hk.1 hu).history (hk.2 u hu) ht

/-- **The serving views agree** after a boot and every history of commands, deploys
and boots whose steps keep them. -/
theorem views_agree (V : Validator) (dev : Device) (session : AgentConfig) (hboot : BootAgrees V dev session [])
    (es : List Event) (hk : AgreeAlong V (resumeTold V dev session []) es) (s : Rt)
    (hist : historyTold V (resumeTold V dev session []) es = some s) : ViewsAgree s :=
  ((InStep.resumeTold rfl hboot).history hk hist).viewsAgree

/-- A device with one model, which does not run. -/
def modelDevice : AgentConfig := deviceConfig [commandCenter, modelConfig "m" false]

def modelCommand (type : String) : Event := .command none (command type [("pipeline_id", .str "m")])

/-- The device boots and serves `m`. -/
theorem views_agree_serving : ∃ s, historyTold .strict (resumeTold .strict plainDevice modelDevice [])
      [modelCommand "START_SERVING"] = some s ∧ ViewsAgree s := by
  refine ⟨_, rfl, views_agree .strict plainDevice modelDevice ⟨⟨fun _ => ?_, trivial⟩, fun pid h => ?_⟩
    [modelCommand "START_SERVING"] ⟨fun cmd hcmd => ?_, fun _ _ => trivial⟩ _ rfl⟩
  · decide
  · cases h
  · obtain rfl := Option.some.inj hcmd
    have hm : "m" ≠ "" := by decide
    exact fun _ => hm

/-- The device boots, serves `m` and stops it, and starts it for inference: it runs
in the mode it was left in. -/
theorem served_for_inference : ∃ s, historyTold .strict (resumeTold .strict plainDevice modelDevice [])
      [modelCommand "START_SERVING", modelCommand "STOP_SERVING", modelCommand "START_MODEL_INFERENCE"] = some s ∧
    ¬ViewsAgree s := by
  refine ⟨_, rfl, fun h => ?_⟩
  have hflag := h.flag.mpr ⟨"m", rfl⟩
  cases hflag

end AgentRuntime
end LocaiLink
