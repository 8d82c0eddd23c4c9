/-
# What the code of the commands is made of

Starting, stopping and configuring pipelines is made of `Inner` actions, and a
download of `Fetching` ones; neither sends the report of a command, announces a
model or changes what is served, and neither enters or removes a worker. So a
command's handler does these things only where it is written out to do them. A
deploy thread as a whole is `Working`: what it does about a pipeline, a worker or
a job is about its own.
-/
import LocaiLink.Base.Ghost
import LocaiLink.Runtime.Commands

namespace LocaiLink
namespace AgentRuntime

open Code

/-- The actions of `_start_pipeline`, `_stop_pipeline` and `apply_agent_config`. -/
def Inner : Act → Prop
  | .getAgentConfig | .getConfig _ | .getConfigs | .setConfig _ _ | .getPipe _ | .setPipe _ _ | .popPipe _
  | .setAgentConfig _ | .publishConfigs _ | .createComponent _ | .rebuildHandlers _ _ | .newPipeline _
  | .startThread _ | .stop _ | .join _ _ | .isAlive _ | .store _ | .snapshot | .postConfig _
  | .requestConfigRestart | .setOrder _ | .validationText => True
  | _ => False

/-- The actions of a download: files, the reply, and what it shows of its progress. -/
def Fetching (j : ℕ) (cmd : DeployModelCommand) : Act → Prop
  | .lookup _ | .unlink _ | .create _ | .append _ _ | .download _ => True
  | .isCancelled i => i = j
  | .attachResponse pid cid _ => pid = cmd.pipelineId ∧ cid = cmd.id
  | .setDeployment pid _ _ _ | .report (.deploymentProgress pid _ _ _ _) => pid = cmd.pipelineId
  | _ => False

/-- The actions of a download that ends in an artifact or in the report of the command. -/
def Publishing (j : ℕ) (cmd : DeployModelCommand) : Act → Prop
  | .replace _ _ => True
  | .report (.command cid _ _) => cid = cmd.id
  | a => Fetching j cmd a

/-- The actions of a deploy thread. -/
def Working (j : ℕ) (cmd : DeployModelCommand) : Act → Prop
  | .cwd | .getAgentConfig | .mkdir _ => True
  | .endJob i => i = j
  | .dropWorker pid cid => pid = cmd.pipelineId ∧ cid = cmd.id
  | .setConfig pid c => pid = cmd.pipelineId ∧ c = cmd.config
  | .store op => op = .updatePipelineConfig cmd.config
  | a => Publishing j cmd a

theorem Fetching.publishing {j : ℕ} {cmd : DeployModelCommand} {a : Act} (h : Fetching j cmd a) :
    Publishing j cmd a := by
  cases a with
  | report r => cases r <;> first | exact h | exact h.elim
  | _ => first | exact h | exact h.elim

theorem Publishing.working {j : ℕ} {cmd : DeployModelCommand} {a : Act} (h : Publishing j cmd a) :
    Working j cmd a := by
  cases a with
  | report r => exact h
  | _ => first | exact h | exact h.elim

/-- Code of `P` actions only. -/
structure Does (P : Act → Prop) {α : Type} (p : Code α) : Prop where
  only : Prog.Only (σ := rtSig) P p

section Does

variable {P : Act → Prop} {α β : Type}

theorem Does.mono {Q : Act → Prop} {p : Code α} (h : Does P p) (hPQ : ∀ a, P a → Q a) : Does Q p :=
  ⟨h.only.mono hPQ⟩

theorem does_pure (a : α) : Does P (pure a : Code α) := ⟨trivial⟩

theorem does_act {a : Act} (h : P a) : Does P (act a) := ⟨(Prog.only_call (σ := rtSig) a).mpr h⟩

theorem Does.bind {p : Code α} {f : α → Code β} (h : Does P p) (hf : ∀ a, Does P (f a)) : Does P (p >>= f) :=
  ⟨h.only.bind fun a => (hf a).only⟩

theorem Does.locked {p : Code α} (h : Does P p) (l : Lock) : Does P (Code.locked l p) :=
  ⟨Prog.Only.locked (σ := rtSig) h.only l⟩

theorem Does.ite {c : Prop} [Decidable c] {p q : Code α} (hp : Does P p) (hq : Does P q) :
    Does P (if c then p else q) :=
  ⟨hp.only.ite hq.only⟩

theorem Does.raising {x : Raising α} {f : α → Raising β} (h : Does P x.run) (hf : ∀ a, Does P (f a).run) :
    Does P (x >>= f).run :=
  h.bind fun r => match r with
    | .ok a => hf a
    | .error _ => does_pure _

theorem does_lift {p : Code α} (h : Does P p) : Does P (liftM p : Raising α).run :=
  h.bind fun _ => does_pure _

theorem does_raise {p : Code (Option String)} (h : Does P p) : Does P (raise p).run :=
  Does.raising (does_lift h) fun r => match r with
    | some _ => does_pure _
    | none => does_pure _

end Does

/-! ### Starting, stopping, configuring -/

theorem does_stopPipeline (me : Option ℕ) (pid : String) : Does Inner (stopPipeline me pid) := by
  refine .locked (.bind (.locked (does_act (a := .getPipe pid) trivial) _) fun pipe => ?_) _
  cases pipe with
  | none => exact does_pure _
  | some pipe =>
    refine .bind (does_act (a := .stop _) trivial) fun _ => .bind (does_act (a := .join _ _) trivial) fun _ => ?_
    refine .bind (does_act (a := .isAlive _) trivial) fun alive => ?_
    refine Does.ite (does_pure _) ?_
    refine .bind (.locked (does_act (a := .popPipe pid) trivial) _) fun _ => ?_
    exact .bind (does_act (a := .store _) trivial) fun _ => does_pure _

theorem does_stopIfRunning (me : Option ℕ) (pid : String) (running : Bool) :
    Does Inner (stopIfRunning me pid running) :=
  .ite (does_stopPipeline me pid) (does_pure _)

theorem does_createComponents (c : PipelineConfig) : Does Inner (createComponents c) := by
  refine .bind (does_act (a := .createComponent _) trivial) fun r => ?_
  cases r with
  | some e => exact does_pure _
  | none =>
    cases c.sink with
    | none => exact does_pure _
    | some sink => exact does_act (a := .createComponent sink) trivial

theorem does_carryOut (me : Option ℕ) (pid : String) (plan : Plan) : Does Inner (carryOut me pid plan) := by
  refine .bind (does_stopIfRunning me pid _) fun done => Does.ite ?_ (does_pure _)
  refine .bind (does_createComponents _) fun r => ?_
  cases r with
  | some e => exact does_pure _
  | none =>
    refine .bind (does_act (a := .newPipeline _) trivial) fun pipe => .bind (.locked ?_ _) fun _ => ?_
    · have hset : Does Inner (act (.setPipe pid pipe)) := does_act trivial
      cases plan.pending with
      | none => exact hset
      | some c => exact .bind (does_act (a := .setConfig pid c) trivial) fun _ => hset
    · refine .bind (does_act (a := .startThread _) trivial) fun _ => ?_
      refine .bind (does_act (a := .store _) trivial) fun _ => ?_
      exact .bind (does_act (a := .store _) trivial) fun _ => does_pure _

theorem does_startPipeline (V : Validator) (me : Option ℕ) (pid : String) (data : Option Json) :
    Does Inner (startPipeline V me pid data) := by
  have hplan : Does Inner (planStart V pid data) :=
    .bind (does_act (a := .getConfig pid) trivial) fun _ =>
      .bind (does_act (a := .getPipe pid) trivial) fun _ => does_pure _
  refine .locked (.bind (.locked hplan _) fun plan => ?_) _
  cases plan with
  | error b => exact does_pure _
  | ok plan => exact does_carryOut me pid plan

theorem does_stopRemoved (me : Option ℕ) : ∀ l : List String, Does Inner (stopRemoved me l)
  | [] => does_pure _
  | pid :: l => .bind (does_stopPipeline me pid) fun _ => .ite (does_stopRemoved me l) (does_pure _)

theorem does_startActive (V : Validator) (me : Option ℕ) : ∀ l : List PipelineConfig, Does Inner (startActive V me l)
  | [] => does_pure _
  | p :: l => by
    have ih := does_startActive V me l
    refine Does.ite (.bind (does_startPipeline ..) fun _ => .ite ih (does_pure _)) ?_
    refine .bind (does_act (a := .getPipe _) trivial) fun pipe => Does.ite ?_ ih
    exact .bind (does_stopPipeline me _) fun _ => .ite ih (does_pure _)

theorem does_applyConfig (V : Validator) (me : Option ℕ) (target previous : AgentConfig) :
    Does Inner (applyConfig V me target previous) := by
  have hswap : Does Inner (diffAndSwapPipelines V me previous target) := by
    refine .bind (does_act (a := .setOrder _) trivial) fun removed => .bind (does_stopRemoved me removed) fun r => ?_
    cases r with
    | error e => exact does_pure _
    | ok _ => exact does_startActive V me _
  refine .locked (.bind hswap fun r => ?_) _
  cases r with
  | error e => exact does_pure _
  | ok _ =>
    refine .locked (.bind (does_act (a := .rebuildHandlers _ _) trivial) fun r => ?_) _
    cases r with
    | some e => exact does_pure _
    | none =>
      refine .bind (does_act (a := .setAgentConfig _) trivial) fun _ => ?_
      exact .bind (does_act (a := .publishConfigs _) trivial) fun _ => does_pure _

theorem does_revert (V : Validator) (me : Option ℕ) (newCfg snapshotCfg : AgentConfig)
    (snapshotState : Option AgentConfig) (e : String) : Does Inner (revert V me newCfg snapshotCfg snapshotState e) := by
  refine .bind (does_applyConfig ..) fun r => ?_
  cases r with
  | ok _ =>
    refine .bind ?_ fun _ => does_pure _
    cases snapshotState with
    | none => exact does_pure _
    | some d => exact does_act (a := .store _) trivial
  | error e =>
    refine .bind (does_act (a := .store _) trivial) fun _ => ?_
    exact .bind (does_act (a := .requestConfigRestart) trivial) fun _ => does_pure _

theorem does_swapTo (V : Validator) (me : Option ℕ) (newCfg : AgentConfig) : Does Inner (swapTo V me newCfg) := by
  refine .bind (does_act (a := .getAgentConfig) trivial) fun current => ?_
  refine .bind (does_act (a := .snapshot) trivial) fun saved => .bind (does_applyConfig ..) fun r => ?_
  cases r with
  | ok _ =>
    refine .bind (does_act (a := .store _) trivial) fun _ => ?_
    exact .bind (does_act (a := .postConfig _) trivial) fun _ => does_pure _
  | error e => exact does_revert ..

theorem does_guardConfig (V : Validator) (current : AgentConfig) (resolved : Json) :
    Does Inner (guardConfig V current resolved) := by
  refine Does.ite ?_ (does_pure _)
  cases V.agentConfig resolved with
  | none => exact .bind (does_act (a := .validationText) trivial) fun _ => does_pure _
  | some newCfg => exact Does.ite (does_pure _) (.ite (does_pure _) (does_pure _))

theorem does_applyAgentConfig (V : Validator) (me : Option ℕ) (raw : Json) :
    Does Inner (applyAgentConfig V me raw) := by
  refine .bind (does_act (a := .getAgentConfig) trivial) fun current => .bind (does_guardConfig ..) fun r => ?_
  cases r with
  | error e => exact does_pure _
  | ok newCfg => exact does_swapTo V me newCfg

/-! ### Deploying -/

section Deploy

variable (j : ℕ) (cmd : DeployModelCommand)

theorem does_cleanupPartial (p : Path) : Does (Fetching j cmd) (cleanupPartial p) :=
  .bind (does_act (a := .lookup p) trivial) fun _ =>
    .ite (.bind (does_act (a := .unlink p) trivial) fun _ => does_pure _) (does_pure _)

theorem does_reportProgress (stage : Stage) (progress done total : ℕ) :
    Does (Fetching j cmd) (reportProgress cmd.pipelineId stage progress done total) :=
  does_act (a := .report (.deploymentProgress cmd.pipelineId stage progress done total)) rfl

theorem does_setDeployment (stage : Stage) (progress : ℕ) (name : String) :
    Does (Fetching j cmd) (act (.setDeployment cmd.pipelineId stage progress name)) :=
  does_act (a := .setDeployment cmd.pipelineId stage progress name) rfl

theorem does_isCancelled : Does (Fetching j cmd) (act (.isCancelled j)) := does_act (a := .isCancelled j) rfl

theorem does_attachResponse (r : Option ℕ) : Does (Fetching j cmd) (attachResponse cmd.pipelineId cmd.id r) :=
  .locked (does_act (a := .attachResponse cmd.pipelineId cmd.id r) ⟨rfl, rfl⟩) _

theorem does_writeChunks (p : Path) (total : ℕ) :
    ∀ (chunks : List Bytes) (done : ℕ) (last : ℤ),
      Does (Fetching j cmd) (writeChunks j cmd p total chunks done last).run
  | [], _, _ => does_pure _
  | chunk :: chunks, done, last => by
    have ih := does_writeChunks p total chunks
    unfold writeChunks
    refine .raising (does_lift (does_isCancelled j cmd)) fun c => ?_
    cases c with
    | true => exact does_pure _
    | false =>
      refine .raising (does_raise (does_act (a := .append _ _) trivial)) fun _ => ?_
      simp only
      split
      · refine .raising (does_lift (does_reportProgress j cmd ..)) fun _ => ?_
        exact .raising (does_lift (does_setDeployment j cmd ..)) fun _ => ih ..
      · exact ih ..

theorem does_fetch (url : String) (p : Path) : Does (Fetching j cmd) (fetch j cmd url p).run := by
  refine .raising (does_act (a := .download url) trivial) fun r => ?_
  refine .raising (does_lift (does_attachResponse j cmd (some j))) fun _ => ?_
  refine .raising (does_raise (does_pure _)) fun _ => ?_
  refine .raising (does_pure r.length) fun total => ?_
  refine .raising (does_lift (does_reportProgress j cmd ..)) fun _ => ?_
  refine .raising (does_lift (does_setDeployment j cmd ..)) fun _ => ?_
  refine .raising (does_raise (does_act (a := .create _) trivial)) fun _ => ?_
  refine .raising (does_writeChunks ..) fun w => ?_
  obtain ⟨cancelled, done⟩ := w
  cases cancelled with
  | true => exact does_pure _
  | false => exact .raising (does_raise (does_pure _)) fun _ => does_pure _

theorem Does.publishing {α : Type} {p : Code α} (h : Does (Fetching j cmd) p) : Does (Publishing j cmd) p :=
  h.mono fun _ => Fetching.publishing

theorem Does.working {α : Type} {p : Code α} (h : Does (Publishing j cmd) p) : Does (Working j cmd) p :=
  h.mono fun _ => Publishing.working

theorem does_reportCommand (status : Status) (output : String) :
    Does (Publishing j cmd) (reportCommand cmd.id status output) :=
  does_act (a := .report (.command cmd.id status output)) rfl

theorem does_reportCancelled : Does (Publishing j cmd) (reportCancelled cmd) :=
  (does_reportProgress j cmd ..).publishing.bind fun _ =>
    (does_setDeployment j cmd ..).publishing.bind fun _ => does_reportCommand j cmd ..

theorem does_downloadAndPublish (url : String) (target p : Path) :
    Does (Publishing j cmd) (downloadAndPublish j cmd url target p).run := by
  have hclean : Does (Publishing j cmd) (cleanupPartial p) := (does_cleanupPartial j cmd p).publishing
  have hcancelled : Does (Publishing j cmd) (reportCancelled cmd) := does_reportCancelled j cmd
  have hattach : Does (Publishing j cmd) (attachResponse cmd.pipelineId cmd.id none) :=
    (does_attachResponse j cmd none).publishing
  have hset : Does (Publishing j cmd) (act (.setDeployment cmd.pipelineId .completed 0 cmd.modelName)) :=
    (does_setDeployment j cmd ..).publishing
  have hasked : Does (Publishing j cmd) (act (.isCancelled j)) := (does_isCancelled j cmd).publishing
  refine .raising (does_lift hclean) fun _ => ?_
  refine .raising (does_lift (does_fetch j cmd url p).publishing) fun r => ?_
  cases r with
  | error e =>
    refine .raising (does_lift hasked) fun c => ?_
    cases c with
    | true =>
      refine .raising (does_lift hattach) fun _ => .raising (does_lift hclean) fun _ => ?_
      exact .raising (does_lift hcancelled) fun _ => does_pure _
    | false =>
      refine .raising (does_lift hclean) fun _ => .raising (does_lift (does_reportCommand j cmd ..)) fun _ => ?_
      exact .raising (does_lift hset) fun _ => .raising (does_lift hattach) fun _ => does_pure _
  | ok w =>
    obtain ⟨cancelled, total, done⟩ := w
    refine .raising (does_lift hattach) fun _ => ?_
    cases cancelled with
    | true => exact .raising (does_lift hclean) fun _ => .raising (does_lift hcancelled) fun _ => does_pure _
    | false =>
      simp only [Bool.false_eq_true, ↓reduceIte]
      split
      · refine .raising (does_lift hclean) fun _ => .raising (does_lift (does_reportCommand j cmd ..)) fun _ => ?_
        exact .raising (does_lift hset) fun _ => does_pure _
      · refine .raising (does_lift hasked) fun c => ?_
        cases c with
        | true => exact .raising (does_lift hclean) fun _ => .raising (does_lift hcancelled) fun _ => does_pure _
        | false => exact .raising (does_raise (does_act (a := .replace p target) trivial)) fun _ => does_pure _

theorem does_commitDeploy : Does (Working j cmd) (commitDeploy j cmd) := by
  refine (does_reportProgress j cmd ..).publishing.working.bind fun _ => ?_
  refine (does_setDeployment j cmd ..).publishing.working.bind fun _ => Does.locked (Does.locked ?_ _) _
  refine (does_isCancelled j cmd).publishing.working.bind fun c => .ite (does_pure _) ?_
  refine .bind (does_act (a := .setConfig cmd.pipelineId cmd.config) ⟨rfl, rfl⟩) fun _ => ?_
  exact .bind (does_act (a := .store (.updatePipelineConfig cmd.config)) rfl) fun _ => does_pure _

theorem does_deploySteps : Does (Working j cmd) (deploySteps j cmd).run := by
  refine .raising (does_lift (does_act (a := .cwd) trivial)) fun cwd => ?_
  refine .raising (does_raise (does_act (a := .mkdir _) trivial)) fun _ => ?_
  simp only
  split
  · exact does_pure _
  refine .raising (does_lift (does_act (a := .getAgentConfig) trivial)) fun current => ?_
  refine .raising (does_lift (p := downloadLockFor cmd.modelName) (Does.locked (does_pure _) _)) fun lock => ?_
  refine Does.raising (x := lockedRaising lock _) (Does.locked ?_ _) fun there => ?_
  · refine .raising (does_lift (does_isCancelled j cmd).publishing.working) fun c => ?_
    cases c with
    | true => exact .raising (does_lift (does_reportCancelled j cmd).working) fun _ => does_pure _
    | false =>
      refine .raising (does_lift (does_act (a := .lookup _) trivial)) fun n => ?_
      cases n with
      | some n => exact does_pure _
      | none => exact (does_downloadAndPublish ..).working
  · cases there with
    | false => exact does_pure _
    | true =>
      refine .raising (does_lift (does_commitDeploy j cmd)) fun done => ?_
      cases done with
      | false => exact does_lift (does_reportCancelled j cmd).working
      | true =>
        refine .raising (does_lift (does_reportProgress j cmd ..).publishing.working) fun _ => ?_
        refine .raising (does_lift (does_setDeployment j cmd ..).publishing.working) fun _ => ?_
        exact does_lift (does_reportCommand j cmd ..).working

theorem does_deployWorker : Does (Working j cmd) (deployWorker j cmd) := by
  refine (does_deploySteps j cmd).bind fun r => ?_
  have hend : Does (Working j cmd) (do
      locked .self (act (.dropWorker cmd.pipelineId cmd.id))
      act (.endJob j)) :=
    .bind (.locked (does_act (a := .dropWorker _ _) ⟨rfl, rfl⟩) _) fun _ => does_act (a := .endJob j) rfl
  cases r with
  | ok _ => exact hend
  | error e =>
    exact .bind (does_reportCommand j cmd ..).working fun _ => .bind (does_setDeployment j cmd ..).publishing.working fun _ => hend

end Deploy

/-! ### Registering, cancelling, removing -/

/-- The actions of `_deploy_model`. -/
def Registering (cmd : DeployModelCommand) : Act → Prop
  | .getWorker _ | .jobAlive _ | .startJob _ => True
  | .register c _ => c = cmd
  | .report (.command cid _ _) => cid = cmd.id
  | _ => False

/-- The actions of `_cancel_deploy`. -/
def Cancelling (cid : String) : Act → Prop
  | .getWorker _ | .jobAlive _ | .cancelJob _ | .closeResponse _ => True
  | .report (.command c _ _) => c = cid
  | _ => False

/-- The actions of the notices to Control. -/
def Notifying : Act → Prop
  | .getAgentConfig | .postUninstalled _ | .loadPending | .savePending _ => True
  | _ => False

/-- The actions of the deletion of an artifact. -/
def Deleting : Act → Prop
  | .lookup _ | .unlink _ => True
  | _ => False

theorem does_deleteArtifact (artifact : Option Path) : Does Deleting (deleteArtifact artifact) := by
  cases artifact with
  | none => exact does_pure _
  | some p =>
    refine .bind (does_act (a := .lookup p) trivial) fun n => ?_
    split
    · exact .bind (does_act (a := .unlink p) trivial) fun _ => does_pure _
    · exact does_pure _

/-- The actions of the locked part of an uninstall. -/
def Unconfiguring : Act → Prop
  | .getConfig _ | .cwd | .getConfigs | .report (.command _ _ _) | .popConfig _ | .store (.removePipeline _) => True
  | _ => False

theorem does_removeConfig (cid pid : String) (filename extension : Option String) :
    Does Unconfiguring (removeConfig cid pid filename extension) := by
  refine .locked (.bind (does_act (a := .getConfig pid) trivial) fun cfg => ?_) _
  refine .bind (does_act (a := .cwd) trivial) fun cwd => .bind (does_act (a := .getConfigs) trivial) fun configs => ?_
  split
  · exact .bind (does_act (a := .report (.command _ _ _)) trivial) fun _ => does_pure _
  · refine .bind (does_act (a := .popConfig pid) trivial) fun _ => ?_
    exact .bind (does_act (a := .store (.removePipeline pid)) trivial) fun _ => does_pure _

theorem does_liveWorker {P : Act → Prop} (hw : ∀ pid, P (.getWorker pid)) (hj : ∀ j, P (.jobAlive j)) (pid : String) :
    Does P (liveWorker pid) :=
  .bind (does_act (hw pid)) fun w => match w with
    | none => does_pure _
    | some w => .bind (does_act (hj w.job)) fun _ => does_pure _

theorem does_deployModel (cmd : DeployModelCommand) : Does (Registering cmd) (deployModel cmd) := by
  have hreport (status : Status) (output : String) : Does (Registering cmd) (reportCommand cmd.id status output) :=
    does_act (a := .report (.command cmd.id status output)) rfl
  unfold deployModel
  split
  · exact hreport ..
  refine .ite (hreport ..) (.locked (.bind (does_liveWorker (fun _ => trivial) (fun _ => trivial) _) fun w => ?_) _)
  cases w with
  | some w => exact hreport ..
  | none =>
    exact .bind (does_act (a := .register cmd _) rfl) fun j => does_act (a := .startJob j) trivial

theorem does_closeResponse {cid : String} (response : Option ℕ) : Does (Cancelling cid) (closeResponse response) := by
  cases response with
  | none => exact does_pure _
  | some k => exact does_act (a := .closeResponse k) trivial

theorem does_cancelDeploy (cid pid : String) : Does (Cancelling cid) (cancelDeploy cid pid) := by
  have hreport (status : Status) (output : String) : Does (Cancelling cid) (reportCommand cid status output) :=
    does_act (a := .report (.command cid status output)) rfl
  refine Does.bind (.locked (.bind (does_liveWorker (fun _ => trivial) (fun _ => trivial) pid) fun w => ?_) _)
    fun cancelled => ?_
  · cases w with
    | none => exact .bind (hreport ..) fun _ => does_pure _
    | some w => exact .bind (does_act (a := .cancelJob _) trivial) fun _ => does_pure _
  · cases cancelled with
    | none => exact does_pure _
    | some w => exact .bind (does_closeResponse w.response) fun _ => hreport ..

theorem does_postUninstallReport (pid : String) : Does Notifying (postUninstallReport pid) := by
  refine .bind (does_act (a := .getAgentConfig) trivial) fun current => Does.ite (does_pure _) ?_
  exact Does.ite (does_act (a := .postUninstalled pid) trivial) (does_pure _)

theorem does_undelivered : ∀ l : List String, Does Notifying (undelivered l)
  | [] => does_pure _
  | pid :: l => .bind (does_postUninstallReport pid) fun _ => .bind (does_undelivered l) fun _ => does_pure _

theorem does_flushPendingUninstallReports : Does Notifying flushPendingUninstallReports := by
  refine .locked (.bind (does_act (a := .loadPending) trivial) fun ids => .ite (does_pure _) ?_) _
  exact .bind (does_undelivered ids) fun rest => .ite (does_pure _) (does_act (a := .savePending rest) trivial)

theorem does_reportModelUninstalledToControl (pid : String) :
    Does Notifying (reportModelUninstalledToControl pid) := by
  refine .bind (does_postUninstallReport pid) fun delivered => Does.ite (does_pure _) (Does.locked ?_ _)
  refine .bind (does_act (a := .loadPending) trivial) fun ids => .ite (does_pure _) ?_
  exact does_act (a := .savePending _) trivial

/-! ### The other commands -/

/-- The actions that have to do with no worker and no download. -/
def Ordinary : Act → Prop
  | .register _ _ | .startJob _ | .endJob _ | .cancelJob _ | .attachResponse _ _ _ | .closeResponse _ | .dropWorker _ _
  | .download _ | .append _ _ | .replace _ _ => False
  | _ => True

/-- Those that remove no config and tell Control of no removal. -/
def Common : Act → Prop
  | .popConfig _ | .postUninstalled _ | .loadPending | .savePending _ => False
  | a => Ordinary a

theorem Common.ordinary (a : Act) (h : Common a) : Ordinary a := by
  cases a <;> trivial

theorem Inner.common (a : Act) (h : Inner a) : Common a := by
  cases a <;> trivial

theorem Inner.ordinary (a : Act) (h : Inner a) : Ordinary a := (h.common a).ordinary

theorem Notifying.ordinary (a : Act) (h : Notifying a) : Ordinary a := by
  cases a <;> trivial

theorem Deleting.ordinary (a : Act) (h : Deleting a) : Ordinary a := by
  cases a <;> trivial

theorem Unconfiguring.ordinary (a : Act) (h : Unconfiguring a) : Ordinary a := by
  cases a <;> trivial

theorem does_report (r : Report) : Does Common (act (.report r)) := does_act (a := .report r) trivial

theorem Does.ordinary {α : Type} {p : Code α} (h : Does Common p) : Does Ordinary p := h.mono Common.ordinary

theorem does_updatePipeline (V : Validator) (me : Option ℕ) (cmd : UpdatePipelineCommand) :
    Does Common (updatePipeline V me cmd) := by
  have hstart : Does Common (startPipeline V me cmd.pipelineId (some cmd.config.modelDump)) :=
    (does_startPipeline ..).mono Inner.common
  refine .ite (does_report _) (.bind (.locked (.bind (.locked (does_act (a := .getPipe _) trivial) _) fun pipe => ?_) _)
    fun success => .ite (does_report _) (does_report _))
  refine .ite hstart (.bind (.locked ?_ _) fun _ => does_pure _)
  exact .bind (does_act (a := .setConfig _ _) trivial) fun _ => does_act (a := .store _) trivial

theorem does_finishUninstall (id pid : String) (artifact : Option Path) :
    Does Ordinary (finishUninstall id pid artifact) := by
  refine .bind ((does_deleteArtifact artifact).mono Deleting.ordinary) fun deleted => .bind (does_report _).ordinary fun _ => ?_
  refine .bind (does_report _).ordinary fun _ => Does.ite ?_ (does_pure _)
  exact (does_reportModelUninstalledToControl pid).mono Notifying.ordinary

theorem does_uninstallCommand (me : Option ℕ) (cmd : UninstallModelCommand) :
    Does Ordinary (uninstallCommand me cmd) := by
  refine Does.ite (does_report _).ordinary (Does.ite (does_report _).ordinary ?_)
  refine .bind (does_act (a := .getPipe _) trivial) fun pipe => Does.ite (does_report _).ordinary ?_
  refine .bind ((does_stopIfRunning ..).mono Inner.ordinary) fun stopped => Does.ite ?_ (does_report _).ordinary
  refine .bind ((does_removeConfig ..).mono Unconfiguring.ordinary) fun removed => ?_
  cases removed with
  | error u => exact does_pure _
  | ok artifact => exact does_finishUninstall ..

theorem does_reportOutcome (id pid : String) (success : Bool) (done failed : String) (running : Bool) :
    Does Common (reportOutcome id pid success done failed running) :=
  .ite (.bind (does_report _) fun _ => does_report _) (does_report _)

theorem does_configureServing (cmd : StartServingCommand) : Does Common (configureServing cmd) := by
  refine .locked (.bind (does_act (a := .getConfig _) trivial) fun c => ?_) _
  cases c with
  | none => exact .bind (does_report _) fun _ => does_pure _
  | some c =>
    refine .bind (does_act (a := .updateArgs _ _) trivial) fun c' => ?_
    cases c' with
    | none => exact does_pure _
    | some c' => exact .bind (does_act (a := .store _) trivial) fun _ => does_pure _

theorem does_startServing (V : Validator) (me : Option ℕ) (cmd : StartServingCommand) :
    Does Common (startServing V me cmd) := by
  refine .bind (does_configureServing cmd) fun found => Does.ite ?_ (does_pure _)
  refine .bind ((does_startPipeline ..).mono Inner.common) fun started => Does.ite ?_ (does_report _)
  exact .bind (does_report _) fun _ => .bind (does_report _) fun _ => does_act (a := .setServing _) trivial

theorem does_stopServing (me : Option ℕ) (id pid : String) : Does Common (stopServing me id pid) := by
  refine .bind ((does_stopPipeline me pid).mono Inner.common) fun success => ?_
  refine .bind (does_reportOutcome ..) fun _ => Does.ite ?_ (does_pure _)
  refine .bind (does_act (a := .getServing) trivial) fun serving => ?_
  exact Does.ite (does_act (a := .setServing _) trivial) (does_pure _)

theorem does_updateAgent (id : String) : Does Common (updateAgent id) :=
  .bind (does_act (a := .canUpdate) trivial) fun _ =>
    .ite (.bind (does_report _) fun _ => does_act (a := .requestUpdate) trivial) (does_report _)

theorem does_recoverConfigs : ∀ l : List PipelineConfig, Does Common (recoverConfigs l)
  | [] => does_pure _
  | p :: l => .bind (does_act (a := .setConfig p.id p) trivial) fun _ => does_recoverConfigs l

theorem does_recoverActive (V : Validator) : ∀ l : List String, Does Common (recoverActive V l)
  | [] => does_pure _
  | pid :: l => by
    refine .bind (.bind ((does_startPipeline ..).mono Inner.common) fun started => Does.ite ?_ (does_pure _)) fun _ =>
      does_recoverActive V l
    refine .bind (does_act (a := .getConfig pid) trivial) fun c => Does.ite ?_ (Does.ite (does_report _) (does_pure _))
    exact .bind (does_report _) fun _ => does_act (a := .setServing _) trivial

theorem does_run (V : Validator) : Does Ordinary (run V) := by
  have hlast : Does Ordinary (do
      act (.report (.lifecycle true))
      flushPendingUninstallReports) :=
    .bind (does_report _).ordinary fun _ => does_flushPendingUninstallReports.mono Notifying.ordinary
  refine .bind (does_act (a := .snapshot) trivial) fun saved => ?_
  cases saved with
  | none => exact hlast
  | some saved =>
    exact .bind (does_recoverConfigs saved.pipelines).ordinary fun _ => .bind (does_recoverActive V _).ordinary fun _ => hlast

/-- Deploys, their cancels and uninstalls apart, a command is common. -/
theorem does_common_dispatch (V : Validator) (me : Option ℕ) (cmd : Command) (hdeploy : ∀ c, cmd ≠ .deployModel c)
    (hcancel : ∀ id pid, cmd ≠ .cancelDeploy id pid) (huninstall : ∀ c, cmd ≠ .uninstallModel c) :
    Does Common (dispatch V me cmd) := by
  cases cmd with
  | deployModel c => exact absurd rfl (hdeploy c)
  | cancelDeploy id pid => exact absurd rfl (hcancel id pid)
  | uninstallModel c => exact absurd rfl (huninstall c)
  | startModel id pid config =>
    exact .bind ((does_startPipeline ..).mono Inner.common) fun _ => .ite (does_report _) (does_report _)
  | startModelInference id pid =>
    exact .bind ((does_startPipeline ..).mono Inner.common) fun _ => does_reportOutcome ..
  | stopModelInference id pid =>
    exact .bind ((does_stopPipeline ..).mono Inner.common) fun _ => does_reportOutcome ..
  | startServing cmd => exact does_startServing V me cmd
  | stopServing id pid => exact does_stopServing me id pid
  | updatePipeline cmd => exact does_updatePipeline V me cmd
  | status id => exact does_pure _
  | updateAgent id => exact does_updateAgent id
  | updateAgentConfig id config =>
    exact .bind ((does_applyAgentConfig ..).mono Inner.common) fun _ => does_report _

/-- Deploys and their cancels apart, a command is ordinary. -/
theorem does_dispatch (V : Validator) (me : Option ℕ) (cmd : Command) (hdeploy : ∀ c, cmd ≠ .deployModel c)
    (hcancel : ∀ id pid, cmd ≠ .cancelDeploy id pid) : Does Ordinary (dispatch V me cmd) := by
  by_cases huninstall : ∃ c, cmd = .uninstallModel c
  · obtain ⟨c, rfl⟩ := huninstall
    exact does_uninstallCommand me c
  · exact (does_common_dispatch V me cmd hdeploy hcancel fun c hc => huninstall ⟨c, hc⟩).ordinary

end AgentRuntime
end LocaiLink
