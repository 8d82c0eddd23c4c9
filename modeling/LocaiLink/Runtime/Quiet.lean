/-
# What deploys and reports leave alone

Most of what a command does besides starting, stopping and configuring is quiet:
reports, downloads, files, workers and flags leave the views as they are. Code
that is quiet throughout (`Quietly`) leaves them so as a whole. A deploy worker
is quiet but for its commit, which it makes at most once (`deployWorker_cases`).
-/
import LocaiLink.Runtime.Actions
import LocaiLink.Runtime.Spec

namespace LocaiLink
namespace AgentRuntime

open Rt Code

/-- Code whose actions are all quiet. -/
structure Quietly {α : Type} (p : Code α) : Prop where
  only : Prog.Only (σ := rtSig) Quiet p

theorem Quietly.same {α : Type} {p : Code α} (h : Quietly p) (s : Rt) : SameViews s (s.run p).2 :=
  Prog.Only.run_keeps perform (σ := rtSig) (I := SameViews s)
    (fun _ t ha ht => ht.trans (sameViews_quiet ha t)) h.only (SameViews.refl s)

theorem quietly_act {a : Act} (h : Quiet a) : Quietly (act a) := ⟨(Prog.only_call (σ := rtSig) a).mpr h⟩

theorem quietly_pure {α : Type} (a : α) : Quietly (pure a : Code α) := ⟨trivial⟩

theorem Quietly.bind {α β : Type} {p : Code α} {f : α → Code β} (h : Quietly p) (hf : ∀ a, Quietly (f a)) :
    Quietly (p >>= f) :=
  ⟨h.only.bind fun a => (hf a).only⟩

theorem Quietly.locked {α : Type} {p : Code α} (h : Quietly p) (l : Lock) : Quietly (Code.locked l p) :=
  ⟨Prog.Only.locked (σ := rtSig) h.only l⟩

theorem Quietly.ite {α : Type} {c : Prop} [Decidable c] {p q : Code α} (hp : Quietly p) (hq : Quietly q) :
    Quietly (if c then p else q) := by
  split_ifs <;> assumption

/-! ### Code that raises -/

theorem Quietly.raising {α β : Type} {x : Raising α} {f : α → Raising β} (h : Quietly x.run)
    (hf : ∀ a, Quietly (f a).run) : Quietly (x >>= f).run :=
  h.bind fun r => match r with
    | .ok a => hf a
    | .error _ => quietly_pure _

theorem quietly_lift {α : Type} {p : Code α} (h : Quietly p) : Quietly (liftM p : Raising α).run :=
  h.bind fun _ => quietly_pure _

theorem quietly_raise {p : Code (Option String)} (h : Quietly p) : Quietly (raise p).run :=
  Quietly.raising (quietly_lift h) fun r => match r with
    | some _ => quietly_pure _
    | none => quietly_pure _

/-! ### Reports and deploys -/

theorem Does.quietly {P : Act → Prop} {α : Type} {p : Code α} (h : Does P p) (hP : ∀ a, P a → Quiet a) : Quietly p :=
  ⟨(h.mono hP).only⟩

theorem Registering.quiet {cmd : DeployModelCommand} (a : Act) (h : Registering cmd a) : Quiet a := by
  cases a <;> trivial

theorem Cancelling.quiet {cid : String} (a : Act) (h : Cancelling cid a) : Quiet a := by
  cases a <;> trivial

theorem Publishing.quiet {j : ℕ} {cmd : DeployModelCommand} (a : Act) (h : Publishing j cmd a) : Quiet a := by
  cases a <;> trivial

theorem Notifying.quiet (a : Act) (h : Notifying a) : Quiet a := by
  cases a <;> trivial

theorem Deleting.quiet (a : Act) (h : Deleting a) : Quiet a := by
  cases a <;> trivial

theorem quietly_reportCommand (id : String) (status : Status) (output : String) :
    Quietly (reportCommand id status output) :=
  quietly_act trivial

theorem quietly_reportProgress (pid : String) (stage : Stage) (progress done total : ℕ) :
    Quietly (reportProgress pid stage progress done total) :=
  quietly_act trivial

theorem quietly_setDeployment (pid : String) (stage : Stage) (progress : ℕ) (name : String) :
    Quietly (act (.setDeployment pid stage progress name)) :=
  quietly_act trivial

theorem quietly_reportCancelled (cmd : DeployModelCommand) : Quietly (reportCancelled cmd) :=
  (quietly_reportProgress ..).bind fun _ => (quietly_setDeployment ..).bind fun _ => quietly_reportCommand ..

theorem quietly_deployModel (cmd : DeployModelCommand) : Quietly (deployModel cmd) :=
  (does_deployModel cmd).quietly Registering.quiet

theorem quietly_cancelDeploy (id pid : String) : Quietly (cancelDeploy id pid) :=
  (does_cancelDeploy id pid).quietly Cancelling.quiet

theorem quietly_downloadAndPublish (j : ℕ) (cmd : DeployModelCommand) (url : String) (target p : Path) :
    Quietly (downloadAndPublish j cmd url target p).run :=
  (does_downloadAndPublish j cmd url target p).quietly Publishing.quiet

/-! ### The commit of a deploy -/

/-- The state after the commit of a deploy. -/
def committed (cmd : DeployModelCommand) (s : Rt) : Rt :=
  (perform (.setConfig cmd.pipelineId cmd.config) s).2.performStore (.updatePipelineConfig cmd.config)

/-- What a deploy worker may have done: nothing that shows, or its commit. -/
def Deployed (cmd : DeployModelCommand) (s t : Rt) : Prop :=
  SameViews s t ∨ ∃ u, SameViews s u ∧ SameViews (committed cmd u) t

/-- Code that is quiet but for at most one commit. -/
def Deploys {α : Type} (cmd : DeployModelCommand) (p : Code α) : Prop := ∀ s, Deployed cmd s (s.run p).2

variable {cmd : DeployModelCommand}

theorem Quietly.deploys {α β : Type} {p : Code α} {f : α → Code β} (h : Quietly p)
    (hf : ∀ a, Deploys cmd (f a)) : Deploys cmd (p >>= f) := by
  intro s
  have hsame := h.same s
  rw [run_bind]
  rcases hf (s.run p).1 (s.run p).2 with h' | ⟨u, hu, h'⟩
  · exact .inl (hsame.trans h')
  · exact .inr ⟨u, hsame.trans hu, h'⟩

theorem Deploys.bind {α β : Type} {p : Code α} {f : α → Code β} (h : Deploys cmd p)
    (hf : ∀ a, Quietly (f a)) : Deploys cmd (p >>= f) := by
  intro s
  have hsame := (hf (s.run p).1).same (s.run p).2
  rw [run_bind]
  rcases h s with h | ⟨u, hu, h⟩
  · exact .inl (h.trans hsame)
  · exact .inr ⟨u, hu, h.trans hsame⟩

theorem Quietly.raising_deploys {α β : Type} {x : Raising α} {f : α → Raising β} (h : Quietly x.run)
    (hf : ∀ a, Deploys cmd (f a).run) : Deploys cmd (x >>= f).run :=
  h.deploys fun r => match r with
    | .ok a => hf a
    | .error _ => fun s => .inl (SameViews.refl s)

theorem Deploys.raising {α β : Type} {x : Raising α} {f : α → Raising β} (h : Deploys cmd x.run)
    (hf : ∀ a, Quietly (f a).run) : Deploys cmd (x >>= f).run :=
  h.bind fun r => match r with
    | .ok a => hf a
    | .error _ => quietly_pure _

theorem deploys_commitDeploy (j : ℕ) (cmd : DeployModelCommand) : Deploys cmd (commitDeploy j cmd) := by
  refine (quietly_reportProgress ..).deploys fun _ => (quietly_setDeployment ..).deploys fun _ s => ?_
  simp only [run_locked, run_bind]
  change Deployed cmd s (s.run (if (s.jobs j).cancelled = true then _ else _)).2
  cases (s.jobs j).cancelled with
  | true => exact .inl (SameViews.refl s)
  | false => exact .inr ⟨s, SameViews.refl s, SameViews.refl _⟩

theorem deploys_deploySteps (j : ℕ) (cmd : DeployModelCommand) : Deploys cmd (deploySteps j cmd).run := by
  refine (quietly_lift (quietly_act (a := .cwd) trivial)).raising_deploys fun cwd => ?_
  refine (quietly_raise (quietly_act (a := .mkdir _) trivial)).raising_deploys fun _ => ?_
  simp only
  split
  · exact fun s => .inl (SameViews.refl s)
  rename_i partialPath _
  refine (quietly_lift (quietly_act (a := .getAgentConfig) trivial)).raising_deploys fun current => ?_
  refine (quietly_lift (p := downloadLockFor cmd.modelName) (Quietly.locked (quietly_pure _) _)).raising_deploys
    fun lock => ?_
  refine Quietly.raising_deploys (x := lockedRaising lock _) (Quietly.locked ?_ _) fun there => ?_
  · refine .raising (quietly_lift (quietly_act (a := .isCancelled j) trivial)) fun c => ?_
    cases c with
    | true => exact .raising (quietly_lift (quietly_reportCancelled cmd)) fun _ => quietly_pure _
    | false =>
      refine .raising (quietly_lift (quietly_act (a := .lookup _) trivial)) fun n => ?_
      cases n with
      | some n => exact quietly_pure _
      | none => exact quietly_downloadAndPublish ..
  · cases there with
    | false => exact fun s => .inl (SameViews.refl s)
    | true =>
      refine Deploys.raising (x := liftM (commitDeploy j cmd))
        ((deploys_commitDeploy j cmd).bind fun _ => quietly_pure _) fun done => ?_
      cases done with
      | false => exact quietly_lift (quietly_reportCancelled cmd)
      | true =>
        refine .raising (quietly_lift (quietly_reportProgress ..)) fun _ => ?_
        refine .raising (quietly_lift (quietly_setDeployment ..)) fun _ => ?_
        exact quietly_lift (quietly_reportCommand ..)

/-- A deploy worker leaves the views as they are, or commits its config once. -/
theorem deploys_deployWorker (j : ℕ) (cmd : DeployModelCommand) : Deploys cmd (deployWorker j cmd) := by
  refine (deploys_deploySteps j cmd).bind fun r => ?_
  have hend : Quietly (do
      locked .self (act (.dropWorker cmd.pipelineId cmd.id))
      act (.endJob j)) :=
    .bind (.locked (quietly_act (a := .dropWorker _ _) trivial) _) fun _ => quietly_act trivial
  cases r with
  | ok _ => exact hend
  | error e => exact .bind (quietly_reportCommand ..) fun _ => .bind (quietly_setDeployment ..) fun _ => hend

/-! ### Uninstalls, announcements, updates -/

theorem quietly_flushPendingUninstallReports : Quietly flushPendingUninstallReports :=
  does_flushPendingUninstallReports.quietly Notifying.quiet

theorem quietly_reportModelUninstalledToControl (pid : String) : Quietly (reportModelUninstalledToControl pid) :=
  (does_reportModelUninstalledToControl pid).quietly Notifying.quiet

theorem quietly_finishUninstall (id pid : String) (artifact : Option Path) :
    Quietly (finishUninstall id pid artifact) := by
  have hdelete : Quietly (deleteArtifact artifact) := (does_deleteArtifact artifact).quietly Deleting.quiet
  refine .bind hdelete fun deleted => .bind (quietly_act trivial) fun _ => ?_
  refine .bind (quietly_reportCommand ..) fun _ => ?_
  exact Quietly.ite (quietly_reportModelUninstalledToControl pid) (quietly_pure _)

theorem quietly_reannounce (pid : String) : Quietly (reannounce pid) := by
  refine .bind (quietly_act (a := .getConfig pid) trivial) fun c => ?_
  refine Quietly.ite ?_ (Quietly.ite (quietly_act trivial) (quietly_pure _))
  exact .bind (quietly_act trivial) fun _ => quietly_act trivial

theorem quietly_reportOutcome (id pid : String) (success : Bool) (done failed : String) (running : Bool) :
    Quietly (reportOutcome id pid success done failed running) :=
  .ite (.bind (quietly_reportCommand ..) fun _ => quietly_act trivial) (quietly_reportCommand ..)

theorem quietly_updateAgent (id : String) : Quietly (updateAgent id) :=
  .bind (quietly_act (a := .canUpdate) trivial) fun _ =>
    .ite (.bind (quietly_reportCommand ..) fun _ => quietly_act trivial) (quietly_reportCommand ..)

end AgentRuntime
end LocaiLink
