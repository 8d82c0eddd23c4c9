/-
# Deploying a model

`DEPLOY_MODEL` registers a worker and starts its thread, which downloads the
artifact under the lock of its file name and then commits the config;
`CANCEL_DEPLOY` sets the worker's event. A deploy's job stands for its thread
and its event at once.
-/
import LocaiLink.Runtime.Pipelines

namespace LocaiLink
namespace AgentRuntime

open Code

def reportCommand (id : String) (status : Status) (output : String) : Code Unit :=
  act (.report (.command id status output))

def reportProgress (pid : String) (stage : Stage) (progress done total : ℕ) : Code Unit :=
  act (.report (.deploymentProgress pid stage progress done total))

/-- `_is_safe_basename`: one file name, no directories. -/
def isSafeBasename (name : String) : Bool :=
  name ≠ "" && name ≠ "." && name ≠ ".." &&
    !name.toList.contains '/' && !name.toList.contains '\\' && !name.toList.contains '\x00' &&
    (Path.ofString name).name = name

/-- `_is_safe_extension`: a plain token. -/
def isSafeExtension (ext : String) : Bool :=
  ext ≠ "" && !ext.toList.contains '/' && !ext.toList.contains '\\' && !ext.toList.contains '\x00' &&
    ext ≠ "." && ext ≠ ".."

/-- The worker of an id, if its thread is alive. -/
def liveWorker (pid : String) : Code (Option AgentWorker) := do
  match ← act (.getWorker pid) with
  | some w => do
    let alive ← act (.jobAlive w.job)
    pure (if alive then some w else none)
  | none => pure none

/-- `_deploy_model`: refuse, or register a worker and start its thread. -/
def deployModel (cmd : DeployModelCommand) : Code Unit :=
  if sameId : cmd.config.id ≠ cmd.pipelineId then reportCommand cmd.id .failed "Pipeline id mismatch"
  else if cmd.modelName ≠ "" ∧ isSafeBasename cmd.modelName = false then
    reportCommand cmd.id .failed "Invalid model_name"
  else
    locked .self do
      match ← liveWorker cmd.pipelineId with
      | some w =>
        reportCommand cmd.id .failed <|
          s!"Deploy already in progress for pipeline '{cmd.pipelineId}' " ++
          s!"(command '{w.commandId}'). Send CANCEL_DEPLOY first."
      | none =>
        let j ← act (.register cmd (not_not.mp sameId))
        act (.startJob j)

/-- `_report_cancelled`. -/
def reportCancelled (cmd : DeployModelCommand) : Code Unit := do
  reportProgress cmd.pipelineId .cancelled 0 0 0
  act (.setDeployment cmd.pipelineId .completed 0 cmd.modelName)
  reportCommand cmd.id .failed "cancelled"

/-- `_cleanup_partial`: what unlinking raises is logged. -/
def cleanupPartial (partialPath : Path) : Code Unit := do
  if (← act (.lookup partialPath)).isSome then
    let _ ← act (.unlink partialPath)

/-- `_attach_response`: the reply of the worker's own request, or none. -/
def attachResponse (pid commandId : String) (response : Option ℕ) : Code Unit :=
  locked .self (act (.attachResponse pid commandId response))

/-- The chunk loop: true when a cancel broke it, and the bytes written. Progress
is reported each time it has grown by five percent. -/
def writeChunks (j : ℕ) (cmd : DeployModelCommand) (partialPath : Path) (total : ℕ) :
    List Bytes → ℕ → ℤ → Raising (Bool × ℕ)
  | [], done, _ => pure (false, done)
  | chunk :: chunks, done, lastReported => do
    if ← act (.isCancelled j) then pure (true, done)
    else
      raise (act (.append partialPath chunk))
      let done := done + chunk.length
      let pct := done * 100 / total
      if total ≠ 0 ∧ lastReported + 5 ≤ pct then
        reportProgress cmd.pipelineId .downloading pct done total
        act (.setDeployment cmd.pipelineId .downloading pct cmd.modelName)
        writeChunks j cmd partialPath total chunks done pct
      else writeChunks j cmd partialPath total chunks done lastReported

/-- The `with requests.get(..)` block: whether it was cancelled, the announced
length and the bytes written. -/
def fetch (j : ℕ) (cmd : DeployModelCommand) (url : String) (partialPath : Path) :
    Raising (Bool × ℕ × ℕ) := do
  let r ← ExceptT.mk (act (.download url))
  attachResponse cmd.pipelineId cmd.id (some j)
  raise (pure r.status)
  let total ← ExceptT.mk (pure r.length)
  reportProgress cmd.pipelineId .downloading 0 0 total
  act (.setDeployment cmd.pipelineId .downloading 0 cmd.modelName)
  raise (act (.create partialPath))
  let (cancelled, done) ← writeChunks j cmd partialPath total r.chunks 0 (-1)
  if cancelled then pure (true, total, done)
  else
    raise (pure r.error)
    pure (false, total, done)

/-- `_download_and_publish`: true when the file is in its place. -/
def downloadAndPublish (j : ℕ) (cmd : DeployModelCommand) (url : String) (target partialPath : Path) :
    Raising Bool := do
  cleanupPartial partialPath
  match ← ExceptT.lift (fetch j cmd url partialPath).run with
  | .error e =>
    if ← act (.isCancelled j) then
      attachResponse cmd.pipelineId cmd.id none
      cleanupPartial partialPath
      reportCancelled cmd
      pure false
    else
      cleanupPartial partialPath
      reportCommand cmd.id .failed s!"Failed to download model: {e}"
      act (.setDeployment cmd.pipelineId .completed 0 cmd.modelName)
      attachResponse cmd.pipelineId cmd.id none
      pure false
  | .ok (cancelled, total, done) =>
    attachResponse cmd.pipelineId cmd.id none
    if cancelled then
      cleanupPartial partialPath
      reportCancelled cmd
      pure false
    else if total ≠ 0 ∧ done ≠ total then
      cleanupPartial partialPath
      reportCommand cmd.id .failed s!"incomplete download: {done}/{total} bytes"
      act (.setDeployment cmd.pipelineId .completed 0 cmd.modelName)
      pure false
    else if ← act (.isCancelled j) then
      cleanupPartial partialPath
      reportCancelled cmd
      pure false
    else
      raise (act (.replace partialPath target))
      pure true

/-- `_commit_deploy`: false when a cancel came first. -/
def commitDeploy (j : ℕ) (cmd : DeployModelCommand) : Code Bool := do
  reportProgress cmd.pipelineId .configuring 95 0 0
  act (.setDeployment cmd.pipelineId .configuring 95 cmd.modelName)
  locked .ops do
    locked .self do
      if ← act (.isCancelled j) then pure false
      else
        act (.setConfig cmd.pipelineId cmd.config)
        act (.store (.updatePipelineConfig cmd.config))
        pure true

/-- `_download_lock_for`: the lock of a file name is made under the guard. -/
def downloadLockFor (modelName : String) : Code Lock :=
  locked .downloadsGuard (pure (.download modelName))

/-- The text of a field in an f-string. -/
def noneText : Option String → String
  | none => "None"
  | some s => s

/-- The `try` block of `_deploy_worker`. -/
def deploySteps (j : ℕ) (cmd : DeployModelCommand) : Raising Unit := do
  let modelsDir := (← act .cwd).div "models"
  raise (act (.mkdir modelsDir))
  let target := modelsDir.div cmd.modelName
  match target.withName (target.name ++ ".partial") with
  | none => throw s!"Invalid name '{target.name}.partial'"
  | some partialPath =>
    let identity := (← act .getAgentConfig).identity
    let url := s!"{noneText identity.apiUrl}/models/{cmd.pipelineId}/download/{identity.deviceId}/agent"
    let lock ← downloadLockFor cmd.modelName
    let there ← lockedRaising lock do
      if ← act (.isCancelled j) then
        reportCancelled cmd
        pure false
      else if (← act (.lookup target)).isSome then pure true
      else downloadAndPublish j cmd url target partialPath
    if there then
      if ← commitDeploy j cmd then
        reportProgress cmd.pipelineId .completed 100 0 0
        act (.setDeployment cmd.pipelineId .completed 100 cmd.modelName)
        reportCommand cmd.id .completed s!"Model {cmd.modelName} deployed successfully."
      else reportCancelled cmd

/-- `_deploy_worker`: the thread of a deploy. -/
def deployWorker (j : ℕ) (cmd : DeployModelCommand) : Code Unit := do
  match ← (deploySteps j cmd).run with
  | .ok () => pure ()
  | .error e =>
    reportCommand cmd.id .failed e
    act (.setDeployment cmd.pipelineId .completed 0 cmd.modelName)
  locked .self (act (.dropWorker cmd.pipelineId cmd.id))
  act (.endJob j)

/-- What closing a reply raises is logged. -/
def closeResponse : Option ℕ → Code Unit
  | none => pure ()
  | some k => act (.closeResponse k)

/-- `_cancel_deploy`: the event is authoritative, closing the reply only hurries
the download along. -/
def cancelDeploy (id pid : String) : Code Unit := do
  let cancelled ← locked .self do
    match ← liveWorker pid with
    | none =>
      reportCommand id .completed s!"No active deploy for pipeline '{pid}'"
      pure none
    | some w =>
      act (.cancelJob w.job)
      pure (some w)
  match cancelled with
  | none => pure ()
  | some w =>
    closeResponse w.response
    reportCommand id .completed s!"Cancel signal sent to deploy '{w.commandId}'"

end AgentRuntime
end LocaiLink
