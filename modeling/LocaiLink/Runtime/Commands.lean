/-
# Commands and the main loop

`handle_command` with the handlers that are not in a module of their own, and
`run`: the recovery at boot and the retry of pending uninstall reports.
-/
import LocaiLink.Runtime.Deploy
import LocaiLink.Runtime.Reconfigure

namespace LocaiLink
namespace AgentRuntime

open Code

/-! ### UPDATE_PIPELINE -/

/-- `_update_pipeline`: a running pipeline is restarted with the new config,
otherwise the config is stored for the next start. -/
def updatePipeline (V : Validator) (me : Option ℕ) (cmd : UpdatePipelineCommand) : Code Unit := do
  let pid := cmd.pipelineId
  if cmd.config.id ≠ pid then reportCommand cmd.id .failed "Pipeline id mismatch"
  else
    let success ← locked .ops do
      if (← locked .self (act (.getPipe pid))).isSome then
        startPipeline V me pid (some cmd.config.modelDump)
      else
        locked .self do
          act (.setConfig pid cmd.config)
          act (.store (.updatePipelineConfig cmd.config))
        pure true
    if success then reportCommand cmd.id .completed s!"Pipeline '{pid}' updated"
    else reportCommand cmd.id .failed s!"Failed to update pipeline '{pid}'"

/-! ### UNINSTALL_MODEL -/

export Json (truthy)

/-- `Path(str(model_path))` of a config whose source has one. -/
def modelPath (c : PipelineConfig) : Option Path :=
  match c.source.args.get? "model_path" with
  | some v => if truthy v then some (.ofString (String.ofList (Text.str v))) else none
  | none => none

/-- Where the artifact lies: where the config says, else where the file name of
the command does. -/
def artifactPath (cwd : Path) (cfg : Option PipelineConfig) (filename extension : Option String) : Option Path :=
  match cfg.bind modelPath with
  | some p => some p
  | none => filename.map fun name =>
    let ext := extension.getD ""
    let ext := if ext ≠ "" ∧ Text.startsWith ext "." = false then "." ++ ext else ext
    (cwd.div "models").div (name ++ ext)

/-- Another configured pipeline that uses the artifact. -/
def sharer (pid : String) (artifact : Path) (configs : Dict String Stored) : Option String :=
  (configs.entries.find? fun e => e.1 ≠ pid ∧ modelPath e.2.conf = some artifact).map Prod.fst

/-- The locked part of `_uninstall_model`: the artifact path, or an error when
another pipeline uses the artifact. -/
def removeConfig (id pid : String) (filename extension : Option String) :
    Code (Except Unit (Option Path)) :=
  locked .self do
    let cfg ← act (.getConfig pid)
    let artifact := artifactPath (← act .cwd) cfg filename extension
    let configs ← act .getConfigs
    match artifact.bind fun p => (sharer pid p configs).map fun other => (p, other) with
    | some (p, other) =>
      reportCommand id .failed <|
        s!"Cannot remove '{pid}': artifact '{p.name}' is also used by pipeline '{other}'. " ++
        "Remove that one first and retry."
      pure (.error ())
    | none =>
      act (.popConfig pid)
      act (.store (.removePipeline pid))
      pure (.ok artifact)

/-- The artifact is unlinked if it is a file; answers whether it was. -/
def deleteArtifact : Option Path → Code Bool
  | none => pure false
  | some p => do
    match ← act (.lookup p) with
    | some (.file _) => pure (← act (.unlink p)).isNone
    | _ => pure false

def rstripSlash (l : List Char) : List Char := (l.reverse.dropWhile (· = '/')).reverse

/-- `_post_uninstall_report`: false when the report has to be sent again. What
can never be sent counts as delivered. -/
def postUninstallReport (pid : String) : Code Bool := do
  let identity := (← act .getAgentConfig).identity
  let url := rstripSlash (identity.apiUrl.getD "").toList
  if identity.apiUrl.getD "" = "" ∨ identity.apiKey.getD "" = "" ∨ identity.deviceId = "" then pure true
  else if Text.startsWith (String.ofList url) "https://" then act (.postUninstalled pid)
  else pure true

/-- `_queue_pending_uninstall`. -/
def queuePendingUninstall (pid : String) : Code Unit :=
  locked .pendingReports do
    let ids ← act .loadPending
    if pid ∈ ids then pure () else act (.savePending (ids ++ [pid]))

/-- `_report_model_uninstalled_to_control`. -/
def reportModelUninstalledToControl (pid : String) : Code Unit := do
  if ← postUninstallReport pid then pure () else queuePendingUninstall pid

/-- Those of the ids whose report was not delivered. -/
def undelivered : List String → Code (List String)
  | [] => pure []
  | pid :: l => do
    let delivered ← postUninstallReport pid
    let rest ← undelivered l
    pure (if delivered then rest else pid :: rest)

/-- `_flush_pending_uninstall_reports`. -/
def flushPendingUninstallReports : Code Unit :=
  locked .pendingReports do
    let ids ← act .loadPending
    if ids = [] then pure ()
    else
      let remaining ← undelivered ids
      if remaining = ids then pure () else act (.savePending remaining)

/-- The rest of `_uninstall_model` after the config is gone. A removal that was
started from the device itself is reported to the control plane. -/
def finishUninstall (id pid : String) (artifact : Option Path) : Code Unit := do
  let deleted ← deleteArtifact artifact
  act (.report (.model pid (some false) false 0 false 0 (.int 0)))
  let suffix := match artifact with
    | some p => if deleted then s!" (file deleted: {p.name})" else ""
    | none => ""
  reportCommand id .completed s!"Pipeline '{pid}' removed{suffix}"
  if Text.startsWith id "loopback-" then reportModelUninstalledToControl pid

/-- The config first, then its artifact. -/
def removeAndFinish (id pid : String) (filename extension : Option String) : Code Unit := do
  match ← removeConfig id pid filename extension with
  | .error () => pure ()
  | .ok artifact => finishUninstall id pid artifact

/-- `_uninstall_model`. A running pipeline is refused, or stopped first. -/
def uninstallModel (me : Option ℕ) (id pid : String) (forceStop : Bool)
    (filename extension : Option String) : Code Unit := do
  let running := (← act (.getPipe pid)).isSome
  if running && !forceStop then
    reportCommand id .failed <|
      s!"Cannot uninstall '{pid}': pipeline is running. " ++
      "Stop it first (STOP_MODEL_INFERENCE / STOP_SERVING) and retry."
  else
    if ← stopIfRunning me pid running then removeAndFinish id pid filename extension
    else reportCommand id .failed s!"Cannot uninstall '{pid}': failed to stop running pipeline."

/-- The fallback names of an `UNINSTALL_MODEL`, checked before they are used. -/
def uninstallCommand (me : Option ℕ) (cmd : UninstallModelCommand) : Code Unit :=
  let given (x : Option String) : Option String := x.filter (· ≠ "")
  if (given cmd.filenameOnServer).any fun name => !isSafeBasename name then
    reportCommand cmd.id .failed "Invalid filename_on_server"
  else if (given cmd.fileExtension).any fun ext => !isSafeExtension ext then
    reportCommand cmd.id .failed "Invalid file_extension"
  else
    uninstallModel me cmd.id cmd.pipelineId cmd.forceStop (given cmd.filenameOnServer) (given cmd.fileExtension)

/-! ### handle_command -/

/-- The answer to a start or a stop of a model: the command's report, and the
model's when it succeeded. -/
def reportOutcome (id pid : String) (success : Bool) (done failed : String) (running : Bool) : Code Unit := do
  if success then
    reportCommand id .completed done
    act (.report (.model pid none running (if running then 1 else 0) false 0 (.int 0)))
  else reportCommand id .failed failed

/-- What `START_SERVING` puts into the source's arguments. -/
def servingArgs (cmd : StartServingCommand) : List (String × Json) :=
  [("mode", .str "serve"), ("port", .int cmd.port), ("host", .str cmd.host), ("alias", .str cmd.modelDisplayName)]

/-- The arguments are merged in place, if the pipeline has a config, and persisted. -/
def configureServing (cmd : StartServingCommand) : Code Bool :=
  locked .self do
    match ← act (.getConfig cmd.pipelineId) with
    | none =>
      reportCommand cmd.id .failed s!"Cannot serve '{cmd.pipelineId}': Pipeline not found/deployed."
      pure false
    | some _ =>
      match ← act (.updateArgs cmd.pipelineId (servingArgs cmd)) with
      | some config => act (.store (.updatePipelineConfig config))
      | none => pure ()
      pure true

def startServing (V : Validator) (me : Option ℕ) (cmd : StartServingCommand) : Code Unit := do
  let pid := cmd.pipelineId
  if ← configureServing cmd then
    if ← startPipeline V me pid none then
      reportCommand cmd.id .completed s!"Serving started for {pid} on {cmd.host}:{cmd.port}"
      act (.report (.model pid none false 0 true 1 (.int cmd.port)))
      act (.setServing (some pid))
    else reportCommand cmd.id .failed s!"Failed to start serving {pid}"

def stopServing (me : Option ℕ) (id pid : String) : Code Unit := do
  let success ← stopPipeline me pid
  reportOutcome id pid success s!"Serving stopped for {pid}" s!"Failed to stop {pid}" false
  if success then
    if (← act .getServing) = some pid then act (.setServing none)

def updateAgent (id : String) : Code Unit := do
  if ← act .canUpdate then
    reportCommand id .completed "Update accepted - restarting."
    act .requestUpdate
  else reportCommand id .failed "No installable update asset available yet"

/-- The dispatch on a validated command. -/
def dispatch (V : Validator) (me : Option ℕ) : Command → Code Unit
  | .deployModel cmd => deployModel cmd
  | .cancelDeploy id pid => cancelDeploy id pid
  | .startModel id pid config => do
    if ← startPipeline V me pid (some config.modelDump) then
      reportCommand id .completed s!"Pipeline {pid} started"
    else reportCommand id .failed s!"Failed to start {pid}"
  | .startModelInference id pid => do
    reportOutcome id pid (← startPipeline V me pid none)
      s!"Inference started for {pid}" s!"Failed to start {pid}" true
  | .stopModelInference id pid => do
    reportOutcome id pid (← stopPipeline me pid)
      s!"Inference stopped for {pid}" s!"Failed to stop {pid}" false
  | .startServing cmd => startServing V me cmd
  | .stopServing id pid => stopServing me id pid
  | .uninstallModel cmd => uninstallCommand me cmd
  | .updatePipeline cmd => updatePipeline V me cmd
  | .status _ => pure ()
  | .updateAgent id => updateAgent id
  | .updateAgentConfig id config => do
    let result ← applyAgentConfig V me config.modelDump
    reportCommand id (if result.ok || result.scheduledRestart then .completed else .failed) result.message

/-- `handle_command`: resolve the identity placeholders, validate, dispatch. -/
def handleCommand (V : Validator) (me : Option ℕ) (data : Json) : Code Unit := do
  let current ← act .getAgentConfig
  match V.command (Templating.resolveTemplates (identityContext current.identity) data) with
  | some cmd => dispatch V me cmd
  | none =>
    match data.get? "id" with
    | some (.str id) => if id = "" then pure () else reportCommand id .failed "Invalid command payload"
    | _ => pure ()

/-! ### Boot -/

/-- The runtime as `__init__` leaves it. -/
def init (agentConfig : AgentConfig) (store : Option Store) (zenoh : Bool)
    (files : List String → Option Node) (cwd pending : List String) (oracle : Query → ℕ → Answer) : Rt where
  agentConfig
  configs := Rt.publish agentConfig.pipelines
  pipelines := .empty
  threads _ := {}
  nextThread := 0
  store
  zenoh
  workers := .empty
  jobs _ := { cmd := ⟨"", "", "", ⟨"", false, ⟨"", .empty⟩, none⟩⟩, sameId := rfl }
  nextJob := 0
  serving := none
  deployments := .empty
  files
  cwd
  pending
  reports := []
  running := true
  updateRequested := false
  configRestartRequested := false
  oracle
  tick := 0

/-- The saved configs take the place of those `__init__` published. -/
def recoverConfigs : List PipelineConfig → Code Unit
  | [] => pure ()
  | p :: l => do
    act (.setConfig p.id p)
    recoverConfigs l

/-- What `run` announces of a pipeline it has started again. -/
def reannounce (pid : String) : Code Unit := do
  let args := ((← act (.getConfig pid)).map fun c => c.source.args).getD .empty
  if ((args.get? "mode").getD .null).eq (.str "serve") then
    act (.report (.model pid none false 0 true 1 ((args.get? "port").getD (.int 0))))
    act (.setServing (some pid))
  else if truthy ((args.get? "model_path").getD .null) then
    act (.report (.model pid none true 1 false 0 (.int 0)))

def recoverOne (V : Validator) (pid : String) : Code Unit := do
  if ← startPipeline V none pid none then reannounce pid

def recoverActive (V : Validator) : List String → Code Unit
  | [] => pure ()
  | pid :: l => do
    recoverOne V pid
    recoverActive V l

/-- The ids of the pipelines that were active. -/
def activeIds (c : AgentConfig) : List String := (c.pipelines.filter (·.active)).map (·.id)

/-- `run` up to its loop: recover the saved pipelines, say that the agent is
online, and send the reports that are still pending. -/
def run (V : Validator) : Code Unit := do
  match ← act .snapshot with
  | some saved =>
    recoverConfigs saved.pipelines
    recoverActive V (activeIds saved)
  | none => pure ()
  act (.report (.lifecycle true))
  flushPendingUninstallReports

end AgentRuntime
end LocaiLink
