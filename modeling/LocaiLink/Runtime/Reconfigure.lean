/-
# Hot reconfiguration

`apply_agent_config` of `app/reconfigure.py`: resolve, validate, guard, then
swap and persist; a failure swaps back to a snapshot and restores the state,
and when that fails too the runtime asks for its restart.
-/
import LocaiLink.Runtime.Pipelines

namespace LocaiLink

/-- Outcome of `applyAgentConfig`. -/
structure ApplyResult where
  ok : Bool
  message : String
  scheduledRestart : Bool := false
  deriving DecidableEq

namespace AgentRuntime

open Code

/-- What the placeholders of a config or a command are resolved against. -/
def identityContext (c : IdentityConfig) : Json :=
  .obj [("identity", .obj [("device_id", .str c.deviceId), ("device_name", .str c.deviceName),
      ("api_key", dumpOpt .str c.apiKey), ("api_url", dumpOpt .str c.apiUrl)]),
    ("api_url", dumpOpt .str c.apiUrl)]

/-- A restore without a snapshot leaves the state as it is. -/
def restoreState : Option AgentConfig → Code Unit
  | none => pure ()
  | some snapshot => act (.store (.restore snapshot))

/-- The way back after a failed swap. -/
def revert (V : Validator) (me : Option ℕ) (newCfg snapshotCfg : AgentConfig)
    (snapshotState : Option AgentConfig) (applyErr : String) : Code ApplyResult := do
  match ← applyConfig V me snapshotCfg newCfg with
  | .ok () =>
    restoreState snapshotState
    pure { ok := false, message := s!"Reverted after failure: {applyErr}" }
  | .error revertErr =>
    act (.store (.updateFullConfig newCfg))
    act .requestConfigRestart
    pure { ok := false, message := s!"Apply + revert failed — restarting ({revertErr})", scheduledRestart := true }

/-- The swap to a config that has passed the guards. -/
def swapTo (V : Validator) (me : Option ℕ) (newCfg : AgentConfig) : Code ApplyResult := do
  let snapshotCfg ← act .getAgentConfig
  let snapshotState ← act .snapshot
  match ← applyConfig V me newCfg snapshotCfg with
  | .ok () =>
    act (.store (.updateFullConfig newCfg))
    act (.postConfig newCfg)
    pure { ok := true, message := s!"Applied - {newCfg.pipelines.length} pipeline(s)" }
  | .error applyErr => revert V me newCfg snapshotCfg snapshotState applyErr

/-- The guards in front of the swap: schema version, shape, identity, transport.
What they refuse is answered with an error. -/
def guardConfig (V : Validator) (current : AgentConfig) (resolved : Json) : Code (Except String AgentConfig) := do
  let version := (resolved.get? "version").getD .null
  if version.eq (.float SCHEMA_VERSION) then
    match V.agentConfig resolved with
    | none => pure (.error s!"Invalid config: {← act .validationText}")
    | some newCfg =>
      if newCfg.identity.deviceId ≠ current.identity.deviceId then
        let expected := String.ofList (Text.reprStr current.identity.deviceId.toList)
        let got := String.ofList (Text.reprStr newCfg.identity.deviceId.toList)
        pure (.error s!"Identity drift — device_id mismatch: expected {expected}, got {got}")
      else if optEq TransportConfig.eq newCfg.transport current.transport then pure (.ok newCfg)
      else pure (.error "Transport change requires a restart, not hot-swappable")
  else pure (.error s!"Unsupported version {String.ofList (Text.repr version)}")

/-- `apply_agent_config`. -/
def applyAgentConfig (V : Validator) (me : Option ℕ) (raw : Json) : Code ApplyResult := do
  let current ← act .getAgentConfig
  match ← guardConfig V current (Templating.resolveTemplates (identityContext current.identity) raw) with
  | .error message => pure { ok := false, message }
  | .ok newCfg => swapTo V me newCfg

end AgentRuntime
end LocaiLink
