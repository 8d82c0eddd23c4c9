/-
# The config schema and the command schema

The models of `config/models.py` and `config/commands.py`: their fields and
defaults, what `model_dump` writes, and their equality. The validation library
is a parameter, `Validator`, of which one law is used: what a pipeline config
dumps validates to that config again. `Validator.strict` is one that reads the
declared types and no others.
-/
import LocaiLink.Base.Text

namespace LocaiLink

def SCHEMA_VERSION : Flt := ⟨false, 2, [⟨1, by decide⟩], none, .inl (List.cons_ne_nil _ _)⟩

/-- A pluggable component reference. -/
structure GenericConfig where
  type : String
  args : Dict String Json

structure IdentityConfig where
  deviceId : String
  deviceName : String
  apiUrl : Option String
  apiKey : Option String
  deriving DecidableEq

inductive TransportType | http | zenoh
  deriving DecidableEq

structure TransportConfig where
  type : TransportType
  args : Dict String Json

inductive LogLevel | debug | info | warning | error
  deriving DecidableEq

structure LoggingConfig where
  level : LogLevel
  handlers : List GenericConfig

structure ReportingConfig where
  interval : ℕ
  pos : 1 ≤ interval
  handlers : List GenericConfig

structure PipelineConfig where
  id : String
  active : Bool
  source : GenericConfig
  sink : Option GenericConfig

structure AgentConfig where
  version : Flt
  identity : IdentityConfig
  transport : Option TransportConfig
  logging : LoggingConfig
  reporting : ReportingConfig
  pipelines : List PipelineConfig

/-! ### What a config dumps -/

def TransportType.text : TransportType → String
  | .http => "http"
  | .zenoh => "zenoh"

def LogLevel.text : LogLevel → String
  | .debug => "DEBUG"
  | .info => "INFO"
  | .warning => "WARNING"
  | .error => "ERROR"

def dumpOpt {α : Type} (f : α → Json) : Option α → Json
  | none => .null
  | some a => f a

def GenericConfig.modelDump (c : GenericConfig) : Json :=
  .obj [("type", .str c.type), ("args", .ofDict c.args)]

def IdentityConfig.modelDump (c : IdentityConfig) : Json :=
  .obj [("device_id", .str c.deviceId), ("device_name", .str c.deviceName),
    ("api_url", dumpOpt .str c.apiUrl), ("api_key", dumpOpt .str c.apiKey)]

def TransportConfig.modelDump (c : TransportConfig) : Json :=
  .obj [("type", .str c.type.text), ("args", .ofDict c.args)]

def LoggingConfig.modelDump (c : LoggingConfig) : Json :=
  .obj [("level", .str c.level.text), ("handlers", .arr (c.handlers.map GenericConfig.modelDump))]

def ReportingConfig.modelDump (c : ReportingConfig) : Json :=
  .obj [("interval", .int c.interval), ("handlers", .arr (c.handlers.map GenericConfig.modelDump))]

def PipelineConfig.modelDump (c : PipelineConfig) : Json :=
  .obj [("id", .str c.id), ("active", .bool c.active), ("source", c.source.modelDump),
    ("sink", dumpOpt GenericConfig.modelDump c.sink)]

def AgentConfig.modelDump (c : AgentConfig) : Json :=
  .obj [("version", .float c.version), ("identity", c.identity.modelDump),
    ("transport", dumpOpt TransportConfig.modelDump c.transport),
    ("logging", c.logging.modelDump), ("reporting", c.reporting.modelDump),
    ("pipelines", .arr (c.pipelines.map PipelineConfig.modelDump))]

/-! ### Equality

Two models are equal when their fields are, with the equality of values. -/

def GenericConfig.eq (a b : GenericConfig) : Bool :=
  a.type = b.type && (Json.ofDict a.args).eq (.ofDict b.args)

def TransportConfig.eq (a b : TransportConfig) : Bool :=
  a.type = b.type && (Json.ofDict a.args).eq (.ofDict b.args)

def optEq {α : Type} (eq : α → α → Bool) : Option α → Option α → Bool
  | none, none => true
  | some a, some b => eq a b
  | _, _ => false

def PipelineConfig.eq (a b : PipelineConfig) : Bool :=
  a.id = b.id && a.active = b.active && a.source.eq b.source && optEq GenericConfig.eq a.sink b.sink

@[simp] theorem GenericConfig.eq_refl (a : GenericConfig) : a.eq a = true := by simp [eq]

theorem GenericConfig.eq_comm (a b : GenericConfig) : a.eq b = b.eq a := by
  rw [eq, eq, Json.eq_comm, decide_eq_decide.mpr (Eq.comm (a := a.type))]

theorem GenericConfig.eq_trans {a b c : GenericConfig} (hab : a.eq b = true) (hbc : b.eq c = true) :
    a.eq c = true := by
  simp only [eq, Bool.and_eq_true, decide_eq_true_eq] at *
  exact ⟨hab.1.trans hbc.1, Json.eq_trans hab.2 hbc.2⟩

theorem optEq_refl {α : Type} {eq : α → α → Bool} (h : ∀ a, eq a a = true) :
    ∀ x : Option α, optEq eq x x = true
  | none => rfl
  | some a => h a

theorem optEq_comm {α : Type} {eq : α → α → Bool} (h : ∀ a b, eq a b = eq b a) :
    ∀ x y : Option α, optEq eq x y = optEq eq y x
  | none, none => rfl
  | some a, some b => h a b
  | none, some _ => rfl
  | some _, none => rfl

theorem optEq_trans {α : Type} {eq : α → α → Bool}
    (h : ∀ a b c, eq a b = true → eq b c = true → eq a c = true) :
    ∀ x y z : Option α, optEq eq x y = true → optEq eq y z = true → optEq eq x z = true
  | none, none, none, _, _ => rfl
  | some a, some b, some c, hab, hbc => h a b c hab hbc
  | none, none, some _, _, hbc => hbc
  | some _, none, _, hab, _ => by simp [optEq] at hab
  | none, some _, _, hab, _ => by simp [optEq] at hab
  | some _, some _, none, _, hbc => by simp [optEq] at hbc

namespace PipelineConfig

@[simp] theorem eq_refl (a : PipelineConfig) : a.eq a = true := by
  simp [eq, optEq_refl GenericConfig.eq_refl]

theorem eq_comm (a b : PipelineConfig) : a.eq b = b.eq a := by
  rw [eq, eq, GenericConfig.eq_comm, optEq_comm GenericConfig.eq_comm,
    decide_eq_decide.mpr (Eq.comm (a := a.id)), decide_eq_decide.mpr (Eq.comm (a := a.active))]

theorem eq_trans {a b c : PipelineConfig} (hab : a.eq b = true) (hbc : b.eq c = true) :
    a.eq c = true := by
  simp only [eq, Bool.and_eq_true, decide_eq_true_eq] at *
  exact ⟨⟨⟨hab.1.1.1.trans hbc.1.1.1, hab.1.1.2.trans hbc.1.1.2⟩, GenericConfig.eq_trans hab.1.2 hbc.1.2⟩,
    optEq_trans (fun x y z => @GenericConfig.eq_trans x y z) _ _ _ hab.2 hbc.2⟩

end PipelineConfig

/-! ### Commands -/

structure DeployModelCommand where
  id : String
  pipelineId : String
  modelName : String
  config : PipelineConfig

structure StartServingCommand where
  id : String
  pipelineId : String
  port : ℤ
  host : String
  modelDisplayName : String

structure UninstallModelCommand where
  id : String
  pipelineId : String
  forceStop : Bool
  filenameOnServer : Option String
  fileExtension : Option String

structure UpdatePipelineCommand where
  id : String
  pipelineId : String
  config : PipelineConfig

inductive Command
  | deployModel (cmd : DeployModelCommand)
  | cancelDeploy (id pipelineId : String)
  | startModel (id pipelineId : String) (config : PipelineConfig)
  | startModelInference (id pipelineId : String)
  | stopModelInference (id pipelineId : String)
  | startServing (cmd : StartServingCommand)
  | stopServing (id pipelineId : String)
  | uninstallModel (cmd : UninstallModelCommand)
  | updatePipeline (cmd : UpdatePipelineCommand)
  | status (id : String)
  | updateAgent (id : String)
  | updateAgentConfig (id : String) (agentConfig : AgentConfig)

def Command.id : Command → String
  | .deployModel cmd => cmd.id
  | .cancelDeploy id _ | .startModel id _ _ | .startModelInference id _ | .stopModelInference id _ => id
  | .startServing cmd => cmd.id
  | .stopServing id _ => id
  | .uninstallModel cmd => cmd.id
  | .updatePipeline cmd => cmd.id
  | .status id | .updateAgent id | .updateAgentConfig id _ => id

/-- The validation library: `none` is a validation error. -/
structure Validator where
  pipelineConfig : Json → Option PipelineConfig
  agentConfig : Json → Option AgentConfig
  command : Json → Option Command
  pipelineConfig_modelDump : ∀ c : PipelineConfig, pipelineConfig c.modelDump = some c

/-! ### The strict validator

It takes the declared types as they are, fills in the defaults, ignores unknown
keys in a config and refuses them in a command. -/

namespace Strict

/-- The value under a key: `d` where there is none (`none`: the key is required). -/
def field {α : Type} (k : String) (d : Option α) (f : Json → Option α) (j : Json) : Option α :=
  match j.get? k with
  | none => d
  | some v => f v

def str : Json → Option String
  | .str s => some s
  | _ => none

def bool : Json → Option Bool
  | .bool b => some b
  | _ => none

def int : Json → Option ℤ
  | .int n => some n
  | _ => none

def float : Json → Option Flt
  | .float x => some x
  | .int n => some ⟨n < 0, n.natAbs, [⟨0, by decide⟩], none, .inl (List.cons_ne_nil _ _)⟩
  | _ => none

def dict : Json → Option (Dict String Json)
  | .obj l => some (Dict.ofList l)
  | _ => none

def list {α : Type} (f : Json → Option α) : Json → Option (List α)
  | .arr l => l.mapM f
  | _ => none

def nullable {α : Type} (f : Json → Option α) : Json → Option (Option α)
  | .null => some none
  | v => (f v).map some

def genericConfig (j : Json) : Option GenericConfig := do
  pure ⟨← field "type" none str j, ← field "args" (some .empty) dict j⟩

def identityConfig (j : Json) : Option IdentityConfig := do
  pure ⟨← field "device_id" none str j, ← field "device_name" (some "unknown") str j,
    ← field "api_url" (some none) (nullable str) j, ← field "api_key" (some none) (nullable str) j⟩

def transportType : Json → Option TransportType
  | .str s => if s = "http" then some .http else if s = "zenoh" then some .zenoh else none
  | _ => none

def logLevel : Json → Option LogLevel
  | .str s => [LogLevel.debug, .info, .warning, .error].find? fun l => l.text = s
  | _ => none

def interval : Json → Option { n : ℕ // 1 ≤ n }
  | .int (.ofNat n) => if h : 1 ≤ n then some ⟨n, h⟩ else none
  | _ => none

def transportConfig (j : Json) : Option TransportConfig := do
  pure ⟨← field "type" none transportType j, ← field "args" (some .empty) dict j⟩

def loggingConfig (j : Json) : Option LoggingConfig := do
  let _ ← dict j
  pure ⟨← field "level" (some .info) logLevel j, ← field "handlers" (some []) (list genericConfig) j⟩

def reportingConfig (j : Json) : Option ReportingConfig := do
  let _ ← dict j
  let n ← field "interval" (some ⟨30, by decide⟩) interval j
  pure ⟨n.1, n.2, ← field "handlers" (some []) (list genericConfig) j⟩

def pipelineConfig (j : Json) : Option PipelineConfig := do
  pure ⟨← field "id" none str j, ← field "active" (some false) bool j,
    ← field "source" none genericConfig j, ← field "sink" (some none) (nullable genericConfig) j⟩

def agentConfig (j : Json) : Option AgentConfig := do
  pure ⟨← field "version" none float j, ← field "identity" none identityConfig j,
    ← field "transport" (some none) (nullable transportConfig) j,
    ← field "logging" (some ⟨.info, []⟩) loggingConfig j,
    ← field "reporting" (some ⟨30, by decide, []⟩) reportingConfig j,
    ← field "pipelines" (some []) (list pipelineConfig) j⟩

/-- No keys but these, next to the envelope's. -/
def only (ks : List String) : Json → Option Unit
  | .obj l => if l.all fun e => e.1 ∈ "id" :: "type" :: ks then some () else none
  | _ => none

def command (j : Json) : Option Command := do
  let id ← field "id" none str j
  let pid := field "pipeline_id" none str j
  let config := field "config" none pipelineConfig j
  match ← field "type" none str j with
  | "DEPLOY_MODEL" => do
    only ["pipeline_id", "model_name", "config"] j
    pure (.deployModel ⟨id, ← pid, ← field "model_name" none str j, ← config⟩)
  | "CANCEL_DEPLOY" => do only ["pipeline_id"] j; pure (.cancelDeploy id (← pid))
  | "START_MODEL" => do only ["pipeline_id", "config"] j; pure (.startModel id (← pid) (← config))
  | "START_MODEL_INFERENCE" => do only ["pipeline_id"] j; pure (.startModelInference id (← pid))
  | "STOP_MODEL_INFERENCE" => do only ["pipeline_id"] j; pure (.stopModelInference id (← pid))
  | "START_SERVING" => do
    only ["pipeline_id", "port", "host", "model_display_name"] j
    pure (.startServing ⟨id, ← pid, ← field "port" (some 8100) int j, ← field "host" (some "0.0.0.0") str j,
      ← field "model_display_name" (some "locai-model") str j⟩)
  | "STOP_SERVING" => do only ["pipeline_id"] j; pure (.stopServing id (← pid))
  | "UNINSTALL_MODEL" => do
    only ["pipeline_id", "force_stop", "filename_on_server", "file_extension"] j
    pure (.uninstallModel ⟨id, ← pid, ← field "force_stop" (some false) bool j,
      ← field "filename_on_server" (some none) (nullable str) j,
      ← field "file_extension" (some none) (nullable str) j⟩)
  | "UPDATE_PIPELINE" => do
    only ["pipeline_id", "config"] j
    pure (.updatePipeline ⟨id, ← pid, ← config⟩)
  | "STATUS" => do only [] j; pure (.status id)
  | "UPDATE_AGENT" => do only [] j; pure (.updateAgent id)
  | "UPDATE_AGENT_CONFIG" => do
    only ["agent_config"] j
    pure (.updateAgentConfig id (← field "agent_config" none agentConfig j))
  | _ => none

theorem genericConfig_modelDump (c : GenericConfig) : genericConfig c.modelDump = some c := by
  simp [genericConfig, GenericConfig.modelDump, field, Json.get?, List.lookup_cons, str, dict, Json.ofDict]

theorem pipelineConfig_modelDump (c : PipelineConfig) : pipelineConfig c.modelDump = some c := by
  have hsink : nullable genericConfig (dumpOpt GenericConfig.modelDump c.sink) = some c.sink := by
    cases c.sink with
    | none => rfl
    | some g => exact congrArg (Option.map some) (genericConfig_modelDump g)
  simp [pipelineConfig, PipelineConfig.modelDump, field, Json.get?, List.lookup_cons, str, bool,
    genericConfig_modelDump, hsink]

theorem field_str {k s : String} {j : Json} (h : field k none str j = some s) : j.get? k = some (.str s) := by
  unfold field at h
  cases hk : j.get? k with
  | none => simp [hk] at h
  | some v => cases v <;> simp_all [str]

/-- The id of a command is the one its dict has. -/
theorem command_id {j : Json} {cmd : Command} (h : command j = some cmd) : j.get? "id" = some (.str cmd.id) := by
  obtain ⟨id, hid, h⟩ := Option.bind_eq_some_iff.mp h
  obtain ⟨type, -, h⟩ := Option.bind_eq_some_iff.mp h
  suffices hcmd : cmd.id = id from hcmd ▸ field_str hid
  split at h <;> simp only [Option.bind_eq_bind, Option.bind_eq_some_iff, Option.pure_def, Option.some.injEq,
    reduceCtorEq] at h <;> grind [Command.id]

end Strict

def Validator.strict : Validator where
  pipelineConfig := Strict.pipelineConfig
  agentConfig := Strict.agentConfig
  command := Strict.command
  pipelineConfig_modelDump := Strict.pipelineConfig_modelDump

/-- A command that validates has the id its dict has. -/
def Validator.KeepsId (V : Validator) : Prop :=
  ∀ j cmd, V.command j = some cmd → j.get? "id" = some (.str cmd.id)

theorem Validator.strict_keepsId : Validator.strict.KeepsId := fun _ _ => Strict.command_id

end LocaiLink
