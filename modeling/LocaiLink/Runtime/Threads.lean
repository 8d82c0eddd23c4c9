/-
# The runtime's threads

Commands are handled by pipeline threads and by the threads of the health
server, each deploy has its worker, and the main thread runs the recovery. The
machine interleaves their actions; both runtime locks are re-entrant, the
others are not.
-/
import LocaiLink.Base.Machine
import LocaiLink.Runtime.Commands

namespace LocaiLink
namespace AgentRuntime

/-- A thread that enters: one that handles a command (a pipeline's own thread,
or one of the health server), or the worker of a started deploy. -/
inductive Entry
  | command (me : Option ℕ) (data : Json)
  | worker (j : ℕ)

def enter (V : Validator) : Entry → Rt → Option (Code Unit × Rt)
  | .command me data, s =>
    if me.all fun i => (s.threads i).started && !(s.threads i).ended then some (handleCommand V me data, s) else none
  | .worker j, s =>
    if (s.jobs j).started && !(s.jobs j).entered then
      some (deployWorker j (s.jobs j).cmd, s.setJob j fun t => { t with entered := true })
    else none

/-- The two runtime locks are `RLock`s. -/
def isReentrant : Lock → Bool
  | .ops | .self => true
  | _ => false

instance : DecidableEq rtSig.Lock := inferInstanceAs (DecidableEq Lock)

def machine (V : Validator) : Machine rtSig Rt Entry where
  sem := Rt.perform
  reentrant := isReentrant
  enter := enter V

/-- A process that starts: its state, no lock taken, and the main thread. -/
def start (V : Validator) (s : Rt) : Sys rtSig Rt where
  shared := s
  held _ := none
  threads := [run V]

/-! ### A small device

One pipeline, which fetches commands and hands them to the runtime; a process
that has just started on it, with surroundings where everything succeeds. -/

def commandCenter : PipelineConfig :=
  ⟨"command_center", true, ⟨"http_poll", .empty⟩, some ⟨"command", .empty⟩⟩

def deviceConfig (pipelines : List PipelineConfig) : AgentConfig :=
  ⟨SCHEMA_VERSION, ⟨"dev1", "unknown", none, none⟩, none, ⟨.info, []⟩, ⟨30, Nat.succ_pos 29, []⟩, pipelines⟩

/-- The device as it boots from a session file with these pipelines. -/
def device (pipelines : List PipelineConfig) (oracle : Query → ℕ → Answer) : Rt :=
  init (deviceConfig pipelines) (some ⟨deviceConfig pipelines, some (deviceConfig pipelines)⟩) false
    (fun _ => none) ["locai"] [] oracle

/-- The device after its boot, with the command pipeline on thread 0. -/
def bootedDevice : Rt := (Prog.run Rt.perform (run .strict) (device [commandCenter] fun _ _ => {})).2

def modelConfig (id : String) (active : Bool) : PipelineConfig := ⟨id, active, ⟨"language_model", .empty⟩, none⟩

/-- A command on the wire. -/
def command (type : String) (fields : List (String × Json)) : Json :=
  .obj (("id", .str "c1") :: ("type", .str type) :: fields)

def startModelCommand (pid : String) (c : PipelineConfig) : Json :=
  command "START_MODEL" [("pipeline_id", .str pid), ("config", c.modelDump)]

def pushCommand (c : AgentConfig) : Json := command "UPDATE_AGENT_CONFIG" [("agent_config", c.modelDump)]

end AgentRuntime
end LocaiLink
