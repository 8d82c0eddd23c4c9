/-
# Histories of a device

Commands one after another, the deploys they start, and restarts of the process,
which boots from the session file it finds. `Device` is what a process starts
with besides that file.
-/
import LocaiLink.Runtime.Threads
import LocaiLink.Runtime.Spec

namespace LocaiLink
namespace AgentRuntime

/-- What a process starts with besides its session: whether there is a Zenoh
session, the files, the working directory, the pending reports, and what its
surroundings will answer. -/
structure Device where
  zenoh : Bool
  files : List String → Option Node
  cwd : List String
  pending : List String
  oracle : Query → ℕ → Answer

/-- A process that starts on a session file. -/
def boot (dev : Device) (session : AgentConfig) : Rt :=
  init session (some ⟨session, some session⟩) dev.zenoh dev.files dev.cwd dev.pending dev.oracle

/-- The state after the recovery of a process that resumes a session. -/
def resume (V : Validator) (dev : Device) (session : AgentConfig) : Rt := ((boot dev session).run (run V)).2

inductive Event
  | command (me : Option ℕ) (data : Json)
  | worker (j : ℕ)
  | boot (zenoh : Bool) (oracle : Query → ℕ → Answer)

/-- One event, handled to its end. A deploy runs once it was started, and a boot
needs a session file that can be read. -/
def Event.apply (V : Validator) : Event → Rt → Option Rt
  | .command me data, s => some (s.run (handleCommand V me data)).2
  | .worker j, s =>
    if (s.jobs j).started && !(s.jobs j).entered then
      some ((s.setJob j fun t => { t with entered := true }).run (deployWorker j (s.jobs j).cmd)).2
    else none
  | .boot zenoh oracle, s =>
    (s.store.bind (·.disk)).map (resume V ⟨zenoh, s.files, s.cwd, s.pending, oracle⟩)

/-- The state a list of events leads to. -/
def history (V : Validator) : Rt → List Event → Option Rt
  | s, [] => some s
  | s, e :: es => (e.apply V s).bind fun t => history V t es

/-- A device without a Zenoh session, on which everything succeeds. -/
def plainDevice : Device := ⟨false, fun _ => none, ["locai"], [], fun _ _ => {}⟩

end AgentRuntime
end LocaiLink
