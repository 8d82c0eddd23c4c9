/-
# The process

The main thread recovers, flushes pending reports until it is told to stop, and shuts
down; the health server answers local clients, each on a thread of its own. The health
state's table of deployments has a lock of its own, which the runtime's code takes around
each change of it (`within`).
-/
import LocaiLink.Base.LockOrder
import LocaiLink.Runtime.Threads

namespace LocaiLink

/-- One row of `GET /models`. -/
structure ModelRow where
  id : String
  displayAlias : Json
  port : Json
  host : Json
  isServing : Bool

/-- What `GET /healthz` shows of the agent. -/
structure HealthSnapshot where
  connected : Option Bool
  deployments : List (String × Deployment)
  serving : Option String

/-- The runtime with its health server. `overdue` says of each sweep and each row whether
the row has been queued for too long. -/
structure Proc where
  rt : Rt
  connected : Option Bool
  healthUp : Bool
  overdue : ℕ → String → Bool
  sweeps : ℕ

inductive ProcLock
  | rt (l : Lock)
  | deployments
  deriving DecidableEq

inductive ProcAct
  | rt (a : Act)
  | isRunning
  | getWorkers
  | joinJob (j : ℕ)
  | getPipes
  | clearPipes
  | getTransport
  | disconnect
  | startHealth
  | stopHealth
  | sweep

@[reducible] def ProcAct.Resp : ProcAct → Type
  | .rt a => a.Resp
  | .isRunning => Bool
  | .getWorkers => List AgentWorker
  | .getPipes => List Pipe
  | .getTransport => Option Bool
  | .sweep => List (String × Deployment)
  | _ => Unit

def procSig : Sig := ⟨ProcAct, ProcAct.Resp, ProcLock⟩

instance : DecidableEq procSig.Lock := inferInstanceAs (DecidableEq ProcLock)

namespace Proc

/-- A row that was queued for too long has failed. -/
def age (s : Proc) (pid : String) (d : Deployment) : Deployment :=
  if d.stage = .queued ∧ s.overdue s.sweeps pid = true then { d with stage := .failed, progress := 0 } else d

/-- The rows are aged in place. -/
def aged (s : Proc) : Dict String Deployment := .ofList (s.rt.deployments.entries.map fun e => (e.1, s.age e.1 e.2))

/-- Threads are joined with a timeout: whatever they do, the join ends. -/
def perform : (a : ProcAct) → Proc → a.Resp × Proc
  | .rt a, s => ((s.rt.perform a).1, { s with rt := (s.rt.perform a).2 })
  | .isRunning, s => (s.rt.running, s)
  | .getWorkers, s => (s.rt.workers.entries.map Prod.snd, s)
  | .joinJob _, s => ((), s)
  | .getPipes, s => (s.rt.pipelines.entries.map Prod.snd, s)
  | .clearPipes, s => ((), { s with rt := { s.rt with pipelines := .empty } })
  | .getTransport, s => (s.connected, s)
  | .disconnect, s => ((), { s with connected := s.connected.map fun _ => false })
  | .startHealth, s => ((), { s with healthUp := true })
  | .stopHealth, s => ((), { s with healthUp := false })
  | .sweep, s => (s.aged.entries, { s with rt := { s.rt with deployments := s.aged }, sweeps := s.sweeps + 1 })

end Proc

abbrev ProcCode := Prog procSig

namespace ProcCode

def act (a : ProcAct) : ProcCode a.Resp := Prog.call (σ := procSig) a

def locked {α : Type} (l : ProcLock) (p : ProcCode α) : ProcCode α := Prog.locked (σ := procSig) l p

/-- An action of the runtime; `set_deployment_progress` takes the table's lock. -/
def guarded : (a : Act) → ProcCode a.Resp
  | .setDeployment pid stage progress name => locked .deployments (act (.rt (.setDeployment pid stage progress name)))
  | a => act (.rt a)

end ProcCode

open ProcCode

/-- The runtime's code, within the process. -/
def within {α : Type} : Prog rtSig α → ProcCode α
  | .ret a => .ret a
  | .act a k => (guarded a).bind fun r => within (k r)
  | .lock l k => .lock (.rt l) (within k)
  | .unlock l k => .unlock (.rt l) (within k)

section Within

variable {α β : Type}

theorem within_bind' (f : α → Prog rtSig β) : ∀ p : Prog rtSig α, within (p.bind f) = (within p).bind fun a => within (f a)
  | .ret _ => rfl
  | .act a k => by
    have hrest : (fun r => within ((k r).bind f)) = fun r => (within (k r)).bind fun a => within (f a) :=
      funext fun r => within_bind' f (k r)
    exact (congrArg (Prog.bind (guarded a)) hrest).trans (Prog.bind_assoc' _ _ _).symm
  | .lock l k => congrArg (Prog.lock (σ := procSig) (.rt l)) (within_bind' f k)
  | .unlock l k => congrArg (Prog.unlock (σ := procSig) (.rt l)) (within_bind' f k)

theorem within_bind (p : Code α) (f : α → Code β) : within (p >>= f) = within p >>= fun a => within (f a) :=
  within_bind' f p

theorem within_locked (l : Lock) (p : Code α) : within (Code.locked l p) = locked (.rt l) (within p) :=
  congrArg (Prog.lock (σ := procSig) (.rt l)) (within_bind' (fun a => .unlock l (.ret a)) p)

/-! What the runtime's code keeps to, it keeps to within the process. -/

variable {G : Type}

/-- What a thread of the process notes of the runtime's deeds. -/
def noteWithin (next : G → Deed rtSig → G) (g : G) : Deed procSig → G
  | .act (.rt a) r => next g (.act a r)
  | .lock (.rt l) => next g (.lock l)
  | .unlock (.rt l) => next g (.unlock l)
  | _ => g

/-- What it may do, where only the runtime's actions matter. -/
def permitsWithin (A : G → Act → Prop) (g : G) : ProcAct → Prop
  | .rt a => A g a
  | _ => True

variable {next : G → Deed rtSig → G} {A : G → Act → Prop}

theorem follows_guarded {a : Act} {g : G} (h : A g a) :
    Prog.Follows (σ := procSig) (noteWithin next) (permitsWithin A) (fun g' r => g' = next g (.act a r)) g (guarded a) := by
  unfold guarded
  split
  · exact .lock (.act h fun _ => .unlock (.ret rfl))
  · exact .act h fun _ => .ret rfl

theorem follows_within {Q : G → α → Prop} {g : G} {p : Code α} (h : Prog.Follows (σ := rtSig) next A Q g p) :
    Prog.Follows (σ := procSig) (noteWithin next) (permitsWithin A) Q g (within p) := by
  induction h with
  | ret h => exact .ret h
  | act h _ ih => exact (follows_guarded h).bind fun g' r hg => hg ▸ ih r
  | lock _ ih => exact .lock ih
  | unlock _ ih => exact .unlock ih

end Within

namespace AgentRuntime

/-! ### The main thread -/

/-- The loop of `run`, up to the round that finds the shutdown event set. Each round says
whether a flush is due. -/
def mainLoop : List Bool → ProcCode Unit
  | [] => pure ()
  | due :: rounds => do
    if ← act .isRunning then
      if due then within flushPendingUninstallReports
      mainLoop rounds
    else pure ()

def cancelWorkers : List AgentWorker → ProcCode Unit
  | [] => pure ()
  | w :: ws => do
    act (.rt (.cancelJob w.job))
    cancelWorkers ws

def joinWorkers : List AgentWorker → ProcCode Unit
  | [] => pure ()
  | w :: ws => do
    act (.joinJob w.job)
    joinWorkers ws

def stopPipes : List Pipe → ProcCode Unit
  | [] => pure ()
  | pipe :: l => do
    act (.rt (.stop pipe.thread))
    stopPipes l

def joinPipes : List Pipe → ProcCode Unit
  | [] => pure ()
  | pipe :: l => do
    if ← act (.rt (.isAlive pipe.thread)) then act (.rt (.join pipe.thread none))
    joinPipes l

/-- `_shutdown` -/
def shutdown : ProcCode Unit := do
  let workers ← locked (.rt .self) (act .getWorkers)
  cancelWorkers workers
  joinWorkers workers
  locked (.rt .self) do
    let pipes ← act .getPipes
    stopPipes pipes
    joinPipes pipes
    act .clearPipes
  act .disconnect
  act .stopHealth

/-- `run`, from its start to its end. -/
def lifetime (V : Validator) (rounds : List Bool) : ProcCode Unit := do
  act .startHealth
  within (run V)
  mainLoop rounds
  shutdown
  act (.rt (.report (.lifecycle false)))

/-! ### The health server -/

def modelRows : List (String × Stored) → Code (List ModelRow)
  | [] => pure []
  | (pid, c) :: l => do
    let args := c.conf.source.args
    if (args.get? "model_path").isSome then
      let active := (← Code.act (.getPipe pid)).isSome
      let given := (args.get? "alias").getD .null
      let rest ← modelRows l
      pure ({
        id := pid
        displayAlias := if given.truthy then given else .str pid
        port := (args.get? "port").getD .null
        host := (args.get? "host").getD (.str "127.0.0.1")
        isServing := active && ((args.get? "mode").getD .null).eq (.str "serve") } :: rest)
    else modelRows l

/-- `_snapshot_models` as `GET /models` runs it, entry by entry -/
def listModels : Code (List ModelRow) :=
  Code.locked .self do
    modelRows (← Code.act .getConfigs).entries

/-- `HealthState.snapshot`, for `GET /healthz` -/
def healthSnapshot : ProcCode HealthSnapshot := do
  let connected ← act .getTransport
  let deployments ← locked .deployments (act .sweep)
  let serving ← act (.rt .getServing)
  pure { connected, deployments, serving }

/-- What a client asks of a model. -/
inductive ModelAction | serve | stopServing | cancelDeploy | uninstall

/-- A command of a client. -/
def loopbackCommand (id type : String) (fields : List (String × Json)) : Json :=
  .obj (("id", .str ("loopback-" ++ id)) :: ("type", .str type) :: fields)

def orElse (x y : Json) : Json := if x.truthy then x else y

/-- The command that a client's request is for, of a model that is shown. -/
def commandFor (action : ModelAction) (id pid : String) (row : ModelRow) : Json :=
  match action with
  | .serve => loopbackCommand id "START_SERVING" [("pipeline_id", .str pid), ("port", orElse row.port (.int 8100)),
      ("host", orElse row.host (.str "0.0.0.0")), ("model_display_name", orElse row.displayAlias (.str pid))]
  | .stopServing => loopbackCommand id "STOP_SERVING" [("pipeline_id", .str pid)]
  | .cancelDeploy => loopbackCommand id "CANCEL_DEPLOY" [("pipeline_id", .str pid)]
  | .uninstall => loopbackCommand id "UNINSTALL_MODEL" [("pipeline_id", .str pid), ("force_stop", .bool true)]

/-- What is asked of a model that is shown is handled as a command. -/
def actOnShown (V : Validator) (action : ModelAction) (id pid : String) : Code Unit := do
  match (← listModels).find? fun row => row.id = pid with
  | none => pure ()
  | some row => handleCommand V none (commandFor action id pid row)

/-- `POST /models/<pid>/<action>`. A deploy that is cancelled need not be shown. -/
def postModelAction (V : Validator) (action : ModelAction) (id pid : String) : Code Unit :=
  match action with
  | .cancelDeploy => handleCommand V none (loopbackCommand id "CANCEL_DEPLOY" [("pipeline_id", .str pid)])
  | action => actOnShown V action id pid

/-- `POST /update` -/
def postUpdate (V : Validator) (id : String) : Code Unit := do
  if ← Code.act .canUpdate then handleCommand V none (loopbackCommand id "UPDATE_AGENT" [])

/-- `POST /deployments/pending` -/
def postPending (pid : String) (name : Option String) : Code Unit :=
  Code.act (.setDeployment pid .queued 0 (name.getD ""))

/-! ### The threads -/

/-- A thread that enters: the main one, one of the runtime, or one that answers a client.
A signal is handled on the main thread, between two of its steps. -/
inductive Arrival
  | main (rounds : List Bool)
  | runtime (e : Entry)
  | getModels
  | getHealth
  | modelAction (action : ModelAction) (id pid : String)
  | update (id : String)
  | pending (pid : String) (name : Option String)
  | signal

/-- A client is answered while the server is up. -/
def answer {α : Type} (s : Proc) (p : ProcCode α) : Option (ProcCode Unit × Proc) :=
  if s.healthUp then some (p >>= fun _ => pure (), s) else none

def arrive (V : Validator) : Arrival → Proc → Option (ProcCode Unit × Proc)
  | .main rounds, s => some (lifetime V rounds, s)
  | .runtime e, s => (enter V e s.rt).map fun p => (within p.1, { s with rt := p.2 })
  | .getModels, s => answer s (within listModels)
  | .getHealth, s => answer s healthSnapshot
  | .modelAction action id pid, s => answer s (within (postModelAction V action id pid))
  | .update id, s => answer s (within (postUpdate V id))
  | .pending pid name, s => answer s (within (postPending pid name))
  | .signal, s => some (pure (), { s with rt := { s.rt with running := false } })

/-- The two runtime locks may be taken again by their holder. -/
def mayRetake : ProcLock → Bool
  | .rt l => isReentrant l
  | .deployments => false

def process (V : Validator) : Machine procSig Proc Arrival where
  sem := Proc.perform
  reentrant := mayRetake
  enter := arrive V

/-- A process with no threads yet. -/
def launched (s : Proc) : Sys procSig Proc := ⟨s, fun _ => none, []⟩

end AgentRuntime
end LocaiLink
