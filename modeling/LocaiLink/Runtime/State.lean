/-
# The runtime's state and its atomic actions

`Rt` is what the threads of `AgentRuntime` share; `Act` lists the single reads
and writes their code does, and `Rt.perform` says what each does and answers.
What the code does not decide (whether a component can be built, a thread ends
in time, a file is written, a server replies) the state's oracle answers, one
question at a time: statements are for every oracle.
-/
import LocaiLink.Base.Lines
import LocaiLink.Base.Path
import LocaiLink.Base.Prog
import LocaiLink.Runtime.Store
import LocaiLink.Runtime.Templating

namespace LocaiLink

/-! ### What is outside the code -/

/-- What the code asks of its surroundings. -/
inductive Query
  | component | handlers | thread | flush | file | download | http | preflight | order | validation
  deriving DecidableEq

/-- A streaming reply: the error its status raises, the announced length (or why
it is no number), the chunks that arrive and the error that ends them. -/
structure Response where
  status : Option String
  length : Except String ℕ
  chunks : List Bytes
  error : Option String

/-- An answer holds one for every question, of which the question's is read. -/
structure Answer where
  error : Option String := none
  yes : Bool := true
  written : Store.Written := .whole
  response : Except String Response := .error ""
  order : (l : List String) → { m : List String // m.Perm l } := fun l => ⟨l, .refl l⟩

inductive Node
  | dir
  | file (content : Bytes)
  deriving DecidableEq

/-! ### Reports -/

inductive Status | completed | failed
  deriving DecidableEq

inductive Stage | queued | downloading | configuring | completed | cancelled | failed
  deriving DecidableEq

/-- What `status_logger` sends. -/
inductive Report
  | lifecycle (online : Bool)
  | command (id : String) (status : Status) (output : String)
  | model (id : String) (installed : Option Bool) (running : Bool) (pid : ℕ) (serving : Bool)
      (servingPid : ℕ) (servingPort : Json)
  | deploymentProgress (id : String) (stage : Stage) (progress done total : ℕ)

/-- A report about nothing is not sent. -/
def Report.isSent : Report → Bool
  | .lifecycle _ => true
  | .command id _ _ | .model id _ _ _ _ _ _ => id ≠ ""
  | .deploymentProgress id _ _ _ _ => id ≠ ""

/-! ### The state -/

/-- A stored config. It is `shared` while it is the very object that
`agent_config.pipelines` holds, so that a change in place shows in both. -/
structure Stored where
  conf : PipelineConfig
  shared : Bool

/-- A `Pipeline`: the config it was built from, and the number of its thread. -/
structure Pipe where
  conf : PipelineConfig
  thread : ℕ

/-- A pipeline's thread: its run flag, and whether it was started and has ended. -/
structure PipeThread where
  running : Bool := true
  started : Bool := false
  ended : Bool := false

/-- A deploy thread with its cancel event, for a command whose config has the
pipeline's id. It is alive from its start until it has ended, and `entered` once
its code runs; `closed` is about the one reply it streams. -/
structure Job where
  cmd : DeployModelCommand
  sameId : cmd.config.id = cmd.pipelineId
  cancelled : Bool := false
  started : Bool := false
  entered : Bool := false
  ended : Bool := false
  closed : Bool := false

/-- An `_AgentWorker`: its thread and cancel event are those of job `job`, and its
`response` is the reply of a job. -/
structure AgentWorker where
  job : ℕ
  commandId : String
  response : Option ℕ := none

structure Deployment where
  modelName : Option String
  stage : Stage
  progress : ℕ

structure Rt where
  agentConfig : AgentConfig
  configs : Dict String Stored
  pipelines : Dict String Pipe
  threads : ℕ → PipeThread
  nextThread : ℕ
  store : Option Store
  zenoh : Bool
  workers : Dict String AgentWorker
  jobs : ℕ → Job
  nextJob : ℕ
  serving : Option String
  deployments : Dict String Deployment
  files : List String → Option Node
  cwd : List String
  pending : List String
  reports : List Report
  running : Bool
  updateRequested : Bool
  configRestartRequested : Bool
  oracle : Query → ℕ → Answer
  tick : ℕ

namespace Rt

def ask (q : Query) (s : Rt) : Answer := s.oracle q s.tick

def tock (s : Rt) : Rt := { s with tick := s.tick + 1 }

def setThread (i : ℕ) (f : PipeThread → PipeThread) (s : Rt) : Rt :=
  { s with threads := Function.update s.threads i (f (s.threads i)) }

def setJob (j : ℕ) (f : Job → Job) (s : Rt) : Rt :=
  { s with jobs := Function.update s.jobs j (f (s.jobs j)) }

/-- `{p.id: p for p in pipelines}`, the entries themselves. -/
def publish (l : List PipelineConfig) : Dict String Stored :=
  .ofList (l.map fun p => (p.id, ⟨p, true⟩))

/-- The last entry with an id is changed in place. -/
def modifyLast (pid : String) (f : PipelineConfig → PipelineConfig) (l : List PipelineConfig) :
    List PipelineConfig :=
  (go l.reverse).reverse
where
  go : List PipelineConfig → List PipelineConfig
    | [] => []
    | p :: l => if p.id = pid then f p :: l else p :: go l

def updateArgs (args : List (String × Json)) (c : PipelineConfig) : PipelineConfig :=
  { c with source := { c.source with args := args.foldl (fun d e => d.set e.1 e.2) c.source.args } }

/-- What a change of a stored config in place does. -/
def modifyStored (pid : String) (f : PipelineConfig → PipelineConfig) (s : Rt) : Rt :=
  match s.configs.get? pid with
  | none => s
  | some c =>
    { s with
      configs := s.configs.set pid { c with conf := f c.conf }
      agentConfig := if c.shared then
          { s.agentConfig with pipelines := modifyLast pid f s.agentConfig.pipelines }
        else s.agentConfig }

def performStore (op : Store.Op) (s : Rt) : Rt :=
  match s.store with
  | none => s
  | some st => { s with store := some (st.perform op (s.ask .flush).written), tick := s.tick + 1 }

end Rt

/-! ### The actions -/

/-- The locks: the two of the runtime, the download locks by model name and
their guard, and the one of the pending reports. -/
inductive Lock
  | ops | self | downloadsGuard | pendingReports
  | download (modelName : String)
  deriving DecidableEq

inductive Act
  -- the two maps and the agent config
  | getAgentConfig
  | getConfig (pid : String)
  | getConfigs
  | setConfig (pid : String) (c : PipelineConfig)
  | updateArgs (pid : String) (args : List (String × Json))
  | popConfig (pid : String)
  | getPipe (pid : String)
  | setPipe (pid : String) (pipe : Pipe)
  | popPipe (pid : String)
  | setAgentConfig (c : AgentConfig)
  | publishConfigs (c : AgentConfig)
  -- components, handlers and pipeline threads
  | createComponent (c : GenericConfig)
  | rebuildHandlers (logging : LoggingConfig) (reporting : ReportingConfig)
  | newPipeline (c : PipelineConfig)
  | startThread (i : ℕ)
  | stop (i : ℕ)
  | join (i : ℕ) (me : Option ℕ)
  | isAlive (i : ℕ)
  -- the session store
  | store (op : Store.Op)
  | snapshot
  -- deploy workers
  | getWorker (pid : String)
  | jobAlive (j : ℕ)
  | register (cmd : DeployModelCommand) (sameId : cmd.config.id = cmd.pipelineId)
  | startJob (j : ℕ)
  | endJob (j : ℕ)
  | cancelJob (j : ℕ)
  | isCancelled (j : ℕ)
  | attachResponse (pid : String) (commandId : String) (response : Option ℕ)
  | closeResponse (j : ℕ)
  | dropWorker (pid : String) (commandId : String)
  -- files and the network
  | cwd
  | lookup (p : Path)
  | mkdir (p : Path)
  | unlink (p : Path)
  | create (p : Path)
  | append (p : Path) (chunk : Bytes)
  | replace (p q : Path)
  | download (url : String)
  | postConfig (c : AgentConfig)
  | postUninstalled (pid : String)
  | loadPending
  | savePending (ids : List String)
  -- reports, health, flags
  | report (r : Report)
  | setServing (pid : Option String)
  | getServing
  | setDeployment (pid : String) (stage : Stage) (progress : ℕ) (modelName : String)
  | canUpdate
  | requestUpdate
  | requestConfigRestart
  | setOrder (ids : List String)
  | validationText

/-- What an action answers. A `some` of an answer that is an error is what it raises. -/
@[reducible] def Act.Resp : Act → Type
  | .getAgentConfig => AgentConfig
  | .getConfig _ => Option PipelineConfig
  | .getConfigs => Dict String Stored
  | .updateArgs _ _ => Option PipelineConfig
  | .getPipe _ => Option Pipe
  | .createComponent _ => Option String
  | .rebuildHandlers _ _ => Option String
  | .newPipeline _ => Pipe
  | .isAlive _ | .jobAlive _ | .isCancelled _ => Bool
  | .snapshot => Option AgentConfig
  | .getWorker _ => Option AgentWorker
  | .register _ _ => ℕ
  | .cwd => Path
  | .lookup _ => Option Node
  | .mkdir _ | .unlink _ | .create _ | .append _ _ | .replace _ _ => Option String
  | .download _ => Except String Response
  | .postUninstalled _ => Bool
  | .loadPending => List String
  | .getServing => Option String
  | .canUpdate => Bool
  | .setOrder _ => List String
  | .validationText => String
  | _ => Unit

def rtSig : Sig := ⟨Act, Act.Resp, Lock⟩

namespace Rt

/-- A thread cannot join itself; of another one the oracle says whether it ends
in time. -/
def join (i : ℕ) (me : Option ℕ) (s : Rt) : Rt :=
  if me = some i then s
  else if (s.ask .thread).yes then s.tock.setThread i fun t => { t with ended := true }
  else s.tock

/-- The message of an operating system error about a path. -/
def osError (what : String) (p : Path) : String := s!"{what}: '{p.text}'"

def node (p : Path) (s : Rt) : Option Node := s.files (p.resolve s.cwd)

def setNode (p : Path) (n : Option Node) (s : Rt) : Rt :=
  { s with files := Function.update s.files (p.resolve s.cwd) n }

/-- A file operation: it raises what the state makes it raise, or what its
surroundings do, or it does `f`. -/
def fileOp (fails : Option String) (f : Rt → Rt) (s : Rt) : Option String × Rt :=
  match fails.or (s.ask .file).error with
  | some e => (some e, s.tock)
  | none => (none, f s.tock)

/-- Opening for writing, unlinking and replacing are not for directories. -/
def notDir (p : Path) (s : Rt) : Option String :=
  if s.node p = some .dir then some (osError "[Errno 21] Is a directory" p) else none

def isThere (p : Path) (s : Rt) : Option String :=
  if s.node p = none then some (osError "[Errno 2] No such file or directory" p) else none

def mkdirFails (p : Path) (s : Rt) : Option String :=
  match s.node p with
  | some (.file _) => some (osError "[Errno 17] File exists" p)
  | _ => none

def appendTo (p : Path) (chunk : Bytes) (s : Rt) : Rt :=
  match s.node p with
  | some (.file b) => s.setNode p (some (.file (b ++ chunk)))
  | _ => s

/-- `set_deployment_progress`: a completed row goes, a row that is past queueing is not
queued again, and a row keeps its model name when it is given none. -/
def setDeployment (pid : String) (stage : Stage) (progress : ℕ) (modelName : String) (s : Rt) : Rt :=
  if stage = .completed then { s with deployments := s.deployments.erase pid }
  else if stage = .queued ∧ ((s.deployments.get? pid).any fun d => d.stage ≠ .queued) then s
  else
    let kept := (s.deployments.get? pid).bind (·.modelName)
    { s with deployments :=
        s.deployments.set pid ⟨if modelName = "" then kept else some modelName, stage, progress⟩ }

/-- What each action does, and its answer. -/
def perform : (a : Act) → Rt → a.Resp × Rt
  | .getAgentConfig, s => (s.agentConfig, s)
  | .getConfig pid, s => ((s.configs.get? pid).map (·.conf), s)
  | .getConfigs, s => (s.configs, s)
  | .setConfig pid c, s => ((), { s with configs := s.configs.set pid ⟨c, false⟩ })
  | .updateArgs pid args, s =>
    let s' := s.modifyStored pid (Rt.updateArgs args)
    ((s'.configs.get? pid).map (·.conf), s')
  | .popConfig pid, s => ((), { s with configs := s.configs.erase pid })
  | .getPipe pid, s => (s.pipelines.get? pid, s)
  | .setPipe pid pipe, s => ((), { s with pipelines := s.pipelines.set pid pipe })
  | .popPipe pid, s => ((), { s with pipelines := s.pipelines.erase pid })
  | .setAgentConfig c, s => ((), { s with agentConfig := c })
  | .publishConfigs c, s => ((), { s with configs := publish c.pipelines })
  | .createComponent c, s =>
    if Text.startsWith c.type "zenoh_" && !s.zenoh then
      (some s!"Component '{c.type}' requires Zenoh, but no active session was provided.", s)
    else ((s.ask .component).error, s.tock)
  | .rebuildHandlers _ _, s => ((s.ask .handlers).error, s.tock)
  | .newPipeline c, s =>
    (⟨c, s.nextThread⟩, { s with
      threads := Function.update s.threads s.nextThread {}, nextThread := s.nextThread + 1 })
  | .startThread i, s => ((), s.setThread i fun t => { t with started := true })
  | .stop i, s => ((), s.setThread i fun t => { t with running := false })
  | .join i me, s => ((), s.join i me)
  | .isAlive i, s => ((s.threads i).started && !(s.threads i).ended, s)
  | .store op, s => ((), s.performStore op)
  | .snapshot, s => (s.store.map (·.cache), s)
  | .getWorker pid, s => (s.workers.get? pid, s)
  | .jobAlive j, s => ((s.jobs j).started && !(s.jobs j).ended, s)
  | .register cmd sameId, s =>
    (s.nextJob, { s with
      jobs := Function.update s.jobs s.nextJob { cmd, sameId }, nextJob := s.nextJob + 1
      workers := s.workers.set cmd.pipelineId ⟨s.nextJob, cmd.id, none⟩ })
  | .startJob j, s => ((), s.setJob j fun t => { t with started := true })
  | .endJob j, s => ((), s.setJob j fun t => { t with ended := true })
  | .cancelJob j, s => ((), s.setJob j fun t => { t with cancelled := true })
  | .isCancelled j, s => ((s.jobs j).cancelled, s)
  | .attachResponse pid cid r, s => ((), match s.workers.get? pid with
    | some w => if w.commandId = cid then { s with workers := s.workers.set pid { w with response := r } } else s
    | none => s)
  | .closeResponse j, s => ((), s.setJob j fun t => { t with closed := true })
  | .dropWorker pid cid, s => ((), match s.workers.get? pid with
    | some w => if w.commandId = cid then { s with workers := s.workers.erase pid } else s
    | none => s)
  | .cwd, s => (⟨1, s.cwd⟩, s)
  | .lookup p, s => (s.node p, s)
  | .mkdir p, s => s.fileOp (s.mkdirFails p) (setNode p (some .dir))
  | .unlink p, s => s.fileOp ((s.isThere p).or (s.notDir p)) (setNode p none)
  | .create p, s => s.fileOp (s.notDir p) (setNode p (some (.file [])))
  | .append p chunk, s => s.fileOp none (appendTo p chunk)
  | .replace p q, s =>
    s.fileOp ((s.isThere p).or (s.notDir q)) fun t => (t.setNode p none).setNode q (s.node p)
  | .download _, s => ((s.ask .download).response, s.tock)
  | .postConfig _, s => ((), s.tock)
  | .postUninstalled _, s => ((s.ask .http).yes, s.tock)
  | .loadPending, s => (if (s.ask .file).error = none then s.pending else [], s.tock)
  | .savePending ids, s => ((), if (s.ask .file).error = none then { s.tock with pending := ids } else s.tock)
  | .report r, s => ((), if r.isSent then { s with reports := s.reports ++ [r] } else s)
  | .setServing pid, s => ((), { s with serving := pid })
  | .getServing, s => (s.serving, s)
  | .setDeployment pid stage progress name, s => ((), s.setDeployment pid stage progress name)
  | .canUpdate, s => ((s.ask .preflight).yes, s.tock)
  | .requestUpdate, s => ((), { s with updateRequested := true, running := false })
  | .requestConfigRestart, s => ((), { s with configRestartRequested := true, running := false })
  | .setOrder ids, s => (((s.ask .order).order ids).val, s.tock)
  | .validationText, s => ((s.ask .validation).error.getD "", s.tock)

/-! ### What the pipelines are made of -/

/-- The part of the state that starting, stopping and configuring is about. -/
structure Core where
  agentConfig : AgentConfig
  configs : Dict String Stored
  pipelines : Dict String Pipe
  threads : ℕ → PipeThread
  nextThread : ℕ
  store : Option Store

def core (s : Rt) : Core := ⟨s.agentConfig, s.configs, s.pipelines, s.threads, s.nextThread, s.store⟩

/-- The actions that leave the core as it is. -/
def Quiet : Act → Prop
  | .setConfig _ _ | .updateArgs _ _ | .popConfig _ | .setPipe _ _ | .popPipe _ | .setAgentConfig _
  | .publishConfigs _ | .newPipeline _ | .startThread _ | .stop _ | .join _ _ | .store _ => False
  | _ => True

@[simp] theorem core_tock (s : Rt) : s.tock.core = s.core := rfl

@[simp] theorem core_setNode (p : Path) (n : Option Node) (s : Rt) : (s.setNode p n).core = s.core := rfl

@[simp] theorem core_setJob (j : ℕ) (f : Job → Job) (s : Rt) : (s.setJob j f).core = s.core := rfl

@[simp] theorem core_appendTo (p : Path) (chunk : Bytes) (s : Rt) : (s.appendTo p chunk).core = s.core := by
  unfold appendTo
  split <;> rfl

theorem core_fileOp {fails : Option String} {f : Rt → Rt} (h : ∀ s, (f s).core = s.core) (s : Rt) :
    (s.fileOp fails f).2.core = s.core := by
  unfold fileOp
  split
  · rfl
  · rw [h, core_tock]

theorem core_perform {a : Act} (h : Quiet a) (s : Rt) : (perform a s).2.core = s.core := by
  cases a <;> simp only [Quiet] at h <;> simp only [perform] <;> try rfl
  case createComponent => split <;> rfl
  case attachResponse => split <;> [split; skip] <;> rfl
  case dropWorker => split <;> [split; skip] <;> rfl
  case mkdir p => exact core_fileOp (core_setNode p _) s
  case unlink p => exact core_fileOp (core_setNode p _) s
  case create p => exact core_fileOp (core_setNode p _) s
  case append p chunk => exact core_fileOp (core_appendTo p chunk) s
  case replace p q =>
    exact core_fileOp (f := fun t => (t.setNode p none).setNode q (s.node p)) (fun _ => rfl) s
  case savePending => split <;> rfl
  case report => split <;> rfl
  case setDeployment => unfold setDeployment; split <;> [skip; split] <;> rfl

end Rt
end LocaiLink
