/-
# The report a command is answered with

Every path of a command's code, from its dict to the end of the deploy thread it
starts, sends the report of exactly one command: itself. A path goes wherever the
answers lead it, and where an action raises it goes on in the handler of what is
raised. What has been heard on the way, the ids of the command reports and the
threads started, is the ghost state; the one thing that could go wrong is an
action that raises after the report was sent (`Calm`).
-/
import LocaiLink.Runtime.Actions
import LocaiLink.Runtime.Threads

namespace LocaiLink
namespace AgentRuntime

open Code

/-! ### Paths -/

/-- The actions that may raise past the code around them: those of threads, the
session store, files and the network. Reading or setting a field does not, and the
reports, to the status logger and to Control, are taken not to. What raises where
the code catches it (a component, a handler, a request) is an answer it goes on with. -/
def MayRaise : Act → Prop
  | .startThread _ | .store _ | .snapshot | .startJob _ | .cwd | .lookup _ | .mkdir _ | .unlink _ | .create _
  | .append _ _ | .replace _ _ | .download _ | .canUpdate | .validationText => True
  | _ => False

/-- What `_deploy_worker` does once its `try` block is left. -/
def afterSteps (cmd : DeployModelCommand) (j : ℕ) (result : Except String Unit) : Code Unit := do
  match result with
  | .ok () => pure ()
  | .error e =>
    reportCommand cmd.id .failed e
    act (.setDeployment cmd.pipelineId .completed 0 cmd.modelName)
  locked .self (act (.dropWorker cmd.pipelineId cmd.id))
  act (.endJob j)

theorem deployWorker_eq (j : ℕ) (cmd : DeployModelCommand) :
    deployWorker j cmd = (deploySteps j cmd).run >>= afterSteps cmd j := rfl

/-- The actions of a deploy thread: its code runs to its end, or an action in its
`try` block raises and `except` and `finally` follow. -/
inductive Worked (cmd : DeployModelCommand) (j : ℕ) : List Act → Prop
  | done {as : List Act} (h : Prog.Runs (σ := rtSig) (deployWorker j cmd) as ()) : Worked cmd j as
  | raised {as bs : List Act} {a : Act} (e : String) (h : Prog.Breaks (σ := rtSig) (deploySteps j cmd).run as a)
      (ha : MayRaise a) (hb : Prog.Runs (σ := rtSig) (afterSteps cmd j (.error e)) bs ()) : Worked cmd j (as ++ bs)

/-- What `apply_agent_config` does when the way back fails too. -/
def scheduleRestart (newCfg : AgentConfig) (revertErr : String) : Code ApplyResult := do
  act (.store (.updateFullConfig newCfg))
  act .requestConfigRestart
  pure { ok := false, message := s!"Apply + revert failed — restarting ({revertErr})", scheduledRestart := true }

/-- The actions of `apply_agent_config` with its two `except` clauses: one for what
raises in the swap, one for what raises on the way back. -/
inductive Applied (V : Validator) (me : Option ℕ) (raw : Json) : List Act → ApplyResult → Prop
  | done {as : List Act} {r : ApplyResult} (h : Prog.Runs (σ := rtSig) (applyAgentConfig V me raw) as r) :
      Applied V me raw as r
  | reverted {as bs : List Act} {a : Act} {r : ApplyResult} (newCfg snapshotCfg : AgentConfig)
      (snapshotState : Option AgentConfig) (e : String)
      (h : Prog.Breaks (σ := rtSig) (applyAgentConfig V me raw) as a) (ha : MayRaise a)
      (hb : Prog.Runs (σ := rtSig) (revert V me newCfg snapshotCfg snapshotState e) bs r) :
      Applied V me raw (as ++ bs) r
  | restarted {as bs cs : List Act} {a b : Act} {r : ApplyResult} (newCfg snapshotCfg : AgentConfig)
      (snapshotState : Option AgentConfig) (e revertErr : String)
      (h : Prog.Breaks (σ := rtSig) (applyAgentConfig V me raw) as a) (ha : MayRaise a)
      (hb : Prog.Breaks (σ := rtSig) (revert V me newCfg snapshotCfg snapshotState e) bs b) (hb' : MayRaise b)
      (hc : Prog.Runs (σ := rtSig) (scheduleRestart newCfg revertErr) cs r) :
      Applied V me raw (as ++ bs ++ cs) r

/-- The dict `handle_command` validates. -/
def resolved (current : AgentConfig) (data : Json) : Json :=
  Templating.resolveTemplates (identityContext current.identity) data

/-- What `handle_command` does about a dict that does not validate. -/
def rejectInvalid (data : Json) : Code Unit :=
  match data.get? "id" with
  | some (.str id) => if id = "" then pure () else reportCommand id .failed "Invalid command payload"
  | _ => pure ()

theorem handleCommand_eq (V : Validator) (me : Option ℕ) (data : Json) :
    handleCommand V me data = act .getAgentConfig >>= fun current =>
      match V.command (resolved current data) with
      | some cmd => dispatch V me cmd
      | none => rejectInvalid data := rfl

/-- The actions for a command dict and its deploy thread, if it starts one, with
the agent config it finds and the command it validates as. -/
inductive Handled (V : Validator) (me : Option ℕ) (data : Json) (current : AgentConfig) :
    Option Command → List Act → Prop
  | rejected {as : List Act} (hcmd : V.command (resolved current data) = none)
      (h : Prog.Runs (σ := rtSig) (rejectInvalid data) as ()) :
      Handled V me data current none (.getAgentConfig :: as)
  | returned {as : List Act} {cmd : Command} (hcmd : V.command (resolved current data) = some cmd)
      (h : Prog.Runs (σ := rtSig) (dispatch V me cmd) as ()) (hj : ∀ j, Act.startJob j ∉ as) :
      Handled V me data current (some cmd) (.getAgentConfig :: as)
  | raised {as : List Act} {a : Act} {cmd : Command} (e : String) (hcmd : V.command (resolved current data) = some cmd)
      (h : Prog.Breaks (σ := rtSig) (dispatch V me cmd) as a) (ha : MayRaise a) :
      Handled V me data current (some cmd) (.getAgentConfig :: as ++ [.report (.command cmd.id .failed e)])
  | applied {as : List Act} {cid : String} {config : AgentConfig} {r : ApplyResult}
      (hcmd : V.command (resolved current data) = some (.updateAgentConfig cid config))
      (h : Applied V me config.modelDump as r) (status : Status) :
      Handled V me data current (some (.updateAgentConfig cid config))
        (.getAgentConfig :: as ++ [.report (.command cid status r.message)])
  | deployed {as bs : List Act} {cmd : DeployModelCommand} {j : ℕ}
      (hcmd : V.command (resolved current data) = some (.deployModel cmd))
      (h : Prog.Runs (σ := rtSig) (dispatch V me (.deployModel cmd)) as ()) (hj : Act.startJob j ∈ as)
      (hw : Worked cmd j bs) :
      Handled V me data current (some (.deployModel cmd)) (.getAgentConfig :: as ++ bs)

/-! ### What is heard on a path -/

/-- The id of a command's report. -/
def commandId : Act → Option String
  | .report (.command id _ _) => some id
  | _ => none

def startedJob : Act → Option ℕ
  | .startJob j => some j
  | _ => none

/-- The command reports and the deploy threads so far. -/
structure Heard where
  ids : List String
  jobs : List ℕ

def hear (g : Heard) (a : Act) : Heard :=
  ⟨g.ids ++ (commandId a).toList, g.jobs ++ (startedJob a).toList⟩

theorem foldl_hear : ∀ (as : List Act) (g : Heard),
    as.foldl hear g = ⟨g.ids ++ as.filterMap commandId, g.jobs ++ as.filterMap startedJob⟩
  | [], g => by simp
  | a :: as, g => by
    rw [List.foldl_cons, foldl_hear as, hear, List.filterMap_cons, List.filterMap_cons]
    cases commandId a <;> cases startedJob a <;> simp

theorem mem_startedJob {as : List Act} {j : ℕ} : j ∈ as.filterMap startedJob ↔ Act.startJob j ∈ as := by
  rw [List.mem_filterMap]
  constructor
  · rintro ⟨a, ha, hj⟩
    cases a <;> simp only [startedJob, Option.some.injEq, reduceCtorEq] at hj
    rwa [← hj]
  · exact fun h => ⟨_, h, rfl⟩

theorem hear_silent {g : Heard} {a : Act} (hid : commandId a = none) (hjob : startedJob a = none) :
    hear g a = g := by
  simp [hear, hid, hjob]

/-- An action that may raise comes before the report and before the deploy thread. -/
def Calm (g : Heard) (a : Act) : Prop := MayRaise a → g = ⟨[], []⟩

/-- From what was heard before, every path of the code is calm and ends in `Q`. -/
structure Hears {α : Type} (g : Heard) (p : Code α) (Q : Heard → α → Prop) : Prop where
  paths : Prog.Ghost (σ := rtSig) hear Calm Q g p

abbrev Heard.nothing : Heard := ⟨[], []⟩

/-- One report, of this command. -/
abbrev Heard.one (id : String) : Heard := ⟨[id], []⟩

section Hears

variable {α β : Type} {g : Heard}

theorem Hears.bind {p : Code α} {f : α → Code β} {Q : Heard → α → Prop} {R : Heard → β → Prop} (h : Hears g p Q)
    (hf : ∀ g a, Q g a → Hears g (f a) R) : Hears g (p >>= f) R :=
  ⟨h.paths.bind fun g a hq => (hf g a hq).paths⟩

theorem Hears.mono {p : Code α} {Q R : Heard → α → Prop} (h : Hears g p Q) (hQ : ∀ g a, Q g a → R g a) :
    Hears g p R :=
  ⟨h.paths.mono hQ⟩

/-- Code that is heard of in one way goes on from there. -/
theorem Hears.then {p : Code α} {f : α → Code β} {g' : Heard} {R : Heard → β → Prop} (h : Hears g p fun g _ => g = g')
    (hf : ∀ a, Hears g' (f a) R) : Hears g (p >>= f) R :=
  h.bind fun _ a hg => hg ▸ hf a

theorem Hears.locked {p : Code α} {Q : Heard → α → Prop} (h : Hears g p Q) (l : Lock) : Hears g (Code.locked l p) Q :=
  ⟨h.paths.locked l⟩

theorem hears_pure {Q : Heard → α → Prop} {a : α} (h : Q g a) : Hears g (pure a : Code α) Q := ⟨h⟩

/-- Code that does not raise, in code that may. -/
theorem Hears.lifted {p : Code α} {f : α → Raising β} {g' : Heard} {R : Heard → Except String β → Prop}
    (h : Hears g p fun g _ => g = g') (hf : ∀ a, Hears g' (f a).run R) :
    Hears g ((liftM p : Raising α) >>= f).run R := by
  have hp : Hears g (liftM p : Raising α).run fun g r => g = g' ∧ ∃ a, r = .ok a :=
    h.bind fun _ a hg => ⟨hg, a, rfl⟩
  refine hp.bind fun g r hr => ?_
  obtain ⟨rfl, a, rfl⟩ := hr
  exact hf a

theorem Hears.raising {x : Raising α} {f : α → Raising β} {Q : Heard → Except String α → Prop}
    {R : Heard → Except String β → Prop} (h : Hears g x.run Q) (hok : ∀ g a, Q g (.ok a) → Hears g (f a).run R)
    (herr : ∀ g e, Q g (.error e) → R g (.error e)) : Hears g (x >>= f).run R :=
  h.bind fun g r hq => match r with
    | .ok a => hok g a hq
    | .error e => ⟨herr g e hq⟩

/-- Code whose answer may be an error, which is raised. -/
theorem Hears.raised {p : Code (Option String)} {f : Unit → Raising β} {g' : Heard}
    {R : Heard → Except String β → Prop} (h : Hears g p fun g _ => g = g') (hf : Hears g' (f ()).run R)
    (herr : ∀ e, R g' (.error e)) : Hears g (raise p >>= f).run R := by
  have hp : Hears g (raise p).run fun g _ => g = g' :=
    Hears.lifted h fun r => match r with
      | some _ => hears_pure rfl
      | none => hears_pure rfl
  refine hp.bind fun g r hr => ?_
  obtain rfl : g = g' := hr
  cases r with
  | ok a => exact hf
  | error e => exact ⟨herr e⟩

theorem Hears.ite {c : Prop} [Decidable c] {p q : Code α} {Q : Heard → α → Prop} (hp : Hears g p Q)
    (hq : Hears g q Q) : Hears g (if c then p else q) Q := by
  split_ifs <;> assumption

/-- An action that is no command's report and starts no deploy thread, and does
not raise once a report was sent. -/
theorem hears_act {a : Act} (hc : Calm g a) (hid : commandId a = none) (hjob : startedJob a = none) :
    Hears g (act a) fun g' _ => g' = g :=
  ⟨Prog.ghost_call hc fun _ => hear_silent hid hjob⟩

theorem hears_reportCommand (id : String) (status : Status) (output : String) :
    Hears .nothing (reportCommand id status output) fun g _ => g = .one id :=
  ⟨Prog.ghost_call (σ := rtSig) (a := .report _) (fun _ => rfl) fun _ => rfl⟩

/-- Code of actions nothing is heard of, before the report. -/
theorem Does.hears {P : Act → Prop} {p : Code α} (h : Does P p)
    (hP : ∀ a, P a → commandId a = none ∧ startedJob a = none) : Hears .nothing p fun g _ => g = .nothing := by
  refine ⟨h.only.ghost fun a ha => ⟨fun _ => rfl, ?_⟩⟩
  exact hear_silent (hP a ha).1 (hP a ha).2

end Hears

theorem inner_silent (a : Act) (h : Inner a) : commandId a = none ∧ startedJob a = none := by
  cases a <;> first | exact h.elim | exact ⟨rfl, rfl⟩

theorem fetching_silent {j : ℕ} {cmd : DeployModelCommand} (a : Act) (h : Fetching j cmd a) :
    commandId a = none ∧ startedJob a = none := by
  cases a with
  | report r => cases r <;> first | exact h.elim | exact ⟨rfl, rfl⟩
  | _ => first | exact h.elim | exact ⟨rfl, rfl⟩

/-! ### The handlers -/

section Handlers

theorem hears_inner {α : Type} {p : Code α} (h : Does Inner p) : Hears .nothing p fun g _ => g = .nothing :=
  h.hears inner_silent

/-- What does not raise and is no command's report is not heard, whenever it is done. -/
theorem hears_quietly {a : Act} (g : Heard) (h : ¬ MayRaise a) (hid : commandId a = none) (hjob : startedJob a = none) :
    Hears g (act a) fun g' _ => g' = g :=
  hears_act (fun h' => absurd h' h) hid hjob

theorem hears_model (g : Heard) (pid : String) (installed : Option Bool) (running : Bool) (n : ℕ) (serving : Bool)
    (m : ℕ) (port : Json) :
    Hears g (act (.report (.model pid installed running n serving m port))) fun g' _ => g' = g :=
  hears_quietly g id rfl rfl

theorem hears_reportOutcome (cid pid : String) (success : Bool) (done failed : String) (running : Bool) :
    Hears .nothing (reportOutcome cid pid success done failed running) fun g _ => g = .one cid := by
  unfold reportOutcome
  split
  · exact (hears_reportCommand ..).then fun _ => hears_model ..
  · exact hears_reportCommand ..

theorem hears_startServing (V : Validator) (me : Option ℕ) (cmd : StartServingCommand) :
    Hears .nothing (startServing V me cmd) fun g _ => g = .one cmd.id := by
  have hconf : Hears .nothing (configureServing cmd) fun g found => g = if found then .nothing else .one cmd.id := by
    refine .locked (.then (hears_quietly _ id rfl rfl) fun c => ?_) _
    cases c with
    | none => exact (hears_reportCommand ..).then fun _ => hears_pure rfl
    | some c =>
      refine .then (hears_quietly _ id rfl rfl) fun updated => ?_
      cases updated with
      | none => exact hears_pure rfl
      | some config => exact .then (hears_act (fun _ => rfl) rfl rfl) fun _ => hears_pure rfl
  refine hconf.bind fun g found hg => ?_
  cases found with
  | false => exact hears_pure hg
  | true =>
    obtain rfl : g = .nothing := hg
    refine (hears_inner (does_startPipeline ..)).then fun started => ?_
    cases started with
    | false => exact hears_reportCommand ..
    | true =>
      refine (hears_reportCommand ..).then fun _ => ?_
      exact (hears_model ..).then fun _ => hears_quietly _ id rfl rfl

theorem hears_stopServing (me : Option ℕ) (cid pid : String) :
    Hears .nothing (stopServing me cid pid) fun g _ => g = .one cid := by
  refine (hears_inner (does_stopPipeline ..)).then fun success => (hears_reportOutcome ..).then fun _ => ?_
  cases success with
  | false => exact hears_pure rfl
  | true =>
    refine .then (hears_quietly _ id rfl rfl) fun serving => ?_
    split
    · exact hears_quietly _ id rfl rfl
    · exact hears_pure rfl

theorem hears_updatePipeline (V : Validator) (me : Option ℕ) (cmd : UpdatePipelineCommand) :
    Hears .nothing (updatePipeline V me cmd) fun g _ => g = .one cmd.id := by
  unfold updatePipeline
  dsimp only
  split
  · exact hears_reportCommand ..
  · refine Hears.bind (Q := fun g _ => g = .nothing)
      (.locked (.then (.locked (hears_quietly .nothing id rfl rfl) _) fun pipe => ?_) _) ?_
    · split
      · exact hears_inner (does_startPipeline ..)
      · refine .then (.locked (.then (hears_quietly .nothing id rfl rfl) fun _ => ?_) _) fun _ => hears_pure rfl
        exact hears_act (fun _ => rfl) rfl rfl
    · rintro _ success rfl
      split <;> exact hears_reportCommand ..

theorem hears_updateAgent (cid : String) : Hears .nothing (updateAgent cid) fun g _ => g = .one cid := by
  refine .then (hears_act (fun _ => rfl) rfl rfl) fun able => ?_
  split
  · exact (hears_reportCommand ..).then fun _ => hears_quietly _ id rfl rfl
  · exact hears_reportCommand ..

theorem hears_liveWorker (g : Heard) (pid : String) : Hears g (liveWorker pid) fun g' _ => g' = g := by
  refine .then (hears_quietly g id rfl rfl) fun w => ?_
  cases w with
  | none => exact hears_pure rfl
  | some w => exact .then (hears_quietly _ id rfl rfl) fun _ => hears_pure rfl

theorem hears_cancelDeploy (cid pid : String) :
    Hears .nothing (cancelDeploy cid pid) fun g _ => g = .one cid := by
  refine Hears.bind (Q := fun g original => g = if original.isSome then .nothing else .one cid)
    (.locked ((hears_liveWorker ..).then fun w => ?_) _) fun g original hg => ?_
  · cases w with
    | none => exact (hears_reportCommand ..).then fun _ => hears_pure rfl
    | some w => exact .then (hears_quietly _ id rfl rfl) fun _ => hears_pure rfl
  cases original with
  | none => exact hears_pure hg
  | some w =>
    obtain rfl : g = .nothing := hg
    refine .then ?_ fun _ => hears_reportCommand ..
    cases w.response with
    | none => exact hears_pure rfl
    | some k => exact hears_quietly _ id rfl rfl

/-- What has been heard once the locked part of an uninstall is done. -/
def afterRemoval (cid : String) : Except Unit (Option Path) → Heard
  | .error () => .one cid
  | .ok _ => .nothing

theorem hears_removeConfig (cid pid : String) (filename extension : Option String) :
    Hears .nothing (removeConfig cid pid filename extension) fun g r => g = afterRemoval cid r := by
  refine .locked (.then (hears_quietly .nothing id rfl rfl) fun cfg => ?_) _
  refine .then (hears_act (fun _ => rfl) rfl rfl) fun cwd => .then (hears_quietly _ id rfl rfl) fun configs => ?_
  split
  · exact (hears_reportCommand ..).then fun _ => hears_pure rfl
  · refine .then (hears_quietly _ id rfl rfl) fun _ => ?_
    exact .then (hears_act (fun _ => rfl) rfl rfl) fun _ => hears_pure rfl

theorem hears_deleteArtifact (artifact : Option Path) :
    Hears .nothing (deleteArtifact artifact) fun g _ => g = .nothing := by
  cases artifact with
  | none => exact hears_pure rfl
  | some p =>
    refine .then (hears_act (fun _ => rfl) rfl rfl) fun node => ?_
    match node with
    | some (.file _) => exact .then (hears_act (fun _ => rfl) rfl rfl) fun _ => hears_pure rfl
    | some .dir | none => exact hears_pure rfl

/-- The notice to Control comes after the report and is not one. -/
theorem hears_notice (g : Heard) (pid : String) :
    Hears g (reportModelUninstalledToControl pid) fun g' _ => g' = g := by
  have hpost : Hears g (postUninstallReport pid) fun g' _ => g' = g := by
    have hsent : Hears g (act (.postUninstalled pid)) fun g' _ => g' = g := hears_quietly g id rfl rfl
    refine .then (hears_quietly _ id rfl rfl) fun current => Hears.ite (hears_pure rfl) ?_
    exact Hears.ite hsent (hears_pure rfl)
  refine hpost.then fun delivered => ?_
  split
  · exact hears_pure rfl
  · refine .locked (.then (hears_quietly _ id rfl rfl) fun ids => ?_) _
    split
    · exact hears_pure rfl
    · exact hears_quietly _ id rfl rfl

theorem hears_finishUninstall (cid pid : String) (artifact : Option Path) :
    Hears .nothing (finishUninstall cid pid artifact) fun g _ => g = .one cid := by
  refine (hears_deleteArtifact artifact).then fun deleted => (hears_model ..).then fun _ => ?_
  refine (hears_reportCommand ..).then fun _ => ?_
  split
  · exact hears_notice ..
  · exact hears_pure rfl

theorem hears_uninstallModel (me : Option ℕ) (cid pid : String) (forceStop : Bool) (filename extension : Option String) :
    Hears .nothing (uninstallModel me cid pid forceStop filename extension) fun g _ => g = .one cid := by
  refine .then (hears_quietly .nothing id rfl rfl) fun pipe => ?_
  dsimp only
  split
  · exact hears_reportCommand ..
  · refine (hears_inner (does_stopIfRunning ..)).then fun stopped => ?_
    split
    · refine (hears_removeConfig ..).bind fun g r hg => ?_
      cases r with
      | error u => exact hears_pure hg
      | ok artifact =>
        obtain rfl : g = .nothing := hg
        exact hears_finishUninstall ..
    · exact hears_reportCommand ..

theorem hears_uninstallCommand (me : Option ℕ) (cmd : UninstallModelCommand) :
    Hears .nothing (uninstallCommand me cmd) fun g _ => g = .one cmd.id := by
  unfold uninstallCommand
  dsimp only
  split_ifs
  · exact hears_reportCommand ..
  · exact hears_reportCommand ..
  · exact hears_uninstallModel ..

/-- A deploy is refused with a report, or its thread is started without one. -/
theorem hears_deployModel (cmd : DeployModelCommand) :
    Hears .nothing (deployModel cmd) fun g _ => g = .one cmd.id ∨ ∃ j, g = ⟨[], [j]⟩ := by
  unfold deployModel
  split_ifs
  · exact (hears_reportCommand ..).mono fun _ _ => Or.inl
  · exact (hears_reportCommand ..).mono fun _ _ => Or.inl
  · refine .locked (.then (hears_liveWorker .nothing _) fun w => ?_) _
    cases w with
    | some w => exact (hears_reportCommand ..).mono fun _ _ => Or.inl
    | none =>
      refine .then (hears_quietly _ id rfl rfl) fun j => ?_
      exact ⟨Prog.ghost_call (σ := rtSig) (a := .startJob j) (fun _ => rfl) fun _ => Or.inr ⟨j, rfl⟩⟩

/-- What has been heard when the dispatch on a command returns. -/
def Dispatched : Command → Heard → Prop
  | .status _, g => g = .nothing
  | .deployModel cmd, g => g = .one cmd.id ∨ ∃ j, g = ⟨[], [j]⟩
  | cmd, g => g = .one cmd.id

theorem hears_dispatch (V : Validator) (me : Option ℕ) (cmd : Command) :
    Hears .nothing (dispatch V me cmd) fun g _ => Dispatched cmd g := by
  cases cmd with
  | deployModel cmd => exact hears_deployModel cmd
  | cancelDeploy cid pid => exact hears_cancelDeploy cid pid
  | startModel cid pid config =>
    refine (hears_inner (does_startPipeline ..)).then fun started => ?_
    split <;> exact hears_reportCommand ..
  | startModelInference cid pid =>
    exact (hears_inner (does_startPipeline ..)).then fun started => hears_reportOutcome ..
  | stopModelInference cid pid =>
    exact (hears_inner (does_stopPipeline ..)).then fun stopped => hears_reportOutcome ..
  | startServing cmd => exact hears_startServing V me cmd
  | stopServing cid pid => exact hears_stopServing me cid pid
  | uninstallModel cmd => exact hears_uninstallCommand me cmd
  | updatePipeline cmd => exact hears_updatePipeline V me cmd
  | status cid => exact hears_pure rfl
  | updateAgent cid => exact hears_updateAgent cid
  | updateAgentConfig cid config =>
    exact (hears_inner (does_applyAgentConfig ..)).then fun result => hears_reportCommand ..

end Handlers

/-! ### The deploy thread -/

section Worker

variable (j : ℕ) (cmd : DeployModelCommand)

theorem hears_fetching {α : Type} {p : Code α} (h : Does (Fetching j cmd) p) : Hears .nothing p fun g _ => g = .nothing :=
  h.hears fetching_silent

theorem hears_progress (g : Heard) (pid : String) (stage : Stage) (progress done total : ℕ) :
    Hears g (reportProgress pid stage progress done total) fun g' _ => g' = g :=
  hears_quietly g id rfl rfl

theorem hears_setDeployment (g : Heard) (pid : String) (stage : Stage) (progress : ℕ) (name : String) :
    Hears g (act (.setDeployment pid stage progress name)) fun g' _ => g' = g :=
  hears_quietly g id rfl rfl

theorem hears_reportCancelled : Hears .nothing (reportCancelled cmd) fun g _ => g = .one cmd.id :=
  (hears_progress ..).then fun _ => (hears_setDeployment ..).then fun _ => hears_reportCommand ..

/-- What has been heard when the download is over: an artifact in its place or an
error has not been reported yet. -/
def afterDownload (cid : String) : Except String Bool → Heard
  | .ok false => .one cid
  | _ => .nothing

theorem hears_downloadAndPublish (url : String) (target partialPath : Path) :
    Hears .nothing (downloadAndPublish j cmd url target partialPath).run fun g r => g = afterDownload cmd.id r := by
  have hclean : Hears .nothing (cleanupPartial partialPath) fun g _ => g = .nothing :=
    hears_fetching j cmd (does_cleanupPartial j cmd partialPath)
  have hattach (g : Heard) : Hears g (attachResponse cmd.pipelineId cmd.id none) fun g' _ => g' = g :=
    .locked (hears_quietly g id rfl rfl) _
  have hfetch : Hears .nothing (fetch j cmd url partialPath).run fun g _ => g = .nothing :=
    hears_fetching j cmd (does_fetch j cmd url partialPath)
  have hcancelled : Hears .nothing (act (.isCancelled j)) fun g' _ => g' = .nothing := hears_quietly .nothing id rfl rfl
  unfold downloadAndPublish
  refine .lifted hclean fun _ => .lifted hfetch fun r => ?_
  match r with
  | .error e =>
    refine .lifted hcancelled fun c => ?_
    cases c with
    | true =>
      refine .lifted (hattach _) fun _ => .lifted hclean fun _ => ?_
      exact .lifted (hears_reportCancelled cmd) fun _ => hears_pure rfl
    | false =>
      refine .lifted hclean fun _ => .lifted (hears_reportCommand ..) fun _ => ?_
      exact .lifted (hears_setDeployment ..) fun _ => .lifted (hattach _) fun _ => hears_pure rfl
  | .ok (cancelled, total, done) =>
    refine .lifted (hattach _) fun _ => ?_
    cases cancelled with
    | true => exact .lifted hclean fun _ => .lifted (hears_reportCancelled cmd) fun _ => hears_pure rfl
    | false =>
      simp only [Bool.false_eq_true, if_false]
      split
      · refine .lifted hclean fun _ => .lifted (hears_reportCommand ..) fun _ => ?_
        exact .lifted (hears_setDeployment ..) fun _ => hears_pure rfl
      · refine .lifted hcancelled fun c => ?_
        cases c with
        | true => exact .lifted hclean fun _ => .lifted (hears_reportCancelled cmd) fun _ => hears_pure rfl
        | false => exact .raised (hears_act (fun _ => rfl) rfl rfl) (hears_pure rfl) fun _ => rfl

theorem hears_commitDeploy : Hears .nothing (commitDeploy j cmd) fun g _ => g = .nothing := by
  refine (hears_progress ..).then fun _ => (hears_setDeployment ..).then fun _ => .locked (.locked ?_ _) _
  refine .then (hears_quietly .nothing id rfl rfl) fun cancelled => ?_
  split
  · exact hears_pure rfl
  · refine .then (hears_quietly _ id rfl rfl) fun _ => ?_
    exact .then (hears_act (fun _ => rfl) rfl rfl) fun _ => hears_pure rfl

/-- What has been heard when the `try` block of the thread is left. -/
def afterWork (cid : String) : Except String Unit → Heard
  | .ok () => .one cid
  | .error _ => .nothing

theorem hears_deploySteps : Hears .nothing (deploySteps j cmd).run fun g r => g = afterWork cmd.id r := by
  have hcancelled : Hears .nothing (act (.isCancelled j)) fun g' _ => g' = .nothing := hears_quietly .nothing id rfl rfl
  have hlock : Hears .nothing (downloadLockFor cmd.modelName) fun g _ => g = .nothing :=
    (hears_pure (Q := fun g _ => g = .nothing) rfl).locked .downloadsGuard
  unfold deploySteps
  refine .lifted (hears_act (g := .nothing) (fun _ => rfl) rfl rfl) fun cwd => ?_
  refine .raised (hears_act (fun _ => rfl) rfl rfl) ?_ fun _ => rfl
  dsimp only
  split
  · exact hears_pure rfl
  · refine .lifted (hears_quietly _ id rfl rfl) fun current => ?_
    refine .lifted hlock fun lock => ?_
    refine Hears.raising (Q := fun g r => g = afterDownload cmd.id r) (.locked ?_ _) (fun g there hg => ?_) ?_
    · refine .lifted hcancelled fun c => ?_
      cases c with
      | true => exact .lifted (hears_reportCancelled cmd) fun _ => hears_pure rfl
      | false =>
        refine .lifted (hears_act (fun _ => rfl) rfl rfl) fun node => ?_
        split
        · exact hears_pure rfl
        · exact hears_downloadAndPublish ..
    · cases there with
      | false => exact hears_pure hg
      | true =>
        obtain rfl : g = .nothing := hg
        refine .lifted (hears_commitDeploy j cmd) fun committed => ?_
        cases committed with
        | false => exact .lifted (hears_reportCancelled cmd) fun _ => hears_pure rfl
        | true =>
          refine .lifted (hears_progress ..) fun _ => .lifted (hears_setDeployment ..) fun _ => ?_
          exact .lifted (hears_reportCommand ..) fun _ => hears_pure rfl
    · exact fun g e hg => hg

theorem hears_afterSteps (r : Except String Unit) :
    Hears (afterWork cmd.id r) (afterSteps cmd j r) fun g _ => g = .one cmd.id := by
  have hlast : Hears (.one cmd.id) (Code.locked .self (act (.dropWorker cmd.pipelineId cmd.id)) >>= fun _ =>
      act (.endJob j)) fun g _ => g = .one cmd.id :=
    .then (.locked (hears_quietly _ id rfl rfl) _) fun _ => hears_quietly _ id rfl rfl
  cases r with
  | ok u => exact hlast
  | error e =>
    refine (hears_reportCommand ..).then fun _ => (hears_setDeployment ..).then fun _ => hlast

/-- The deploy thread is heard of once. -/
theorem Worked.heard {as : List Act} (h : Worked cmd j as) : as.foldl hear .nothing = .one cmd.id := by
  cases h with
  | done h =>
    have hw : Hears .nothing (deployWorker j cmd) fun g _ => g = .one cmd.id :=
      (hears_deploySteps j cmd).bind fun g r hg => hg ▸ hears_afterSteps j cmd r
    exact hw.paths.runs h
  | @raised as bs a e h ha hb =>
    have has : as.foldl hear .nothing = .nothing := (hears_deploySteps j cmd).paths.breaks h ha
    rw [List.foldl_append, has]
    exact (hears_afterSteps j cmd (.error e)).paths.runs hb

end Worker

/-! ### The report of a command -/

theorem heard_ids {as : List Act} {g : Heard} (h : as.foldl hear .nothing = g) : as.filterMap commandId = g.ids := by
  rw [← h, foldl_hear, List.nil_append]

theorem heard_jobs {as : List Act} {g : Heard} (h : as.foldl hear .nothing = g) (j : ℕ) :
    Act.startJob j ∈ as ↔ j ∈ g.jobs := by
  rw [← h, foldl_hear]
  exact mem_startedJob.symm

theorem runs_dispatch {V : Validator} {me : Option ℕ} {cmd : Command} {as : List Act}
    (h : Prog.Runs (σ := rtSig) (dispatch V me cmd) as ()) : Dispatched cmd (as.foldl hear .nothing) :=
  (hears_dispatch V me cmd).paths.runs h

/-- Nothing is heard of applying a config, however it ends. -/
theorem Applied.heard {V : Validator} {me : Option ℕ} {raw : Json} {as : List Act} {r : ApplyResult}
    (h : Applied V me raw as r) : as.foldl hear .nothing = .nothing := by
  have hrev (newCfg snapshotCfg : AgentConfig) (st : Option AgentConfig) (e : String) :=
    (hears_inner (does_revert V me newCfg snapshotCfg st e)).paths
  have happ := (hears_inner (does_applyAgentConfig V me raw)).paths
  cases h with
  | done h => exact happ.runs h
  | @reverted as bs a r newCfg snapshotCfg st e h ha hb =>
    have has : as.foldl hear .nothing = .nothing := happ.breaks h ha
    rw [List.foldl_append, has]
    exact (hrev newCfg snapshotCfg st e).runs hb
  | @restarted as bs cs a b r newCfg snapshotCfg st e revertErr h ha hb hb' hc =>
    have hsched : Hears .nothing (scheduleRestart newCfg revertErr) fun g _ => g = .nothing :=
      .then (hears_act (fun _ => rfl) rfl rfl) fun _ => .then (hears_quietly _ id rfl rfl) fun _ => hears_pure rfl
    have has : as.foldl hear .nothing = .nothing := happ.breaks h ha
    have hbs : bs.foldl hear .nothing = .nothing := (hrev newCfg snapshotCfg st e).breaks hb hb'
    rw [List.foldl_append, List.foldl_append, has, hbs]
    exact hsched.paths.runs hc

/-- A path of a command that validates sends its report once, but for `STATUS`,
which is answered in the log only. -/
theorem Handled.once {V : Validator} {me : Option ℕ} {data : Json} {current : AgentConfig} {cmd : Command}
    {as : List Act} (h : Handled V me data current (some cmd) as) (hs : ∀ cid, cmd ≠ .status cid) :
    as.filterMap commandId = [cmd.id] := by
  cases h with
  | @returned as cmd hcmd h hj =>
    have hd := runs_dispatch h
    suffices hg : as.foldl hear .nothing = .one cmd.id from heard_ids hg
    cases cmd with
    | status cid => exact absurd rfl (hs cid)
    | deployModel cmd =>
      obtain hg | ⟨j, hg⟩ := hd
      · exact hg
      · exact absurd ((heard_jobs hg j).mpr (List.mem_singleton_self j)) (hj j)
    | _ => exact hd
  | @raised as a cmd e hcmd h ha =>
    have hg : as.foldl hear .nothing = .nothing := (hears_dispatch V me cmd).paths.breaks h ha
    rw [List.cons_append, List.filterMap_cons_none rfl, List.filterMap_append, heard_ids hg]
    rfl
  | @applied as cid config r hcmd h status =>
    rw [List.cons_append, List.filterMap_cons_none rfl, List.filterMap_append, heard_ids h.heard]
    rfl
  | @deployed as bs cmd j hcmd h hj hw =>
    have hg : as.foldl hear .nothing = ⟨[], [j]⟩ := by
      obtain hg | ⟨j', hg⟩ := runs_dispatch h
      · exact absurd ((heard_jobs hg j).mp hj) List.not_mem_nil
      · rw [hg, List.mem_singleton.mp ((heard_jobs hg j).mp hj)]
    rw [List.cons_append, List.filterMap_cons_none rfl, List.filterMap_append, heard_ids hg, heard_ids hw.heard]
    rfl

/-- A path of a dict that does not validate sends one report, under the id it has. -/
theorem Handled.rejected_once {V : Validator} {me : Option ℕ} {data : Json} {current : AgentConfig} {cid : String}
    {as : List Act} (h : Handled V me data current none as) (hid : data.get? "id" = some (.str cid)) (hne : cid ≠ "") :
    as.filterMap commandId = [cid] := by
  obtain ⟨hcmd, h⟩ := h
  have hr : Hears .nothing (rejectInvalid data) fun g _ => g = .one cid := by
    unfold rejectInvalid
    rw [hid]
    dsimp only
    rw [if_neg hne]
    exact hears_reportCommand ..
  exact heard_ids (hr.paths.runs h)

/-- The id a command is known under: that of its dict with the placeholders
resolved, or as it is when the dict does not validate. -/
def knownId (current : AgentConfig) (cid : String) : Option Command → String
  | none => cid
  | some _ => Templating.resolveString (identityContext current.identity) cid

/-- A command that validates keeps the id of its resolved dict. -/
theorem id_eq_knownId {V : Validator} (hV : V.KeepsId) {data : Json} {current : AgentConfig} {cmd : Command} {cid : String}
    (hcmd : V.command (resolved current data) = some cmd) (hid : data.get? "id" = some (.str cid)) :
    cmd.id = knownId current cid (some cmd) := by
  have h := hV _ _ hcmd
  rw [resolved, Templating.get?_resolveTemplates, hid] at h
  exact (Json.str.inj (Option.some.inj h)).symm

/-- Whatever happens to a command other than `STATUS`, exactly one command report is
sent, and it has the command's id. -/
theorem command_reported_once {V : Validator} (hV : V.KeepsId) {me : Option ℕ} {data : Json} {current : AgentConfig}
    {cmd : Option Command} {as : List Act} {cid : String} (h : Handled V me data current cmd as)
    (hid : data.get? "id" = some (.str cid)) (hne : cid ≠ "") (hs : ∀ i, cmd ≠ some (.status i)) :
    as.filterMap commandId = [knownId current cid cmd] ∧ ('$' ∉ cid.toList → knownId current cid cmd = cid) := by
  cases cmd with
  | none => exact ⟨h.rejected_once hid hne, fun _ => rfl⟩
  | some cmd =>
    refine ⟨?_, fun hplain => Templating.resolveString_of_not_mem _ hplain⟩
    have hcmd : V.command (resolved current data) = some cmd := by cases h <;> assumption
    rw [h.once fun i hi => hs i (congrArg some hi), id_eq_knownId hV hcmd hid]

/-- What a `CANCEL_DEPLOY` does that finds no deploy. -/
def cancelNothing : List Act :=
  .getAgentConfig :: Prog.trace (σ := rtSig) Rt.perform (dispatch .strict none (.cancelDeploy "c1" "p")) bootedDevice

theorem handled_cancelNothing : Handled .strict none (command "CANCEL_DEPLOY" [("pipeline_id", .str "p")])
    (deviceConfig []) (some (.cancelDeploy "c1" "p")) cancelNothing := by
  refine .returned rfl (Prog.runs_trace _ _ _) fun j hj => ?_
  have hnone : (cancelNothing.tail).filterMap startedJob = [] := by decide +kernel
  exact List.not_mem_nil (hnone ▸ mem_startedJob.mpr hj)

theorem command_reported_once_cancel :
    cancelNothing.filterMap commandId = [knownId (deviceConfig []) "c1" (some (.cancelDeploy "c1" "p"))] ∧
      ('$' ∉ "c1".toList → knownId (deviceConfig []) "c1" (some (.cancelDeploy "c1" "p")) = "c1") :=
  command_reported_once Validator.strict_keepsId handled_cancelNothing rfl (by decide) fun i hi => by cases hi

/-- A `STATUS` is answered in the log only. -/
theorem status_not_reported : ¬ ∀ (V : Validator) (me : Option ℕ) (data : Json) (current : AgentConfig)
    (cmd : Option Command) (as : List Act) (cid : String), V.KeepsId → Handled V me data current cmd as →
      data.get? "id" = some (.str cid) → cid ≠ "" → as.filterMap commandId = [cid] := by
  intro h
  have hrun : Handled .strict none (command "STATUS" []) (deviceConfig []) (some (.status "c1")) [.getAgentConfig] :=
    .returned rfl (.ret ()) fun j hj => by cases hj
  have hone := h _ _ _ _ _ _ "c1" Validator.strict_keepsId hrun rfl (by decide)
  cases hone

end AgentRuntime
end LocaiLink
