/-
# Starting, stopping and swapping pipelines

The code of `_start_pipeline`, `_stop_pipeline`, `_diff_and_swap_pipelines` and
`apply_config`. `me` is the pipeline whose own thread runs the code, if one
does: commands that arrive through a pipeline are handled on its thread.
-/
import Mathlib.Data.List.Dedup
import LocaiLink.Runtime.State

namespace LocaiLink

abbrev Code := Prog rtSig

namespace Code

def act (a : Act) : Code a.Resp := Prog.call (σ := rtSig) a

def locked {α : Type} (l : Lock) (p : Code α) : Code α := Prog.locked (σ := rtSig) l p

/-- Code that raises, with the message of what it raises. -/
abbrev Raising (α : Type) := ExceptT String (Prog rtSig) α

def raise (p : Code (Option String)) : Raising Unit := do
  match ← p with
  | some e => throw e
  | none => pure ()

def lockedRaising {α : Type} (l : Lock) (p : Raising α) : Raising α := ExceptT.mk (locked l p.run)

end Code

namespace AgentRuntime

open Code

/-- The callable a config names: `createComponent` of the source, then of the
sink when there is one. Answers what is raised. -/
def createComponents (c : PipelineConfig) : Code (Option String) := do
  match ← act (.createComponent c.source) with
  | some e => pure (some e)
  | none =>
    match c.sink with
    | none => pure none
    | some sink => act (.createComponent sink)

/-- `_stop_pipeline`: true when the pipeline is not, or no longer, running. -/
def stopPipeline (me : Option ℕ) (pid : String) : Code Bool :=
  locked .ops do
    match ← locked .self (act (.getPipe pid)) with
    | none => pure true
    | some pipe =>
      act (.stop pipe.thread)
      act (.join pipe.thread me)
      if ← act (.isAlive pipe.thread) then pure false
      else
        locked .self (act (.popPipe pid))
        act (.store (.setPipelineStatus pid false))
        pure true

/-- The dict a start is called with, with the pipeline's id where it names none. -/
def withId (pid : String) : Json → Json
  | .obj l => if (l.lookup "id").isSome then .obj l else .obj (l ++ [("id", .str pid)])
  | j => j

/-- What a start goes on with: the config to commit, the config to build from,
and whether an instance has to be stopped first. -/
structure Plan where
  pending : Option PipelineConfig
  conf : PipelineConfig
  needsRestart : Bool

/-- What the first block of `_start_pipeline` decides, from what is stored and
whether the pipeline runs. An error is the result the function returns with
right away: a config that does not validate, one that is running already, or
none at all. -/
def planOf (V : Validator) (pid : String) (data : Option Json) (stored : Option PipelineConfig)
    (running : Bool) : Except Bool Plan :=
  match data with
  | some (.obj (e :: l)) =>
    match V.pipelineConfig (withId pid (.obj (e :: l))) with
    | none => .error false
    | some c => if running && stored.any c.eq then .error true else .ok ⟨some c, c, running⟩
  | _ =>
    match stored with
    | none => .error false
    | some c => .ok ⟨none, c, running⟩

/-- That block, under `self.lock`. -/
def planStart (V : Validator) (pid : String) (data : Option Json) : Code (Except Bool Plan) := do
  let stored ← act (.getConfig pid)
  let pipe ← act (.getPipe pid)
  pure (planOf V pid data stored pipe.isSome)

/-- A running instance is stopped first. -/
def stopIfRunning (me : Option ℕ) (pid : String) (running : Bool) : Code Bool :=
  if running then stopPipeline me pid else pure true

/-- `_start_pipeline` once it is decided: stop, build, commit, start, persist. -/
def carryOut (me : Option ℕ) (pid : String) (plan : Plan) : Code Bool := do
  if ← stopIfRunning me pid plan.needsRestart then
    match ← createComponents plan.conf with
    | some _ => pure false
    | none =>
      let pipe ← act (.newPipeline plan.conf)
      locked .self do
        match plan.pending with
        | some c => act (.setConfig pid c)
        | none => pure ()
        act (.setPipe pid pipe)
      act (.startThread pipe.thread)
      act (.store (.updatePipelineConfig plan.conf))
      act (.store (.setPipelineStatus pid true))
      pure true
  else pure false

/-- `_start_pipeline`: starts, or restarts, a pipeline. -/
def startPipeline (V : Validator) (me : Option ℕ) (pid : String) (data : Option Json) : Code Bool :=
  locked .ops do
    match ← locked .self (planStart V pid data) with
    | .error result => pure result
    | .ok plan => carryOut me pid plan

/-- The removed pipelines are stopped, one after another. -/
def stopRemoved (me : Option ℕ) : List String → Code (Except String Unit)
  | [] => pure (.ok ())
  | pid :: l => do
    if ← stopPipeline me pid then stopRemoved me l
    else pure (.error s!"pipeline '{pid}' failed to stop")

/-- Active pipelines are started, and inactive ones that run are stopped. -/
def startActive (V : Validator) (me : Option ℕ) : List PipelineConfig → Code (Except String Unit)
  | [] => pure (.ok ())
  | p :: l => do
    if p.active then
      if ← startPipeline V me p.id (some p.modelDump) then startActive V me l
      else pure (.error s!"pipeline '{p.id}' failed to start")
    else if (← act (.getPipe p.id)).isSome then
      if ← stopPipeline me p.id then startActive V me l
      else pure (.error s!"pipeline '{p.id}' failed to stop")
    else startActive V me l

def ids (c : AgentConfig) : List String := c.pipelines.map (·.id)

/-- `old_ids - new_ids`, in the order the sets happen to have. -/
def removedIds (old new : AgentConfig) : List String :=
  (ids old).dedup.filter fun pid => pid ∉ ids new

/-- `_diff_and_swap_pipelines`. -/
def diffAndSwapPipelines (V : Validator) (me : Option ℕ) (old new : AgentConfig) :
    Code (Except String Unit) := do
  let removed ← act (.setOrder (removedIds old new))
  match ← stopRemoved me removed with
  | .error e => pure (.error e)
  | .ok () => startActive V me new.pipelines

/-- `apply_config`: the swap, then the handlers, then the two assignments. -/
def applyConfig (V : Validator) (me : Option ℕ) (target previous : AgentConfig) :
    Code (Except String Unit) :=
  locked .ops do
    match ← diffAndSwapPipelines V me previous target with
    | .error e => pure (.error e)
    | .ok () =>
      locked .self do
        match ← act (.rebuildHandlers target.logging target.reporting) with
        | some e => pure (.error e)
        | none =>
          act (.setAgentConfig target)
          act (.publishConfigs target)
          pure (.ok ())

end AgentRuntime
end LocaiLink
