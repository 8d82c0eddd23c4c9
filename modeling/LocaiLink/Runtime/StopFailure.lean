/-
# What a failed stop leaves behind

`_stop_pipeline` clears the run flag before it joins, so when it answers that
the stop failed the loop it reports as still there is on its way out. It keeps
the promise to leave the pipeline working exactly when it does not fail
(`failed_stop_iff`): when nothing is tracked, or the thread ends in time and is
not the caller's. A thread never joins itself, so a push that touches the
command pipeline fails on that pipeline's thread, is reverted, and leaves the
loop told to stop (`reverted_push_ends_command_loop`).
-/
import LocaiLink.Runtime.Threads
import LocaiLink.Runtime.Spec

namespace LocaiLink

/-! ### The loop of a pipeline -/

/-- What one turn of the loop draws from the source. -/
inductive Drawn | data | nothing | stopIteration | error
  deriving DecidableEq

/-- `Pipeline.run`: the turns the loop takes. The flag is read before each turn,
and a source that stops clears it. -/
def Pipeline.turns : Bool → List Drawn → List Drawn
  | false, _ => []
  | true, [] => []
  | true, d :: ds => d :: turns (d ≠ .stopIteration) ds

/-- The loop still processes data: whatever the source gives, it takes it. -/
def Pipeline.Processes (t : PipeThread) : Prop := ∀ d ds, d ∈ Pipeline.turns t.running (d :: ds)

theorem Pipeline.processes_iff (t : PipeThread) : Processes t ↔ t.running = true := by
  unfold Processes
  cases t.running with
  | false => simpa [turns] using ⟨Drawn.data⟩
  | true => simp [turns]

namespace AgentRuntime

open Rt

/-- The promise: if the stop fails, the instance that stays tracked still
processes data. -/
def FailedStopLeavesWorking (me : Option ℕ) (pid : String) (s : Rt) : Prop :=
  (s.run (stopPipeline me pid)).1 = false →
    ∀ pipe, (s.run (stopPipeline me pid)).2.pipelines.get? pid = some pipe →
      Pipeline.Processes ((s.run (stopPipeline me pid)).2.threads pipe.thread)

/-- The pipeline's thread is over by the end of the join: it has ended already,
or it ends in time and is not the thread that waits for it. -/
def EndsInTime (me : Option ℕ) (pipe : Pipe) (s : Rt) : Prop :=
  (s.threads pipe.thread).started = false ∨ (s.threads pipe.thread).ended = true ∨
    (me ≠ some pipe.thread ∧ (s.ask .thread).yes = true)

theorem join_thread (i : ℕ) (me : Option ℕ) (s : Rt) :
    (s.join i me).threads i =
      { s.threads i with ended := (s.threads i).ended || (decide (me ≠ some i) && (s.ask .thread).yes) } := by
  unfold Rt.join
  by_cases hme : me = some i
  · simp [hme]
  · cases hy : (s.ask .thread).yes <;> simp [hme, setThread, tock]

/-- The thread after the join: its flag is cleared, and it may have ended. -/
theorem told_thread (me : Option ℕ) (pipe : Pipe) (s : Rt) :
    (told me pipe s).threads pipe.thread =
      { s.threads pipe.thread with
        running := false
        ended := (s.threads pipe.thread).ended ||
          (decide (me ≠ some pipe.thread) && (s.ask .thread).yes) } := by
  have hstop : ((perform (.stop pipe.thread) s).2.threads pipe.thread) =
      { s.threads pipe.thread with running := false } := Function.update_self ..
  refine (join_thread pipe.thread me (perform (.stop pipe.thread) s).2).trans ?_
  rw [hstop]
  rfl

theorem stillAlive_eq_false_iff (me : Option ℕ) (pipe : Pipe) (s : Rt) :
    stillAlive me pipe s = false ↔ EndsInTime me pipe s := by
  unfold stillAlive EndsInTime
  simp only [perform, told_thread]
  cases (s.threads pipe.thread).started <;> cases (s.threads pipe.thread).ended <;> simp

/-- **When a failed stop leaves the pipeline working**: exactly when it does not
fail, because nothing is tracked for the id or because the thread is over in time. -/
theorem failed_stop_iff (me : Option ℕ) (pid : String) (s : Rt) :
    FailedStopLeavesWorking me pid s ↔
      ∀ pipe, s.pipelines.get? pid = some pipe → EndsInTime me pipe s := by
  unfold FailedStopLeavesWorking
  rw [run_stopPipeline]
  cases hp : s.pipelines.get? pid with
  | none => simp
  | some pipe =>
    simp only [Option.some.injEq, forall_eq', ← stillAlive_eq_false_iff]
    cases ha : stillAlive me pipe s with
    | false => simp
    | true =>
      have htracked : (told me pipe s).pipelines.get? pid = some pipe := by
        rw [(told_same me pipe s).pipelines, hp]
      simp [htracked, Pipeline.processes_iff, told_thread]

/-- The config the device gets pushed: its command pipeline polls elsewhere. -/
def movedCommandCenter : PipelineConfig :=
  { commandCenter with source := ⟨"http_poll", .ofList [("url", .str "https://b")]⟩ }

/-- On the booted device the command pipeline's thread handles a push that
changes that pipeline: the stop fails, the push is reported as reverted, and the
loop has been told to stop. -/
theorem reverted_push_ends_command_loop :
    ¬FailedStopLeavesWorking (some 0) "command_center" bootedDevice ∧
      (bootedDevice.run (applyAgentConfig .strict (some 0) (deviceConfig [movedCommandCenter]).modelDump)).1 =
        { ok := false, message := "Reverted after failure: pipeline 'command_center' failed to start" } ∧
      ((bootedDevice.run (applyAgentConfig .strict (some 0)
        (deviceConfig [movedCommandCenter]).modelDump)).2.threads 0).running = false := by
  refine ⟨fun h => ?_, by decide +kernel, by decide +kernel⟩
  rw [failed_stop_iff] at h
  have htracked : bootedDevice.pipelines.get? "command_center" = some ⟨commandCenter, 0⟩ := rfl
  rcases h _ htracked with h | h | h
  · exact absurd h (by decide +kernel)
  · exact absurd h (by decide +kernel)
  · exact h.1 rfl

end AgentRuntime
end LocaiLink
