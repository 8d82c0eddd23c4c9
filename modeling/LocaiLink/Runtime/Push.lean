/-
# How a push ends

`apply_agent_config` refuses the config, or swaps to it, or fails and swaps
back, or fails twice and asks for a restart (`applyAgentConfig_cases`). The last
action on the store is the one the file holds afterwards, if it was written
(`FlushOk`).
-/
import LocaiLink.Runtime.Swap

namespace LocaiLink
namespace Rt

/-! ### The file behind the document -/

/-- Every write of the session file succeeds. -/
def FlushOk (s : Rt) : Prop := ∀ n, (s.oracle .flush n).written = .whole

/-- The session file reads back as the document. -/
def Synced (s : Rt) : Prop := ∀ st, s.store = some st → st.disk = some st.cache

theorem synced_performStore {s : Rt} (h : s.FlushOk) (op : Store.Op) : (s.performStore op).Synced := by
  unfold performStore
  intro st hst
  split at hst
  · rename_i hnone
    rw [hnone] at hst
    cases hst
  · cases hst
    simp only [Store.perform, show (s.ask .flush).written = .whole from h s.tick]

theorem perform_oracle (a : Act) (s : Rt) : (perform a s).2.oracle = s.oracle := by
  cases a <;> simp only [perform] <;> try rfl
  case updateArgs => unfold modifyStored; split <;> rfl
  case createComponent => split <;> rfl
  case join => unfold join; split_ifs <;> rfl
  case store => unfold performStore; split <;> rfl
  case attachResponse => split <;> [split; skip] <;> rfl
  case dropWorker => split <;> [split; skip] <;> rfl
  case mkdir => unfold fileOp; split <;> rfl
  case unlink => unfold fileOp; split <;> rfl
  case create => unfold fileOp; split <;> rfl
  case append => unfold fileOp appendTo; split <;> [rfl; (split <;> rfl)]
  case replace => unfold fileOp; split <;> rfl
  case savePending => split <;> rfl
  case report => split <;> rfl
  case setDeployment => unfold setDeployment; split <;> [skip; split] <;> rfl

/-- Along any code the surroundings stay what they are, and the file stays in
step with the document when its writes succeed. -/
theorem perform_synced (a : Act) (s : Rt) (h : s.FlushOk ∧ s.Synced) :
    (perform a s).2.FlushOk ∧ (perform a s).2.Synced := by
  refine ⟨fun n => by rw [perform_oracle]; exact h.1 n, ?_⟩
  by_cases hq : Quiet a
  · have hstore : (perform a s).2.store = s.store := congrArg Core.store (core_perform hq s)
    intro st hst
    exact h.2 st (hstore ▸ hst)
  cases a with
  | store op => exact synced_performStore h.1 op
  | join i me =>
    intro st hst
    refine h.2 st ?_
    simp only [perform, join] at hst
    split_ifs at hst <;> exact hst
  | updateArgs pid args =>
    intro st hst
    refine h.2 st ?_
    simp only [perform, modifyStored] at hst
    split at hst <;> exact hst
  | setConfig | popConfig | setPipe | popPipe | setAgentConfig | publishConfigs | newPipeline | startThread
  | stop => exact h.2
  | _ => exact absurd trivial hq

theorem run_synced {α : Type} (p : Code α) (s : Rt) (h : s.FlushOk ∧ s.Synced) :
    (s.run p).2.FlushOk ∧ (s.run p).2.Synced :=
  Prog.run_keeps perform (σ := rtSig) (I := fun s => s.FlushOk ∧ s.Synced) perform_synced p s h

theorem perform_hasStore (a : Act) (s : Rt) : (perform a s).2.store.isSome = s.store.isSome := by
  by_cases hq : Quiet a
  · exact congrArg (fun c => c.store.isSome) (core_perform hq s)
  cases a with
  | store op =>
    simp only [perform, performStore]
    split
    · rfl
    · rename_i h
      rw [h]
      rfl
  | join i me => simp only [perform, join]; split_ifs <;> rfl
  | updateArgs pid args => simp only [perform, modifyStored]; split <;> rfl
  | setConfig | popConfig | setPipe | popPipe | setAgentConfig | publishConfigs | newPipeline | startThread
  | stop => rfl
  | _ => exact absurd trivial hq

theorem run_hasStore {α : Type} (p : Code α) (s : Rt) : (s.run p).2.store.isSome = s.store.isSome :=
  Prog.run_keeps perform (σ := rtSig) (I := fun t => t.store.isSome = s.store.isSome)
    (fun a t h => (perform_hasStore a t).trans h) p s rfl

end Rt

namespace AgentRuntime

open Rt

/-- What the device makes of a raw config: resolved and validated. -/
def validated (V : Validator) (s : Rt) (raw : Json) : Option AgentConfig :=
  V.agentConfig (Templating.resolveTemplates (identityContext s.agentConfig.identity) raw)

/-- What the guards let through. -/
def guarded (V : Validator) (current : AgentConfig) (resolved : Json) : Option AgentConfig :=
  if ((resolved.get? "version").getD .null).eq (.float SCHEMA_VERSION) then
    (V.agentConfig resolved).filter fun new =>
      new.identity.deviceId = current.identity.deviceId && optEq TransportConfig.eq new.transport current.transport
  else none

/-- The config a push swaps to, unless the guards refuse it. -/
def accepted (V : Validator) (s : Rt) (raw : Json) : Option AgentConfig :=
  guarded V s.agentConfig (Templating.resolveTemplates (identityContext s.agentConfig.identity) raw)

theorem validated_of_accepted {V : Validator} {s : Rt} {raw : Json} {new : AgentConfig}
    (h : accepted V s raw = some new) : validated V s raw = some new := by
  unfold accepted guarded at h
  split_ifs at h
  exact (Option.filter_eq_some_iff.mp h).1

theorem guardConfig_cases (V : Validator) (current : AgentConfig) (resolved : Json) (s : Rt) :
    (∃ e t, s.run (guardConfig V current resolved) = (.error e, t) ∧ t.core = s.core ∧
        guarded V current resolved = none) ∨
      (∃ new, guarded V current resolved = some new ∧ s.run (guardConfig V current resolved) = (.ok new, s)) := by
  unfold guardConfig guarded
  simp only
  split_ifs with hv
  · cases hval : V.agentConfig resolved with
    | none => exact .inl ⟨_, _, rfl, core_perform (a := .validationText) trivial s, rfl⟩
    | some new =>
      simp only
      split_ifs with hid ht
      · exact .inl ⟨_, s, rfl, rfl, by simp [hid]⟩
      · exact .inr ⟨new, by simp [not_not.mp hid, ht], rfl⟩
      · exact .inl ⟨_, s, rfl, rfl, by simp [ht]⟩
  · exact .inl ⟨_, s, rfl, rfl, rfl⟩

/-- The state after a push that was applied. -/
def applied (new : AgentConfig) (t : Rt) : Rt := (t.performStore (.updateFullConfig new)).tock

/-- The state after a push that was reverted. -/
def reverted (snapshot : Option AgentConfig) (u : Rt) : Rt :=
  match snapshot with
  | none => u
  | some d => u.performStore (.restore d)

/-- A swap that is tried is applied, or reverted, or ends in a restart. -/
theorem swapTo_cases (V : Validator) (me : Option ℕ) (new : AgentConfig) (s : Rt) :
    (∃ msg t, s.run (swapTo V me new) = ({ ok := true, message := msg }, applied new t) ∧
      (s.run (applyConfig V me new s.agentConfig)).2 = t ∧ Swapped new s.agentConfig s t) ∨
    (∃ msg t u, s.run (swapTo V me new) = ({ ok := false, message := msg }, reverted s.doc u) ∧
      u.store.isSome = s.store.isSome ∧
      SwapFailed new s.agentConfig s t ∧ Swapped s.agentConfig new t u) ∨
    (∃ msg t, s.run (swapTo V me new) = ({ ok := false, message := msg, scheduledRestart := true }, t)) := by
  have hget : perform .getAgentConfig s = (s.agentConfig, s) := rfl
  have hsnap : perform .snapshot s = (s.doc, s) := rfl
  unfold swapTo
  simp only [run_bind, run_act, hget, hsnap]
  rcases applyConfig_cases V me new s.agentConfig s with ⟨e, t, ht, hf⟩ | ⟨t, ht, hs⟩
  · have hstore : t.store.isSome = s.store.isSome := by
      have := run_hasStore (applyConfig V me new s.agentConfig) s
      rwa [ht] at this
    rw [ht]
    simp only [revert, run_bind]
    rcases applyConfig_cases V me s.agentConfig new t with ⟨e', u, hu, -⟩ | ⟨u, hu, hs'⟩
    · rw [hu]
      exact .inr (.inr ⟨_, _, rfl⟩)
    · have hstore' : u.store.isSome = t.store.isSome := by
        have := run_hasStore (applyConfig V me s.agentConfig new) t
        rwa [hu] at this
      rw [hu]
      refine .inr (.inl ⟨s!"Reverted after failure: {e}", t, u, ?_, hstore'.trans hstore, hf, hs'⟩)
      cases s.doc <;> rfl
  · rw [ht]
    exact .inl ⟨_, t, rfl, rfl, hs⟩

/-- A push is refused and changes nothing, or is a swap to the accepted config. -/
theorem applyAgentConfig_cases (V : Validator) (me : Option ℕ) (raw : Json) (s : Rt) :
    (∃ msg t, s.run (applyAgentConfig V me raw) = ({ ok := false, message := msg }, t) ∧ t.core = s.core ∧
        accepted V s raw = none) ∨
      (∃ new, accepted V s raw = some new ∧ s.run (applyAgentConfig V me raw) = s.run (swapTo V me new)) := by
  have hget : perform .getAgentConfig s = (s.agentConfig, s) := rfl
  unfold applyAgentConfig
  simp only [run_bind, run_act, hget]
  rcases guardConfig_cases V s.agentConfig
    (Templating.resolveTemplates (identityContext s.agentConfig.identity) raw) s with
    ⟨e, t, ht, hc, hn⟩ | ⟨new, hn, ht⟩
  · rw [ht]
    exact .inl ⟨e, t, rfl, hc, hn⟩
  · rw [ht]
    exact .inr ⟨new, hn, rfl⟩

end AgentRuntime
end LocaiLink
