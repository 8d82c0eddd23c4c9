/-
# Programs that are stopped

A program may be stopped before any of its actions, and then leaves the state that it has
come to. `Guards m P p Q C` says that from `P` it ends in `Q`, and that wherever it is
stopped it leaves a state in `C`.
-/
import LocaiLink.Base.Triple

namespace LocaiLink
namespace Prog

variable {σ : Sig} {α β ε S : Type} {m : Sem σ S}

/-- The states that a run comes to, from the first to the last. -/
inductive Passes (m : Sem σ S) : Prog σ α → S → S → Prop
  | here (p : Prog σ α) (s : S) : Passes m p s s
  | act {a : σ.Act} {k : σ.Resp a → Prog σ α} {s t : S} (h : Passes m (k (m a s).1) (m a s).2 t) : Passes m (.act a k) s t
  | lock {l : σ.Lock} {k : Prog σ α} {s t : S} (h : Passes m k s t) : Passes m (.lock l k) s t
  | unlock {l : σ.Lock} {k : Prog σ α} {s t : S} (h : Passes m k s t) : Passes m (.unlock l k) s t

theorem passes_last : ∀ (p : Prog σ α) (s : S), Passes m p s (run m p s).2
  | .ret _, _ => .here ..
  | .act a k, s => .act (passes_last (k (m a s).1) (m a s).2)
  | .lock _ k, s => .lock (passes_last k s)
  | .unlock _ k, s => .unlock (passes_last k s)

theorem passes_ret {a : α} {s t : S} (h : Passes m (.ret a : Prog σ α) s t) : t = s := by
  cases h
  rfl

/-- An action is stopped before or after it. -/
theorem passes_call {a : σ.Act} {s t : S} (h : Passes m (call a) s t) : t = s ∨ t = (m a s).2 := by
  cases h with
  | here => exact .inl rfl
  | act h => exact .inr (passes_ret h)

/-- A sequence is stopped in its first part or in its second. -/
theorem passes_bind {f : α → Prog σ β} : ∀ {p : Prog σ α} {s t : S}, Passes m (p.bind f) s t →
    Passes m p s t ∨ Passes m (f (run m p s).1) (run m p s).2 t
  | .ret _, _, _, h => .inr h
  | .act a k, s, _, h => by
    cases h with
    | here => exact .inl (.here ..)
    | act h => exact (passes_bind (p := k (m a s).1) h).imp_left .act
  | .lock _ k, _, _, h => by
    cases h with
    | here => exact .inl (.here ..)
    | lock h => exact (passes_bind (p := k) h).imp_left .lock
  | .unlock _ k, _, _, h => by
    cases h with
    | here => exact .inl (.here ..)
    | unlock h => exact (passes_bind (p := k) h).imp_left .unlock

/-- From every state in `P` the program ends in `Q`, and is stopped in `C`. -/
def Guards (m : Sem σ S) (P : S → Prop) (p : Prog σ α) (Q : α → S → Prop) (C : S → Prop) : Prop :=
  ∀ s, P s → Q (run m p s).1 (run m p s).2 ∧ ∀ t, Passes m p s t → C t

section Guards

variable {P P' : S → Prop} {p : Prog σ α} {Q Q' R : α → S → Prop} {T : β → S → Prop} {C : S → Prop}

theorem guards_pure {a : α} (h : ∀ s, P s → Q a s) (hC : ∀ s, P s → C s) : Guards m P (pure a : Prog σ α) Q C :=
  fun s hs => ⟨h s hs, fun t ht => by rw [passes_ret ht]; exact hC s hs⟩

/-- One action. -/
theorem Triple.guards_call {a : σ.Act} {Q : σ.Resp a → S → Prop} (h : Triple m P (call a) Q) (hP : ∀ s, P s → C s)
    (hQ : ∀ r s, Q r s → C s) : Guards m P (call a) Q C := by
  refine fun s hs => ⟨h s hs, fun t ht => ?_⟩
  rcases passes_call ht with rfl | rfl
  · exact hP t hs
  · exact hQ _ _ (h s hs)

theorem Guards.bind {f : α → Prog σ β} (h : Guards m P p R C) (hf : ∀ a, Guards m (R a) (f a) T C) :
    Guards m P (p >>= f) T C := by
  intro s hs
  obtain ⟨hR, hC⟩ := h s hs
  obtain ⟨hT, hC'⟩ := hf _ _ hR
  refine ⟨?_, fun t ht => ?_⟩
  · rw [run_bind]
    exact hT
  · rcases passes_bind ht with ht | ht
    · exact hC t ht
    · exact hC' t ht

theorem Guards.mono {C' : S → Prop} (h : Guards m P p Q C) (hQ : ∀ a s, Q a s → Q' a s) (hC : ∀ s, C s → C' s) :
    Guards m P p Q' C' :=
  fun s hs => ⟨hQ _ _ (h s hs).1, fun t ht => hC t ((h s hs).2 t ht)⟩

theorem Guards.pre (h : Guards m P p Q C) (hP : ∀ s, P' s → P s) : Guards m P' p Q C := fun s hs => h s (hP s hs)

/-- Programs that may raise. -/
theorem Guards.raising {x : ExceptT ε (Prog σ) α} {f : α → ExceptT ε (Prog σ) β} {E : ε → S → Prop}
    (h : Guards m P x.run (Post R E) C) (hf : ∀ a, Guards m (R a) (f a).run (Post T E) C) (hE : ∀ e s, E e s → C s) :
    Guards m P (x >>= f).run (Post T E) C :=
  Guards.bind h fun r => match r with
    | .ok a => hf a
    | .error e => guards_pure (fun _ hs => hs) fun s hs => hE e s hs

/-- A program that raises nothing. -/
theorem Guards.lift {f : α → ExceptT ε (Prog σ) β} {T : Except ε β → S → Prop} (h : Guards m P p R C)
    (hf : ∀ a, Guards m (R a) (f a).run T C) : Guards m P (ExceptT.lift p >>= f).run T C := by
  rw [ExceptT.run_bind_lift]
  exact h.bind hf

end Guards

/-- What stopped the second of two parts left the first behind. -/
theorem passes_raising {x : ExceptT ε (Prog σ) α} {f : α → ExceptT ε (Prog σ) β} {s t : S} (h : Passes m (x >>= f).run s t) :
    Passes m x.run s t ∨ ∃ a s', run m x.run s = (.ok a, s') ∧ Passes m (f a).run s' t := by
  rcases passes_bind (p := x.run) h with h | h
  · exact .inl h
  · cases hr : (run m x.run s).1 with
    | ok a =>
      rw [hr] at h
      exact .inr ⟨a, _, Prod.ext hr rfl, h⟩
    | error e =>
      rw [hr] at h
      rw [passes_ret h]
      exact .inl (passes_last x.run s)

/-! ### What holds all the way -/

/-- Wherever the program is stopped, `P` still holds. -/
def Stays (m : Sem σ S) (P : S → Prop) (p : Prog σ α) : Prop := ∀ s, P s → ∀ t, Passes m p s t → P t

section Stays

variable {P : S → Prop} {p : Prog σ α}

theorem Stays.run {s : S} (h : Stays m P p) (hs : P s) : P (Prog.run m p s).2 := h s hs _ (passes_last p s)

theorem stays_pure (a : α) : Stays m P (pure a : Prog σ α) := by
  intro s hs t ht
  rwa [passes_ret ht]

theorem stays_call {a : σ.Act} (h : ∀ s, P s → P (m a s).2) : Stays m P (call a) := by
  intro s hs t ht
  rcases passes_call ht with rfl | rfl
  · exact hs
  · exact h s hs

theorem Stays.bind {f : α → Prog σ β} (h : Stays m P p) (hf : ∀ a, Stays m P (f a)) : Stays m P (p >>= f) := by
  intro s hs t ht
  rcases passes_bind ht with ht | ht
  · exact h s hs t ht
  · exact hf _ _ (h.run hs) t ht

/-- Programs that may raise. -/
theorem Stays.raising {x : ExceptT ε (Prog σ) α} {f : α → ExceptT ε (Prog σ) β} (h : Stays m P x.run)
    (hf : ∀ a, Stays m P (f a).run) : Stays m P (x >>= f).run :=
  Stays.bind h fun r => match r with
    | .ok a => hf a
    | .error e => stays_pure (Except.error e)

theorem Stays.lift {f : α → ExceptT ε (Prog σ) β} (h : Stays m P p) (hf : ∀ a, Stays m P (f a).run) :
    Stays m P (ExceptT.lift p >>= f).run := by
  rw [ExceptT.run_bind_lift]
  exact h.bind hf

theorem Stays.ite {c : Prop} [Decidable c] {q : Prog σ α} (hp : c → Stays m P p) (hq : ¬c → Stays m P q) :
    Stays m P (if c then p else q) := by
  split_ifs with h
  · exact hp h
  · exact hq h

end Stays

end Prog
end LocaiLink
