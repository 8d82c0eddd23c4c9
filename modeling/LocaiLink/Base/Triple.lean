/-
# Pre- and postconditions of programs

A program run alone from a state that meets the precondition ends with a result
and a state that meet the postcondition. A program that may raise has two of them
(`Post`), one for what it returns and one for what it raises.
-/
import LocaiLink.Base.Prog

namespace LocaiLink
namespace Prog

variable {σ : Sig} {α β ε S : Type} {m : Sem σ S}

/-- From every state in `P` the program ends in `Q`. -/
def Triple (m : Sem σ S) (P : S → Prop) (p : Prog σ α) (Q : α → S → Prop) : Prop :=
  ∀ s, P s → Q (run m p s).1 (run m p s).2

section Triple

variable {P P' : S → Prop} {p : Prog σ α} {Q Q' R : α → S → Prop} {T : β → S → Prop}

theorem triple_call {a : σ.Act} {Q : σ.Resp a → S → Prop} (h : ∀ s, P s → Q (m a s).1 (m a s).2) :
    Triple m P (call a) Q := h

theorem Triple.bind {f : α → Prog σ β} (h : Triple m P p R) (hf : ∀ a, Triple m (R a) (f a) T) :
    Triple m P (p >>= f) T := by
  intro s hs
  rw [run_bind]
  exact hf _ _ (h s hs)

theorem Triple.mono (h : Triple m P p Q) (hQ : ∀ a s, Q a s → Q' a s) : Triple m P p Q' :=
  fun s hs => hQ _ _ (h s hs)

theorem Triple.pre (h : Triple m P p Q) (hP : ∀ s, P' s → P s) : Triple m P' p Q := fun s hs => h s (hP s hs)

theorem Triple.ite {c : Prop} [Decidable c] {q : Prog σ α} (hp : c → Triple m P p Q) (hq : ¬c → Triple m P q Q) :
    Triple m P (if c then p else q) Q := by
  split_ifs with h
  · exact hp h
  · exact hq h

/-- What is so of the precondition alone may be assumed. -/
theorem Triple.assuming {c : Prop} (hc : ∀ s, P s → c) (h : c → Triple m P p Q) : Triple m P p Q :=
  fun s hs => h (hc s hs) s hs

/-- What every `A` action keeps, a program of `A` actions keeps. -/
theorem Only.triple {A : σ.Act → Prop} (hact : ∀ a s, A a → P s → P (m a s).2) (h : p.Only A) :
    Triple m P p fun _ => P :=
  fun _ hs => h.run_keeps m hact hs

end Triple

/-! ### Programs that raise -/

/-- What is returned meets `Q`, what is raised meets `E`. -/
def Post (Q : α → S → Prop) (E : ε → S → Prop) : Except ε α → S → Prop
  | .ok a => Q a
  | .error e => E e

section Raising

variable {P : S → Prop} {x : ExceptT ε (Prog σ) α} {f : α → ExceptT ε (Prog σ) β} {R : α → S → Prop}
  {T : β → S → Prop} {E E' : ε → S → Prop}

theorem Triple.raising (h : Triple m P x.run (Post R E)) (hf : ∀ a, Triple m (R a) (f a).run (Post T E)) :
    Triple m P (x >>= f).run (Post T E) :=
  Triple.bind h fun r => match r with
    | .ok a => hf a
    | .error _ => fun _ hs => hs

theorem triple_return {a : α} (h : ∀ s, P s → R a s) : Triple m P (pure a : ExceptT ε (Prog σ) α).run (Post R E) := h

theorem triple_throw {e : ε} (h : ∀ s, P s → E e s) : Triple m P (throw e : ExceptT ε (Prog σ) α).run (Post R E) := h

/-- A handler goes on where something is raised. -/
theorem Triple.tryCatch {g : ε → ExceptT ε (Prog σ) α} (h : Triple m P x.run (Post R E))
    (hg : ∀ e, Triple m (E e) (g e).run (Post R E')) : Triple m P (tryCatch x g).run (Post R E') :=
  Triple.bind h fun r => match r with
    | .ok _ => fun _ hs => hs
    | .error e => hg e

/-- A program that raises nothing. -/
theorem Triple.lift {p : Prog σ α} (h : Triple m P p R) : Triple m P (ExceptT.lift p : ExceptT ε (Prog σ) α).run (Post R E) :=
  Triple.bind h fun _ _ hs => hs

/-- The run of a sequence, from what its first part returns or raises. -/
theorem run_ok {a : α} {s : S} (h : (run m x.run s).1 = .ok a) : run m (x >>= f).run s = run m (f a).run (run m x.run s).2 := by
  change run m (x.run.bind _) s = _
  rw [run_bind', h]
  rfl

/-- A sequence that returns is one of parts that return. -/
theorem run_bind_ok {b : β} {s s' : S} (h : run m (x >>= f).run s = (.ok b, s')) :
    ∃ a s₁, run m x.run s = (.ok a, s₁) ∧ run m (f a).run s₁ = (.ok b, s') := by
  change run m (x.run.bind _) s = _ at h
  rw [run_bind'] at h
  cases hx : (run m x.run s).1 with
  | ok a =>
    rw [hx] at h
    exact ⟨a, _, Prod.ext hx rfl, h⟩
  | error e =>
    rw [hx] at h
    cases (Prod.mk.inj h).1

theorem run_error {e : ε} {s : S} (h : (run m x.run s).1 = .error e) :
    run m (x >>= f).run s = (.error e, (run m x.run s).2) := by
  change run m (x.run.bind _) s = _
  rw [run_bind', h]
  rfl

/-- A sequence that raises does so in its first part or in its second. -/
theorem run_bind_error {e : ε} {s s' : S} (h : run m (x >>= f).run s = (.error e, s')) :
    run m x.run s = (.error e, s') ∨ ∃ a s₁, run m x.run s = (.ok a, s₁) ∧ run m (f a).run s₁ = (.error e, s') := by
  cases hx : (run m x.run s).1 with
  | ok a =>
    rw [run_ok hx] at h
    exact .inr ⟨a, _, Prod.ext hx rfl, h⟩
  | error e' =>
    rw [run_error hx] at h
    obtain ⟨he, rfl⟩ := Prod.mk.inj h
    exact .inl (Prod.ext (hx.trans (congrArg Except.error (Except.error.inj he))) rfl)

/-- Where a part cannot raise, what comes after it has what it is answered. -/
theorem run_lift_bind (p : Prog σ α) (s : S) :
    run m (ExceptT.lift p >>= f).run s = run m (f (run m p s).1).run (run m p s).2 := by
  rw [ExceptT.run_bind_lift]
  exact run_bind m p _ s

end Raising

/-! ### Programs of some actions, with their results -/

/-- Every action the program can come to is an `A` action, and every result is in `Q`. -/
def EndsIn (A : σ.Act → Prop) (Q : α → Prop) : Prog σ α → Prop
  | .ret a => Q a
  | .act a k => A a ∧ ∀ r, (k r).EndsIn A Q
  | .lock _ k => k.EndsIn A Q
  | .unlock _ k => k.EndsIn A Q

theorem EndsIn.only {A : σ.Act → Prop} {Q : α → Prop} : ∀ {p : Prog σ α}, p.EndsIn A Q → p.Only A
  | .ret _, _ => trivial
  | .act _ k, h => ⟨h.1, fun r => (h.2 r).only (p := k r)⟩
  | .lock _ k, h => EndsIn.only (p := k) h
  | .unlock _ k, h => EndsIn.only (p := k) h

theorem EndsIn.mono {A : σ.Act → Prop} {Q R : α → Prop} (h : ∀ a, Q a → R a) : ∀ {p : Prog σ α}, p.EndsIn A Q → p.EndsIn A R
  | .ret a, hp => h a hp
  | .act _ k, hp => ⟨hp.1, fun r => (hp.2 r).mono (p := k r) h⟩
  | .lock _ k, hp => EndsIn.mono (p := k) h hp
  | .unlock _ k, hp => EndsIn.mono (p := k) h hp

theorem EndsIn.bind {A : σ.Act → Prop} {Q : α → Prop} {R : β → Prop} {f : α → Prog σ β} (hf : ∀ a, Q a → (f a).EndsIn A R) :
    ∀ {p : Prog σ α}, p.EndsIn A Q → (p >>= f).EndsIn A R
  | .ret a, h => hf a h
  | .act _ k, h => ⟨h.1, fun r => (h.2 r).bind (p := k r) hf⟩
  | .lock _ k, h => EndsIn.bind (p := k) hf h
  | .unlock _ k, h => EndsIn.bind (p := k) hf h

/-- What is returned is in `Q`. -/
def Returns (Q : α → Prop) : Except ε α → Prop
  | .ok a => Q a
  | .error _ => True

section EndsInRaising

variable {A : σ.Act → Prop} {Q : α → Prop} {R : β → Prop} {x : ExceptT ε (Prog σ) α} {f : α → ExceptT ε (Prog σ) β}

theorem EndsIn.raising (h : x.run.EndsIn A (Returns Q)) (hf : ∀ a, Q a → (f a).run.EndsIn A (Returns R)) :
    (x >>= f).run.EndsIn A (Returns R) :=
  EndsIn.bind (p := x.run) (fun r hr => match r with
    | .ok a => hf a hr
    | .error _ => trivial) h

theorem EndsIn.tryCatch {g : ε → ExceptT ε (Prog σ) α} (h : x.run.EndsIn A (Returns Q))
    (hg : ∀ e, (g e).run.EndsIn A (Returns Q)) : (tryCatch x g).run.EndsIn A (Returns Q) :=
  EndsIn.bind (p := x.run) (fun r hr => match r with
    | .ok _ => hr
    | .error e => hg e) h

end EndsInRaising

end Prog
end LocaiLink
