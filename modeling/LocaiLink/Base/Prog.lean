/-
# Programs of atomic actions

A `Prog` is the code of one thread: atomic actions, each with the answer the
code goes on with, and the locks it takes and releases around them. `Prog.run`
runs it alone, from a state to a result and a state. What holds of every action
a program can come to holds of its runs (`Only.run_keeps`).
-/
import Mathlib.Tactic.Common

namespace LocaiLink

/-- The actions of a family of programs, their answers, and the locks. -/
structure Sig where
  Act : Type
  Resp : Act → Type
  Lock : Type

/-- The code of a thread. -/
inductive Prog (σ : Sig) (α : Type) : Type
  | ret (a : α)
  | act (a : σ.Act) (k : σ.Resp a → Prog σ α)
  | lock (l : σ.Lock) (k : Prog σ α)
  | unlock (l : σ.Lock) (k : Prog σ α)

namespace Prog

variable {σ : Sig} {α β γ S : Type}

def bind : Prog σ α → (α → Prog σ β) → Prog σ β
  | .ret a, f => f a
  | .act a k, f => .act a fun r => (k r).bind f
  | .lock l k, f => .lock l (k.bind f)
  | .unlock l k, f => .unlock l (k.bind f)

instance : Monad (Prog σ) where
  pure := .ret
  bind := .bind

theorem bind_assoc' (f : α → Prog σ β) (g : β → Prog σ γ) : ∀ p : Prog σ α,
    (p.bind f).bind g = p.bind fun a => (f a).bind g
  | .ret _ => rfl
  | .act a k => congrArg (Prog.act a) (funext fun r => bind_assoc' f g (k r))
  | .lock l k => congrArg (Prog.lock l) (bind_assoc' f g k)
  | .unlock l k => congrArg (Prog.unlock l) (bind_assoc' f g k)

theorem bind_ret : ∀ p : Prog σ α, p.bind .ret = p
  | .ret _ => rfl
  | .act a k => congrArg (Prog.act a) (funext fun r => bind_ret (k r))
  | .lock l k => congrArg (Prog.lock l) (bind_ret k)
  | .unlock l k => congrArg (Prog.unlock l) (bind_ret k)

instance : LawfulMonad (Prog σ) := LawfulMonad.mk' (Prog σ) bind_ret (fun _ _ => rfl) fun p f g => bind_assoc' f g p

/-- One action, whose answer is the result. -/
def call (a : σ.Act) : Prog σ (σ.Resp a) := .act a .ret

/-- The code under a lock, as a `with` block has it. -/
def locked (l : σ.Lock) (p : Prog σ α) : Prog σ α :=
  .lock l (p.bind fun a => .unlock l (.ret a))

/-- What each action does to the state, and its answer. -/
abbrev Sem (σ : Sig) (S : Type) := (a : σ.Act) → S → σ.Resp a × S

/-- The program alone: its locks are free, so taking one is no step of the state. -/
def run (m : Sem σ S) : Prog σ α → S → α × S
  | .ret a, s => (a, s)
  | .act a k, s => run m (k (m a s).1) (m a s).2
  | .lock _ k, s => run m k s
  | .unlock _ k, s => run m k s

variable (m : Sem σ S)

@[simp] theorem run_ret (a : α) (s : S) : run m (.ret a) s = (a, s) := rfl

@[simp] theorem run_pure (a : α) (s : S) : run m (pure a) s = (a, s) := rfl

@[simp] theorem run_call (a : σ.Act) (s : S) : run m (call a) s = m a s := rfl

theorem run_bind' (f : α → Prog σ β) : ∀ (p : Prog σ α) (s : S),
    run m (p.bind f) s = run m (f (run m p s).1) (run m p s).2
  | .ret _, _ => rfl
  | .act a k, s => run_bind' f (k (m a s).1) (m a s).2
  | .lock _ k, s => run_bind' f k s
  | .unlock _ k, s => run_bind' f k s

@[simp] theorem run_bind (p : Prog σ α) (f : α → Prog σ β) (s : S) :
    run m (p >>= f) s = run m (f (run m p s).1) (run m p s).2 :=
  run_bind' m f p s

@[simp] theorem run_locked (l : σ.Lock) (p : Prog σ α) (s : S) :
    run m (locked l p) s = run m p s := by
  rw [locked, run, run_bind', run, run_ret]

/-- Every action the program can come to, whatever it is answered, is a `P` action. -/
def Only (P : σ.Act → Prop) : Prog σ α → Prop
  | .ret _ => True
  | .act a k => P a ∧ ∀ r, (k r).Only P
  | .lock _ k => k.Only P
  | .unlock _ k => k.Only P

section Only

variable {P : σ.Act → Prop}

@[simp] theorem only_pure (a : α) : (pure a : Prog σ α).Only P := trivial

@[simp] theorem only_call (a : σ.Act) : (call a).Only P ↔ P a :=
  and_iff_left fun _ => trivial

theorem Only.bind' {f : α → Prog σ β} (hf : ∀ a, (f a).Only P) :
    ∀ {p : Prog σ α}, p.Only P → (p.bind f).Only P
  | .ret a, _ => hf a
  | .act _ k, h => ⟨h.1, fun r => (h.2 r).bind' (p := k r) hf⟩
  | .lock _ k, h => h.bind' (p := k) hf
  | .unlock _ k, h => h.bind' (p := k) hf

theorem Only.bind {p : Prog σ α} {f : α → Prog σ β} (h : p.Only P) (hf : ∀ a, (f a).Only P) :
    (p >>= f).Only P :=
  h.bind' hf

theorem Only.locked {p : Prog σ α} (h : p.Only P) (l : σ.Lock) : (locked l p).Only P :=
  h.bind' (f := fun a => .unlock l (.ret a)) fun _ => trivial

theorem Only.mono {Q : σ.Act → Prop} (h : ∀ a, P a → Q a) : ∀ {p : Prog σ α}, p.Only P → p.Only Q
  | .ret _, _ => trivial
  | .act _ k, hp => ⟨h _ hp.1, fun r => (hp.2 r).mono (p := k r) h⟩
  | .lock _ k, hp => Only.mono (p := k) h hp
  | .unlock _ k, hp => Only.mono (p := k) h hp

theorem Only.ite {c : Prop} [Decidable c] {p q : Prog σ α} (hp : p.Only P) (hq : q.Only P) :
    (if c then p else q).Only P := by
  split_ifs <;> assumption

/-- What every `P` action keeps, a program of `P` actions keeps. -/
theorem Only.run_keeps {I : S → Prop} (h : ∀ a s, P a → I s → I (m a s).2) :
    ∀ {p : Prog σ α} {s : S}, p.Only P → I s → I (run m p s).2
  | .ret _, _, _, hs => hs
  | .act a k, s, hp, hs => (hp.2 (m a s).1).run_keeps (p := k (m a s).1) h (h a s hp.1 hs)
  | .lock _ k, _, hp, hs => Only.run_keeps (p := k) h hp hs
  | .unlock _ k, _, hp, hs => Only.run_keeps (p := k) h hp hs

end Only

/-- The program comes to a `Q` action, whatever it is answered. -/
def Comes (Q : σ.Act → Prop) : Prog σ α → Prop
  | .ret _ => False
  | .act a k => Q a ∨ ∀ r, (k r).Comes Q
  | .lock _ k => k.Comes Q
  | .unlock _ k => k.Comes Q

/-- Every `P` action is followed by a `Q` action. -/
def Followed (P Q : σ.Act → Prop) : Prog σ α → Prop
  | .ret _ => True
  | .act a k => (P a → ∀ r, (k r).Comes Q) ∧ ∀ r, (k r).Followed P Q
  | .lock _ k => k.Followed P Q
  | .unlock _ k => k.Followed P Q

section Followed

variable {P Q : σ.Act → Prop}

theorem Comes.bind {f : α → Prog σ β} : ∀ {p : Prog σ α}, p.Comes Q → (p.bind f).Comes Q
  | .act _ k, h => h.imp_right fun h r => (h r).bind (p := k r)
  | .lock _ k, h => Comes.bind (p := k) h
  | .unlock _ k, h => Comes.bind (p := k) h

theorem Followed.bind {f : α → Prog σ β} (hf : ∀ a, (f a).Followed P Q) :
    ∀ {p : Prog σ α}, p.Followed P Q → (p.bind f).Followed P Q
  | .ret a, _ => hf a
  | .act _ k, h => ⟨fun ha r => (h.1 ha r).bind, fun r => (h.2 r).bind (p := k r) hf⟩
  | .lock _ k, h => Followed.bind (p := k) hf h
  | .unlock _ k, h => Followed.bind (p := k) hf h

end Followed

/-- What every action keeps, every program keeps. -/
theorem run_keeps {I : S → Prop} (h : ∀ a s, I s → I (m a s).2) :
    ∀ (p : Prog σ α) (s : S), I s → I (run m p s).2
  | .ret _, _, hs => hs
  | .act a k, s, hs => run_keeps h (k (m a s).1) _ (h a s hs)
  | .lock _ k, s, hs => run_keeps h k s hs
  | .unlock _ k, s, hs => run_keeps h k s hs

end Prog

end LocaiLink
