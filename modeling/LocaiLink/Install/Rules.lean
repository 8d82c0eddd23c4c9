/-
# What the scripts leave behind

Rules for scripts over the tree: a change is made, or it is raised and nothing is;
a removed tree may be left half removed. `Leaves P x Q E` says what is so of the
tree when `x` returns and when it raises.
-/
import LocaiLink.Base.Triple
import LocaiLink.Install.Pointers

namespace LocaiLink
namespace Install

open Prog World

/-- From a tree in `P`: what the script leaves when it returns, and when it raises. -/
abbrev Leaves {α : Type} (P : Fs Bytes → Prop) (x : Raising α) (Q : α → Fs Bytes → Prop) (E : Fs Bytes → Prop) : Prop :=
  Triple (σ := sig) perform (fun s => P s.fs) x.run (Post (fun a s => Q a s.fs) fun _ s => E s.fs)

theorem change_cases (s : World) (fails : Option Error) (f : Fs Bytes → Fs Bytes) :
    (∃ e, s.change fails f = (.error e, s.tock)) ∨
      fails = none ∧ s.change fails f = (.ok (), { s.tock with fs := f s.fs }) := by
  unfold change
  split
  · exact .inl ⟨_, rfl⟩
  · rename_i h
    exact .inr ⟨(Option.or_eq_none_iff.mp h).1, rfl⟩

section Rules

variable {α β : Type} {P Q E : Fs Bytes → Prop} {x : Script (Except Error Unit)} {fails : Fs Bytes → Option Error}
  {f : Fs Bytes → Fs Bytes}

theorem leaves_return {a : α} {Q : α → Fs Bytes → Prop} (h : ∀ t, P t → Q a t) : Leaves P (pure a) Q E := fun _ hs => h _ hs

theorem leaves_throw {e : Error} {Q : α → Fs Bytes → Prop} (h : ∀ t, P t → E t) : Leaves P (throw e) Q E := fun _ hs => h _ hs

theorem Leaves.bind {x : Raising α} {f : α → Raising β} {R : α → Fs Bytes → Prop} {T : β → Fs Bytes → Prop}
    (h : Leaves P x R E) (hf : ∀ a, Leaves (R a) (f a) T E) : Leaves P (x >>= f) T E :=
  Triple.raising h hf

theorem Leaves.mono {x : Raising α} {R R' : α → Fs Bytes → Prop} {E' : Fs Bytes → Prop} (h : Leaves P x R E)
    (hR : ∀ a t, R a t → R' a t) (hE : ∀ t, E t → E' t) : Leaves P x R' E' :=
  Triple.mono h fun r _ hs => match r with
    | .ok a => hR a _ hs
    | .error _ => hE _ hs

theorem Leaves.pre {x : Raising α} {R : α → Fs Bytes → Prop} {P' : Fs Bytes → Prop} (h : Leaves P x R E)
    (hP : ∀ t, P' t → P t) : Leaves P' x R E := fun s hs => h s (hP _ hs)

/-- What is so of the tree before may be assumed. -/
theorem Leaves.assuming {x : Raising α} {R : α → Fs Bytes → Prop} {c : Prop} (hc : ∀ t, P t → c)
    (h : c → Leaves P x R E) : Leaves P x R E := fun s hs => h (hc _ hs) s hs

theorem Leaves.ite {c : Prop} [Decidable c] {x y : Raising α} {R : α → Fs Bytes → Prop} (hx : c → Leaves P x R E)
    (hy : ¬c → Leaves P y R E) : Leaves P (if c then x else y) R E := by
  split_ifs with h
  · exact hx h
  · exact hy h

/-- A change is made, or it is raised and nothing is. -/
theorem leaves_change (hx : ∀ s, x.run perform s = s.change (fails s.fs) f) (hok : ∀ t, P t → fails t = none → Q (f t))
    (hE : ∀ t, P t → E t) : Leaves P (attempt x) (fun _ => Q) E := by
  intro s hs
  change Post _ _ (x.run perform s).1 (x.run perform s).2
  rw [hx]
  rcases change_cases s (fails s.fs) f with ⟨e, he⟩ | ⟨hnone, he⟩
  · rw [he]
    exact hE _ hs
  · rw [he]
    exact hok _ hs hnone

theorem opened_of_not_link {p : Place} {t : Fs Bytes} (h : t.isLink p = false) : opened p t = p := by
  rw [opened, Fs.follow_of_node h]
  rfl

theorem leaves_write {p : Place} {d : Bytes} (hlink : ∀ t, P t → t.isLink p = false)
    (hok : ∀ t, P t → openFails p t = none → Q (t.set p (some (.file d)))) (hE : ∀ t, P t → E t) :
    Leaves P (attempt (act (.write p d))) (fun _ => Q) E := by
  refine leaves_change (f := fun t => t.set (opened p t) (some (.file d))) (fun _ => rfl) (fun t ht hnone => ?_) hE
  rw [opened_of_not_link (hlink t ht)]
  exact hok t ht hnone

theorem leaves_lift {p : Script α} {R : α → World → Prop} (h : Triple (σ := sig) perform (fun s => P s.fs) p R)
    {f : α → Raising β} {T : β → Fs Bytes → Prop}
    (hf : ∀ a, Triple (σ := sig) perform (R a) (f a).run (Post (fun b s => T b s.fs) fun _ s => E s.fs)) :
    Leaves P (ExceptT.lift p >>= f) T E :=
  Triple.raising (Triple.lift h) hf

/-- What was computed is returned or raised. -/
theorem leaves_attempt_pure (r : Except Error α) (hE : ∀ t, P t → E t) : Leaves P (attempt (pure r)) (fun _ => P) E := by
  cases r with
  | ok a => exact fun _ hs => hs
  | error e => exact fun _ hs => hE _ hs

theorem leaves_mapErr {what : String} (h : Leaves P (attempt x) (fun _ => Q) E) :
    Leaves P (mapErr what x) (fun _ => Q) E := by
  refine leaves_lift h fun r => ?_
  cases r with
  | ok u => exact fun _ hs => hs
  | error e => exact fun _ hs => hs

/-- A change whose failure is passed over. -/
theorem leaves_ignoring (h : Leaves P (attempt x) (fun _ => Q) Q) : Leaves P (ignoring x) (fun _ => Q) E := by
  refine leaves_lift h fun r => ?_
  cases r with
  | ok u => exact fun _ hs => hs
  | error e => exact fun _ hs => hs

theorem leaves_look (hE : ∀ t, P t → E t) : Leaves P look (fun a t => P t ∧ a = t) E := by
  intro s hs
  change Post _ _ (World.perform .look s).1 (World.perform .look s).2
  simp only [World.perform]
  split
  · exact hE _ hs
  · exact ⟨hs, rfl⟩

theorem leaves_peek : Leaves P peek (fun a t => P t ∧ (a = t ∨ a = .empty)) E := by
  refine leaves_lift (leaves_look (E := P) fun _ h => h) fun r => ?_
  cases r with
  | ok a => exact fun _ hs => ⟨hs.1, .inl hs.2⟩
  | error e => exact fun _ hs => ⟨hs, .inr rfl⟩

/-- A removed tree may be left half removed. -/
theorem leaves_rmtree {p : Place} (h : ∀ t gone, P t → Q (t.drop gone p)) (hE : ∀ t, P t → E t) (hQ : ∀ t, Q t → E t) :
    Leaves P (attempt (act (.rmtree p))) (fun _ => Q) E := by
  intro s hs
  change Post _ _ (s.rmtree p).1 (s.rmtree p).2
  unfold World.rmtree
  split
  · exact hE _ hs
  · split
    · exact hQ _ (h _ _ hs)
    · exact h _ _ hs

end Rules

end Install
end LocaiLink
