/-
# Threads that follow a protocol

What a thread has done so far, its actions with the answers it was given and the
locks it took and released, is folded into a ghost state. Code that `Follows`
the protocol performs an action only where its ghost state allows that. A ghost
state of all threads together takes on who did what, in order. If each allowed
deed keeps an invariant of the shared state, the locks and the ghost states, then
the invariant holds along every run (`exec_follows`).
-/
import Mathlib.Data.List.Forall2
import LocaiLink.Base.Machine

namespace LocaiLink

/-- One thing a thread does. -/
inductive Deed (σ : Sig) : Type
  | act (a : σ.Act) (r : σ.Resp a)
  | lock (l : σ.Lock)
  | unlock (l : σ.Lock)

namespace Prog

variable {σ : Sig} {α β G : Type} {next : G → Deed σ → G} {E : G → σ.Act → Prop}

/-- From the ghost state, whatever it is answered, the code keeps `E` before each
action and ends in `Q`. -/
inductive Follows (next : G → Deed σ → G) (E : G → σ.Act → Prop) (Q : G → α → Prop) : G → Prog σ α → Prop
  | ret {g : G} {a : α} (h : Q g a) : Follows next E Q g (.ret a)
  | act {g : G} {a : σ.Act} {k : σ.Resp a → Prog σ α} (h : E g a)
      (hk : ∀ r, Follows next E Q (next g (.act a r)) (k r)) : Follows next E Q g (.act a k)
  | lock {g : G} {l : σ.Lock} {k : Prog σ α} (hk : Follows next E Q (next g (.lock l)) k) :
      Follows next E Q g (.lock l k)
  | unlock {g : G} {l : σ.Lock} {k : Prog σ α} (hk : Follows next E Q (next g (.unlock l)) k) :
      Follows next E Q g (.unlock l k)

theorem Follows.mono {Q R : G → α → Prop} (hQ : ∀ g a, Q g a → R g a) {p : Prog σ α} {g : G}
    (h : Follows next E Q g p) : Follows next E R g p := by
  induction h with
  | ret h => exact .ret (hQ _ _ h)
  | act h _ ih => exact .act h ih
  | lock _ ih => exact .lock ih
  | unlock _ ih => exact .unlock ih

theorem Follows.bind {Q : G → α → Prop} {R : G → β → Prop} {p : Prog σ α} {f : α → Prog σ β} {g : G}
    (h : Follows next E Q g p) (hf : ∀ g a, Q g a → Follows next E R g (f a)) :
    Follows next E R g (p >>= f) := by
  induction h with
  | ret h => exact hf _ _ h
  | act h _ ih => exact .act h ih
  | lock _ ih => exact .lock ih
  | unlock _ ih => exact .unlock ih

/-- The code under a lock starts where the lock was taken. -/
theorem Follows.locked {Q R : G → α → Prop} {l : σ.Lock} {p : Prog σ α} {g : G}
    (h : Follows next E Q (next g (.lock l)) p) (hR : ∀ g a, Q g a → R (next g (.unlock l)) a) :
    Follows next E R g (locked l p) :=
  .lock (h.bind fun g a hg => .unlock (.ret (hR g a hg)))

theorem follows_pure {Q : G → α → Prop} {g : G} {a : α} (h : Q g a) : Follows next E Q g (pure a : Prog σ α) := .ret h

theorem follows_call {a : σ.Act} {Q : G → σ.Resp a → Prop} {g : G} (hE : E g a) (h : ∀ r, Q (next g (.act a r)) r) :
    Follows next E Q g (call a) :=
  .act hE fun r => .ret (h r)

/-- Code of `P` actions keeps what each of them, and the locks, keep. -/
theorem Only.follows {P : σ.Act → Prop} {K : G → Prop} (hE : ∀ g a, P a → K g → E g a)
    (hact : ∀ g a r, P a → K g → K (next g (.act a r))) (hlock : ∀ g l, K g → K (next g (.lock l)))
    (hunlock : ∀ g l, K g → K (next g (.unlock l))) : ∀ {p : Prog σ α} {g : G}, p.Only P → K g →
      Follows next E (fun g _ => K g) g p
  | .ret _, _, _, hg => .ret hg
  | .act a k, g, hp, hg =>
    .act (hE g a hp.1 hg) fun r => (hp.2 r).follows (p := k r) hE hact hlock hunlock (hact g a r hp.1 hg)
  | .lock l k, g, hp, hg => .lock (Only.follows (p := k) hE hact hlock hunlock hp (hlock g l hg))
  | .unlock l k, g, hp, hg => .unlock (Only.follows (p := k) hE hact hlock hunlock hp (hunlock g l hg))

/-- What a ghost state allows: which actions, and which locks to be taken and released. -/
structure Terms (σ : Sig) (G : Type) where
  act : G → σ.Act → Prop
  lock : G → σ.Lock → Prop
  unlock : G → σ.Lock → Prop

/-- Any lock may be taken and released. -/
def Terms.ofAct (E : G → σ.Act → Prop) : Terms σ G := ⟨E, fun _ _ => True, fun _ _ => True⟩

/-- From the ghost state, whatever it is answered, the code keeps to the terms and ends in `Q`. -/
inductive Obeys (next : G → Deed σ → G) (T : Terms σ G) (Q : G → α → Prop) : G → Prog σ α → Prop
  | ret {g : G} {a : α} (h : Q g a) : Obeys next T Q g (.ret a)
  | act {g : G} {a : σ.Act} {k : σ.Resp a → Prog σ α} (h : T.act g a)
      (hk : ∀ r, Obeys next T Q (next g (.act a r)) (k r)) : Obeys next T Q g (.act a k)
  | lock {g : G} {l : σ.Lock} {k : Prog σ α} (h : T.lock g l) (hk : Obeys next T Q (next g (.lock l)) k) :
      Obeys next T Q g (.lock l k)
  | unlock {g : G} {l : σ.Lock} {k : Prog σ α} (h : T.unlock g l) (hk : Obeys next T Q (next g (.unlock l)) k) :
      Obeys next T Q g (.unlock l k)

section Obeys

variable {T : Terms σ G}

theorem Obeys.mono {Q R : G → α → Prop} (hQ : ∀ g a, Q g a → R g a) {p : Prog σ α} {g : G}
    (h : Obeys next T Q g p) : Obeys next T R g p := by
  induction h with
  | ret h => exact .ret (hQ _ _ h)
  | act h _ ih => exact .act h ih
  | lock h _ ih => exact .lock h ih
  | unlock h _ ih => exact .unlock h ih

theorem Obeys.bind {Q : G → α → Prop} {R : G → β → Prop} {p : Prog σ α} {f : α → Prog σ β} {g : G}
    (h : Obeys next T Q g p) (hf : ∀ g a, Q g a → Obeys next T R g (f a)) : Obeys next T R g (p >>= f) := by
  induction h with
  | ret h => exact hf _ _ h
  | act h _ ih => exact .act h ih
  | lock h _ ih => exact .lock h ih
  | unlock h _ ih => exact .unlock h ih

theorem Obeys.locked {Q R : G → α → Prop} {l : σ.Lock} {p : Prog σ α} {g : G} (hl : T.lock g l)
    (h : Obeys next T Q (next g (.lock l)) p) (hu : ∀ g a, Q g a → T.unlock g l)
    (hR : ∀ g a, Q g a → R (next g (.unlock l)) a) : Obeys next T R g (locked l p) :=
  .lock hl (h.bind fun g a hg => .unlock (hu g a hg) (.ret (hR g a hg)))

theorem obeys_pure {Q : G → α → Prop} {g : G} {a : α} (h : Q g a) : Obeys next T Q g (pure a : Prog σ α) := .ret h

theorem obeys_call {a : σ.Act} {Q : G → σ.Resp a → Prop} {g : G} (hE : T.act g a) (h : ∀ r, Q (next g (.act a r)) r) :
    Obeys next T Q g (call a) :=
  .act hE fun r => .ret (h r)

/-- Following a protocol is obeying it where any lock may be taken and released. -/
theorem follows_iff {Q : G → α → Prop} {p : Prog σ α} {g : G} :
    Follows next E Q g p ↔ Obeys next (.ofAct E) Q g p := by
  constructor
  · intro h
    induction h with
    | ret h => exact .ret h
    | act h _ ih => exact .act h ih
    | lock _ ih => exact .lock trivial ih
    | unlock _ ih => exact .unlock trivial ih
  · intro h
    induction h with
    | ret h => exact .ret h
    | act h _ ih => exact .act h ih
    | lock _ _ ih => exact .lock ih
    | unlock _ _ ih => exact .unlock ih

/-! ### Code that raises -/

variable {ε : Type}

/-- `Q` of a result, `R` of what is raised. -/
def Ends (Q : G → α → Prop) (R : G → ε → Prop) (g : G) : Except ε α → Prop
  | .ok a => Q g a
  | .error e => R g e

/-- Code that raises obeys, and ends in `Q`, or in `R` when it raises. -/
def Tries (next : G → Deed σ → G) (T : Terms σ G) (Q : G → α → Prop) (R : G → ε → Prop) (g : G)
    (x : ExceptT ε (Prog σ) α) : Prop :=
  Obeys next T (Ends Q R) g x.run

theorem Tries.mono {Q Q' : G → α → Prop} {R R' : G → ε → Prop} (hQ : ∀ g a, Q g a → Q' g a) (hR : ∀ g e, R g e → R' g e)
    {x : ExceptT ε (Prog σ) α} {g : G} (h : Tries next T Q R g x) : Tries next T Q' R' g x :=
  Obeys.mono (fun g r hg => match r with
    | .ok a => hQ g a hg
    | .error e => hR g e hg) h

theorem Tries.bind {Q : G → α → Prop} {Q' : G → β → Prop} {R : G → ε → Prop} {x : ExceptT ε (Prog σ) α}
    {f : α → ExceptT ε (Prog σ) β} {g : G} (h : Tries next T Q R g x) (hf : ∀ g a, Q g a → Tries next T Q' R g (f a)) :
    Tries next T Q' R g (x >>= f) :=
  Obeys.bind h fun g r hg => match r with
    | .ok a => hf g a hg
    | .error _ => .ret hg

theorem Tries.tryCatch {Q : G → α → Prop} {R R' : G → ε → Prop} {x : ExceptT ε (Prog σ) α}
    {f : ε → ExceptT ε (Prog σ) α} {g : G} (h : Tries next T Q R g x) (hf : ∀ g e, R g e → Tries next T Q R' g (f e)) :
    Tries next T Q R' g (tryCatch x f) :=
  Obeys.bind h fun g r hg => match r with
    | .ok _ => .ret hg
    | .error e => hf g e hg

theorem tries_pure {Q : G → α → Prop} {R : G → ε → Prop} {g : G} {a : α} (h : Q g a) :
    Tries next T Q R g (pure a : ExceptT ε (Prog σ) α) :=
  .ret h

theorem tries_throw {Q : G → α → Prop} {R : G → ε → Prop} {g : G} {e : ε} (h : R g e) :
    Tries next T Q R g (throw e : ExceptT ε (Prog σ) α) :=
  .ret h

theorem tries_lift {Q : G → α → Prop} {R : G → ε → Prop} {g : G} {p : Prog σ α} (h : Obeys next T Q g p) :
    Tries next T Q R g (liftM p : ExceptT ε (Prog σ) α) :=
  Obeys.bind h fun _ _ hg => .ret hg

theorem Tries.locked {Q Q' : G → α → Prop} {R R' : G → ε → Prop} {l : σ.Lock} {x : ExceptT ε (Prog σ) α} {g : G}
    (hl : T.lock g l) (h : Tries next T Q R (next g (.lock l)) x)
    (hQ : ∀ g a, Q g a → T.unlock g l ∧ Q' (next g (.unlock l)) a)
    (hR : ∀ g e, R g e → T.unlock g l ∧ R' (next g (.unlock l)) e) :
    Tries next T Q' R' g (ExceptT.mk (Prog.locked l x.run)) :=
  Obeys.locked hl h
    (fun g r hg => match r with
      | .ok a => (hQ g a hg).1
      | .error e => (hR g e hg).1)
    fun g r hg => match r with
      | .ok a => (hQ g a hg).2
      | .error e => (hR g e hg).2

end Obeys

end Prog

namespace Machine

variable {σ : Sig} {S E : Type} [DecidableEq σ.Lock] (M : Machine σ S E)

/-! ### Who holds a lock -/

/-- Thread `i` holds the lock. -/
def Holding (held : σ.Lock → Option (ℕ × ℕ)) (l : σ.Lock) (i : ℕ) : Prop := ∃ n, held l = some (i, n)

instance decidableHolding (held : σ.Lock → Option (ℕ × ℕ)) (l : σ.Lock) (i : ℕ) : Decidable (Holding held l i) :=
  match h : held l with
  | some (j, n) =>
    decidable_of_iff (j = i) ⟨fun hj => ⟨n, by rw [h, hj]⟩, fun ⟨m, hm⟩ => by
      rw [h] at hm
      cases hm
      rfl⟩
  | none => .isFalse fun ⟨n, hn⟩ => by rw [h] at hn; cases hn

omit [DecidableEq σ.Lock] in
theorem Holding.unique {held : σ.Lock → Option (ℕ × ℕ)} {l : σ.Lock} {i j : ℕ} (hi : Holding held l i)
    (hj : Holding held l j) : i = j := by
  obtain ⟨n, hn⟩ := hi
  obtain ⟨m, hm⟩ := hj
  rw [hn, Option.some.injEq, Prod.mk.injEq] at hm
  exact hm.1

variable {M}

theorem holding_acquire {held held' : σ.Lock → Option (ℕ × ℕ)} {l : σ.Lock} {i : ℕ}
    (h : M.acquire held l i = some held') : Holding held' l i := by
  unfold acquire at h
  split at h
  · rw [← Option.some.inj h]
    exact ⟨1, Function.update_self ..⟩
  · rename_i j n _
    obtain ⟨-, h⟩ := Option.ite_none_right_eq_some.mp h
    rw [← Option.some.inj h]
    exact ⟨n + 1, Function.update_self ..⟩

/-- Taking a lock takes nothing from anyone. -/
theorem Holding.acquire {held held' : σ.Lock → Option (ℕ × ℕ)} {l l' : σ.Lock} {i j : ℕ}
    (h : M.acquire held l i = some held') (hj : Holding held l' j) : Holding held' l' j := by
  obtain ⟨m, hm⟩ := hj
  by_cases hl : l' = l
  · subst hl
    have hi := holding_acquire h
    unfold Machine.acquire at h
    rw [hm] at h
    obtain ⟨⟨rfl, -⟩, -⟩ := Option.ite_none_right_eq_some.mp h
    exact hi
  · unfold Machine.acquire at h
    split at h
    · rw [← Option.some.inj h]
      exact ⟨m, by rw [Function.update_of_ne hl, hm]⟩
    · obtain ⟨-, h⟩ := Option.ite_none_right_eq_some.mp h
      rw [← Option.some.inj h]
      exact ⟨m, by rw [Function.update_of_ne hl, hm]⟩

/-- Releasing a lock concerns its holder and that lock only. -/
theorem Holding.release {held held' : σ.Lock → Option (ℕ × ℕ)} {l l' : σ.Lock} {i j : ℕ}
    (h : release held l i = some held') (hne : l' = l → j ≠ i) (hj : Holding held l' j) : Holding held' l' j := by
  obtain ⟨m, hm⟩ := hj
  have hl : l' ≠ l := by
    rintro rfl
    unfold Machine.release at h
    rw [hm] at h
    have hne := hne rfl
    cases m with
    | zero => exact hne (Option.ite_none_right_eq_some.mp h).1
    | succ m =>
      cases m with
      | zero => exact hne (Option.ite_none_right_eq_some.mp h).1
      | succ m => exact hne (Option.ite_none_right_eq_some.mp h).1
  have hsame : held' l' = held l' := by
    unfold Machine.release at h
    split at h
    · obtain ⟨-, h⟩ := Option.ite_none_right_eq_some.mp h
      rw [← Option.some.inj h, Function.update_of_ne hl]
    · obtain ⟨-, h⟩ := Option.ite_none_right_eq_some.mp h
      rw [← Option.some.inj h, Function.update_of_ne hl]
    · cases h
  exact ⟨m, hsame.trans hm⟩

/-! ### The ghost states along a run -/

section Lists

variable {α : Type} {l : List α} {i j : ℕ} {a b x : α}

/-- An entry of a list of which one changed is that one, or an old one in another place. -/
theorem getElem?_set_cases (hx : (l.set i b)[j]? = some x) : (j = i ∧ x = b) ∨ (j ≠ i ∧ l[j]? = some x) := by
  by_cases hij : i = j
  · subst hij
    rw [List.getElem?_set_self'] at hx
    obtain ⟨-, -, rfl⟩ := Option.map_eq_some_iff.mp hx
    exact .inl ⟨rfl, rfl⟩
  · rw [List.getElem?_set_ne hij] at hx
    exact .inr ⟨Ne.symm hij, hx⟩

/-- What neither the old entry nor the new one is, is where it was. -/
theorem getElem?_set_iff (ha : l[i]? = some a) (hxa : x ≠ a) (hxb : x ≠ b) : (l.set i b)[j]? = some x ↔ l[j]? = some x := by
  by_cases hij : i = j
  · subst hij
    rw [List.getElem?_set_self (List.getElem?_eq_some_iff.mp ha).1, ha, Option.some.injEq, Option.some.injEq]
    exact ⟨fun h => absurd h.symm hxb, fun h => absurd h.symm hxa⟩
  · rw [List.getElem?_set_ne hij]

theorem getElem?_concat_cases (hx : (l ++ [b])[j]? = some x) : l[j]? = some x ∨ (j = l.length ∧ x = b) := by
  rcases Nat.lt_or_ge j l.length with hlt | hge
  · rw [List.getElem?_append_left hlt] at hx
    exact .inl hx
  · rw [List.getElem?_append_right hge, List.getElem?_singleton] at hx
    split_ifs at hx with hj
    exact .inr ⟨by omega, (Option.some.inj hx).symm⟩

theorem getElem?_concat_of (hx : l[j]? = some x) : (l ++ [b])[j]? = some x := by
  rw [List.getElem?_append_left (List.getElem?_eq_some_iff.mp hx).1]
  exact hx

end Lists

/-- The ghost states of the threads, and that of all of them. -/
structure Notes (G H : Type) where
  each : List G
  all : H

variable {G H : Type} (M) (next : G → Deed σ → G) (born : E → S → G) (mark : H → G → σ.Act → H)

/-- What thread `i` does when it takes its next step. -/
def deed (c : Sys σ S) (i : ℕ) : Option (Deed σ) :=
  match c.threads[i]? with
  | some (.act a _) => some (.act a (M.sem a c.shared).1)
  | some (.lock l _) => some (.lock l)
  | some (.unlock l _) => some (.unlock l)
  | _ => none

/-- A thread notes its deed, and for all of them what it performs is marked. -/
def Notes.deed (n : Notes G H) (i : ℕ) (g : G) : Deed σ → Notes G H
  | .act a r => ⟨n.each.set i (next g (.act a r)), mark n.all g a⟩
  | .lock l => ⟨n.each.set i (next g (.lock l)), n.all⟩
  | .unlock l => ⟨n.each.set i (next g (.unlock l)), n.all⟩

/-- The ghost states after an event: a deed is noted, and a new thread gets its own. -/
def noted (c : Sys σ S) (n : Notes G H) : Ev E → Notes G H
  | .step i => (M.deed c i).elim n fun d => (n.each[i]?).elim n fun g => n.deed next mark i g d
  | .enter x => ⟨n.each ++ [born x c.shared], n.all⟩

/-- The ghost states after a run. -/
def notes (c : Sys σ S) (n : Notes G H) : List (Ev E) → Notes G H
  | [] => n
  | e :: es => (M.step c e).elim n fun c' => notes c' (M.noted next born mark c n e) es

/-- Every action of the run meets `C`, which looks at the ghost states and at that of
the thread. -/
def MeetsNoted (C : S → Notes G H → G → σ.Act → Prop) (c : Sys σ S) (n : Notes G H) : List (Ev E) → Prop
  | [] => True
  | e :: es => (∀ i g a, e = .step i → n.each[i]? = some g → performs c e = some a → C c.shared n g a) ∧
      ∀ c', M.step c e = some c' → MeetsNoted C c' (M.noted next born mark c n e) es

variable {M next born mark} {A : G → σ.Act → Prop}

/-- A condition on the state alone is met whatever is noted. -/
theorem meetsNoted_of_meets {C : S → Notes G H → G → σ.Act → Prop} {D : σ.Act → S → Prop}
    (h : ∀ s n g a, D a s → C s n g a) : ∀ {es : List (Ev E)} {c : Sys σ S} {n : Notes G H}, M.Meets D c es →
      M.MeetsNoted next born mark C c n es
  | [], _, _, _ => trivial
  | _ :: _, _, _, hm => ⟨fun _ _ _ _ _ ha => h _ _ _ _ (hm.1 _ ha), fun c' hc => meetsNoted_of_meets h (hm.2 c' hc)⟩

/-- A check of an event's action, with the ghost states. -/
def checkNoted (check : S → Notes G H → G → σ.Act → Bool) (c : Sys σ S) (n : Notes G H) : Ev E → Bool
  | .step i => (n.each[i]?).all fun g => (performs c (.step i : Ev E)).all fun a => check c.shared n g a
  | .enter _ => true

/-- A check of the actions of a run, with the ghost states. -/
def checksNoted (M : Machine σ S E) (next : G → Deed σ → G) (born : E → S → G) (mark : H → G → σ.Act → H)
    (check : S → Notes G H → G → σ.Act → Bool) (c : Sys σ S) (n : Notes G H) : List (Ev E) → Bool
  | [] => true
  | e :: es => checkNoted check c n e &&
      ((M.step c e).map fun c' => checksNoted M next born mark check c' (M.noted next born mark c n e) es).getD true

/-- A condition that can be checked is met where the check succeeds. -/
theorem meetsNoted_of_checks {C : S → Notes G H → G → σ.Act → Prop} {check : S → Notes G H → G → σ.Act → Bool}
    (h : ∀ s n g a, check s n g a = true → C s n g a) : ∀ {es : List (Ev E)} {c : Sys σ S} {n : Notes G H},
      M.checksNoted next born mark check c n es = true → M.MeetsNoted next born mark C c n es
  | [], _, _, _ => trivial
  | e :: es, c, n, hc => by
    rw [checksNoted, Bool.and_eq_true] at hc
    refine ⟨fun i g a he hg ha => ?_, fun c' hstep => meetsNoted_of_checks h ?_⟩
    · have hthis := hc.1
      subst he
      rw [checkNoted, hg, Option.all_some, ha, Option.all_some] at hthis
      exact h _ _ _ _ hthis
    · have hrest := hc.2
      rw [hstep] at hrest
      exact hrest

/-- Every thread's code follows the protocol from the thread's ghost state. -/
def Tied (next : G → Deed σ → G) (A : G → σ.Act → Prop) (c : Sys σ S) (gs : List G) : Prop :=
  List.Forall₂ (fun p g => Prog.Follows next A (fun _ _ => True) g p) c.threads gs

omit [DecidableEq σ.Lock] in
theorem Tied.ghost {c : Sys σ S} {gs : List G} (h : Tied next A c gs) {i : ℕ} {p : Prog σ Unit}
    (hi : c.threads[i]? = some p) : ∃ g, gs[i]? = some g ∧ Prog.Follows next A (fun _ _ => True) g p := by
  obtain ⟨hlt, rfl⟩ := List.getElem?_eq_some_iff.mp hi
  have hlt' : i < gs.length := h.length_eq ▸ hlt
  exact ⟨gs[i], List.getElem?_eq_getElem hlt', List.Forall₂.get h hlt hlt'⟩

omit [DecidableEq σ.Lock] in
/-- What a thread performs next, its ghost state allows. -/
theorem Tied.allowed {c : Sys σ S} {gs : List G} (h : Tied next A c gs) {i : ℕ} {g : G} (hi : gs[i]? = some g)
    {a : σ.Act} (ha : performs c (.step i : Ev E) = some a) : A g a := by
  simp only [performs] at ha
  split at ha
  · rename_i a' k hk
    obtain rfl := Option.some.inj ha
    obtain ⟨g', hg', hp⟩ := h.ghost hk
    obtain rfl := Option.some.inj (hi.symm.trans hg')
    cases hp with
    | act hA _ => exact hA
  · cases ha

/-- Every thread's code obeys the protocol from the thread's ghost state. -/
def Bound (next : G → Deed σ → G) (T : Prog.Terms σ G) (c : Sys σ S) (gs : List G) : Prop :=
  List.Forall₂ (fun p g => Prog.Obeys next T (fun _ _ => True) g p) c.threads gs

section Bound

variable {T : Prog.Terms σ G}

omit [DecidableEq σ.Lock] in
theorem tied_iff {c : Sys σ S} {gs : List G} : Tied next A c gs ↔ Bound next (.ofAct A) c gs := by
  simp only [Tied, Bound, Prog.follows_iff]

/-- Every thread's code obeys, and ends where `Q` holds of its ghost state. -/
def Pledged (next : G → Deed σ → G) (T : Prog.Terms σ G) (Q : G → Prop) (c : Sys σ S) (gs : List G) : Prop :=
  List.Forall₂ (fun p g => Prog.Obeys next T (fun g _ => Q g) g p) c.threads gs

section Pledged

variable {Q : G → Prop} {c : Sys σ S} {gs : List G} {i : ℕ} {p : Prog σ Unit}

omit [DecidableEq σ.Lock] in
theorem Pledged.ghost (h : Pledged next T Q c gs) (hi : c.threads[i]? = some p) :
    ∃ g, gs[i]? = some g ∧ Prog.Obeys next T (fun g _ => Q g) g p := by
  obtain ⟨hlt, rfl⟩ := List.getElem?_eq_some_iff.mp hi
  have hlt' : i < gs.length := h.length_eq ▸ hlt
  exact ⟨gs[i], List.getElem?_eq_getElem hlt', List.Forall₂.get h hlt hlt'⟩

omit [DecidableEq σ.Lock] in
theorem Pledged.code (h : Pledged next T Q c gs) {g : G} (hi : gs[i]? = some g) :
    ∃ p, c.threads[i]? = some p ∧ Prog.Obeys next T (fun g _ => Q g) g p := by
  obtain ⟨hlt, rfl⟩ := List.getElem?_eq_some_iff.mp hi
  have hlt' : i < c.threads.length := h.length_eq.symm ▸ hlt
  exact ⟨c.threads[i], List.getElem?_eq_getElem hlt', List.Forall₂.get h hlt' hlt⟩

omit [DecidableEq σ.Lock] in
theorem Pledged.set (h : Pledged next T Q c gs) {g : G} (hp : Prog.Obeys next T (fun g _ => Q g) g p) {s : S}
    {held : σ.Lock → Option (ℕ × ℕ)} : Pledged next T Q ⟨s, held, c.threads.set i p⟩ (gs.set i g) := by
  refine List.forall₂_iff_get.mpr ⟨?_, fun j h₁ h₂ => ?_⟩
  · rw [List.length_set, List.length_set, h.length_eq]
  · simp only [List.get_eq_getElem, List.getElem_set]
    by_cases hij : i = j
    · rwa [if_pos hij, if_pos hij]
    · rw [if_neg hij, if_neg hij]
      exact List.Forall₂.get h (by simpa using h₁) (by simpa using h₂)

end Pledged

omit [DecidableEq σ.Lock] in
theorem Bound.ghost {c : Sys σ S} {gs : List G} (h : Bound next T c gs) {i : ℕ} {p : Prog σ Unit}
    (hi : c.threads[i]? = some p) : ∃ g, gs[i]? = some g ∧ Prog.Obeys next T (fun _ _ => True) g p :=
  Pledged.ghost (Q := fun _ => True) h hi

omit [DecidableEq σ.Lock] in
/-- A thread that is about to take a lock may. -/
theorem Bound.wait {c : Sys σ S} {gs : List G} (h : Bound next T c gs) {i : ℕ} {g : G} (hi : gs[i]? = some g)
    {l : σ.Lock} {k : Prog σ Unit} (hk : c.threads[i]? = some (.lock l k)) : T.lock g l := by
  obtain ⟨g', hg', hp⟩ := h.ghost hk
  obtain rfl := Option.some.inj (hi.symm.trans hg')
  cases hp with
  | lock hT _ => exact hT

/-- **The protocol rule, with an end.** If entering and every allowed deed keep the invariant,
then along every run whose actions meet `C` it holds, and all code goes on obeying and ends
where `Q` holds. -/
theorem exec_pledged {Q : G → Prop} {C : S → Notes G H → G → σ.Act → Prop} {I : S → (σ.Lock → Option (ℕ × ℕ)) → Notes G H → Prop}
    (hact : ∀ {s held n i g a}, I s held n → n.each[i]? = some g → T.act g a → C s n g a →
      I (M.sem a s).2 held (n.deed next mark i g (.act a (M.sem a s).1)))
    (hlock : ∀ {s held held' n i g l}, I s held n → n.each[i]? = some g → T.lock g l → M.acquire held l i = some held' →
      I s held' (n.deed next mark i g (.lock l)))
    (hunlock : ∀ {s held held' n i g l}, I s held n → n.each[i]? = some g → T.unlock g l → release held l i = some held' →
      I s held' (n.deed next mark i g (.unlock l)))
    (henter : ∀ {s held n x p s'}, I s held n → M.enter x s = some (p, s') →
      Prog.Obeys next T (fun g _ => Q g) (born x s) p ∧ I s' held ⟨n.each ++ [born x s], n.all⟩) :
    ∀ {es : List (Ev E)} {c d : Sys σ S} {n : Notes G H}, Pledged next T Q c n.each → I c.shared c.held n →
      M.MeetsNoted next born mark C c n es → M.exec c es = some d →
      Pledged next T Q d (M.notes next born mark c n es).each ∧ I d.shared d.held (M.notes next born mark c n es)
  | [], c, d, n, ht, hI, _, he => by
    obtain rfl := Option.some.inj he
    exact ⟨ht, hI⟩
  | e :: es, c, d, n, ht, hI, hm, he => by
    obtain ⟨c', hc, he⟩ := Option.bind_eq_some_iff.mp he
    have hnotes : M.notes next born mark c n (e :: es) = M.notes next born mark c' (M.noted next born mark c n e) es := by
      rw [notes, hc]
      rfl
    rw [hnotes]
    suffices h : Pledged next T Q c' (M.noted next born mark c n e).each ∧
        I c'.shared c'.held (M.noted next born mark c n e) from
      exec_pledged (I := I) hact hlock hunlock henter h.1 h.2 (hm.2 c' hc) he
    cases e with
    | step i =>
      have hnoted {g : G} {d : Deed σ} (hg : n.each[i]? = some g) (hd : M.deed c i = some d) :
          M.noted next born mark c n (.step i) = n.deed next mark i g d := by
        rw [noted, hd, hg]
        rfl
      simp only [step] at hc
      split at hc
      · rename_i a k hk
        obtain rfl := Option.some.inj hc
        obtain ⟨g, hg, hp⟩ := ht.ghost hk
        rw [hnoted hg (by rw [deed, hk])]
        cases hp with
        | act hT hp =>
          have hperforms : performs c (.step i : Ev E) = some a := by simp only [performs, hk]
          exact ⟨ht.set (hp _), hact hI hg hT (hm.1 i g a rfl hg hperforms)⟩
      · rename_i l k hk
        obtain ⟨held, hheld, rfl⟩ := Option.map_eq_some_iff.mp hc
        obtain ⟨g, hg, hp⟩ := ht.ghost hk
        rw [hnoted hg (by rw [deed, hk])]
        cases hp with
        | lock hT hp => exact ⟨ht.set hp, hlock hI hg hT hheld⟩
      · rename_i l k hk
        obtain ⟨held, hheld, rfl⟩ := Option.map_eq_some_iff.mp hc
        obtain ⟨g, hg, hp⟩ := ht.ghost hk
        rw [hnoted hg (by rw [deed, hk])]
        cases hp with
        | unlock hT hp => exact ⟨ht.set hp, hunlock hI hg hT hheld⟩
      · cases hc
    | enter x =>
      simp only [step] at hc
      obtain ⟨⟨p, s⟩, hp, rfl⟩ := Option.map_eq_some_iff.mp hc
      obtain ⟨hobeys, hI'⟩ := henter hI hp
      exact ⟨List.rel_append ht (.cons hobeys .nil), hI'⟩

/-- **The protocol rule.** If entering and every allowed deed keep the invariant,
then along every run whose actions meet `C` it holds, and all code goes on obeying. -/
theorem exec_obeys {C : S → Notes G H → G → σ.Act → Prop} {I : S → (σ.Lock → Option (ℕ × ℕ)) → Notes G H → Prop}
    (hact : ∀ {s held n i g a}, I s held n → n.each[i]? = some g → T.act g a → C s n g a →
      I (M.sem a s).2 held (n.deed next mark i g (.act a (M.sem a s).1)))
    (hlock : ∀ {s held held' n i g l}, I s held n → n.each[i]? = some g → T.lock g l → M.acquire held l i = some held' →
      I s held' (n.deed next mark i g (.lock l)))
    (hunlock : ∀ {s held held' n i g l}, I s held n → n.each[i]? = some g → T.unlock g l → release held l i = some held' →
      I s held' (n.deed next mark i g (.unlock l)))
    (henter : ∀ {s held n x p s'}, I s held n → M.enter x s = some (p, s') →
      Prog.Obeys next T (fun _ _ => True) (born x s) p ∧ I s' held ⟨n.each ++ [born x s], n.all⟩)
    {es : List (Ev E)} {c d : Sys σ S} {n : Notes G H} (hb : Bound next T c n.each) (hI : I c.shared c.held n)
    (hm : M.MeetsNoted next born mark C c n es) (he : M.exec c es = some d) :
    Bound next T d (M.notes next born mark c n es).each ∧ I d.shared d.held (M.notes next born mark c n es) :=
  exec_pledged (C := C) (I := I) (Q := fun _ => True) hact hlock hunlock henter hb hI hm he

end Bound

/-- The protocol rule where any lock may be taken. -/
theorem exec_follows {C : S → Notes G H → G → σ.Act → Prop} {I : S → (σ.Lock → Option (ℕ × ℕ)) → Notes G H → Prop}
    (hact : ∀ {s held n i g a}, I s held n → n.each[i]? = some g → A g a → C s n g a →
      I (M.sem a s).2 held (n.deed next mark i g (.act a (M.sem a s).1)))
    (hlock : ∀ {s held held' n i g l}, I s held n → n.each[i]? = some g → M.acquire held l i = some held' →
      I s held' (n.deed next mark i g (.lock l)))
    (hunlock : ∀ {s held held' n i g l}, I s held n → n.each[i]? = some g → release held l i = some held' →
      I s held' (n.deed next mark i g (.unlock l)))
    (henter : ∀ {s held n x p s'}, I s held n → M.enter x s = some (p, s') →
      Prog.Follows next A (fun _ _ => True) (born x s) p ∧ I s' held ⟨n.each ++ [born x s], n.all⟩)
    {es : List (Ev E)} {c d : Sys σ S} {n : Notes G H} (ht : Tied next A c n.each) (hI : I c.shared c.held n)
    (hm : M.MeetsNoted next born mark C c n es) (he : M.exec c es = some d) :
    Tied next A d (M.notes next born mark c n es).each ∧ I d.shared d.held (M.notes next born mark c n es) := by
  rw [tied_iff] at ht ⊢
  refine exec_obeys (C := C) (I := I) hact (fun hI hg _ => hlock hI hg) (fun hI hg _ => hunlock hI hg) (fun hI hp => ?_) ht hI hm he
  obtain ⟨hfollows, hI'⟩ := henter hI hp
  exact ⟨Prog.follows_iff.mp hfollows, hI'⟩

/-- **The protocol rule, for every action.** What the invariant, the protocol and `C` say of an
action that is performed is met along the run. -/
theorem meets_of_follows {C : S → Notes G H → G → σ.Act → Prop} {I : S → (σ.Lock → Option (ℕ × ℕ)) → Notes G H → Prop}
    {D : σ.Act → S → Prop}
    (hact : ∀ {s held n i g a}, I s held n → n.each[i]? = some g → A g a → C s n g a →
      I (M.sem a s).2 held (n.deed next mark i g (.act a (M.sem a s).1)))
    (hlock : ∀ {s held held' n i g l}, I s held n → n.each[i]? = some g → M.acquire held l i = some held' →
      I s held' (n.deed next mark i g (.lock l)))
    (hunlock : ∀ {s held held' n i g l}, I s held n → n.each[i]? = some g → release held l i = some held' →
      I s held' (n.deed next mark i g (.unlock l)))
    (henter : ∀ {s held n x p s'}, I s held n → M.enter x s = some (p, s') →
      Prog.Follows next A (fun _ _ => True) (born x s) p ∧ I s' held ⟨n.each ++ [born x s], n.all⟩)
    (hmeets : ∀ {s held} {n : Notes G H} {i : ℕ} {g a}, I s held n → n.each[i]? = some g → A g a → C s n g a → D a s) :
    ∀ {es : List (Ev E)} {c : Sys σ S} {n : Notes G H}, Tied next A c n.each → I c.shared c.held n →
      M.MeetsNoted next born mark C c n es → M.Meets D c es
  | [], _, _, _, _, _ => trivial
  | e :: es, c, n, ht, hI, hm => by
    refine ⟨fun a ha => ?_, fun c' hc => ?_⟩
    · cases e with
      | enter x => cases ha
      | step i =>
        have hthread : ∃ k, c.threads[i]? = some (.act a k) := by
          simp only [performs] at ha
          split at ha
          · rename_i a' k hk
            obtain rfl := Option.some.inj ha
            exact ⟨k, hk⟩
          · cases ha
        obtain ⟨k, hk⟩ := hthread
        obtain ⟨g, hg, -⟩ := ht.ghost hk
        exact hmeets hI hg (ht.allowed hg ha) (hm.1 i g a rfl hg ha)
    · have hone : M.exec c [e] = some c' := by
        rw [exec, hc]
        rfl
      have hnotes : M.notes next born mark c n [e] = M.noted next born mark c n e := by
        rw [notes, hc]
        rfl
      have hfirst : M.MeetsNoted next born mark C c n [e] := ⟨hm.1, fun _ _ => trivial⟩
      have hnext := exec_follows (C := C) (I := I) hact hlock hunlock henter ht hI hfirst hone
      rw [hnotes] at hnext
      exact meets_of_follows (C := C) (I := I) hact hlock hunlock henter hmeets hnext.1 hnext.2 (hm.2 c' hc)

end Machine
end LocaiLink
