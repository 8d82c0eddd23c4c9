/-
# The order in which locks are taken

A thread's ghost state keeps the list of the locks it holds, each as often as it was
taken (`Agree`). If the code of every thread takes a lock only where it ranks above
all the locks the thread holds, or holds it already and may take it again, then no
threads wait for each other in a circle (`no_cycle`).
-/
import Mathlib.Logic.Relation
import Mathlib.Order.Basic
import LocaiLink.Base.Protocol

namespace LocaiLink
namespace Machine

variable {σ : Sig} {S E G H : Type} [DecidableEq σ.Lock] {M : Machine σ S E}

/-! ### The locks a thread holds -/

/-- How often thread `i` holds the lock. -/
def countOf (held : σ.Lock → Option (ℕ × ℕ)) (l : σ.Lock) (i : ℕ) : ℕ :=
  match held l with
  | some (j, n) => if j = i then n else 0
  | none => 0

/-- The lists say what each thread holds. -/
structure Agree (held : σ.Lock → Option (ℕ × ℕ)) (locks : List (List σ.Lock)) : Prop where
  count : ∀ l i, countOf held l i = ((locks[i]?).getD []).count l
  pos : ∀ l j n, held l = some (j, n) → 0 < n

theorem set_of_getElem? {α : Type} {l : List α} {i : ℕ} {a : α} (h : l[i]? = some a) : l.set i a = l := by
  obtain ⟨hlt, rfl⟩ := List.getElem?_eq_some_iff.mp h
  exact List.set_getElem_self hlt

section Agree

variable {held held' : σ.Lock → Option (ℕ × ℕ)} {locks : List (List σ.Lock)} {i : ℕ} {l : σ.Lock}

theorem agree_nil : Agree (fun _ : σ.Lock => none) [] where
  count l i := by simp [countOf]
  pos l j n h := by cases h

theorem Agree.enter (h : Agree held locks) : Agree held (locks ++ [[]]) where
  count l i := by
    rw [h.count l i]
    rcases Nat.lt_trichotomy i locks.length with hi | rfl | hi
    · rw [List.getElem?_append_left hi]
    · simp
    · rw [List.getElem?_eq_none (by omega), List.getElem?_eq_none (by simp; omega)]
  pos := h.pos

theorem Agree.holding_iff (h : Agree held locks) {hs : List σ.Lock} (hi : locks[i]? = some hs) :
    Holding held l i ↔ l ∈ hs := by
  have hcount := h.count l i
  rw [hi, Option.getD_some] at hcount
  rw [← List.count_pos_iff, ← hcount]
  unfold countOf Holding
  rcases hl : held l with _ | ⟨j, n⟩
  · simp
  · have hpos := h.pos l j n hl
    by_cases hj : j = i
    · simp [hj, hpos]
    · simp [hj]

/-- Changing one lock's holder changes the lists at one lock. -/
theorem Agree.update (h : Agree held locks) {hs hs' : List σ.Lock} (hi : locks[i]? = some hs) {v : Option (ℕ × ℕ)}
    (hpos : ∀ j n, v = some (j, n) → 0 < n) (hother : ∀ k, k ≠ l → hs'.count k = hs.count k)
    (hthis : countOf (Function.update held l v) l i = hs'.count l)
    (hrest : ∀ j, j ≠ i → countOf (Function.update held l v) l j = countOf held l j) :
    Agree (Function.update held l v) (locks.set i hs') where
  count k j := by
    have hlt : i < locks.length := (List.getElem?_eq_some_iff.mp hi).1
    by_cases hj : j = i
    · subst hj
      rw [List.getElem?_set_self hlt, Option.getD_some]
      by_cases hk : k = l
      · rw [hk, hthis]
      · have hsame := h.count k j
        rw [hi, Option.getD_some] at hsame
        rw [hother k hk, ← hsame, countOf, Function.update_of_ne hk, countOf]
    · rw [List.getElem?_set_ne (Ne.symm hj), ← h.count k j]
      by_cases hk : k = l
      · rw [hk, hrest j hj]
      · rw [countOf, Function.update_of_ne hk, countOf]
  pos k j n hk := by
    by_cases hkl : k = l
    · rw [hkl, Function.update_self] at hk
      exact hpos j n hk
    · rw [Function.update_of_ne hkl] at hk
      exact h.pos k j n hk

theorem Agree.acquire (h : Agree held locks) {hs : List σ.Lock} (hi : locks[i]? = some hs)
    (hl : M.acquire held l i = some held') : Agree held' (locks.set i (l :: hs)) := by
  have hcount := h.count l i
  rw [hi, Option.getD_some] at hcount
  unfold Machine.acquire at hl
  split at hl
  · rename_i hfree
    rw [← Option.some.inj hl]
    refine h.update hi (fun j n hv => by cases hv; omega) (fun k hk => List.count_cons_of_ne (Ne.symm hk)) ?_ fun j hj => ?_
    · rw [countOf, hfree] at hcount
      rw [List.count_cons_self, ← hcount]
      simp [countOf]
    · simp [countOf, hfree, Ne.symm hj]
  · rename_i j n hheld
    obtain ⟨⟨rfl, -⟩, hl⟩ := Option.ite_none_right_eq_some.mp hl
    rw [← Option.some.inj hl]
    refine h.update hi (fun j n hv => by cases hv; omega) (fun k hk => List.count_cons_of_ne (Ne.symm hk)) ?_ fun k hk => ?_
    · rw [countOf, hheld] at hcount
      rw [List.count_cons_self, ← hcount]
      simp [countOf]
    · simp [countOf, hheld, Ne.symm hk]

theorem Agree.release (h : Agree held locks) {hs : List σ.Lock} (hi : locks[i]? = some hs)
    (hl : release held l i = some held') : Agree held' (locks.set i (hs.erase l)) := by
  have hcount := h.count l i
  rw [hi, Option.getD_some] at hcount
  have hother (k : σ.Lock) (hk : k ≠ l) : (hs.erase l).count k = hs.count k := List.count_erase_of_ne hk
  unfold Machine.release at hl
  split at hl
  · rename_i j n hheld
    obtain ⟨rfl, hl⟩ := Option.ite_none_right_eq_some.mp hl
    rw [← Option.some.inj hl]
    refine h.update hi (fun j n hv => by cases hv; omega) hother ?_ fun k hk => ?_
    · rw [countOf, hheld] at hcount
      rw [List.count_erase_self, ← hcount]
      simp [countOf]
    · simp [countOf, hheld, Ne.symm hk]
  · rename_i j n hmany hheld
    obtain ⟨rfl, hfreed⟩ := Option.ite_none_right_eq_some.mp hl
    rw [← Option.some.inj hfreed]
    have hn : n = 1 := by
      have hpos := h.pos l j n hheld
      rcases n with _ | _ | n
      · omega
      · rfl
      · exact absurd rfl (hmany n)
    refine h.update hi (fun j n hv => by cases hv) hother ?_ fun k hk => ?_
    · rw [countOf, hheld] at hcount
      rw [List.count_erase_self, ← hcount]
      simp [countOf, hn]
    · simp [countOf, hheld, Ne.symm hk]
  · cases hl

end Agree

/-! ### Waiting -/

/-- Thread `i` waits for a lock it cannot take. -/
def Waits (M : Machine σ S E) (c : Sys σ S) (i : ℕ) (l : σ.Lock) : Prop :=
  (∃ k, c.threads[i]? = some (.lock l k)) ∧ M.acquire c.held l i = none

instance decidableWaits (c : Sys σ S) (i : ℕ) (l : σ.Lock) : Decidable (M.Waits c i l) :=
  match h : c.threads[i]? with
  | some (.lock l' k) =>
    decidable_of_iff (l' = l ∧ M.acquire c.held l i = none) <|
      and_congr_left fun _ => ⟨fun hl => ⟨k, by rw [h, hl]⟩, fun ⟨k', hk⟩ => by
        rw [h] at hk
        cases hk
        rfl⟩
  | some (.ret _) | some (.act _ _) | some (.unlock _ _) | none =>
    .isFalse fun ⟨⟨k, hk⟩, _⟩ => by rw [h] at hk; cases hk

/-- Thread `i` waits for a lock that thread `j` holds. -/
def Blocks (M : Machine σ S E) (c : Sys σ S) (i j : ℕ) : Prop := ∃ l, M.Waits c i l ∧ Holding c.held l j

theorem Waits.unique {c : Sys σ S} {i : ℕ} {l l' : σ.Lock} (h : M.Waits c i l) (h' : M.Waits c i l') : l = l' := by
  obtain ⟨⟨k, hk⟩, -⟩ := h
  obtain ⟨⟨k', hk'⟩, -⟩ := h'
  rw [hk] at hk'
  cases hk'
  rfl

/-- A lock may be taken where it ranks above all that are held, or is held already
and may be taken again. -/
def Ranked {ρ : Type} [LT ρ] (reentrant : σ.Lock → Bool) (rank : σ.Lock → ρ) (held : List σ.Lock) (l : σ.Lock) : Prop :=
  (l ∈ held ∧ reentrant l = true) ∨ ∀ h ∈ held, rank h < rank l

section Ranked

variable {ρ : Type} [Preorder ρ] {rank : σ.Lock → ρ} {next : G → Deed σ → G}
  {T : Prog.Terms σ G} {locks : G → List σ.Lock} {c : Sys σ S} {gs : List G}

/-- A thread that waits for a lock holds none that ranks as high. -/
theorem Waits.above (hb : Bound next T c gs) (ha : Agree c.held (gs.map locks))
    (hT : ∀ g l, T.lock g l → Ranked M.reentrant rank (locks g) l) {i : ℕ} {l l' : σ.Lock} (hwait : M.Waits c i l')
    (hheld : Holding c.held l i) : rank l < rank l' := by
  obtain ⟨⟨k, hk⟩, hnone⟩ := hwait
  obtain ⟨g, hg, -⟩ := hb.ghost hk
  have hlocks : (gs.map locks)[i]? = some (locks g) := by rw [List.getElem?_map, hg, Option.map_some]
  rcases hT g l' (hb.wait hg hk) with ⟨hmem, hre⟩ | habove
  · obtain ⟨n, hn⟩ := (ha.holding_iff hlocks).mpr hmem
    rw [Machine.acquire, hn] at hnone
    simp [hre] at hnone
  · exact habove l ((ha.holding_iff hlocks).mp hheld)

/-- **No circle.** Where locks are taken in the order of their ranks, no threads wait
for each other in a circle. -/
theorem no_cycle (hb : Bound next T c gs) (ha : Agree c.held (gs.map locks))
    (hT : ∀ g l, T.lock g l → Ranked M.reentrant rank (locks g) l) (i : ℕ) : ¬Relation.TransGen (M.Blocks c) i i := by
  have hrise : ∀ {j : ℕ}, Relation.TransGen (M.Blocks c) i j → ∀ l l', M.Waits c i l → M.Waits c j l' → rank l < rank l' := by
    intro j hpath
    induction hpath with
    | single hij =>
      rintro l l' hl hl'
      obtain ⟨l₀, hl₀, hheld⟩ := hij
      obtain rfl := hl.unique hl₀
      exact hl'.above hb ha hT hheld
    | tail _ hjk ih =>
      rintro l l' hl hl'
      obtain ⟨l₁, hl₁, hheld⟩ := hjk
      exact (ih l l₁ hl hl₁).trans (hl'.above hb ha hT hheld)
  intro hcycle
  obtain ⟨_, ⟨l, hl, _⟩, _⟩ := Relation.TransGen.head'_iff.mp hcycle
  exact lt_irrefl _ (hrise hcycle l l hl hl)

end Ranked

/-! ### Code that takes locks in order -/

/-- The locks a thread holds, after a deed. -/
def heldAfter (hs : List σ.Lock) : Deed σ → List σ.Lock
  | .act _ _ => hs
  | .lock l => l :: hs
  | .unlock l => hs.erase l

variable {ρ : Type} [Preorder ρ] {reentrant : σ.Lock → Bool} {rank : σ.Lock → ρ} {α β : Type}

/-- Locks are taken in the order of their ranks. -/
def rankedTerms (reentrant : σ.Lock → Bool) (rank : σ.Lock → ρ) : Prog.Terms σ (List σ.Lock) where
  act _ _ := True
  lock := Ranked reentrant rank
  unlock _ _ := True

/-- The code, where these locks are held, takes others in order and gives back all that it takes. -/
def InOrder (reentrant : σ.Lock → Bool) (rank : σ.Lock → ρ) (hs : List σ.Lock) (p : Prog σ α) : Prop :=
  Prog.Obeys heldAfter (rankedTerms reentrant rank) (fun hs' _ => hs' = hs) hs p

section InOrder

variable {hs : List σ.Lock}

theorem inOrder_pure (a : α) : InOrder reentrant rank hs (pure a : Prog σ α) := Prog.obeys_pure rfl

theorem inOrder_call (a : σ.Act) : InOrder reentrant rank hs (Prog.call a) := Prog.obeys_call trivial fun _ => rfl

theorem InOrder.bind {p : Prog σ α} {f : α → Prog σ β} (h : InOrder reentrant rank hs p)
    (hf : ∀ a, InOrder reentrant rank hs (f a)) : InOrder reentrant rank hs (p >>= f) :=
  Prog.Obeys.bind h fun _ a hg => hg ▸ hf a

theorem InOrder.locked {l : σ.Lock} {p : Prog σ α} (hl : Ranked reentrant rank hs l)
    (h : InOrder reentrant rank (l :: hs) p) : InOrder reentrant rank hs (Prog.locked l p) := by
  refine Prog.Obeys.locked hl h (fun _ _ _ => trivial) fun g a hg => ?_
  rw [hg]
  exact List.erase_cons_head l hs

variable {M : Machine σ S E}

/-- **Where all code takes locks in order**, no run from a state where none is held comes
to threads that wait for each other in a circle. -/
theorem exec_no_cycle (henter : ∀ x s p s', M.enter x s = some (p, s') → InOrder M.reentrant rank [] p) {s : S}
    {es : List (Ev E)} {c : Sys σ S} (he : M.exec ⟨s, fun _ => none, []⟩ es = some c) (i : ℕ) :
    ¬Relation.TransGen (M.Blocks c) i i := by
  have hm : M.MeetsNoted heldAfter (fun _ _ => []) (fun _ _ _ => ()) (fun _ _ _ _ => True) ⟨s, fun _ => none, []⟩ ⟨[], ()⟩ es :=
    meetsNoted_of_meets (fun _ _ _ _ h => h) (meets_all (C := fun _ _ => True) (fun _ _ => trivial) es _)
  have hstart : Bound heldAfter (rankedTerms M.reentrant rank) (⟨s, fun _ => none, []⟩ : Sys σ S) [] := .nil
  have hrun := exec_obeys (I := fun _ held n => Agree held n.each) ?_ ?_ ?_ ?_ hstart agree_nil hm he
  · exact no_cycle hrun.1 (by rw [List.map_id']; exact hrun.2) (fun _ _ h => h) i
  · intro s held n i g a h hg _ _
    change Agree held (n.each.set i g)
    rw [set_of_getElem? hg]
    exact h
  · intro s held held' n i g l h hg _ hl
    exact h.acquire hg hl
  · intro s held held' n i g l h hg _ hl
    exact h.release hg hl
  · intro s held n x p s' h hx
    exact ⟨(henter x s p s' hx).mono fun _ _ _ => trivial, h.enter⟩

end InOrder

end Machine
end LocaiLink
