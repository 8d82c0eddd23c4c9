/-
# Maximal runs

Things in a row have a key, or none; a run is a stretch of one key that cannot be made longer, and it is closed
where something follows it. `closedRuns` reads the row once and finds them all, in their order (`mem_closedRuns`,
`pairwise_closedRuns`).
-/
import Mathlib.Tactic.Common

namespace LocaiLink
namespace Runs

variable {κ : Type}

/-- The places from `s` on, before `e`, have one key, which those around them have not, and there is a thing at `e`. -/
structure Closed (keys : List (Option κ)) (r : ℕ × ℕ) : Prop where
  nonempty : r.1 < r.2
  followed : r.2 < keys.length
  maximal : ∃ k, (∀ j, r.1 ≤ j → j < r.2 → keys[j]? = some (some k)) ∧ keys[r.2]? ≠ some (some k) ∧
    ∀ j, j + 1 = r.1 → keys[j]? ≠ some (some k)

/-- The run that a key begins at a place. -/
def start (i : ℕ) (key : Option κ) : Option (κ × ℕ) := key.map fun k => (k, i)

/-- What a run that is open at a place is: all it can be so far. -/
def Open (keys : List (Option κ)) (i : ℕ) : Option (κ × ℕ) → Prop
  | none => ∀ j k, j + 1 = i → keys[j]? ≠ some (some k)
  | some (k, s) => s < i ∧ (∀ j, s ≤ j → j < i → keys[j]? = some (some k)) ∧ ∀ j, j + 1 = s → keys[j]? ≠ some (some k)

section Open

variable {keys l : List (Option κ)} {i s e : ℕ} {cur : Option (κ × ℕ)} {key : Option κ} {k : κ}

/-- A place without a run before it begins one, where it has a key. -/
theorem open_start (hkey : keys[i]? = some key) (h : ∀ j k, j + 1 = i → key = some k → keys[j]? ≠ some (some k)) :
    Open keys (i + 1) (start i key) := by
  cases key with
  | none =>
    intro j k hj
    obtain rfl : j = i := by omega
    rw [hkey]
    exact fun h => by cases h
  | some k =>
    refine ⟨by omega, fun j hj hj' => ?_, fun j hj => h j k hj rfl⟩
    obtain rfl : j = i := by omega
    exact hkey

theorem open_extend (hkey : keys[i]? = some (some k)) (h : Open keys i (some (k, s))) : Open keys (i + 1) (some (k, s)) := by
  obtain ⟨hlt, hall, hfront⟩ := h
  refine ⟨by omega, fun j hj hj' => ?_, hfront⟩
  by_cases heq : j = i
  · rw [heq, hkey]
  · exact hall j hj (by omega)

/-- No run is closed at a place that none is open at. -/
theorem not_closed_none (h : Open keys i none) : ¬Closed keys (s, i) := by
  rintro ⟨hlt, -, k, hall, -, -⟩
  exact h (i - 1) k (by dsimp only at hlt; omega) (hall (i - 1) (by dsimp only at hlt ⊢; omega) (by dsimp only at hlt ⊢; omega))

/-- Nor at one that goes on with it. -/
theorem not_closed_extend (hkey : keys[i]? = some (some k)) (h : Open keys i (some (k, s))) {s' : ℕ} : ¬Closed keys (s', i) := by
  rintro ⟨hlt, -, k', hall, hnext, -⟩
  obtain ⟨hlt', hall', -⟩ := h
  dsimp only at hlt hall hnext
  have hlast := hall (i - 1) (by omega) (by omega)
  rw [hall' (i - 1) (by omega) (by omega)] at hlast
  obtain rfl : k = k' := by simpa using hlast
  exact hnext hkey

/-- At any other the one that is open is closed. -/
theorem closed_iff_of_open (hkey : keys[i]? = some key) (hne : key ≠ some k) (h : Open keys i (some (k, s))) (s' : ℕ) :
    Closed keys (s', i) ↔ s' = s := by
  obtain ⟨hlt', hall', hfront'⟩ := h
  constructor
  · rintro ⟨hlt, -, k', hall, -, hfront⟩
    dsimp only at hlt hall hfront
    have hlast := hall (i - 1) (by omega) (by omega)
    rw [hall' (i - 1) (by omega) (by omega)] at hlast
    obtain rfl : k = k' := by simpa using hlast
    by_contra hne'
    rcases Nat.lt_or_gt_of_ne hne' with hbefore | hafter
    · exact hfront' (s - 1) (by omega) (hall (s - 1) (by omega) (by omega))
    · exact hfront (s' - 1) (by omega) (hall' (s' - 1) (by omega) (by omega))
  · rintro rfl
    refine ⟨hlt', (List.getElem?_eq_some_iff.mp hkey).1, k, hall', ?_, hfront'⟩
    rw [hkey]
    exact fun h => hne (Option.some.inj h)

/-- Two runs do not overlap. -/
theorem Closed.le_start {s' e' : ℕ} (h : Closed keys (s, e)) (h' : Closed keys (s', e')) (hlt : e < e') : e ≤ s' := by
  obtain ⟨hne, -, k, hall, hnext, -⟩ := h
  obtain ⟨hne', -, k', hall', -, -⟩ := h'
  dsimp only at hne hall hnext hne' hall'
  by_contra hover
  have hlast := hall (e - 1) (by omega) (by omega)
  rw [hall' (e - 1) (by omega) (by omega)] at hlast
  obtain rfl : k' = k := by simpa using hlast
  exact hnext (hall' e (by omega) hlt)

end Open

/-! ### Reading the row -/

section Scan

variable [DecidableEq κ] {keys l : List (Option κ)} {i s e : ℕ} {cur : Option (κ × ℕ)}

/-- From place `i` on, with the run that is open there. -/
def scan (i : ℕ) (cur : Option (κ × ℕ)) : List (Option κ) → List (ℕ × ℕ)
  | [] => []
  | key :: keys =>
    match cur with
    | none => scan (i + 1) (start i key) keys
    | some (k, s) => if key = some k then scan (i + 1) cur keys else (s, i) :: scan (i + 1) (start i key) keys

def closedRuns (keys : List (Option κ)) : List (ℕ × ℕ) := scan 0 none keys

/-- **The scan finds the runs** that are closed from its place on. -/
theorem mem_scan (hl : keys.drop i = l) (hcur : Open keys i cur) : (s, e) ∈ scan i cur l ↔ Closed keys (s, e) ∧ i ≤ e := by
  induction l generalizing i cur with
  | nil =>
    refine iff_of_false (fun h => by cases h) ?_
    rintro ⟨⟨-, hlt, -⟩, hle⟩
    have := List.drop_eq_nil_iff.mp hl
    dsimp only at hlt
    omega
  | cons key l ih =>
    have hkey : keys[i]? = some key := by rw [← List.head?_drop, hl]; rfl
    have hl' : keys.drop (i + 1) = l := by rw [← List.tail_drop, hl]; rfl
    cases cur with
    | none =>
      have hnone : ¬Closed keys (s, i) := not_closed_none hcur
      rw [scan, ih hl' (open_start hkey fun j k hj _ => hcur j k hj)]
      refine and_congr_right fun hclosed => ?_
      have hne : e ≠ i := fun h => hnone (h ▸ hclosed)
      omega
    | some c =>
      obtain ⟨k, s₀⟩ := c
      rw [scan]
      split_ifs with hsame
      · subst hsame
        have hnone : ¬Closed keys (s, i) := not_closed_extend hkey hcur
        rw [ih hl' (open_extend hkey hcur)]
        refine and_congr_right fun hclosed => ?_
        have hne : e ≠ i := fun h => hnone (h ▸ hclosed)
        omega
      · have hclosed := closed_iff_of_open hkey hsame hcur s
        have hopen : Open keys (i + 1) (start i key) := open_start hkey fun j k' hj hk' hbefore => by
          rw [hcur.2.1 j (by have := hcur.1; omega) (by omega)] at hbefore
          exact hsame (hk'.trans (Option.some.inj hbefore).symm)
        rw [List.mem_cons, Prod.mk.injEq, ih hl' hopen]
        constructor
        · rintro (⟨rfl, rfl⟩ | ⟨h, hle⟩)
          · exact ⟨hclosed.mpr rfl, Nat.le_refl _⟩
          · exact ⟨h, by omega⟩
        · rintro ⟨h, hle⟩
          rcases Nat.eq_or_lt_of_le hle with rfl | hlt
          · exact .inl ⟨hclosed.mp h, rfl⟩
          · exact .inr ⟨h, hlt⟩

theorem le_of_mem_scan {r : ℕ × ℕ} (h : r ∈ scan i cur l) : i ≤ r.2 := by
  induction l generalizing i cur with
  | nil => cases h
  | cons key l ih =>
    cases cur with
    | none =>
      have := ih h
      omega
    | some c =>
      rw [scan] at h
      split_ifs at h with hsame
      · have := ih h
        omega
      · rcases List.mem_cons.mp h with rfl | h
        · exact Nat.le_refl _
        · have := ih h
          omega

theorem pairwise_scan : (scan i cur l).Pairwise fun r r' => r.2 < r'.2 := by
  induction l generalizing i cur with
  | nil => exact List.Pairwise.nil
  | cons key l ih =>
    cases cur with
    | none => exact ih
    | some c =>
      rw [scan]
      split_ifs with hsame
      · exact ih
      · exact List.pairwise_cons.mpr ⟨fun r hr => le_of_mem_scan hr, ih⟩

/-- **The closed runs** are all found. -/
theorem mem_closedRuns {r : ℕ × ℕ} : r ∈ closedRuns keys ↔ Closed keys r := by
  have hnone : Open keys 0 (none : Option (κ × ℕ)) := fun j k hj => absurd hj (Nat.succ_ne_zero j)
  rw [closedRuns, mem_scan List.drop_zero hnone]
  exact and_iff_left (Nat.zero_le _)

/-- **One after the other.** -/
theorem pairwise_closedRuns : (closedRuns keys).Pairwise fun r r' => r.2 ≤ r'.1 :=
  pairwise_scan.imp_of_mem fun hr hr' hlt => (mem_closedRuns.mp hr).le_start (mem_closedRuns.mp hr') hlt

end Scan

end Runs
end LocaiLink
