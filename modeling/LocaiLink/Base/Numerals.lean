/-
# Numerals of a fixed width

A number written in decimal, with zeros in front up to a width. Numbers that fit come in the
order of their numerals, and of two texts with numerals of one width in front the first is
that of the smaller number, or has the smaller rest (`numeral_append_lt_iff`).
-/
import Mathlib.Tactic.Common
import LocaiLink.Base.Text

namespace LocaiLink
namespace Text

/-- A number with zeros in front of it. -/
def numeral (width n : ℕ) : List Char := (nat n).leftpad width '0'

/-! ### Lists of one length -/

section Lex

variable {α : Type} [LT α] [DecidableEq α] {l l' s t : List α}

/-- What follows decides only where the fronts are equal. -/
theorem append_lt_append_iff (hirrefl : ∀ a : α, ¬a < a) (h : l.length = l'.length) :
    l ++ s < l' ++ t ↔ l < l' ∨ l = l' ∧ s < t := by
  induction l generalizing l' with
  | nil =>
    obtain rfl : l' = [] := List.length_eq_zero_iff.mp h.symm
    simp
  | cons a l ih =>
    cases l' with
    | nil => cases h
    | cons b l' =>
      have ih := ih (Nat.succ.inj h)
      rw [List.cons_append, List.cons_append, List.cons_lt_cons_iff, List.cons_lt_cons_iff, ih, List.cons.injEq]
      by_cases hab : a = b
      · subst hab
        simp [hirrefl]
      · simp [hab]

end Lex

/-! ### The digits -/

theorem digitChar_lt_iff {a b : ℕ} (ha : a < 10) (hb : b < 10) : Nat.digitChar a < Nat.digitChar b ↔ a < b := by
  have hall : ∀ a < 10, ∀ b < 10, Nat.digitChar a < Nat.digitChar b ↔ a < b := by decide
  exact hall a ha b hb

/-- The last digit comes last. -/
theorem numeral_succ {width : ℕ} (hwidth : 0 < width) (n : ℕ) :
    numeral (width + 1) n = numeral width (n / 10) ++ [Nat.digitChar (n % 10)] := by
  unfold numeral nat List.leftpad
  by_cases hn : n < 10
  · rw [Nat.toDigits_of_lt_base hn, Nat.div_eq_of_lt hn, Nat.mod_eq_of_lt hn, Nat.toDigits_zero]
    obtain ⟨w, rfl⟩ : ∃ w, width = w + 1 := ⟨width - 1, by omega⟩
    simp [List.replicate_succ']
  · rw [Nat.toDigits_of_base_le (by omega) (by omega), List.length_append]
    simp

theorem numeral_one {n : ℕ} (h : n < 10) : numeral 1 n = [Nat.digitChar n] := by
  unfold numeral nat List.leftpad
  rw [Nat.toDigits_of_lt_base h]
  rfl

theorem length_numeral {width n : ℕ} (h : n < 10 ^ width) (hwidth : 0 < width) : (numeral width n).length = width := by
  induction width, hwidth using Nat.le_induction generalizing n with
  | base => rw [numeral_one (by simpa using h)]; rfl
  | succ width hwidth ih =>
    rw [numeral_succ hwidth, List.length_append, ih (by rw [pow_succ] at h; omega)]
    rfl

/-- **Numerals of one width come in the order of their numbers.** -/
theorem numeral_lt_iff {width a b : ℕ} (ha : a < 10 ^ width) (hb : b < 10 ^ width) (hwidth : 0 < width) :
    numeral width a < numeral width b ↔ a < b := by
  induction width, hwidth using Nat.le_induction generalizing a b with
  | base =>
    rw [pow_one] at ha hb
    rw [numeral_one ha, numeral_one hb, List.cons_lt_cons_iff, digitChar_lt_iff ha hb]
    simp
  | succ width hwidth ih =>
    have ha' : a / 10 < 10 ^ width := by rw [pow_succ] at ha; omega
    have hb' : b / 10 < 10 ^ width := by rw [pow_succ] at hb; omega
    have hfront : numeral width (a / 10) = numeral width (b / 10) ↔ a / 10 = b / 10 := by
      refine ⟨fun h => ?_, fun h => by rw [h]⟩
      have hab : ¬a / 10 < b / 10 := fun hlt => List.lt_irrefl _ (h ▸ (ih ha' hb').mpr hlt)
      have hba : ¬b / 10 < a / 10 := fun hlt => List.lt_irrefl _ (h ▸ (ih hb' ha').mpr hlt)
      omega
    have hlast : [Nat.digitChar (a % 10)] < [Nat.digitChar (b % 10)] ↔ a % 10 < b % 10 := by
      rw [List.cons_lt_cons_iff, digitChar_lt_iff (by omega) (by omega)]
      simp
    rw [numeral_succ hwidth, numeral_succ hwidth, append_lt_append_iff Char.lt_irrefl
      (by rw [length_numeral ha' hwidth, length_numeral hb' hwidth]), ih ha' hb', hfront, hlast]
    omega

theorem numeral_injective {width a b : ℕ} (ha : a < 10 ^ width) (hb : b < 10 ^ width) (hwidth : 0 < width)
    (h : numeral width a = numeral width b) : a = b := by
  have hab : ¬a < b := fun hlt => List.lt_irrefl _ (h ▸ (numeral_lt_iff ha hb hwidth).mpr hlt)
  have hba : ¬b < a := fun hlt => List.lt_irrefl _ (h ▸ (numeral_lt_iff hb ha hwidth).mpr hlt)
  omega

/-- With a numeral in front, the smaller number comes first, or what has the smaller rest. -/
theorem numeral_append_lt_iff {width a b : ℕ} {s t : List Char} (ha : a < 10 ^ width) (hb : b < 10 ^ width) (hwidth : 0 < width) :
    numeral width a ++ s < numeral width b ++ t ↔ a < b ∨ a = b ∧ s < t := by
  have heq : numeral width a = numeral width b ↔ a = b := ⟨numeral_injective ha hb hwidth, fun h => by rw [h]⟩
  rw [append_lt_append_iff Char.lt_irrefl (by rw [length_numeral ha hwidth, length_numeral hb hwidth]),
    numeral_lt_iff ha hb hwidth, heq]

end Text
end LocaiLink
