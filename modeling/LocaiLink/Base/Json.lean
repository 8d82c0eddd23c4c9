/-
# JSON values and when two of them are equal

A float is the decimal text it is written with, and the double next to that
decimal is its value. Two values are equal as in a language whose numbers
compare across types (`1 == 1.0 == true`) and whose dictionaries compare
without regard to order: each value has a canonical form, and `Json.eq`
compares those, so it is an equivalence by construction.
-/
import Mathlib.Data.List.Sort
import Mathlib.Algebra.Order.Field.Rat
import Mathlib.Tactic.Common
import LocaiLink.Base.Dict

namespace LocaiLink

abbrev Digit := Fin 10

/-- The exponent part of a float: its sign, and its digits, at least one. -/
structure Exponent where
  neg : Bool
  first : Digit
  rest : List Digit
  deriving DecidableEq

/-- A float as it is written: with a fraction, an exponent, or both. -/
structure Flt where
  neg : Bool
  whole : ℕ
  frac : List Digit
  exp : Option Exponent
  isFloat : frac ≠ [] ∨ exp.isSome = true
  deriving DecidableEq

namespace Flt

def ofDigits (n : ℕ) (ds : List Digit) : ℕ := ds.foldl (fun n (d : Digit) => 10 * n + d) n

/-- `num / den · 2^(-e)` as a fraction. -/
def scale (num den : ℕ) : ℤ → ℕ × ℕ
  | .ofNat e => (num, den * 2 ^ e)
  | .negSucc e => (num * 2 ^ (e + 1), den)

def roundHalfEven (num den : ℕ) : ℕ :=
  if 2 * (num % den) < den ∨ (2 * (num % den) = den ∧ num / den % 2 = 0) then num / den
  else num / den + 1

/-- The double nearest to `num / den`, ties to even, as a rational. -/
def nearest (num den : ℕ) : ℚ :=
  if num = 0 then 0
  else
    let guess : ℤ := Nat.log2 num - Nat.log2 den - 53
    let full := scale num den (guess + 53)
    let e : ℤ := max (if full.2 ≤ full.1 then guess + 1 else guess) (-1074)
    let m := roundHalfEven (scale num den e).1 (scale num den e).2
    match e with
    | .ofNat e => ((m * 2 ^ e : ℕ) : ℚ)
    | .negSucc e => mkRat m (2 ^ (e + 1))

/-- The decimal exponent: of the exponent part, less the length of the fraction. -/
def shift (x : Flt) : ℤ :=
  match x.exp with
  | none => -x.frac.length
  | some e =>
    let n : ℤ := ofDigits 0 (e.first :: e.rest)
    (if e.neg then -n else n) - x.frac.length

def value (x : Flt) : ℚ :=
  let n := ofDigits x.whole x.frac
  let q := match x.shift with
    | .ofNat e => nearest (n * 10 ^ e) 1
    | .negSucc e => nearest n (10 ^ (e + 1))
  if x.neg then -q else q

end Flt

inductive Json
  | null
  | bool (b : Bool)
  | int (n : ℤ)
  | float (x : Flt)
  | str (s : String)
  | arr (l : List Json)
  | obj (l : List (String × Json))

/-- What two equal values have in common. -/
inductive Canon
  | null
  | num (q : ℚ)
  | str (s : String)
  | arr (l : List Canon)
  | obj (l : List (String × Canon))

namespace Canon

mutual

def decEq : (a b : Canon) → Decidable (a = b)
  | .null, .null => .isTrue rfl
  | .num q, .num r => decidable_of_iff (q = r) (by simp)
  | .str s, .str t => decidable_of_iff (s = t) (by simp)
  | .arr l, .arr m => @decidable_of_iff _ (l = m) (by simp) (decEqArr l m)
  | .obj l, .obj m => @decidable_of_iff _ (l = m) (by simp) (decEqObj l m)
  | .null, .num _ | .null, .str _ | .null, .arr _ | .null, .obj _
  | .num _, .null | .num _, .str _ | .num _, .arr _ | .num _, .obj _
  | .str _, .null | .str _, .num _ | .str _, .arr _ | .str _, .obj _
  | .arr _, .null | .arr _, .num _ | .arr _, .str _ | .arr _, .obj _
  | .obj _, .null | .obj _, .num _ | .obj _, .str _ | .obj _, .arr _ => .isFalse nofun

def decEqArr : (l m : List Canon) → Decidable (l = m)
  | [], [] => .isTrue rfl
  | a :: l, b :: m =>
    @decidable_of_iff _ (a = b ∧ l = m) (by simp) (@instDecidableAnd _ _ (decEq a b) (decEqArr l m))
  | [], _ :: _ | _ :: _, [] => .isFalse nofun

def decEqObj : (l m : List (String × Canon)) → Decidable (l = m)
  | [], [] => .isTrue rfl
  | (k, a) :: l, (j, b) :: m =>
    @decidable_of_iff _ (k = j ∧ a = b ∧ l = m) (by simp [and_assoc])
      (@instDecidableAnd _ _ inferInstance (@instDecidableAnd _ _ (decEq a b) (decEqObj l m)))
  | [], _ :: _ | _ :: _, [] => .isFalse nofun

end

instance : DecidableEq Canon := decEq

def truthy : Canon → Bool
  | .null => false
  | .num q => q ≠ 0
  | .str s => s ≠ ""
  | .arr l | .obj l => !l.isEmpty

end Canon

namespace Json

mutual

/-- Booleans are the numbers 0 and 1, and a dictionary is sorted by its keys. -/
def canon : Json → Canon
  | .null => .null
  | .bool b => .num (if b then 1 else 0)
  | .int n => .num n
  | .float x => .num x.value
  | .str s => .str s
  | .arr l => .arr (canonArr l)
  | .obj l => .obj ((canonObj l).insertionSort fun a b => a.1 ≤ b.1)

def canonArr : List Json → List Canon
  | [] => []
  | a :: l => canon a :: canonArr l

def canonObj : List (String × Json) → List (String × Canon)
  | [] => []
  | (k, a) :: l => (k, canon a) :: canonObj l

end

/-- The equality of the language. -/
def eq (a b : Json) : Bool := a.canon = b.canon

@[simp] theorem eq_refl (a : Json) : eq a a = true := by simp [eq]

theorem eq_comm (a b : Json) : eq a b = eq b a := by
  rw [Bool.eq_iff_iff]
  simp only [eq, decide_eq_true_eq]
  exact Eq.comm

theorem eq_trans {a b c : Json} (hab : eq a b = true) (hbc : eq b c = true) : eq a c = true := by
  simp only [eq, decide_eq_true_eq] at *
  exact hab.trans hbc

/-- The entry of a dictionary, `none` also where the value is no dictionary. -/
def get? : Json → String → Option Json
  | .obj l, k => l.lookup k
  | _, _ => none

def ofDict (d : Dict String Json) : Json := .obj d.entries

/-- The dictionary that a value is, if it is one. -/
def dict : Json → Option (Dict String Json)
  | .obj l => some (.ofList l)
  | _ => none

/-- `d.get(key)` -/
def getOr (d : Dict String Json) (key : String) : Json := (d.get? key).getD .null

/-- Whether a value counts as true. -/
def truthy : Json → Bool
  | .null => false
  | .bool b => b
  | .int n => n ≠ 0
  | .float x => x.value ≠ 0
  | .str s => s ≠ ""
  | .arr l => !l.isEmpty
  | .obj l => !l.isEmpty

theorem truthy_canon (a : Json) : a.truthy = a.canon.truthy := by
  cases a with
  | bool b => cases b <;> simp [truthy, canon, Canon.truthy]
  | int n => simp [truthy, canon, Canon.truthy]
  | arr l => cases l <;> rfl
  | obj l =>
    have hlen : ∀ l : List (String × Json), (canonObj l).length = l.length := by
      intro l
      induction l with
      | nil => rfl
      | cons e l ih => rw [canonObj, List.length_cons, ih, List.length_cons]
    rw [truthy, canon, Canon.truthy, Bool.eq_iff_iff]
    simp only [Bool.not_eq_true', List.isEmpty_eq_false_iff, ← List.length_pos_iff, List.length_insertionSort, hlen]
  | _ => rfl

/-- Values that are equal count as true alike. -/
theorem truthy_congr {a b : Json} (h : a.canon = b.canon) : a.truthy = b.truthy := by
  rw [truthy_canon, truthy_canon, h]

/-- What a `for` goes over, `none` where it raises. -/
def iterate : Json → Option (List Json)
  | .arr l => some l
  | .obj l => some (l.map fun e => .str e.1)
  | .str s => some (s.toList.map fun c => .str (String.singleton c))
  | _ => none

example : eq (.obj [("a", .int 1), ("b", .bool true)])
    (.obj [("b", .float ⟨false, 1, [0], none, .inl (by decide)⟩), ("a", .bool true)]) = true := by
  decide +kernel

end Json
end LocaiLink
