/-
# Floating point numbers from texts

The values of Python's `float`, without the sign of zero (no comparison shows it), their order,
in which `nan` is neither before nor after anything, and `float` of a text: white space around it goes, the digits of every
script count, underscores may stand between digits. What overflows is infinite; `nan` is what only the texts `nan`, `+nan`
and `-nan` give, in any case (`ofText_eq_nan_iff`).
-/
import Mathlib.Data.Bool.AllAny
import Mathlib.Tactic.Common
import LocaiLink.Base.Lines

namespace LocaiLink

inductive Double
  | nan
  | infinite (neg : Bool)
  | finite (q : ℚ)
  deriving DecidableEq

namespace Double

/-- `<` -/
def lt : Double → Double → Bool
  | .nan, _ | _, .nan => false
  | .infinite neg, .infinite neg' => neg && !neg'
  | .infinite neg, .finite _ => neg
  | .finite _, .infinite neg => !neg
  | .finite q, .finite r => q < r

/-- `min(x, y)` -/
def min (x y : Double) : Double := if y.lt x then y else x

/-- What a rounded result is: 2^1024 and more is infinite. -/
def ofRounded (neg : Bool) (q : ℚ) : Double :=
  if 2 ^ 1024 ≤ q then .infinite neg else .finite (if neg then -q else q)

/-! ### Texts -/

/-- The zeros of the scripts that have decimal digits, whose ten digits follow one another. -/
def zeros : List ℕ :=
  [0x30, 0x660, 0x6f0, 0x7c0, 0x966, 0x9e6, 0xa66, 0xae6, 0xb66, 0xbe6, 0xc66, 0xce6, 0xd66, 0xde6, 0xe50, 0xed0, 0xf20, 0x1040,
    0x1090, 0x17e0, 0x1810, 0x1946, 0x19d0, 0x1a80, 0x1a90, 0x1b50, 0x1bb0, 0x1c40, 0x1c50, 0xa620, 0xa8d0, 0xa900, 0xa9d0, 0xa9f0,
    0xaa50, 0xabf0, 0xff10, 0x104a0, 0x10d30, 0x11066, 0x110f0, 0x11136, 0x111d0, 0x112f0, 0x11450, 0x114d0, 0x11650, 0x116c0,
    0x11730, 0x118e0, 0x11950, 0x11c50, 0x11d50, 0x11da0, 0x11f50, 0x16a60, 0x16ac0, 0x16b50, 0x1d7ce, 0x1d7d8, 0x1d7e2, 0x1d7ec,
    0x1d7f6, 0x1e140, 0x1e2f0, 0x1e4f0, 0x1e950, 0x1fbf0]

/-- The value of a decimal digit of any script. -/
def decimal (c : Char) : Option ℕ := (zeros.find? fun z => z ≤ c.toNat && c.toNat < z + 10).map (c.toNat - ·)

/-- The digit of ASCII for a digit, and a mark that no number has for what is neither a digit nor ASCII. -/
def ascii (c : Char) : Char :=
  if c.toNat < 127 then c
  else match decimal c with
    | some d => Nat.digitChar d
    | none => '?'

def isDigit (c : Char) : Bool := '0' ≤ c && c ≤ '9'

/-- Without the underscores, which stand between digits; `prev` is the character before. -/
def plain (prev : Char) : List Char → Option (List Char)
  | [] => if prev = '_' then none else some []
  | c :: l =>
    if c = '_' then if isDigit prev then plain c l else none
    else if prev = '_' ∧ ¬isDigit c then none
    else (plain c l).map (c :: ·)

/-- A sign that may be there, and the rest. -/
def sign : List Char → Bool × List Char
  | '-' :: l => (true, l)
  | '+' :: l => (false, l)
  | l => (false, l)

/-- The exponent that a text is. -/
def exponent : List Char → Option ℤ
  | [] => some 0
  | c :: l =>
    if c = 'e' ∨ c = 'E' then
      let (neg, ds) := sign l
      if ds ≠ [] ∧ ds.all isDigit then some (if neg then -(ofDigits ds : ℤ) else ofDigits ds) else none
    else none
where
  ofDigits (l : List Char) : ℕ := l.foldl (fun n c => 10 * n + (c.toNat - 48)) 0

/-- The digits after a point that may be there, and the rest. -/
def fraction : List Char → List Char × List Char
  | '.' :: l => l.span isDigit
  | l => ([], l)

/-- A number without a sign: digits, a fraction and an exponent. -/
def magnitude (l : List Char) : Option ℚ :=
  let (whole, l) := l.span isDigit
  let (frac, l) := fraction l
  if whole ++ frac = [] then none
  else (exponent l).map fun e =>
    let n := exponent.ofDigits (whole ++ frac)
    match (e - frac.length : ℤ) with
    | .ofNat e => Flt.nearest (n * 10 ^ e) 1
    | .negSucc e => Flt.nearest n (10 ^ (e + 1))

def lower (l : List Char) : List Char := l.map Char.toLower

/-- A number in ASCII. -/
def number (l : List Char) : Option Double :=
  let (neg, rest) := sign l
  if lower rest = "nan".toList then some .nan
  else if lower rest = "inf".toList ∨ lower rest = "infinity".toList then some (.infinite neg)
  else (magnitude rest).map (ofRounded neg)

/-- `float(s)`, none where it raises. -/
def ofText (s : String) : Option Double :=
  (plain '\x00' ((Text.trim s.toList).map ascii)).bind number

/-! ### Which texts are no number -/

section Nan

variable {l r : List Char} {c d prev : Char}

/-- Without an underscore nothing goes, and where one goes a digit stays. -/
theorem plain_eq (h : plain prev l = some r) : r = l ∨ isDigit prev = true ∨ ∃ d ∈ r, isDigit d = true := by
  induction l generalizing prev r with
  | nil =>
    unfold plain at h
    split_ifs at h
    exact .inl (Option.some.inj h).symm
  | cons c l ih =>
    unfold plain at h
    split_ifs at h with hbar hprev hnext
    · exact .inr (.inl hprev)
    · obtain ⟨r', hr', rfl⟩ := Option.map_eq_some_iff.mp h
      rcases ih hr' with rfl | hc | ⟨d, hd, hdigit⟩
      · exact .inl rfl
      · exact .inr (.inr ⟨c, List.mem_cons_self, hc⟩)
      · exact .inr (.inr ⟨d, List.mem_cons_of_mem _ hd, hdigit⟩)

theorem isDigit_digitChar : ∀ n < 10, isDigit (Nat.digitChar n) = true := by decide

/-- What is neither a digit nor the mark was there before. -/
theorem eq_of_ascii (h : ascii c = d) (hdigit : isDigit d = false) (hmark : d ≠ '?') : c = d := by
  unfold ascii at h
  split_ifs at h with hc
  · exact h
  · unfold decimal at h
    cases hz : zeros.find? fun z => z ≤ c.toNat && c.toNat < z + 10 with
    | none =>
      rw [hz] at h
      exact absurd h.symm hmark
    | some z =>
      rw [hz] at h
      have hten := List.find?_some hz
      simp only [Bool.and_eq_true, decide_eq_true_eq] at hten
      have := isDigit_digitChar (c.toNat - z) (by omega)
      rw [← h] at hdigit
      exact absurd (this.symm.trans hdigit) (by decide)

/-- What a letter in lower case was. -/
theorem eq_of_toLower (upper : Char) (h : c.toLower = d) (hupper : upper.val + ('a'.val - 'A'.val) = d.val) : c = d ∨ c = upper := by
  unfold Char.toLower at h
  split_ifs at h
  · have hval : c.val + ('a'.val - 'A'.val) = d.val := congrArg Char.val h
    refine .inr (Char.ext ?_)
    rw [← UInt32.add_sub_cancel c.val ('a'.val - 'A'.val), hval, ← hupper, UInt32.add_sub_cancel]
  · exact .inl h

/-- The spellings of `nan`. -/
def nans : List (List Char) :=
  ["nan".toList, "naN".toList, "nAn".toList, "nAN".toList, "Nan".toList, "NaN".toList, "NAn".toList, "NAN".toList]

theorem mem_nans (h : lower l = "nan".toList) : l ∈ nans := by
  obtain ⟨c1, c2, c3, rfl⟩ := List.length_eq_three.mp ((List.length_map _).symm.trans (congrArg List.length h) : l.length = 3)
  obtain ⟨h1, h2, h3, -⟩ : c1.toLower = 'n' ∧ c2.toLower = 'a' ∧ c3.toLower = 'n' ∧ True := by simpa [lower] using h
  rcases eq_of_toLower 'N' h1 (by decide) with rfl | rfl <;>
    rcases eq_of_toLower 'A' h2 (by decide) with rfl | rfl <;>
    rcases eq_of_toLower 'N' h3 (by decide) with rfl | rfl <;> decide

/-- Those with a sign or without. -/
def signedNans : List (List Char) := nans ++ nans.map ('-' :: ·) ++ nans.map ('+' :: ·)

theorem ofList_signedNans : ∀ l ∈ signedNans, (plain '\x00' (l.map ascii)).bind number = some .nan := by decide +kernel

theorem mem_signedNans (h : lower (sign l).2 = "nan".toList) : l ∈ signedNans := by
  have hrest := mem_nans h
  unfold signedNans
  unfold sign at hrest
  split at hrest
  · exact List.mem_append_left _ (List.mem_append_right _ (List.mem_map_of_mem hrest))
  · exact List.mem_append_right _ (List.mem_map_of_mem hrest)
  · exact List.mem_append_left _ (List.mem_append_left _ hrest)

theorem ofRounded_ne_nan (neg : Bool) (q : ℚ) : ofRounded neg q ≠ .nan := by
  unfold ofRounded
  split_ifs <;> exact fun h => by cases h

/-- **What is no number** is spelled so. -/
theorem number_eq_nan_iff : number l = some .nan ↔ lower (sign l).2 = "nan".toList := by
  unfold number
  constructor
  · intro h
    dsimp only at h
    split_ifs at h with hnan hinf
    · exact hnan
    · cases h
    · obtain ⟨q, -, hq⟩ := Option.map_eq_some_iff.mp h
      exact absurd hq (ofRounded_ne_nan _ _)
  · intro h
    exact if_pos h

theorem map_ascii_eq (h : ∀ d ∈ r, isDigit d = false ∧ d ≠ '?') (hl : l.map ascii = r) : l = r := by
  subst hl
  refine (List.map_id l).symm.trans (List.map_congr_left fun c hc => ?_)
  obtain ⟨hdigit, hmark⟩ := h (ascii c) (List.mem_map_of_mem hc)
  exact eq_of_ascii rfl hdigit hmark

theorem signedNans_plain : ∀ r ∈ signedNans, ∀ d ∈ r, isDigit d = false ∧ d ≠ '?' := by
  have hall : ∀ d ∈ signedNans.flatten, isDigit d = false ∧ d ≠ '?' := List.all_iff_forall_prop.mp (by decide)
  exact fun r hr d hd => hall d (List.mem_flatten_of_mem hr hd)

/-- **`float` of a text is `nan`** just for the word `nan`, in any case, with a sign or without, and white space around it. -/
theorem ofText_eq_nan_iff {s : String} : ofText s = some .nan ↔ lower (sign (Text.trim s.toList)).2 = "nan".toList := by
  unfold ofText
  constructor
  · intro h
    obtain ⟨r, hr, hnan⟩ := Option.bind_eq_some_iff.mp h
    have hmem := mem_signedNans (number_eq_nan_iff.mp hnan)
    have hplain := signedNans_plain r hmem
    rcases plain_eq hr with heq | hdigit | ⟨d, hd, hdigit⟩
    · rw [map_ascii_eq hplain heq.symm]
      exact number_eq_nan_iff.mp hnan
    · exact absurd hdigit (by decide)
    · exact absurd ((hplain d hd).1.symm.trans hdigit) (by decide)
  · intro h
    exact ofList_signedNans _ (mem_signedNans h)

end Nan

end Double
end LocaiLink
