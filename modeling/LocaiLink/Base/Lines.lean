/-
# Bytes, lines and words

A file holds bytes, and a text is what they decode to. Two languages read such
texts here and they do not cut them alike: `Text.isSpace` has the four separator
characters that `Text.isWhiteSpace` has not, and the same for what ends a line.
-/
import Mathlib.Data.List.DropRight
import LocaiLink.Base.Text

namespace LocaiLink

abbrev Bytes := List UInt8

namespace Bytes

def encode (s : String) : Bytes := s.toUTF8.data.toList

/-- The text of the bytes, if they are UTF-8. -/
def decode (b : Bytes) : Option String := String.fromUTF8? ⟨b.toArray⟩

@[simp] theorem decode_encode (s : String) : decode (encode s) = some s := by
  rw [decode, encode, Array.toArray_toList]
  exact dif_pos s.isValidUTF8

end Bytes

namespace Text

/-! ### Whitespace -/

/-- White space of both languages. -/
def isWhiteSpace (c : Char) : Bool :=
  (0x09 ≤ c.toNat && c.toNat ≤ 0x0d) || c.toNat = 0x20 || c.toNat = 0x85 || c.toNat = 0xa0 || c.toNat = 0x1680 ||
    (0x2000 ≤ c.toNat && c.toNat ≤ 0x200a) || c.toNat = 0x2028 || c.toNat = 0x2029 || c.toNat = 0x202f ||
    c.toNat = 0x205f || c.toNat = 0x3000

/-- What `str.strip` and `str.split` take for white space. -/
def isSpace (c : Char) : Bool := isWhiteSpace c || (0x1c ≤ c.toNat && c.toNat ≤ 0x1f)

def stripBy (f : Char → Bool) (l : List Char) : List Char := (l.dropWhile f).rdropWhile f

/-- `str.strip`. -/
def strip (l : List Char) : List Char := stripBy isSpace l

/-- `str::trim`. -/
def trim (l : List Char) : List Char := stripBy isWhiteSpace l

/-! ### Lines and words -/

/-- The parts between the characters that `f` holds of, without empty ones. -/
def wordsBy (f : Char → Bool) (l : List Char) : List (List Char) := (l.splitOnP f).filter (· ≠ [])

/-- `str.split` without an argument. -/
def words (l : List Char) : List (List Char) := wordsBy isSpace l

/-- What ends a line for `str.splitlines`. -/
def endsLine (c : Char) : Bool :=
  c.toNat = 0x0a || c.toNat = 0x0b || c.toNat = 0x0c || c.toNat = 0x0d || (0x1c ≤ c.toNat && c.toNat ≤ 0x1e) ||
    c.toNat = 0x85 || c.toNat = 0x2028 || c.toNat = 0x2029

/-- `str.splitlines`: a line feed after a carriage return ends no line of its own,
and nothing follows the last end of a line. -/
def splitlines (l : List Char) : List (List Char) := go l []
where
  go : List Char → List Char → List (List Char)
    | [], [] => []
    | [], cur => [cur.reverse]
    | '\r' :: '\n' :: l, cur => cur.reverse :: go l []
    | c :: l, cur => if endsLine c then cur.reverse :: go l [] else go l (c :: cur)

/-- `str::lines`: lines end with a line feed, before which one carriage return goes,
and nothing follows the last end of a line. -/
def lines (l : List Char) : List (List Char) :=
  let parts := l.splitOn '\n'
  let ended := parts.dropLast.map fun line => if line.getLast? = some '\r' then line.dropLast else line
  match parts.getLast? with
  | none | some [] => ended
  | some rest => ended ++ [rest]

/-- What reading a file in text mode makes of the ends of lines. -/
def universalNewlines : List Char → List Char
  | '\r' :: '\n' :: l => '\n' :: universalNewlines l
  | '\r' :: l => '\n' :: universalNewlines l
  | c :: l => c :: universalNewlines l
  | [] => []

/-! ### Digits -/

def isDigit (c : Char) : Bool := '0' ≤ c && c ≤ '9'

def isHexDigit (c : Char) : Bool := isDigit c || ('a' ≤ c && c ≤ 'f') || ('A' ≤ c && c ≤ 'F')

/-- The letters of ASCII in small. -/
def lower (l : List Char) : List Char := l.map Char.toLower

def decimal (l : List Char) : ℕ := l.foldl (fun n c => 10 * n + (c.toNat - '0'.toNat)) 0

/-- `str::parse::<u64>`: digits, after a plus sign if there is one, of a number below 2⁶⁴. -/
def parseU64 (l : List Char) : Option ℕ :=
  let digits := match l with
    | '+' :: l => l
    | l => l
  if digits ≠ [] ∧ digits.all isDigit ∧ decimal digits < 2 ^ 64 then some (decimal digits) else none

example : lines "1\r\n2\n".toList = ["1".toList, "2".toList] := by decide +kernel

end Text
end LocaiLink
