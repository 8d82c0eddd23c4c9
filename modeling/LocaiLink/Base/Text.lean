/-
# The text of values

How numbers are written in decimal, and the `repr` of a value: what a message
shows for `{x!r}`. Strings are read and built as lists of characters.
-/
import LocaiLink.Base.Json

namespace LocaiLink
namespace Text

def digit (d : Digit) : Char := Nat.digitChar d

def nat (n : ℕ) : List Char := Nat.toDigits 10 n

def int : ℤ → List Char
  | .ofNat n => nat n
  | .negSucc n => '-' :: nat (n + 1)

def fraction (ds : List Digit) : List Char := if ds = [] then [] else '.' :: ds.map digit

def exponent : Option Exponent → List Char
  | none => []
  | some e => 'e' :: (if e.neg then '-' else '+') :: digit e.first :: e.rest.map digit

def flt (x : Flt) : List Char :=
  (if x.neg then ['-'] else []) ++ nat x.whole ++ fraction x.frac ++ exponent x.exp

/-- `n` in hexadecimal, with zeros in front up to `width` digits. -/
def hex (width n : ℕ) : List Char :=
  let ds := Nat.toDigits 16 n
  List.replicate (width - ds.length) '0' ++ ds

/-- Control characters are the ones that are not shown as they are. -/
def isPrintable (c : Char) : Bool :=
  (0x20 ≤ c.toNat && c.toNat < 0x7f) || (0xa0 < c.toNat && c.toNat ≠ 0xad)

def reprChar (quote c : Char) : List Char :=
  if c = quote ∨ c = '\\' then ['\\', c]
  else if c = '\n' then ['\\', 'n']
  else if c = '\r' then ['\\', 'r']
  else if c = '\t' then ['\\', 't']
  else if isPrintable c then [c]
  else '\\' :: 'x' :: hex 2 c.toNat

/-- Single quotes, unless the text holds some and no double quote. -/
def reprStr (s : List Char) : List Char :=
  let quote := if '\'' ∈ s ∧ '"' ∉ s then '"' else '\''
  quote :: s.flatMap (reprChar quote) ++ [quote]

def commaSep : List (List Char) → List Char
  | [] => []
  | [x] => x
  | x :: y :: l => x ++ ", ".toList ++ commaSep (y :: l)

mutual

def repr : Json → List Char
  | .null => "None".toList
  | .bool true => "True".toList
  | .bool false => "False".toList
  | .int n => int n
  | .float x => flt x
  | .str s => reprStr s.toList
  | .arr l => '[' :: commaSep (reprArr l) ++ [']']
  | .obj l => '{' :: commaSep (reprObj l) ++ ['}']

def reprArr : List Json → List (List Char)
  | [] => []
  | a :: l => repr a :: reprArr l

def reprObj : List (String × Json) → List (List Char)
  | [] => []
  | (k, a) :: l => (reprStr k.toList ++ ": ".toList ++ repr a) :: reprObj l

end

/-- The text of a value in a string: a string is itself. -/
def str : Json → List Char
  | .str s => s.toList
  | j => repr j

/-- The parts between the separators, as many as there are separators and one more. -/
def split (sep : Char) : List Char → List (List Char)
  | [] => [[]]
  | c :: l =>
    if c = sep then [] :: split sep l
    else match split sep l with
      | [] => [[c]]
      | p :: ps => (c :: p) :: ps

def startsWith (s p : String) : Bool := p.toList.isPrefixOf s.toList

def endsWith (s p : String) : Bool := p.toList.isSuffixOf s.toList

example : String.ofList (repr (.obj [("a", .arr [.int (-1), .str "it's"])])) = "\x7b'a': [-1, \"it's\"]\x7d" := by
  decide +kernel

end Text
end LocaiLink
