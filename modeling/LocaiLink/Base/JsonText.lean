/-
# JSON texts

`dumps` writes a value as JSON, indented by two and in ASCII; `loads` reads one
back. The reader of values has fuel, of which two steps for each character are
enough; strings are read a character at a time by a small automaton (`Mode`), so
an escape is a run of states and not a pattern. The reader is stricter than the
language's in two places: it knows no `NaN` and no infinities, and a surrogate
has to have its partner.
-/
import LocaiLink.Base.Text

namespace LocaiLink
namespace JsonText

/-! ### Writing -/

def hex4 (n : ℕ) : List Char :=
  [n / 4096 % 16, n / 256 % 16, n / 16 % 16, n % 16].map Nat.digitChar

/-- `\uXXXX`. -/
def unicode (n : ℕ) : List Char := '\\' :: 'u' :: hex4 n

/-- What is not printable ASCII is escaped, beyond the first plane as two surrogates. -/
def escape (c : Char) : List Char :=
  if c = '"' ∨ c = '\\' then ['\\', c]
  else if c = '\n' then ['\\', 'n']
  else if c = '\r' then ['\\', 'r']
  else if c = '\t' then ['\\', 't']
  else if c = '\x0c' then ['\\', 'f']
  else if c = '\x08' then ['\\', 'b']
  else if 0x20 ≤ c.toNat ∧ c.toNat ≤ 0x7e then [c]
  else if c.toNat < 0x10000 then unicode c.toNat
  else
    unicode (0xd800 + (c.toNat - 0x10000) / 0x400) ++ unicode (0xdc00 + (c.toNat - 0x10000) % 0x400)

def string (s : List Char) : List Char := '"' :: s.flatMap escape ++ ['"']

def newline (level : ℕ) : List Char := '\n' :: List.replicate (2 * level) ' '

mutual

def value (level : ℕ) : Json → List Char
  | .null => "null".toList
  | .bool true => "true".toList
  | .bool false => "false".toList
  | .int n => Text.int n
  | .float x => Text.flt x
  | .str s => string s.toList
  | .arr [] => ['[', ']']
  | .arr (a :: l) =>
    '[' :: (newline (level + 1) ++ value (level + 1) a ++ items (level + 1) l ++ newline level ++ [']'])
  | .obj [] => ['{', '}']
  | .obj ((k, a) :: l) =>
    '{' :: (newline (level + 1) ++ string k.toList ++ [':', ' '] ++ value (level + 1) a ++ members (level + 1) l ++
      newline level ++ ['}'])

/-- The items after the first. -/
def items (level : ℕ) : List Json → List Char
  | [] => []
  | a :: l => ',' :: (newline level ++ value level a ++ items level l)

def members (level : ℕ) : List (String × Json) → List Char
  | [] => []
  | (k, a) :: l => ',' :: (newline level ++ string k.toList ++ [':', ' '] ++ value level a ++ members level l)

end

def dumps (j : Json) : List Char := value 0 j

/-! ### Reading -/

def isSpace (c : Char) : Bool := c = ' ' || c = '\n' || c = '\r' || c = '\t'

def skipSpace (s : List Char) : List Char := s.dropWhile isSpace

/-- Where the reader is in a string: between characters, after a backslash, in
the digits of a unit (with the high surrogate before it, the digits that are
still to come after the next, and the value so far), or before the low surrogate. -/
inductive Mode
  | plain
  | escape
  | hex (high : Option ℕ) (left acc : ℕ)
  | low (high : ℕ)
  | lowU (high : ℕ)

inductive Step
  | stop
  | go (m : Mode)
  | put (c : Char)

def hexVal (c : Char) : Option ℕ :=
  if '0' ≤ c ∧ c ≤ '9' then some (c.toNat - 48)
  else if 'a' ≤ c ∧ c ≤ 'f' then some (c.toNat - 87)
  else if 'A' ≤ c ∧ c ≤ 'F' then some (c.toNat - 55)
  else none

/-- A whole unit: a character, or half of one. -/
def unit (high : Option ℕ) (n : ℕ) : Option Step :=
  match high with
  | none =>
    if 0xd800 ≤ n ∧ n < 0xdc00 then some (.go (.low n))
    else if 0xdc00 ≤ n ∧ n < 0xe000 then none
    else some (.put (Char.ofNat n))
  | some h =>
    if 0xdc00 ≤ n ∧ n < 0xe000 then some (.put (Char.ofNat (0x10000 + (h - 0xd800) * 0x400 + (n - 0xdc00))))
    else none

def escaped (c : Char) : Option Step :=
  if c = 'u' then some (.go (.hex none 3 0))
  else if c = '"' ∨ c = '\\' ∨ c = '/' then some (.put c)
  else if c = 'n' then some (.put '\n')
  else if c = 'r' then some (.put '\r')
  else if c = 't' then some (.put '\t')
  else if c = 'f' then some (.put '\x0c')
  else if c = 'b' then some (.put '\x08')
  else none

def next : Mode → Char → Option Step
  | .plain, c =>
    if c = '"' then some .stop
    else if c = '\\' then some (.go .escape)
    else if c.toNat < 0x20 then none
    else some (.put c)
  | .escape, c => escaped c
  | .hex high left acc, c => (hexVal c).bind fun v => match left with
    | k + 1 => some (.go (.hex high k (16 * acc + v)))
    | 0 => unit high (16 * acc + v)
  | .low h, c => if c = '\\' then some (.go (.lowU h)) else none
  | .lowU h, c => if c = 'u' then some (.go (.hex (some h) 3 0)) else none

/-- The rest of a string, to its closing quote. -/
def scanChars : Mode → List Char → Option (List Char × List Char)
  | _, [] => none
  | m, c :: r =>
    match next m c with
    | none => none
    | some .stop => some ([], r)
    | some (.go m') => scanChars m' r
    | some (.put x) => (scanChars .plain r).map fun p => (x :: p.1, p.2)

def digitVal (c : Char) : Digit := Fin.ofNat 10 (c.toNat - 48)

def spanDigits : List Char → List Digit × List Char
  | [] => ([], [])
  | c :: r => if c.isDigit then (digitVal c :: (spanDigits r).1, (spanDigits r).2) else ([], c :: r)

/-- A number's whole part: no zero in front of other digits. -/
def scanWhole : List Char → Option (ℕ × List Char)
  | [] => none
  | c :: r =>
    if c = '0' then some (0, r)
    else if c.isDigit then some (Flt.ofDigits 0 (spanDigits (c :: r)).1, (spanDigits (c :: r)).2)
    else none

/-- The fraction, if there is one: a dot without a digit is none. -/
def scanFrac : List Char → List Digit × List Char
  | [] => ([], [])
  | c :: r => if c = '.' ∧ (spanDigits r).1 ≠ [] then spanDigits r else ([], c :: r)

def scanSign : List Char → Bool × List Char
  | [] => (false, [])
  | c :: r => if c = '-' then (true, r) else if c = '+' then (false, r) else (false, c :: r)

def scanExp : List Char → Option Exponent × List Char
  | [] => (none, [])
  | c :: r =>
    if c = 'e' ∨ c = 'E' then
      match spanDigits (scanSign r).2 with
      | (d :: ds, r') => (some ⟨(scanSign r).1, d, ds⟩, r')
      | ([], _) => (none, c :: r)
    else (none, c :: r)

def number (neg : Bool) (n : ℕ) (frac : List Digit) (exp : Option Exponent) : Json :=
  if h : frac ≠ [] ∨ exp.isSome = true then .float ⟨neg, n, frac, exp, h⟩
  else .int (if neg then -n else n)

def scanUnsigned (neg : Bool) (s : List Char) : Option (Json × List Char) :=
  (scanWhole s).map fun w =>
    let frac := scanFrac w.2
    let exp := scanExp frac.2
    (number neg w.1 frac.1 exp.1, exp.2)

def scanNumber : List Char → Option (Json × List Char)
  | [] => none
  | c :: r => if c = '-' then scanUnsigned true r else scanUnsigned false (c :: r)

/-- The word, and what follows it. -/
def literal (w : List Char) (j : Json) (s : List Char) : Option (Json × List Char) :=
  if w.isPrefixOf s then some (j, s.drop w.length) else none

mutual

/-- `scan_once`: the value at the front of a text, and the rest. -/
def scanOnce : ℕ → List Char → Option (Json × List Char)
  | 0, _ | _, [] => none
  | n + 1, c :: r =>
    if c = '"' then (scanChars .plain r).map fun p => (.str (String.ofList p.1), p.2)
    else if c = '{' then
      if (skipSpace r).head? = some '}' then some (.obj [], (skipSpace r).tail)
      else (scanMembers n (skipSpace r)).map fun p => (.obj (Dict.ofList p.1).entries, p.2)
    else if c = '[' then
      if (skipSpace r).head? = some ']' then some (.arr [], (skipSpace r).tail)
      else (scanItems n (skipSpace r)).map fun p => (.arr p.1, p.2)
    else if c = 'n' then literal "null".toList .null (c :: r)
    else if c = 't' then literal "true".toList (.bool true) (c :: r)
    else if c = 'f' then literal "false".toList (.bool false) (c :: r)
    else scanNumber (c :: r)

/-- The items of an array, to its closing bracket. -/
def scanItems : ℕ → List Char → Option (List Json × List Char)
  | 0, _ => none
  | n + 1, s => (scanOnce n s).bind fun a => match skipSpace a.2 with
    | [] => none
    | c :: r =>
      if c = ']' then some ([a.1], r)
      else if c = ',' then (scanItems n (skipSpace r)).map fun p => (a.1 :: p.1, p.2)
      else none

/-- The members of an object, to its closing brace. -/
def scanMembers : ℕ → List Char → Option (List (String × Json) × List Char)
  | 0, _ | _, [] => none
  | n + 1, q :: s =>
    if q = '"' then (scanChars .plain s).bind fun k => match skipSpace k.2 with
      | [] => none
      | c :: s =>
        if c = ':' then (scanOnce n (skipSpace s)).bind fun a => match skipSpace a.2 with
          | [] => none
          | c :: r =>
            if c = '}' then some ([(String.ofList k.1, a.1)], r)
            else if c = ',' then (scanMembers n (skipSpace r)).map fun p => ((String.ofList k.1, a.1) :: p.1, p.2)
            else none
        else none
    else none

end

/-- `json.loads`: one value, with space around it. -/
def loads (s : List Char) : Option Json :=
  (scanOnce (2 * s.length) (skipSpace s)).bind fun a => if skipSpace a.2 = [] then some a.1 else none

example : (loads (dumps (.obj [("a", .arr [.int (-10), .str "é\n"]), ("b", .obj [])]))).map dumps =
    some (dumps (.obj [("a", .arr [.int (-10), .str "é\n"]), ("b", .obj [])])) := by
  decide +kernel

end JsonText
end LocaiLink
