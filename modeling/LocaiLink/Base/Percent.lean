/-
# Percent-encoding, and the path of a URL

A byte that is not unreserved is written as `%` and two digits, and reading such a text gives the bytes back
(`decode_encode`). The path of a URL is cut at its slashes; a segment of one dot is taken out of it, and one of two dots together
with the segment before it. What is encoded is such a segment only for `.` and `..` themselves (`isSingleDot_encode`,
`isDoubleDot_encode`).
-/
import LocaiLink.Base.Lines
import LocaiLink.Base.JsonText

namespace LocaiLink
namespace Percent

/-! ### Bytes and texts -/

def isUnreserved (c : Char) : Bool := c.isAlphanum || c = '-' || c = '.' || c = '_' || c = '~'

def hexDigit (n : ℕ) : Char := (Nat.digitChar n).toUpper

def encodeByte (b : UInt8) : List Char :=
  if isUnreserved (Char.ofNat b.toNat) then [Char.ofNat b.toNat]
  else ['%', hexDigit (b.toNat / 16), hexDigit (b.toNat % 16)]

def encode (bs : Bytes) : List Char := bs.flatMap encodeByte

/-- The byte that two hexadecimal digits are. -/
def hexByte (a b : Char) : Option UInt8 := do pure (UInt8.ofNat (16 * (← JsonText.hexVal a) + (← JsonText.hexVal b)))

/-- The bytes of a text: a `%` that two digits follow is a byte with them. -/
def decode : List Char → Bytes
  | [] => []
  | '%' :: a :: b :: l =>
    match hexByte a b with
    | some x => x :: decode l
    | none => Bytes.encode "%" ++ decode (a :: b :: l)
  | c :: l => Bytes.encode (String.singleton c) ++ decode l

/-- Unreserved characters, and `%` with two digits. -/
inductive Spelled : List Char → Prop
  | nil : Spelled []
  | unreserved {c : Char} {l : List Char} : isUnreserved c = true → Spelled l → Spelled (c :: l)
  | triplet {a b : Char} {l : List Char} : (hexByte a b).isSome = true → Spelled l → Spelled ('%' :: a :: b :: l)

section Bytes

variable {bs : Bytes} {b : UInt8} {l : List Char}

theorem hexByte_hexDigit : ∀ n < 256, hexByte (hexDigit (n / 16)) (hexDigit (n % 16)) = some (UInt8.ofNat n) := by decide +kernel

theorem encode_singleton : ∀ n < 256, isUnreserved (Char.ofNat n) = true →
    Char.ofNat n ≠ '%' ∧ Bytes.encode (String.singleton (Char.ofNat n)) = [UInt8.ofNat n] := by decide +kernel

/-- A byte is what it is written as: itself, or a triplet of it. -/
theorem encodeByte_cases (b : UInt8) :
    (∃ c, encodeByte b = [c] ∧ isUnreserved c = true ∧ c ≠ '%' ∧ Bytes.encode (String.singleton c) = [b]) ∨
      ∃ x y, encodeByte b = ['%', x, y] ∧ hexByte x y = some b := by
  unfold encodeByte
  split_ifs with h
  · obtain ⟨hne, hencode⟩ := encode_singleton b.toNat b.toNat_lt h
    rw [UInt8.ofNat_toNat] at hencode
    exact .inl ⟨_, rfl, h, hne, hencode⟩
  · have hbyte := hexByte_hexDigit b.toNat b.toNat_lt
    rw [UInt8.ofNat_toNat] at hbyte
    exact .inr ⟨_, _, rfl, hbyte⟩

theorem decode_cons {c : Char} (h : c ≠ '%') (l : List Char) : decode (c :: l) = Bytes.encode (String.singleton c) ++ decode l := by
  rw [decode]
  exact fun _ _ _ hpercent _ => h hpercent

theorem decode_encodeByte (b : UInt8) (l : List Char) : decode (encodeByte b ++ l) = b :: decode l := by
  rcases encodeByte_cases b with ⟨c, hc, -, hne, hbyte⟩ | ⟨x, y, hxy, hbyte⟩
  · rw [hc, List.singleton_append, decode_cons hne, hbyte]
    rfl
  · rw [hxy, List.cons_append, List.cons_append, List.cons_append, List.nil_append, decode, hbyte]

/-- **Reading gives the bytes back.** -/
theorem decode_encode (bs : Bytes) : decode (encode bs) = bs := by
  induction bs with
  | nil => rfl
  | cons b bs ih =>
    have hcons : encode (b :: bs) = encodeByte b ++ encode bs := List.flatMap_cons
    rw [hcons, decode_encodeByte, ih]

/-- Only such characters are written. -/
theorem spelled_encode (bs : Bytes) : Spelled (encode bs) := by
  induction bs with
  | nil => exact .nil
  | cons b bs ih =>
    have hcons : encode (b :: bs) = encodeByte b ++ encode bs := List.flatMap_cons
    rw [hcons]
    rcases encodeByte_cases b with ⟨c, hc, hunreserved, -⟩ | ⟨x, y, hxy, hbyte⟩
    · rw [hc]
      exact .unreserved hunreserved ih
    · rw [hxy]
      exact .triplet (by rw [hbyte]; rfl) ih

theorem hexByte_isSome {a b : Char} (h : (hexByte a b).isSome = true) : (JsonText.hexVal a).isSome = true ∧ (JsonText.hexVal b).isSome = true := by
  unfold hexByte at h
  cases ha : JsonText.hexVal a with
  | none => simp [ha] at h
  | some x =>
    cases hb : JsonText.hexVal b with
    | none => simp [ha, hb] at h
    | some y => exact ⟨rfl, rfl⟩

/-- No other character stands in such a text. -/
theorem Spelled.not_mem (h : Spelled l) {c : Char} (hc : isUnreserved c = false) (hhex : JsonText.hexVal c = none) (hpercent : c ≠ '%') : c ∉ l := by
  induction h with
  | nil => exact List.not_mem_nil
  | unreserved hd _ ih =>
    refine fun hmem => ?_
    rcases List.mem_cons.mp hmem with rfl | hmem
    · rw [hc] at hd
      cases hd
    · exact ih hmem
  | triplet hab _ ih =>
    obtain ⟨ha, hb⟩ := hexByte_isSome hab
    refine fun hmem => ?_
    rcases List.mem_cons.mp hmem with rfl | hmem
    · exact hpercent rfl
    rcases List.mem_cons.mp hmem with rfl | hmem
    · rw [hhex] at ha
      cases ha
    rcases List.mem_cons.mp hmem with rfl | hmem
    · rw [hhex] at hb
      cases hb
    · exact ih hmem

end Bytes

/-! ### The segments of a path -/

/-- One dot, which may be percent-encoded. -/
def isSingleDot (segment : List Char) : Bool := [".".toList, "%2e".toList, "%2E".toList].any fun s => segment = s

/-- Two dots. -/
def isDoubleDot (segment : List Char) : Bool :=
  ["..".toList, ".%2e".toList, ".%2E".toList, "%2e.".toList, "%2E.".toList, "%2e%2e".toList, "%2e%2E".toList,
    "%2E%2e".toList, "%2E%2E".toList].any fun s => segment = s

/-- What a segment that a slash follows makes of those before it, the last of them first. -/
def walk (acc : List (List Char)) (segment : List Char) : List (List Char) :=
  if isDoubleDot segment then acc.tail
  else if isSingleDot segment then acc
  else segment :: acc

/-- The last segment: nothing is left in its place where it is dots. -/
def walkLast (acc : List (List Char)) (segment : List Char) : List (List Char) :=
  if isDoubleDot segment then [] :: acc.tail
  else if isSingleDot segment then [] :: acc
  else segment :: acc

/-- The segments of a path without those of dots. -/
def normalise (acc : List (List Char)) : List (List Char) → List (List Char)
  | [] => acc.reverse
  | [segment] => (walkLast acc segment).reverse
  | segment :: segment' :: rest => normalise (walk acc segment) (segment' :: rest)

section Dots

variable {bs : Bytes} {segment : List Char} {acc : List (List Char)}

theorem decode_singleDot (h : isSingleDot segment = true) : decode segment = [0x2e] := by
  have hall : ∀ s ∈ [".".toList, "%2e".toList, "%2E".toList], decode s = [0x2e] := by decide +kernel
  obtain ⟨s, hs, heq⟩ := List.any_eq_true.mp h
  rw [of_decide_eq_true heq]
  exact hall s hs

theorem decode_doubleDot (h : isDoubleDot segment = true) : decode segment = [0x2e, 0x2e] := by
  have hall : ∀ s ∈ ["..".toList, ".%2e".toList, ".%2E".toList, "%2e.".toList, "%2E.".toList, "%2e%2e".toList, "%2e%2E".toList,
    "%2E%2e".toList, "%2E%2E".toList], decode s = [0x2e, 0x2e] := by decide +kernel
  obtain ⟨s, hs, heq⟩ := List.any_eq_true.mp h
  rw [of_decide_eq_true heq]
  exact hall s hs

/-- What is encoded is one dot only for one dot. -/
theorem isSingleDot_encode : isSingleDot (encode bs) = true ↔ bs = [0x2e] := by
  refine ⟨fun h => ?_, fun h => by rw [h]; decide +kernel⟩
  rw [← decode_encode bs]
  exact decode_singleDot h

theorem isDoubleDot_encode : isDoubleDot (encode bs) = true ↔ bs = [0x2e, 0x2e] := by
  refine ⟨fun h => ?_, fun h => by rw [h]; decide +kernel⟩
  rw [← decode_encode bs]
  exact decode_doubleDot h

theorem walk_plain (h : isSingleDot segment = false) (h' : isDoubleDot segment = false) : walk acc segment = segment :: acc := by
  rw [walk, h, h']
  rfl

theorem walkLast_plain (h : isSingleDot segment = false) (h' : isDoubleDot segment = false) :
    walkLast acc segment = segment :: acc := by
  rw [walkLast, h, h']
  rfl

/-- Dots leave no more segments than there were. -/
theorem length_walk_dots (acc : List (List Char)) (h : isSingleDot segment = true ∨ isDoubleDot segment = true) : (walk acc segment).length ≤ acc.length := by
  unfold walk
  split_ifs with hdouble hsingle
  · rw [List.length_tail]
    omega
  · exact Nat.le_refl _
  · rcases h with h | h
    · exact absurd h hsingle
    · exact absurd h hdouble

theorem length_walk_le (acc : List (List Char)) (segment : List Char) : (walk acc segment).length ≤ acc.length + 1 := by
  unfold walk
  split_ifs
  · rw [List.length_tail]
    omega
  · omega
  · rw [List.length_cons]

theorem normalise_append (l l' : List (List Char)) (h : l' ≠ []) : normalise acc (l ++ l') = normalise (l.foldl walk acc) l' := by
  induction l generalizing acc with
  | nil => rfl
  | cons segment l ih =>
    obtain ⟨a, t, hat⟩ : ∃ a t, l ++ l' = a :: t := List.exists_cons_of_ne_nil (by simp [h])
    rw [List.cons_append, hat, normalise, ← hat, ih, List.foldl_cons]

end Dots

end Percent
end LocaiLink
