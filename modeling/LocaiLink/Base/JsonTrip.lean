/-
# Reading back what was written

`loads (dumps j) = some j` for every value whose dictionaries have distinct keys
(`loads_dumps`): each scanner, in front of the text of one thing, reads that
thing and stops behind it. No proper part of the text of a dictionary, from its
start, can be read (`loads_take`), since with the rest of the text behind it the
reader would stop in the middle of a text it reads whole.
-/
import LocaiLink.Base.JsonExtend

namespace LocaiLink
namespace JsonText

/-! ### Strings -/

theorem hexVal_digitChar : ∀ d < 16, hexVal (Nat.digitChar d) = some d := by decide

theorem scanChars_hex (high : Option ℕ) {d : ℕ} (hd : d < 16) (left acc : ℕ) (t : List Char) :
    scanChars (.hex high (left + 1) acc) (Nat.digitChar d :: t) = scanChars (.hex high left (16 * acc + d)) t := by
  rw [scanChars, next, hexVal_digitChar d hd]
  rfl

/-- Four digits are a whole unit. -/
theorem scanChars_hex4 (high : Option ℕ) {n : ℕ} (hn : n < 0x10000) (t : List Char) :
    scanChars (.hex high 3 0) (hex4 n ++ t) = match unit high n with
      | none => none
      | some .stop => some ([], t)
      | some (.go m) => scanChars m t
      | some (.put x) => (scanChars .plain t).map fun p => (x :: p.1, p.2) := by
  have hsum : 16 * (16 * (16 * (16 * 0 + n / 4096 % 16) + n / 256 % 16) + n / 16 % 16) + n % 16 = n := by omega
  have hmod : ∀ k, k % 16 < 16 := fun k => Nat.mod_lt k (by decide)
  simp only [hex4, List.map_cons, List.map_nil, List.cons_append, List.nil_append]
  rw [scanChars_hex _ (hmod _), scanChars_hex _ (hmod _), scanChars_hex _ (hmod _), scanChars, next,
    hexVal_digitChar _ (hmod _), Option.bind_some]
  simp only
  rw [hsum] <;> rfl

theorem scanChars_unicode (n : ℕ) (t : List Char) :
    scanChars .plain (unicode n ++ t) = scanChars (.hex none 3 0) (hex4 n ++ t) := rfl

theorem scanChars_low (high n : ℕ) (t : List Char) :
    scanChars (.low high) (unicode n ++ t) = scanChars (.hex (some high) 3 0) (hex4 n ++ t) := rfl

theorem unit_toNat (c : Char) (hc : c.toNat < 0x10000) : unit none c.toNat = some (.put c) := by
  have hvalid : c.toNat < 0xd800 ∨ 0xdfff < c.toNat ∧ c.toNat < 0x110000 := c.valid
  rw [unit, if_neg (by omega), if_neg (by omega), Char.ofNat_toNat]

theorem unit_high {n : ℕ} (h : n < 0x110000) :
    unit none (0xd800 + (n - 0x10000) / 0x400) = some (.go (.low (0xd800 + (n - 0x10000) / 0x400))) := by
  have hlt : (n - 0x10000) / 0x400 < 0x400 := by omega
  rw [unit, if_pos (by omega)]

theorem unit_low (c : Char) (hc : 0x10000 ≤ c.toNat) :
    unit (some (0xd800 + (c.toNat - 0x10000) / 0x400)) (0xdc00 + (c.toNat - 0x10000) % 0x400) = some (.put c) := by
  have hsum : 0x10000 + (0xd800 + (c.toNat - 0x10000) / 0x400 - 0xd800) * 0x400 +
      (0xdc00 + (c.toNat - 0x10000) % 0x400 - 0xdc00) = c.toNat := by omega
  rw [unit, if_pos (by omega), hsum, Char.ofNat_toNat]

/-- A character's escape reads as the character. -/
theorem scanChars_escape (c : Char) (t : List Char) :
    scanChars .plain (escape c ++ t) = (scanChars .plain t).map fun p => (c :: p.1, p.2) := by
  have hvalid : c.toNat < 0xd800 ∨ 0xdfff < c.toNat ∧ c.toNat < 0x110000 := c.valid
  unfold escape
  split_ifs with hq hn hr ht hf hb hascii hbmp
  · obtain rfl | rfl := hq <;> rfl
  · subst hn
    rfl
  · subst hr
    rfl
  · subst ht
    rfl
  · subst hf
    rfl
  · subst hb
    rfl
  · rw [not_or] at hq
    have hctrl : ¬c.toNat < 0x20 := by omega
    rw [List.singleton_append, scanChars, next, if_neg hq.1, if_neg hq.2, if_neg hctrl]
  · rw [scanChars_unicode, scanChars_hex4 _ hbmp, unit_toNat c hbmp]
  · -- two units: the high surrogate, and after its own `\u` the low one
    have hhigh : 0xd800 + (c.toNat - 0x10000) / 0x400 < 0x10000 := by omega
    have hlow : 0xdc00 + (c.toNat - 0x10000) % 0x400 < 0x10000 := by omega
    have hastral : 0x10000 ≤ c.toNat := by omega
    rw [List.append_assoc, scanChars_unicode, scanChars_hex4 _ hhigh, unit_high (by omega)]
    simp only
    rw [scanChars_low, scanChars_hex4 _ hlow, unit_low c hastral]

theorem scanChars_string (r : List Char) : ∀ s : List Char,
    scanChars .plain (s.flatMap escape ++ '"' :: r) = some (s, r)
  | [] => rfl
  | c :: s => by
    rw [List.flatMap_cons, List.append_assoc, scanChars_escape, scanChars_string r s]
    rfl

/-! ### Numbers -/

/-- Nothing that a number could go on with. -/
def Stops (r : List Char) : Prop :=
  ∀ c, r.head? = some c → c.isDigit = false ∧ c ≠ '.' ∧ ¬(c = 'e' ∨ c = 'E')

theorem isDigit_digit : ∀ d : Digit, (Text.digit d).isDigit = true := by decide

theorem digitVal_digit : ∀ d : Digit, digitVal (Text.digit d) = d := by decide

theorem spanDigits_digits {r : List Char} (hr : ∀ c, r.head? = some c → c.isDigit = false) : ∀ ds : List Digit,
    spanDigits (ds.map Text.digit ++ r) = (ds, r)
  | [] => by
    cases r with
    | nil => rfl
    | cons c r =>
      have hc := hr c rfl
      rw [List.map_nil, List.nil_append, spanDigits, if_neg (by rw [hc]; decide)]
  | d :: ds => by
    have ih := spanDigits_digits hr ds
    rw [List.map_cons, List.cons_append, spanDigits, if_pos (isDigit_digit d), ih, digitVal_digit]

theorem ofDigits_append (n : ℕ) (ds : List Digit) (d : Digit) :
    Flt.ofDigits n (ds ++ [d]) = 10 * Flt.ofDigits n ds + d := by
  rw [Flt.ofDigits, List.foldl_append]
  rfl

/-- The decimal of a number: its digits, of which the first is no zero unless the number is. -/
theorem nat_digits (n : ℕ) : ∃ d ds, Text.nat n = (d :: ds).map Text.digit ∧ Flt.ofDigits 0 (d :: ds) = n ∧
    (n ≠ 0 → d ≠ 0) := by
  induction n using Nat.strongRecOn with
  | ind n ih =>
    by_cases hn : n < 10
    · refine ⟨⟨n, hn⟩, [], ?_, ?_, ?_⟩
      · exact Nat.toDigits_of_lt_base hn
      · simp [Flt.ofDigits]
      · intro h h'
        exact h (congrArg Fin.val h')
    · obtain ⟨d, ds, htext, hval, hd⟩ := ih (n / 10) (by omega)
      have hlast : n % 10 < 10 := Nat.mod_lt n (by decide)
      refine ⟨d, ds ++ [⟨n % 10, hlast⟩], ?_, ?_, fun _ => hd (by omega)⟩
      · rw [← List.cons_append, List.map_append, ← htext]
        exact Nat.toDigits_of_base_le (by decide) (by omega)
      · rw [← List.cons_append, ofDigits_append, hval]
        exact Nat.div_add_mod n 10

theorem digit_ne_zero {d : Digit} (hd : d ≠ 0) : Text.digit d ≠ '0' := by
  revert d
  decide

theorem scanWhole_nat (n : ℕ) {r : List Char} (hr : ∀ c, r.head? = some c → c.isDigit = false) :
    scanWhole (Text.nat n ++ r) = some (n, r) := by
  obtain ⟨d, ds, htext, hval, hd⟩ := nat_digits n
  by_cases hn : n = 0
  · subst hn
    rfl
  · have hspan := spanDigits_digits hr (d :: ds)
    rw [List.map_cons, List.cons_append] at hspan
    rw [htext, List.map_cons, List.cons_append, scanWhole, if_neg (digit_ne_zero (hd hn)),
      if_pos (isDigit_digit d), hspan, hval]

theorem scanFrac_fraction {r : List Char} (hr : ∀ c, r.head? = some c → c.isDigit = false ∧ c ≠ '.')
    (ds : List Digit) : scanFrac (Text.fraction ds ++ r) = (ds, r) := by
  unfold Text.fraction
  by_cases hds : ds = []
  · subst hds
    rw [if_pos rfl, List.nil_append]
    cases r with
    | nil => rfl
    | cons c r => rw [scanFrac, if_neg fun h => (hr c rfl).2 h.1]
  · have hspan := spanDigits_digits (fun c hc => (hr c hc).1) ds
    rw [if_neg hds, List.cons_append, scanFrac, hspan, if_pos ⟨rfl, hds⟩]

theorem scanSign_exponent (neg : Bool) (s : List Char) :
    scanSign ((if neg then '-' else '+') :: s) = (neg, s) := by
  cases neg <;> rfl

theorem scanExp_exponent {r : List Char} (hr : ∀ c, r.head? = some c → c.isDigit = false ∧ ¬(c = 'e' ∨ c = 'E'))
    (e : Option Exponent) : scanExp (Text.exponent e ++ r) = (e, r) := by
  cases e with
  | none =>
    rw [Text.exponent, List.nil_append]
    cases r with
    | nil => rfl
    | cons c r => rw [scanExp, if_neg (hr c rfl).2]
  | some e =>
    have hspan := spanDigits_digits (fun c hc => (hr c hc).1) (e.first :: e.rest)
    rw [List.map_cons, List.cons_append] at hspan
    rw [Text.exponent, List.cons_append, List.cons_append, List.cons_append, scanExp, if_pos (.inl rfl),
      scanSign_exponent, hspan]

/-- The exponent, if there is one, starts with no digit and no dot. -/
theorem exponent_head {r : List Char} (hr : Stops r) (e : Option Exponent) :
    ∀ c, (Text.exponent e ++ r).head? = some c → c.isDigit = false ∧ c ≠ '.' := by
  intro c hc
  cases e with
  | none => exact ⟨(hr c hc).1, (hr c hc).2.1⟩
  | some e =>
    obtain rfl := Option.some.inj hc
    decide

theorem fraction_head {r : List Char} (hr : Stops r) (ds : List Digit) (e : Option Exponent) :
    ∀ c, (Text.fraction ds ++ (Text.exponent e ++ r)).head? = some c → c.isDigit = false := by
  intro c hc
  unfold Text.fraction at hc
  split_ifs at hc with hds
  · exact (exponent_head hr e c hc).1
  · obtain rfl := Option.some.inj hc
    decide

theorem scanUnsigned_text (neg : Bool) (n : ℕ) (ds : List Digit) (e : Option Exponent) {r : List Char}
    (hr : Stops r) : scanUnsigned neg (Text.nat n ++ (Text.fraction ds ++ (Text.exponent e ++ r))) =
      some (number neg n ds e, r) := by
  have hwhole := scanWhole_nat n (fraction_head hr ds e)
  have hfrac := scanFrac_fraction (exponent_head hr e) ds
  have hexp := scanExp_exponent (fun c hc => ⟨(hr c hc).1, (hr c hc).2.2⟩) e
  rw [scanUnsigned, hwhole, Option.map_some]
  simp only
  rw [hfrac]
  simp only
  rw [hexp]

theorem nat_head (n : ℕ) (s : List Char) : ∃ d : Digit, ∃ s', Text.nat n ++ s = Text.digit d :: s' := by
  obtain ⟨d, ds, htext, -, -⟩ := nat_digits n
  exact ⟨d, ds.map Text.digit ++ s, by rw [htext, List.map_cons, List.cons_append]⟩

theorem digit_ne_minus : ∀ d : Digit, Text.digit d ≠ '-' := by decide

theorem scanNumber_nat (n : ℕ) (s : List Char) :
    scanNumber (Text.nat n ++ s) = scanUnsigned false (Text.nat n ++ s) := by
  obtain ⟨d, s', hs⟩ := nat_head n s
  rw [hs, scanNumber, if_neg (digit_ne_minus d)]

theorem scanNumber_int (n : ℤ) {r : List Char} (hr : Stops r) : scanNumber (Text.int n ++ r) = some (.int n, r) := by
  cases n with
  | ofNat n =>
    have h := scanUnsigned_text false n [] none hr
    rw [Text.int, scanNumber_nat]
    exact h
  | negSucc n =>
    have h := scanUnsigned_text true (n + 1) [] none hr
    rw [Text.int, List.cons_append, scanNumber, if_pos rfl]
    exact h

theorem scanNumber_flt (x : Flt) {r : List Char} (hr : Stops r) : scanNumber (Text.flt x ++ r) = some (.float x, r) := by
  have h := scanUnsigned_text x.neg x.whole x.frac x.exp hr
  have hnum : number x.neg x.whole x.frac x.exp = .float x := by rw [number, dif_pos x.isFloat]
  rw [hnum] at h
  rw [Text.flt, List.append_assoc, List.append_assoc, List.append_assoc]
  cases hneg : x.neg with
  | false =>
    rw [hneg] at h
    exact (scanNumber_nat _ _).trans h
  | true =>
    rw [hneg] at h
    exact h

/-! ### Values -/

mutual

/-- Every dictionary in the value has distinct keys. -/
def Proper : Json → Prop
  | .arr l => ProperItems l
  | .obj l => (l.map Prod.fst).Nodup ∧ ProperMembers l
  | _ => True

def ProperItems : List Json → Prop
  | [] => True
  | a :: l => Proper a ∧ ProperItems l

def ProperMembers : List (String × Json) → Prop
  | [] => True
  | (_, a) :: l => Proper a ∧ ProperMembers l

end

theorem properItems_iff : ∀ {l : List Json}, ProperItems l ↔ ∀ a ∈ l, Proper a
  | [] => by simp [ProperItems]
  | a :: l => by simp [ProperItems, properItems_iff (l := l)]

theorem properMembers_iff : ∀ {l : List (String × Json)}, ProperMembers l ↔ ∀ e ∈ l, Proper e.2
  | [] => by simp [ProperMembers]
  | e :: l => by simp [ProperMembers, properMembers_iff (l := l)]

theorem proper_lookup {k : String} {a : Json} : ∀ {l : List (String × Json)}, ProperMembers l →
    l.lookup k = some a → Proper a
  | [], _, h => by cases h
  | e :: l, hl, h => by
    rw [List.lookup_cons] at h
    split at h
    · obtain rfl := Option.some.inj h
      exact hl.1
    · exact proper_lookup hl.2 h

theorem proper_get? {j a : Json} {k : String} (hj : Proper j) (h : j.get? k = some a) : Proper a := by
  cases j with
  | obj l => exact proper_lookup hj.2 h
  | _ => cases h

theorem skipSpace_newline (level : ℕ) (s : List Char) : skipSpace (newline level ++ s) = skipSpace s := by
  have hspaces : ∀ n, skipSpace (List.replicate n ' ' ++ s) = skipSpace s := by
    intro n
    induction n with
    | zero => rfl
    | succ n ih =>
      rw [List.replicate_succ, List.cons_append]
      exact ih
  rw [newline, List.cons_append]
  exact hspaces _

theorem skipSpace_cons {c : Char} (s : List Char) (hc : isSpace c = false) : skipSpace (c :: s) = c :: s := by
  rw [skipSpace, List.dropWhile_cons_of_neg (by rw [hc]; decide)]

theorem stops_newline (level : ℕ) (s : List Char) : Stops (newline level ++ s) := by
  intro c hc
  obtain rfl := Option.some.inj hc
  decide

/-- What starts a value: no space, and nothing that ends an array or a dictionary. -/
def Starts (s : List Char) : Prop :=
  ∃ c s', s = c :: s' ∧ isSpace c = false ∧ c ≠ ']' ∧ c ≠ '}'

theorem digit_starts : ∀ d : Digit, isSpace (Text.digit d) = false ∧ Text.digit d ≠ ']' ∧ Text.digit d ≠ '}' := by
  decide

theorem starts_nat (n : ℕ) (s : List Char) : Starts (Text.nat n ++ s) := by
  obtain ⟨d, s', hs⟩ := nat_head n s
  exact ⟨_, s', hs, digit_starts d⟩

theorem starts_value (level : ℕ) (r : List Char) : ∀ j : Json, Starts (value level j ++ r)
  | .null | .bool true | .bool false | .str _ | .arr [] | .arr (_ :: _) | .obj [] | .obj ((_, _) :: _) => by
    refine ⟨_, _, rfl, ?_⟩
    decide
  | .int (.ofNat n) => starts_nat n r
  | .int (.negSucc n) => ⟨'-', _, rfl, by decide⟩
  | .float x => by
    rw [value, Text.flt, List.append_assoc, List.append_assoc, List.append_assoc]
    cases x.neg with
    | false => exact starts_nat _ _
    | true => exact ⟨'-', _, rfl, by decide⟩

theorem Starts.skipSpace {s : List Char} (h : Starts s) : skipSpace s = s := by
  obtain ⟨c, s', rfl, hc, -, -⟩ := h
  exact skipSpace_cons s' hc

theorem scanOnce_digit (n : ℕ) (d : Digit) (s : List Char) :
    scanOnce (n + 1) (Text.digit d :: s) = scanNumber (Text.digit d :: s) := by
  have hd : ∀ d : Digit, Text.digit d ≠ '"' ∧ Text.digit d ≠ '{' ∧ Text.digit d ≠ '[' ∧ Text.digit d ≠ 'n' ∧
      Text.digit d ≠ 't' ∧ Text.digit d ≠ 'f' := by decide
  obtain ⟨h₁, h₂, h₃, h₄, h₅, h₆⟩ := hd d
  rw [scanOnce, if_neg h₁, if_neg h₂, if_neg h₃, if_neg h₄, if_neg h₅, if_neg h₆]

theorem scanOnce_nat (n m : ℕ) (s : List Char) :
    scanOnce (n + 1) (Text.nat m ++ s) = scanNumber (Text.nat m ++ s) := by
  obtain ⟨d, s', hs⟩ := nat_head m s
  rw [hs, scanOnce_digit]

theorem scanOnce_int (n : ℕ) (z : ℤ) {r : List Char} (hr : Stops r) :
    scanOnce (n + 1) (Text.int z ++ r) = some (.int z, r) := by
  rw [← scanNumber_int z hr]
  cases z with
  | ofNat m => exact scanOnce_nat n m r
  | negSucc m => rfl

theorem scanOnce_flt (n : ℕ) (x : Flt) {r : List Char} (hr : Stops r) :
    scanOnce (n + 1) (Text.flt x ++ r) = some (.float x, r) := by
  rw [← scanNumber_flt x hr, Text.flt, List.append_assoc, List.append_assoc, List.append_assoc]
  cases x.neg with
  | false => exact scanOnce_nat n x.whole _
  | true => rfl

theorem string_append (s r : List Char) : string s ++ r = '"' :: (s.flatMap escape ++ '"' :: r) := by
  simp [string]

theorem scanOnce_string (n : ℕ) (s : String) (r : List Char) :
    scanOnce (n + 1) (string s.toList ++ r) = some (.str s, r) := by
  rw [string_append, scanOnce, if_pos rfl, scanChars_string, Option.map_some, String.ofList_toList]

/-- The text between the brackets of an array, from its first item. -/
def itemsText (level : ℕ) (a : Json) (l : List Json) (r : List Char) : List Char :=
  value level a ++ (items level l ++ (newline (level - 1) ++ ']' :: r))

def membersText (level : ℕ) (k : String) (a : Json) (l : List (String × Json)) (r : List Char) : List Char :=
  string k.toList ++ ([':', ' '] ++ (value level a ++ (members level l ++ (newline (level - 1) ++ '}' :: r))))

theorem value_arr (level : ℕ) (a : Json) (l : List Json) (r : List Char) :
    value level (.arr (a :: l)) ++ r = '[' :: (newline (level + 1) ++ itemsText (level + 1) a l r) := by
  simp only [value, itemsText, List.cons_append, List.append_assoc, Nat.add_sub_cancel]
  rfl

theorem value_obj (level : ℕ) (k : String) (a : Json) (l : List (String × Json)) (r : List Char) :
    value level (.obj ((k, a) :: l)) ++ r = '{' :: (newline (level + 1) ++ membersText (level + 1) k a l r) := by
  simp only [value, membersText, List.cons_append, List.append_assoc, Nat.add_sub_cancel]
  rfl

theorem itemsText_cons (level : ℕ) (a b : Json) (l : List Json) (r : List Char) :
    itemsText level a (b :: l) r = value level a ++ ',' :: (newline level ++ itemsText level b l r) := by
  simp only [itemsText, items, List.cons_append, List.append_assoc]

theorem membersText_cons (level : ℕ) (k k' : String) (a b : Json) (l : List (String × Json)) (r : List Char) :
    membersText level k a ((k', b) :: l) r =
      string k.toList ++ ([':', ' '] ++ (value level a ++ ',' :: (newline level ++ membersText level k' b l r))) := by
  simp only [membersText, members, List.cons_append, List.append_assoc]

theorem stops_comma (s : List Char) : Stops (',' :: s) := by
  intro c hc
  obtain rfl := Option.some.inj hc
  decide

theorem starts_itemsText (level : ℕ) (a : Json) (l : List Json) (r : List Char) : Starts (itemsText level a l r) :=
  starts_value level _ a

theorem starts_membersText (level : ℕ) (k : String) (a : Json) (l : List (String × Json)) (r : List Char) :
    Starts (membersText level k a l r) :=
  ⟨'"', _, rfl, by decide⟩

theorem scanOnce_arr {n level : ℕ} {a : Json} {l m : List Json} {r : List Char}
    (h : scanItems n (itemsText (level + 1) a l r) = some (m, r)) :
    scanOnce (n + 1) (value level (.arr (a :: l)) ++ r) = some (.arr m, r) := by
  have hstarts := starts_itemsText (level + 1) a l r
  have hhead : ¬(itemsText (level + 1) a l r).head? = some ']' := by
    obtain ⟨c, s, hs, -, hc, -⟩ := hstarts
    rw [hs]
    exact fun he => hc (Option.some.inj he)
  rw [value_arr, scanOnce, if_neg (by decide), if_neg (by decide), if_pos rfl, skipSpace_newline,
    hstarts.skipSpace, if_neg hhead, h]
  rfl

theorem scanOnce_obj {n level : ℕ} {k : String} {a : Json} {l m : List (String × Json)} {r : List Char}
    (h : scanMembers n (membersText (level + 1) k a l r) = some (m, r)) :
    scanOnce (n + 1) (value level (.obj ((k, a) :: l)) ++ r) = some (.obj (Dict.ofList m).entries, r) := by
  have hstarts := starts_membersText (level + 1) k a l r
  have hhead : ¬(membersText (level + 1) k a l r).head? = some '}' := by
    obtain ⟨c, s, hs, -, -, hc⟩ := hstarts
    rw [hs]
    exact fun he => hc (Option.some.inj he)
  rw [value_obj, scanOnce, if_neg (by decide), if_pos rfl, skipSpace_newline, hstarts.skipSpace, if_neg hhead, h]
  rfl

/-- One item, read with what is behind it. -/
theorem scanItems_last {n level : ℕ} {a : Json} {r : List Char}
    (h : ∀ r, Stops r → scanOnce n (value level a ++ r) = some (a, r)) :
    scanItems (n + 1) (itemsText level a [] r) = some ([a], r) := by
  have honce := h _ (stops_newline (level - 1) (']' :: r))
  have hskip : skipSpace (newline (level - 1) ++ ']' :: r) = ']' :: r := by
    rw [skipSpace_newline]
    rfl
  rw [itemsText, items, List.nil_append, scanItems, honce, Option.bind_some]
  simp only
  rw [hskip]
  simp only
  rw [if_pos trivial]

theorem scanItems_cons {n level : ℕ} {a b : Json} {l m : List Json} {r : List Char}
    (h : ∀ r, Stops r → scanOnce n (value level a ++ r) = some (a, r))
    (hl : scanItems n (itemsText level b l r) = some (m, r)) :
    scanItems (n + 1) (itemsText level a (b :: l) r) = some (a :: m, r) := by
  have honce := h _ (stops_comma (newline level ++ itemsText level b l r))
  rw [itemsText_cons, scanItems, honce, Option.bind_some]
  simp only
  rw [skipSpace_cons _ (by decide)]
  simp only
  rw [if_neg (by decide), if_pos trivial, skipSpace_newline, (starts_itemsText level b l r).skipSpace, hl]
  rfl

/-- A key and its colon, up to the value behind them. -/
theorem scanMembers_key (n : ℕ) (k : String) (s : List Char) (hs : Starts s) :
    scanMembers (n + 1) (string k.toList ++ ([':', ' '] ++ s)) = (scanOnce n s).bind fun a => match skipSpace a.2 with
      | [] => none
      | c :: r =>
        if c = '}' then some ([(k, a.1)], r)
        else if c = ',' then (scanMembers n (skipSpace r)).map fun p => ((k, a.1) :: p.1, p.2)
        else none := by
  have hskip : skipSpace (' ' :: s) = s := hs.skipSpace
  have hcolon : skipSpace (':' :: ' ' :: s) = ':' :: ' ' :: s := rfl
  rw [string_append, scanMembers, if_pos rfl, scanChars_string, Option.bind_some]
  simp only [List.cons_append, List.nil_append]
  rw [hcolon]
  simp only
  rw [if_pos trivial, hskip, String.ofList_toList] <;> rfl

theorem scanMembers_last {n level : ℕ} {k : String} {a : Json} {r : List Char}
    (h : ∀ r, Stops r → scanOnce n (value level a ++ r) = some (a, r)) :
    scanMembers (n + 1) (membersText level k a [] r) = some ([(k, a)], r) := by
  have honce := h _ (stops_newline (level - 1) ('}' :: r))
  have hskip : skipSpace (newline (level - 1) ++ '}' :: r) = '}' :: r := by
    rw [skipSpace_newline]
    rfl
  rw [membersText, members, List.nil_append, scanMembers_key _ _ _ (starts_value _ _ _), honce, Option.bind_some]
  simp only
  rw [hskip]
  simp only
  rw [if_pos trivial]

theorem scanMembers_cons {n level : ℕ} {k k' : String} {a b : Json} {l m : List (String × Json)} {r : List Char}
    (h : ∀ r, Stops r → scanOnce n (value level a ++ r) = some (a, r))
    (hl : scanMembers n (membersText level k' b l r) = some (m, r)) :
    scanMembers (n + 1) (membersText level k a ((k', b) :: l) r) = some ((k, a) :: m, r) := by
  have honce := h _ (stops_comma (newline level ++ membersText level k' b l r))
  rw [membersText_cons, scanMembers_key _ _ _ (starts_value _ _ _), honce, Option.bind_some]
  simp only
  rw [skipSpace_cons _ (by decide)]
  simp only
  rw [if_neg (by decide), if_pos trivial, skipSpace_newline, (starts_membersText level k' b l r).skipSpace, hl]
  rfl

theorem value_length_pos (level : ℕ) (j : Json) : 0 < (value level j).length := by
  obtain ⟨c, s, hs, -⟩ := starts_value level [] j
  rw [List.append_nil] at hs
  rw [hs]
  exact Nat.succ_pos _

/-- The characters of the items of an array, which the fuel is measured by. -/
def itemsLength (level : ℕ) (a : Json) (l : List Json) : ℕ := (value level a).length + (items level l).length

def membersLength (level : ℕ) (a : Json) (l : List (String × Json)) : ℕ :=
  (value level a).length + (members level l).length

theorem itemsLength_cons (level : ℕ) (a b : Json) (l : List Json) :
    (value level a).length + itemsLength level b l + 1 ≤ itemsLength level a (b :: l) := by
  simp only [itemsLength, items, List.length_cons, List.length_append]
  omega

theorem membersLength_cons (level : ℕ) (k : String) (a b : Json) (l : List (String × Json)) :
    (value level a).length + membersLength level b l + 1 ≤ membersLength level a ((k, b) :: l) := by
  simp only [membersLength, members, List.length_cons, List.length_append]
  omega

theorem itemsLength_value (level : ℕ) (a : Json) (l : List Json) :
    itemsLength (level + 1) a l + 2 ≤ (value level (.arr (a :: l))).length := by
  simp only [itemsLength, value, List.length_cons, List.length_append, List.length_nil]
  omega

theorem membersLength_value (level : ℕ) (k : String) (a : Json) (l : List (String × Json)) :
    membersLength (level + 1) a l + 2 ≤ (value level (.obj ((k, a) :: l))).length := by
  simp only [membersLength, value, List.length_cons, List.length_append, List.length_nil]
  omega

mutual

/-- A value in front of a text is read, and nothing behind it. -/
theorem scanOnce_value : ∀ (n level : ℕ) (j : Json), Proper j → 2 * (value level j).length ≤ n →
    ∀ r, Stops r → scanOnce n (value level j ++ r) = some (j, r)
  | 0, level, j, _, hn, r, _ => by
    have hpos := value_length_pos level j
    omega
  | n + 1, _, .null, _, _, r, _ => rfl
  | n + 1, _, .bool true, _, _, r, _ => rfl
  | n + 1, _, .bool false, _, _, r, _ => rfl
  | n + 1, _, .int z, _, _, r, hr => scanOnce_int n z hr
  | n + 1, _, .float x, _, _, r, hr => scanOnce_flt n x hr
  | n + 1, _, .str s, _, _, r, _ => scanOnce_string n s r
  | n + 1, _, .arr [], _, _, r, _ => rfl
  | n + 1, level, .arr (a :: l), hj, hn, r, _ => by
    have hlen := itemsLength_value level a l
    exact scanOnce_arr (scanItems_text n (level + 1) a l hj.1 hj.2 (by omega) r)
  | n + 1, _, .obj [], _, _, r, _ => rfl
  | n + 1, level, .obj ((k, a) :: l), hj, hn, r, _ => by
    have hlen := membersLength_value level k a l
    have hmembers := scanMembers_text n (level + 1) k a l hj.2.1 hj.2.2 (by omega) r
    have hdict : Dict.ofList ((k, a) :: l) = ⟨(k, a) :: l, hj.1⟩ := Dict.ofList_entries ⟨(k, a) :: l, hj.1⟩
    rw [scanOnce_obj hmembers, hdict]

theorem scanItems_text : ∀ (n level : ℕ) (a : Json) (l : List Json), Proper a → ProperItems l →
    2 * itemsLength level a l + 1 ≤ n → ∀ r, scanItems n (itemsText level a l r) = some (a :: l, r)
  | n + 1, level, a, [], ha, _, hn, r => by
    simp only [itemsLength, items, List.length_nil] at hn
    exact scanItems_last (scanOnce_value n level a ha (by omega))
  | n + 1, level, a, b :: l, ha, hl, hn, r => by
    have hlen := itemsLength_cons level a b l
    have hrest := scanItems_text n level b l hl.1 hl.2 (by omega) r
    exact scanItems_cons (scanOnce_value n level a ha (by omega)) hrest

theorem scanMembers_text : ∀ (n level : ℕ) (k : String) (a : Json) (l : List (String × Json)), Proper a →
    ProperMembers l → 2 * membersLength level a l + 1 ≤ n →
      ∀ r, scanMembers n (membersText level k a l r) = some ((k, a) :: l, r)
  | n + 1, level, k, a, [], ha, _, hn, r => by
    simp only [membersLength, members, List.length_nil] at hn
    exact scanMembers_last (scanOnce_value n level a ha (by omega))
  | n + 1, level, k, a, (k', b) :: l, ha, hl, hn, r => by
    have hlen := membersLength_cons level k' a b l
    have hrest := scanMembers_text n level k' b l hl.1 hl.2 (by omega) r
    exact scanMembers_cons (scanOnce_value n level a ha (by omega)) hrest

end

/-- **The round trip.** -/
theorem loads_dumps {j : Json} (hj : Proper j) : loads (dumps j) = some j := by
  have hskip : skipSpace (dumps j) = dumps j := by
    have h := (starts_value 0 [] j).skipSpace
    rwa [List.append_nil] at h
  have honce := scanOnce_value (2 * (dumps j).length) 0 j hj le_rfl [] nofun
  rw [List.append_nil] at honce
  rw [loads, hskip]
  change (scanOnce _ (value 0 j)).bind _ = _
  rw [honce]
  rfl

theorem value_obj_head (l : List (String × Json)) : (dumps (.obj l)).head? = some '{' := by
  cases l <;> rfl

/-- **A part of a dictionary's text is no JSON.** -/
theorem loads_take {l : List (String × Json)} (hl : Proper (.obj l)) {k : ℕ} (hk : k < (dumps (.obj l)).length) :
    loads ((dumps (.obj l)).take k) = none := by
  generalize hd : dumps (.obj l) = s at hk ⊢
  have hhead : s.head? = some '{' := hd ▸ value_obj_head l
  have hwhole := scanOnce_value (2 * s.length) 0 (.obj l) hl (by rw [← hd, dumps]) [] nofun
  rw [List.append_nil] at hwhole
  change scanOnce _ (dumps (.obj l)) = _ at hwhole
  rw [hd] at hwhole
  by_contra hsome
  obtain ⟨a, ha⟩ := Option.ne_none_iff_exists'.mp hsome
  obtain ⟨⟨a, r⟩, hp, -⟩ := Option.bind_eq_some_iff.mp ha
  -- the part is not empty, so it starts where the text does
  obtain ⟨s', rfl⟩ := List.head?_eq_some_iff.mp hhead
  cases k with
  | zero => cases hp
  | succ k =>
    have hfirst : ((('{' : Char) :: s').take (k + 1)).head? = some '{' := rfl
    have hskip : skipSpace (('{' :: s').take (k + 1)) = ('{' :: s').take (k + 1) := skipSpace_cons _ (by decide)
    rw [hskip] at hp
    have hlen : 2 * (('{' :: s').take (k + 1)).length ≤ 2 * ('{' :: s').length := by
      have := List.length_take_le (k + 1) ('{' :: s')
      omega
    have hagain := (scan_append (('{' :: s').drop (k + 1)) _).once hlen hp (.inr hfirst)
    rw [List.take_append_drop, hwhole] at hagain
    have hrest := (Prod.mk.inj (Option.some.inj hagain)).2
    have hdrop := (List.append_eq_nil_iff.mp hrest.symm).2
    rw [List.drop_eq_nil_iff] at hdrop
    omega

/-! ### What is read is well formed -/

theorem literal_eq {w s r : List Char} {j a : Json} (h : literal w j s = some (a, r)) : a = j := by
  unfold literal at h
  split_ifs at h
  exact (Prod.mk.inj (Option.some.inj h)).1.symm

theorem proper_number (neg : Bool) (n : ℕ) (ds : List Digit) (e : Option Exponent) : Proper (number neg n ds e) := by
  unfold number
  split_ifs <;> trivial

theorem scanNumber_proper {s r : List Char} {a : Json} (h : scanNumber s = some (a, r)) : Proper a := by
  have hunsigned : ∀ {neg s}, scanUnsigned neg s = some (a, r) → Proper a := by
    intro neg s h
    obtain ⟨w, -, heq⟩ := Option.map_eq_some_iff.mp h
    rw [← (Prod.mk.inj heq).1]
    exact proper_number _ _ _ _
  cases s with
  | nil => cases h
  | cons c s =>
    rw [scanNumber] at h
    split_ifs at h
    · exact hunsigned h
    · exact hunsigned h

theorem properMembers_setEntry {k : String} {a : Json} (ha : Proper a) : ∀ {l : List (String × Json)},
    ProperMembers l → ProperMembers (Dict.setEntry k a l)
  | [], _ => ⟨ha, trivial⟩
  | e :: l, hl => by
    unfold Dict.setEntry
    split_ifs
    · exact ⟨ha, hl.2⟩
    · exact ⟨hl.1, properMembers_setEntry ha hl.2⟩

theorem properMembers_ofList {l : List (String × Json)} (hl : ProperMembers l) :
    ProperMembers (Dict.ofList l).entries := by
  have hfold : ∀ (l : List (String × Json)) (d : Dict String Json), ProperMembers l → ProperMembers d.entries →
      ProperMembers (l.foldl (fun d e => d.set e.1 e.2) d).entries := by
    intro l
    induction l with
    | nil => exact fun d _ hd => hd
    | cons e l ih => exact fun d hl hd => ih _ hl.2 (properMembers_setEntry hl.1 hd)
  exact hfold l .empty hl trivial

theorem proper_ofDict {d : Dict String Json} (h : ProperMembers d.entries) : Proper (.ofDict d) := ⟨d.nodup, h⟩

/-- With fuel `n`: dictionaries are read without a key twice. -/
structure ReadsProper (n : ℕ) : Prop where
  once : ∀ {s r : List Char} {a : Json}, scanOnce n s = some (a, r) → Proper a
  items : ∀ {s r : List Char} {l : List Json}, scanItems n s = some (l, r) → ProperItems l
  members : ∀ {s r : List Char} {l : List (String × Json)}, scanMembers n s = some (l, r) → ProperMembers l

theorem ReadsProper.once_succ {n : ℕ} (ih : ReadsProper n) {s r : List Char} {a : Json}
    (h : scanOnce (n + 1) s = some (a, r)) : Proper a := by
  cases s with
  | nil => cases h
  | cons c s =>
    rw [scanOnce] at h
    split_ifs at h
    · obtain ⟨p, -, heq⟩ := Option.map_eq_some_iff.mp h
      obtain ⟨rfl, -⟩ := Prod.mk.inj heq
      trivial
    · obtain ⟨rfl, -⟩ := Prod.mk.inj (Option.some.inj h)
      exact ⟨List.nodup_nil, trivial⟩
    · obtain ⟨p, hp, heq⟩ := Option.map_eq_some_iff.mp h
      obtain ⟨rfl, -⟩ := Prod.mk.inj heq
      exact proper_ofDict (properMembers_ofList (ih.members hp))
    · obtain ⟨rfl, -⟩ := Prod.mk.inj (Option.some.inj h)
      trivial
    · obtain ⟨p, hp, heq⟩ := Option.map_eq_some_iff.mp h
      obtain ⟨rfl, -⟩ := Prod.mk.inj heq
      exact ih.items hp
    · rw [literal_eq h]
      trivial
    · rw [literal_eq h]
      trivial
    · rw [literal_eq h]
      trivial
    · exact scanNumber_proper h

theorem ReadsProper.items_succ {n : ℕ} (ih : ReadsProper n) {s r : List Char} {l : List Json}
    (h : scanItems (n + 1) s = some (l, r)) : ProperItems l := by
  rw [scanItems] at h
  obtain ⟨⟨a, r₁⟩, ha, h⟩ := Option.bind_eq_some_iff.mp h
  simp only at h
  split at h
  · cases h
  · split_ifs at h
    · obtain ⟨rfl, -⟩ := Prod.mk.inj (Option.some.inj h)
      exact ⟨ih.once ha, trivial⟩
    · obtain ⟨p, hp, heq⟩ := Option.map_eq_some_iff.mp h
      obtain ⟨rfl, -⟩ := Prod.mk.inj heq
      exact ⟨ih.once ha, ih.items hp⟩

theorem ReadsProper.members_succ {n : ℕ} (ih : ReadsProper n) {s r : List Char} {l : List (String × Json)}
    (h : scanMembers (n + 1) s = some (l, r)) : ProperMembers l := by
  cases s with
  | nil => cases h
  | cons q s =>
    rw [scanMembers] at h
    split_ifs at h
    obtain ⟨⟨k, r₀⟩, -, h⟩ := Option.bind_eq_some_iff.mp h
    simp only at h
    split at h
    · cases h
    · split_ifs at h
      obtain ⟨⟨a, r₁⟩, ha, h⟩ := Option.bind_eq_some_iff.mp h
      simp only at h
      split at h
      · cases h
      · split_ifs at h
        · obtain ⟨rfl, -⟩ := Prod.mk.inj (Option.some.inj h)
          exact ⟨ih.once ha, trivial⟩
        · obtain ⟨p, hp, heq⟩ := Option.map_eq_some_iff.mp h
          obtain ⟨rfl, -⟩ := Prod.mk.inj heq
          exact ⟨ih.once ha, ih.members hp⟩

theorem scan_proper : ∀ n, ReadsProper n
  | 0 => ⟨nofun, nofun, nofun⟩
  | n + 1 =>
    have ih := scan_proper n
    ⟨ih.once_succ, ih.items_succ, ih.members_succ⟩

theorem loads_proper {s : List Char} {j : Json} (h : loads s = some j) : Proper j := by
  obtain ⟨⟨a, r⟩, ha, h⟩ := Option.bind_eq_some_iff.mp h
  simp only at h
  split_ifs at h
  obtain rfl := Option.some.inj h
  exact (scan_proper _).once ha

end JsonText
end LocaiLink
