/-
# Placeholders at set-up

The launcher writes the first config, and resolves the markers of the identity
in it as the runtime will: `resolve_config_templates` of `setup.rs` against
`resolve_templates` of `config/templating.py`. Both find the same markers;
`templates_agree_iff` says that they differ where a marker names an object, which
one writes as Python and the other as JSON.
-/
import LocaiLink.Base.JsonPath
import LocaiLink.Runtime.Templating

namespace LocaiLink.Launcher.Setup

open Templating

/-! ### The launcher's templates -/

/-- A character in a JSON string. -/
def quotedChar (c : Char) : List Char :=
  if c = '"' ∨ c = '\\' then ['\\', c]
  else if c = '\n' then ['\\', 'n']
  else if c = '\r' then ['\\', 'r']
  else if c = '\t' then ['\\', 't']
  else if c = '\x0c' then ['\\', 'f']
  else if c = '\x08' then ['\\', 'b']
  else if c.toNat < 0x20 then JsonText.unicode c.toNat
  else [c]

def quoted (s : List Char) : List Char := '"' :: s.flatMap quotedChar ++ ['"']

mutual

/-- `Value::to_string`, of a value with the members of its objects in order. -/
def compact : Json → List Char
  | .null => "null".toList
  | .bool true => "true".toList
  | .bool false => "false".toList
  | .int n => Text.int n
  | .float x => Text.flt x
  | .str s => quoted s.toList
  | .arr l => '[' :: [','].intercalate (compactItems l) ++ [']']
  | .obj l => '\x7b' :: [','].intercalate (compactMembers l) ++ ['\x7d']

def compactItems : List Json → List (List Char)
  | [] => []
  | a :: l => compact a :: compactItems l

def compactMembers : List (String × Json) → List (List Char)
  | [] => []
  | (k, a) :: l => (quoted k.toList ++ ':' :: compact a) :: compactMembers l

end

/-- `lookup_context_path`; a map has its members by key. -/
def lookupContextPath (context : Json) (path : List Char) : Option (List Char) :=
  match walk context (Text.split '.' path) with
  | none => none
  | some .null => none
  | some (.str s) => some s.toList
  | some other => some (compact (Json.sortKeys other))

/-- What is before the first opening of a marker, and after it. -/
def findOpen : List Char → Option (List Char × List Char)
  | [] => none
  | c :: rest =>
    if c = '$' ∧ rest.head? = some '\x7b' then some ([], rest.tail)
    else (findOpen rest).map fun p => (c :: p.1, p.2)

/-- What is before the first closing brace, and after it. -/
def findClose : List Char → Option (List Char × List Char)
  | [] => none
  | c :: rest => if c = '\x7d' then some ([], rest) else (findClose rest).map fun p => (c :: p.1, p.2)

/-- The loop over the rest of the text; every turn takes a marker off it. -/
def resolveRest (context : Json) : ℕ → List Char → List Char
  | 0, rest => rest
  | n + 1, rest =>
    match findOpen rest with
    | none => rest
    | some (before, afterOpen) =>
      match findClose afterOpen with
      | none => before ++ '$' :: '\x7b' :: afterOpen
      | some (path, rest') => before ++ (lookupContextPath context path).getD (marker path) ++ resolveRest context n rest'

def resolveTemplateString (s : String) (context : Json) : String :=
  String.ofList (resolveRest context s.toList.length s.toList)

mutual

def resolveConfigTemplates (context : Json) : Json → Json
  | .str s => .str (resolveTemplateString s context)
  | .arr l => .arr (resolveItems context l)
  | .obj l => .obj (resolveMembers context l)
  | v => v

def resolveItems (context : Json) : List Json → List Json
  | [] => []
  | v :: l => resolveConfigTemplates context v :: resolveItems context l

def resolveMembers (context : Json) : List (String × Json) → List (String × Json)
  | [] => []
  | (k, v) :: l => (k, resolveConfigTemplates context v) :: resolveMembers context l

end

/-! ### Markers -/

/-- A text is made of characters and of the paths of markers. -/
inductive Piece
  | char (c : Char)
  | marker (path : List Char)
  deriving DecidableEq

/-- The pieces from left to right. The fuel is the length of the text. -/
def pieces : ℕ → List Char → List Piece
  | 0, l => l.map .char
  | _, [] => []
  | n + 1, c :: l =>
    if c = '$' ∧ l.head? = some '\x7b' then
      match group l.tail with
      | some (path, rest) => .marker path :: pieces n rest
      | none => .char c :: pieces n l
    else .char c :: pieces n l

def piecesOf (l : List Char) : List Piece := pieces l.length l

/-- A piece with its marker replaced. -/
def Piece.text (f : List Char → List Char) : Piece → List Char
  | .char c => [c]
  | .marker path => f path

/-- The text with its markers replaced. -/
def fill (f : List Char → List Char) (l : List Char) : List Char := (piecesOf l).flatMap (Piece.text f)

mutual

/-- A string of the value has the marker. -/
def HasMarker (path : List Char) : Json → Prop
  | .str s => .marker path ∈ piecesOf s.toList
  | .arr l => ItemHasMarker path l
  | .obj l => MemberHasMarker path l
  | _ => False

def ItemHasMarker (path : List Char) : List Json → Prop
  | [] => False
  | v :: l => HasMarker path v ∨ ItemHasMarker path l

def MemberHasMarker (path : List Char) : List (String × Json) → Prop
  | [] => False
  | (_, v) :: l => HasMarker path v ∨ MemberHasMarker path l

end

mutual

/-- Objects whose leaves are strings. -/
def Texts : Json → Prop
  | .str _ => True
  | .obj l => TextsMembers l
  | _ => False

def TextsMembers : List (String × Json) → Prop
  | [] => True
  | (_, v) :: l => Texts v ∧ TextsMembers l

end

/-- The path names an object that has members. -/
def NamesObject (context : Json) (path : List Char) : Prop :=
  ∃ e l, walk context (Text.split '.' path) = some (.obj (e :: l))

/-! ### The pieces of a text -/

theorem findClose_length : ∀ {l p r : List Char}, findClose l = some (p, r) → r.length < l.length
  | [], _, _, h => by cases h
  | c :: l, p, r, h => by
    unfold findClose at h
    split_ifs at h
    · simp_all
    · obtain ⟨q, hq, he⟩ := Option.map_eq_some_iff.mp h
      have ih := findClose_length (p := q.1) (r := q.2) hq
      obtain rfl : q.2 = r := congrArg Prod.snd he
      simp only [List.length_cons]
      omega

/-- The pattern finds what the search for a brace finds, if something is before it. -/
theorem group_cons {c : Char} (hc : c ≠ '\x7d') : ∀ l : List Char,
    group (c :: l) = (findClose l).map fun p => (c :: p.1, p.2)
  | [] => by simp [group, findClose, hc]
  | d :: l => by
    by_cases hd : d = '\x7d'
    · subst hd
      simp [group, findClose, hc]
    · have ih := group_cons hd l
      rw [group.eq_def]
      simp only [if_neg hc, findClose, if_neg hd, ih]
      split
      · simp_all
      · simp_all [group_cons hd l, Function.comp_def]

theorem group_length {l p r : List Char} (h : group l = some (p, r)) : r.length < l.length := by
  cases l with
  | nil => cases h
  | cons c l =>
    have hc : c ≠ '\x7d' := by
      rintro rfl
      cases h
    rw [group_cons hc] at h
    obtain ⟨q, hq, he⟩ := Option.map_eq_some_iff.mp h
    have hlen := findClose_length (p := q.1) (r := q.2) hq
    obtain rfl : q.2 = r := congrArg Prod.snd he
    simp only [List.length_cons]
    omega

theorem pieces_fuel : ∀ {n m : ℕ} {l : List Char}, l.length ≤ n → l.length ≤ m → pieces n l = pieces m l
  | 0, m, l, hn, _ => by
    obtain rfl : l = [] := List.length_eq_zero_iff.mp (by omega)
    cases m <;> rfl
  | n + 1, 0, l, _, hm => by
    obtain rfl : l = [] := List.length_eq_zero_iff.mp (by omega)
    rfl
  | n + 1, m + 1, [], _, _ => rfl
  | n + 1, m + 1, c :: l, hn, hm => by
    simp only [List.length_cons] at hn hm
    have ih : pieces n l = pieces m l := pieces_fuel (by omega) (by omega)
    unfold pieces
    rw [ih]
    split_ifs
    · split
      · rename_i path rest hg
        have hrest := group_length hg
        have htail : l.tail.length ≤ l.length := by simp
        rw [pieces_fuel (n := n) (m := m) (by omega) (by omega)]
      · rfl
    · rfl

@[simp] theorem fill_nil (f : List Char → List Char) : fill f [] = [] := rfl

theorem fill_char (f : List Char → List Char) {c : Char} {l : List Char}
    (h : c = '$' → l.head? = some '\x7b' → group l.tail = none) : fill f (c :: l) = c :: fill f l := by
  have hp : piecesOf (c :: l) = .char c :: piecesOf l := by
    rw [piecesOf, List.length_cons, pieces]
    split_ifs with hc
    · rw [h hc.1 hc.2]
      rfl
    · rfl
  simp only [fill, hp, List.flatMap_cons, Piece.text, List.singleton_append]

theorem fill_marker (f : List Char → List Char) {l path rest : List Char} (h : group l = some (path, rest)) :
    fill f ('$' :: '\x7b' :: l) = f path ++ fill f rest := by
  have hrest := group_length h
  have hp : piecesOf ('$' :: '\x7b' :: l) = .marker path :: piecesOf rest := by
    rw [piecesOf, List.length_cons, List.length_cons, pieces, if_pos ⟨rfl, rfl⟩, List.tail_cons, h, piecesOf]
    simp only
    rw [pieces_fuel (m := rest.length) (by omega) le_rfl]
  simp only [fill, hp, List.flatMap_cons, Piece.text]

theorem findClose_of_not_mem : ∀ {l : List Char}, '\x7d' ∉ l → findClose l = none
  | [], _ => rfl
  | c :: l, h => by
    rw [List.mem_cons, not_or] at h
    rw [findClose, if_neg (Ne.symm h.1), findClose_of_not_mem h.2]
    rfl

theorem not_mem_of_findClose : ∀ {l : List Char}, findClose l = none → '\x7d' ∉ l
  | [], _ => List.not_mem_nil
  | c :: l, h => by
    unfold findClose at h
    split_ifs at h with hc
    rw [List.mem_cons, not_or]
    exact ⟨Ne.symm hc, not_mem_of_findClose (Option.map_eq_none_iff.mp h)⟩

theorem group_of_not_mem {l : List Char} (h : '\x7d' ∉ l) : group l = none := by
  cases l with
  | nil => rfl
  | cons c l =>
    rw [List.mem_cons, not_or] at h
    rw [group_cons (Ne.symm h.1), findClose_of_not_mem h.2]
    rfl

/-- The pattern does not match where the search finds nothing between the braces. -/
theorem group_of_findClose {l path rest : List Char} (h : findClose l = some (path, rest)) :
    path = [] ∧ l = '\x7d' :: rest ∨ group l = some (path, rest) := by
  cases l with
  | nil => cases h
  | cons c l =>
    by_cases hc : c = '\x7d'
    · subst hc
      obtain ⟨rfl, rfl⟩ : [] = path ∧ l = rest := by simpa [findClose] using h
      exact .inl ⟨rfl, rfl⟩
    · rw [group_cons hc]
      rw [findClose, if_neg hc] at h
      exact .inr h

/-- Without a closing brace there is no marker. -/
theorem fill_of_not_mem (f : List Char → List Char) : ∀ {l : List Char}, '\x7d' ∉ l → fill f l = l
  | [], _ => rfl
  | c :: l, h => by
    rw [List.mem_cons, not_or] at h
    have htail : '\x7d' ∉ l.tail := fun hm => h.2 (List.mem_of_mem_tail hm)
    rw [fill_char f fun _ _ => group_of_not_mem htail, fill_of_not_mem f h.2]

/-- The empty marker stays as it is. -/
theorem fill_empty (f : List Char → List Char) (l : List Char) :
    fill f ('$' :: '\x7b' :: '\x7d' :: l) = marker [] ++ fill f l := by
  have hbrace (c : Char) (hc : c ≠ '$') (l : List Char) : fill f (c :: l) = c :: fill f l :=
    fill_char f fun h => absurd h hc
  rw [fill_char f fun _ _ => rfl, hbrace '\x7b' (by decide), hbrace '\x7d' (by decide)]
  rfl

/-- Where no marker begins there is none. -/
theorem fill_of_findOpen_none (f : List Char → List Char) : ∀ {l : List Char}, findOpen l = none → fill f l = l
  | [], _ => rfl
  | c :: l, h => by
    unfold findOpen at h
    split_ifs at h with hc
    have ih := fill_of_findOpen_none f (Option.map_eq_none_iff.mp h)
    rw [fill_char f fun h₁ h₂ => absurd ⟨h₁, h₂⟩ hc, ih]

/-- What the search for a marker passes by is text. -/
theorem fill_of_findOpen (f : List Char → List Char) : ∀ {l before after : List Char}, findOpen l = some (before, after) →
    after.length < l.length ∧ fill f l = before ++ fill f ('$' :: '\x7b' :: after)
  | [], _, _, h => by cases h
  | c :: l, before, after, h => by
    unfold findOpen at h
    split_ifs at h with hc
    · obtain ⟨rfl, hhead⟩ := hc
      obtain ⟨rfl, rfl⟩ : [] = before ∧ l.tail = after := by simpa using h
      obtain ⟨rest, rfl⟩ : ∃ rest, l = '\x7b' :: rest := ⟨l.tail, (List.cons_head?_tail hhead).symm⟩
      exact ⟨by simp only [List.tail_cons, List.length_cons]; omega, rfl⟩
    · obtain ⟨⟨b, a⟩, hfind, he⟩ := Option.map_eq_some_iff.mp h
      obtain ⟨rfl, rfl⟩ : c :: b = before ∧ a = after := by simpa using he
      obtain ⟨hlen, hfill⟩ := fill_of_findOpen f hfind
      rw [fill_char f fun h₁ h₂ => absurd ⟨h₁, h₂⟩ hc, hfill]
      exact ⟨by simp only [List.length_cons]; omega, rfl⟩

/-! ### The two resolvers -/

/-- The runtime's resolver fills the markers in. -/
theorem subst_eq (context : Json) : ∀ (n : ℕ) (l : List Char),
    subst context n l = (pieces n l).flatMap (Piece.text (Templating.lookup context))
  | 0, l => by
    rw [subst, pieces, List.flatMap_map]
    exact (List.flatMap_singleton' l).symm
  | n + 1, [] => rfl
  | n + 1, c :: l => by
    have ih := subst_eq context n
    unfold subst pieces
    split
    · rename_i rest
      rw [if_pos ⟨rfl, rfl⟩, List.tail_cons]
      cases hg : group rest with
      | none => exact congrArg ('$' :: ·) (ih _)
      | some g => exact congrArg (Templating.lookup context g.1 ++ ·) (ih _)
    · rename_i hne
      rw [if_neg, ih]
      · rfl
      · rintro ⟨rfl, hhead⟩
        exact hne l.tail rfl (List.cons_head?_tail hhead).symm

theorem resolveString_eq (context : Json) (s : String) :
    resolveString context s = String.ofList (fill (Templating.lookup context) s.toList) :=
  congrArg String.ofList (subst_eq context _ _)

/-- What the launcher puts for a marker. -/
def expand (context : Json) (path : List Char) : List Char := (lookupContextPath context path).getD (marker path)

/-- The launcher's loop fills the markers in, if the empty one names nothing. -/
theorem resolveRest_eq {context : Json} (h : expand context [] = marker []) : ∀ {n : ℕ} {l : List Char}, l.length ≤ n →
    resolveRest context n l = fill (expand context) l
  | 0, l, hn => by
    obtain rfl : l = [] := List.length_eq_zero_iff.mp (by omega)
    rfl
  | n + 1, l, hn => by
    unfold resolveRest
    split
    · rename_i hopen
      exact (fill_of_findOpen_none _ hopen).symm
    · rename_i before after hopen
      obtain ⟨hlen, hfill⟩ := fill_of_findOpen (expand context) hopen
      rw [hfill]
      split
      · rename_i hclose
        have hno : '\x7d' ∉ '$' :: '\x7b' :: after := by
          have hafter := not_mem_of_findClose hclose
          simp [hafter]
        rw [fill_of_not_mem _ hno]
      · rename_i path rest hclose
        have hrest := findClose_length hclose
        have ih := resolveRest_eq h (n := n) (l := rest) (by omega)
        rw [ih, List.append_assoc]
        refine congrArg (before ++ ·) ?_
        show expand context path ++ fill (expand context) rest = _
        rcases group_of_findClose hclose with ⟨rfl, rfl⟩ | hgroup
        · rw [fill_empty, h]
        · exact (fill_marker _ hgroup).symm

/-! ### Texts that cannot be mistaken -/

/-- Neither is the other's beginning. -/
def Apart (x y : List Char) : Prop := ¬x <+: y ∧ ¬y <+: x

theorem Apart.append_ne {x y : List Char} (h : Apart x y) (a b : List Char) : x ++ a ≠ y ++ b := fun he => by
  have hx : x <+: y ++ b := ⟨a, he⟩
  rcases List.prefix_or_prefix_of_prefix hx (List.prefix_append y b) with h' | h'
  · exact h.1 h'
  · exact h.2 h'

theorem Apart.cons {x y : List Char} (c : Char) (h : Apart x y) : Apart (c :: x) (c :: y) :=
  ⟨fun h' => h.1 (List.cons_prefix_cons.mp h').2, fun h' => h.2 (List.cons_prefix_cons.mp h').2⟩

theorem apart_of_ne {c d : Char} (h : c ≠ d) (x y : List Char) : Apart (c :: x) (d :: y) :=
  ⟨fun h' => h (List.cons_prefix_cons.mp h').1, fun h' => h (List.cons_prefix_cons.mp h').1.symm⟩

/-- Expansions that are alike or apart give the same text only where all are alike. -/
theorem flatMap_text_eq_iff {f g : List Char → List Char} (h : ∀ path, f path = g path ∨ Apart (f path) (g path)) :
    ∀ ps : List Piece, ps.flatMap (Piece.text f) = ps.flatMap (Piece.text g) ↔ ∀ path, .marker path ∈ ps → f path = g path
  | [] => by simp
  | .char c :: ps => by
    have ih := flatMap_text_eq_iff h ps
    simpa [Piece.text] using ih
  | .marker path :: ps => by
    have ih := flatMap_text_eq_iff h ps
    rw [List.flatMap_cons, List.flatMap_cons]
    rcases h path with heq | hapart
    · simp only [Piece.text, heq, List.append_cancel_left_eq, ih, List.mem_cons]
      refine ⟨fun h' p hp => ?_, fun h' p hp => h' p (.inr hp)⟩
      rcases hp with hp | hp
      · obtain rfl := Piece.marker.inj hp
        exact heq
      · exact h' p hp
    · refine iff_of_false (hapart.append_ne _ _) fun h' => ?_
      have hsame := h' path List.mem_cons_self
      exact hapart.1 (hsame ▸ List.prefix_rfl)

/-- What follows the closing quote of a string, after its opening one; a character
that a backslash stands before closes nothing. -/
def afterString : Bool → List Char → Option (List Char)
  | _, [] => none
  | true, _ :: l => afterString false l
  | false, c :: l => if c = '"' then some l else afterString (c = '\\') l

/-- The characters are inside the string. -/
def Inside (x : List Char) : Prop := ∀ r, afterString false (x ++ r) = afterString false r

theorem inside_nil : Inside [] := fun _ => rfl

theorem Inside.append {x y : List Char} (hx : Inside x) (hy : Inside y) : Inside (x ++ y) := fun r => by
  rw [List.append_assoc, hx, hy]

theorem inside_char {c : Char} (h : c ≠ '"') (h' : c ≠ '\\') : Inside [c] := fun r => by
  rw [List.singleton_append, afterString, if_neg h, decide_eq_false h']

theorem inside_escape (c : Char) : Inside ['\\', c] := fun _ => rfl

theorem inside_flatMap {f : Char → List Char} {s : List Char} (h : ∀ c ∈ s, Inside (f c)) : Inside (s.flatMap f) := by
  induction s with
  | nil => exact inside_nil
  | cons c s ih => exact (h c List.mem_cons_self).append (ih fun d hd => h d (List.mem_cons_of_mem c hd))

theorem inside_of_plain {x : List Char} (h : ∀ c ∈ x, c ≠ '"' ∧ c ≠ '\\') : Inside x := by
  have hflat := inside_flatMap (f := fun c => [c]) fun c hc => inside_char (h c hc).1 (h c hc).2
  rwa [List.flatMap_singleton'] at hflat

theorem digitChar_plain (n : ℕ) : Nat.digitChar n ≠ '"' ∧ Nat.digitChar n ≠ '\\' := by
  by_cases hn : n < 16
  · have hdigits : ∀ m < 16, Nat.digitChar m ≠ '"' ∧ Nat.digitChar m ≠ '\\' := by decide
    exact hdigits n hn
  · have hstar : Nat.digitChar n = '*' := by
      unfold Nat.digitChar
      simp only [show n ≠ 0 by omega, show n ≠ 1 by omega, show n ≠ 2 by omega, show n ≠ 3 by omega, show n ≠ 4 by omega,
        show n ≠ 5 by omega, show n ≠ 6 by omega, show n ≠ 7 by omega, show n ≠ 8 by omega, show n ≠ 9 by omega,
        show n ≠ 10 by omega, show n ≠ 11 by omega, show n ≠ 12 by omega, show n ≠ 13 by omega, show n ≠ 14 by omega,
        show n ≠ 15 by omega, if_false]
    simp [hstar]

theorem toDigits_plain (n : ℕ) : ∀ c ∈ Nat.toDigits 16 n, c ≠ '"' ∧ c ≠ '\\' := by
  induction n using Nat.strong_induction_on with
  | _ n ih =>
    intro c hc
    by_cases hn : n < 16
    · rw [Nat.toDigits_of_lt_base hn, List.mem_singleton] at hc
      exact hc ▸ digitChar_plain n
    · rw [Nat.toDigits_of_base_le (by decide) (by omega), List.mem_append, List.mem_singleton] at hc
      rcases hc with hc | rfl
      · exact ih (n / 16) (by omega) c hc
      · exact digitChar_plain _

theorem inside_hex (n : ℕ) : Inside (Text.hex 2 n) := by
  refine inside_of_plain fun c hc => ?_
  rcases List.mem_append.mp hc with hc | hc
  · obtain rfl := List.eq_of_mem_replicate hc
    decide
  · exact toDigits_plain n c hc

theorem inside_hex4 (n : ℕ) : Inside (JsonText.hex4 n) := by
  refine inside_of_plain fun c hc => ?_
  obtain ⟨d, -, rfl⟩ := List.mem_map.mp hc
  exact digitChar_plain d

/-- A character that Python writes between double quotes. -/
theorem inside_reprChar {c : Char} (h : c ≠ '"') : Inside (Text.reprChar '"' c) := by
  unfold Text.reprChar
  split_ifs with h₁ h₂ h₃ h₄ h₅
  · exact inside_escape c
  · exact inside_escape 'n'
  · exact inside_escape 'r'
  · exact inside_escape 't'
  · rw [not_or] at h₁
    exact inside_char h h₁.2
  · exact (inside_escape 'x').append (inside_hex c.toNat)

theorem inside_quotedChar (c : Char) : Inside (quotedChar c) := by
  unfold quotedChar
  split_ifs with h₁
  · exact inside_escape c
  · exact inside_escape 'n'
  · exact inside_escape 'r'
  · exact inside_escape 't'
  · exact inside_escape 'f'
  · exact inside_escape 'b'
  · exact (inside_escape 'u').append (inside_hex4 c.toNat)
  · rw [not_or] at h₁
    exact inside_char h₁.1 h₁.2

/-- Two keys with something else after the colon. -/
theorem apart_of_inside {x y : List Char} (hx : Inside x) (hy : Inside y) {c d : Char} (h : c ≠ d) (a b : List Char) :
    Apart (x ++ '"' :: ':' :: c :: a) (y ++ '"' :: ':' :: d :: b) := by
  have hafter {z : List Char} (hz : Inside z) (r : List Char) : afterString false (z ++ '"' :: r) = some r := by
    rw [hz]
    rfl
  refine ⟨fun ⟨t, ht⟩ => ?_, fun ⟨t, ht⟩ => ?_⟩
  · have hread := congrArg (afterString false) ht
    rw [List.append_assoc, List.cons_append, hafter hx, hafter hy] at hread
    simp_all
  · have hread := congrArg (afterString false) ht
    rw [List.append_assoc, List.cons_append, hafter hx, hafter hy] at hread
    simp_all

/-! ### What a marker is replaced by -/

theorem texts_of_mem : ∀ {l : List (String × Json)}, TextsMembers l → ∀ e ∈ l, Texts e.2
  | [], _, _, he => absurd he List.not_mem_nil
  | a :: l, h, e, he => by
    rcases List.mem_cons.mp he with rfl | he
    · exact h.1
    · exact texts_of_mem h.2 e he

theorem texts_walk : ∀ {parts : List (List Char)} {node v : Json}, Texts node → walk node parts = some v → Texts v
  | [], _, _, hnode, h => Option.some.inj h ▸ hnode
  | part :: parts, node, v, hnode, h => by
    obtain ⟨child, hchild, hwalk⟩ := Option.bind_eq_some_iff.mp h
    refine texts_walk ?_ hwalk
    cases node with
    | obj l => exact texts_of_mem hnode _ (Dict.mem_of_lookup hchild)
    | _ => cases hchild

/-- Python writes a blank after the colon of the first member. -/
theorem repr_obj (k : String) (a : Json) (l : List (String × Json)) :
    ∃ x, Text.repr (.obj ((k, a) :: l)) = '\x7b' :: (Text.reprStr k.toList ++ ':' :: ' ' :: x) := by
  have hsep (x : List Char) (l : List (List Char)) : ∃ y, Text.commaSep (x :: l) = x ++ y := by
    cases l with
    | nil => exact ⟨[], (List.append_nil x).symm⟩
    | cons y l => exact ⟨_, List.append_assoc x _ _⟩
  obtain ⟨y, hy⟩ := hsep (Text.reprStr k.toList ++ ": ".toList ++ Text.repr a) (Text.reprObj l)
  refine ⟨Text.repr a ++ y ++ ['\x7d'], ?_⟩
  rw [Text.repr, Text.reprObj, hy]
  simp

theorem compact_texts {v : Json} (h : Texts v) : ∃ c x, compact (Json.sortKeys v) = c :: x ∧ c ≠ ' ' := by
  cases v with
  | str s => exact ⟨'"', _, rfl, by decide⟩
  | obj l => exact ⟨'\x7b', _, rfl, by decide⟩
  | _ => exact h.elim

theorem mem_sortValues : ∀ {l : List (String × Json)} {e : String × Json}, e ∈ Json.sortValues l →
    ∃ v, (e.1, v) ∈ l ∧ e.2 = Json.sortKeys v
  | [], _, h => absurd h List.not_mem_nil
  | (k, v) :: l, e, h => by
    rcases List.mem_cons.mp h with rfl | h
    · exact ⟨v, List.mem_cons_self, rfl⟩
    · obtain ⟨v, hv, he⟩ := mem_sortValues h
      exact ⟨v, List.mem_cons_of_mem _ hv, he⟩

/-- In JSON the value of the first member follows its colon. -/
theorem compact_obj {l : List (String × Json)} (hne : l ≠ []) (h : TextsMembers l) : ∃ k c x, c ≠ ' ' ∧
    compact (Json.sortKeys (.obj l)) = '\x7b' :: (quoted k ++ ':' :: c :: x) := by
  have hperm := List.perm_insertionSort (fun a b : String × Json => a.1 ≤ b.1) (Json.sortValues l)
  have hlen : (Json.sortValues l).length = l.length := by
    simpa using congrArg List.length (Json.keys_sortValues l)
  obtain ⟨e, l', hsorted⟩ : ∃ e l', Json.sortMembers (Json.sortValues l) = e :: l' := by
    refine List.exists_cons_of_ne_nil fun hnil => hne (List.length_eq_zero_iff.mp ?_)
    rw [← hlen, ← hperm.length_eq]
    exact congrArg List.length hnil
  obtain ⟨v, hv, hval⟩ := mem_sortValues (hperm.mem_iff.mp (hsorted ▸ List.mem_cons_self))
  obtain ⟨c, x, hx, hc⟩ := compact_texts (texts_of_mem h _ hv)
  have hjoin (x : List Char) (l : List (List Char)) : ∃ y, [','].intercalate (x :: l) = x ++ y := by
    cases l with
    | nil => exact ⟨[], by simp⟩
    | cons y l => exact ⟨_, by rw [List.intercalate_cons_cons, List.append_assoc]⟩
  obtain ⟨y, hy⟩ := hjoin (quoted e.1.toList ++ ':' :: compact e.2) (compactMembers l')
  refine ⟨e.1.toList, c, x ++ y ++ ['\x7d'], hc, ?_⟩
  rw [Json.sortKeys, compact, hsorted, compactMembers, hy, hval, hx]
  simp

/-- An object with members has one text in Python and another as JSON. -/
theorem apart_object {e : String × Json} {l : List (String × Json)} (h : TextsMembers (e :: l)) :
    Apart (Text.repr (.obj (e :: l))) (compact (Json.sortKeys (.obj (e :: l)))) := by
  obtain ⟨x, hx⟩ := repr_obj e.1 e.2 l
  obtain ⟨k, c, y, hc, hy⟩ := compact_obj (List.cons_ne_nil e l) h
  rw [hy]
  refine hx ▸ Apart.cons _ ?_
  rw [Text.reprStr, quoted]
  by_cases hquote : '\'' ∈ e.1.toList ∧ '"' ∉ e.1.toList
  · have hkey : Inside (e.1.toList.flatMap (Text.reprChar '"')) :=
      inside_flatMap fun d hd => inside_reprChar fun hdq => hquote.2 (hdq ▸ hd)
    have hkey' : Inside (k.flatMap quotedChar) := inside_flatMap fun d _ => inside_quotedChar d
    have hapart := (apart_of_inside hkey hkey' hc.symm x y).cons '"'
    simpa only [if_pos hquote, List.cons_append, List.append_assoc, List.nil_append] using hapart
  · simp only [if_neg hquote, List.cons_append]
    exact apart_of_ne (by decide) _ _

theorem expand_cases {context : Json} (h : Texts context) (path : List Char) :
    (NamesObject context path → Apart (Templating.lookup context path) (expand context path)) ∧
      (¬NamesObject context path → Templating.lookup context path = expand context path) := by
  unfold Templating.lookup expand lookupContextPath NamesObject
  cases hwalk : walk context (Text.split '.' path) with
  | none => exact ⟨fun ⟨_, _, hv⟩ => (nomatch hv), fun _ => rfl⟩
  | some v =>
    have hv := texts_walk h hwalk
    cases v with
    | str s => exact ⟨fun ⟨_, _, hv⟩ => (nomatch hv), fun _ => rfl⟩
    | obj l =>
      cases l with
      | nil => exact ⟨fun ⟨_, _, hv⟩ => (nomatch hv), fun _ => rfl⟩
      | cons e l => exact ⟨fun _ => apart_object hv, fun hno => absurd ⟨e, l, rfl⟩ hno⟩
    | _ => exact hv.elim

/-! ### Agreement -/

/-- The identity, as the config's markers name it. -/
def contextOf (identity : List (String × Json)) : Json := .obj [("identity", .obj identity)]

theorem expand_empty (identity : List (String × Json)) : expand (contextOf identity) [] = marker [] := rfl

variable {identity : List (String × Json)}

theorem strings_agree_iff (h : TextsMembers identity) (s : String) :
    resolveString (contextOf identity) s = resolveTemplateString s (contextOf identity) ↔
      ∀ path, .marker path ∈ piecesOf s.toList → ¬NamesObject (contextOf identity) path := by
  have hcontext : Texts (contextOf identity) := ⟨h, trivial⟩
  have hcases (path : List Char) : Templating.lookup (contextOf identity) path = expand (contextOf identity) path ∨
      Apart (Templating.lookup (contextOf identity) path) (expand (contextOf identity) path) := by
    by_cases hno : NamesObject (contextOf identity) path
    · exact .inr ((expand_cases hcontext path).1 hno)
    · exact .inl ((expand_cases hcontext path).2 hno)
  have hsame (path : List Char) : Templating.lookup (contextOf identity) path = expand (contextOf identity) path ↔
      ¬NamesObject (contextOf identity) path := by
    refine ⟨fun heq hno => ?_, (expand_cases hcontext path).2⟩
    exact ((expand_cases hcontext path).1 hno).1 (heq ▸ List.prefix_rfl)
  rw [resolveString_eq, resolveTemplateString, resolveRest_eq (expand_empty identity) le_rfl, String.ofList_inj]
  refine (flatMap_text_eq_iff hcases (piecesOf s.toList)).trans ?_
  exact forall_congr' fun path => forall_congr' fun _ => hsame path

mutual

theorem values_agree_iff (h : TextsMembers identity) : ∀ config : Json,
    resolveTemplates (contextOf identity) config = resolveConfigTemplates (contextOf identity) config ↔
      ∀ path, HasMarker path config → ¬NamesObject (contextOf identity) path
  | .str s => by
    have hs := strings_agree_iff h s
    simpa only [resolveTemplates, resolveConfigTemplates, Json.str.injEq, HasMarker] using hs
  | .arr l => by
    have hl := items_agree_iff h l
    simpa only [resolveTemplates, resolveConfigTemplates, Json.arr.injEq, HasMarker] using hl
  | .obj l => by
    have hl := members_agree_iff h l
    simpa only [resolveTemplates, resolveConfigTemplates, Json.obj.injEq, HasMarker] using hl
  | .null | .bool _ | .int _ | .float _ => iff_of_true rfl fun _ hm => hm.elim

theorem items_agree_iff (h : TextsMembers identity) : ∀ l : List Json,
    resolveArr (contextOf identity) l = resolveItems (contextOf identity) l ↔
      ∀ path, ItemHasMarker path l → ¬NamesObject (contextOf identity) path
  | [] => iff_of_true rfl fun _ hm => hm.elim
  | v :: l => by
    have hv := values_agree_iff h v
    have hl := items_agree_iff h l
    simp only [resolveArr, resolveItems, List.cons.injEq, hv, hl, ItemHasMarker, or_imp, forall_and]

theorem members_agree_iff (h : TextsMembers identity) : ∀ l : List (String × Json),
    resolveObj (contextOf identity) l = resolveMembers (contextOf identity) l ↔
      ∀ path, MemberHasMarker path l → ¬NamesObject (contextOf identity) path
  | [] => iff_of_true rfl fun _ hm => hm.elim
  | (k, v) :: l => by
    have hv := values_agree_iff h v
    have hl := members_agree_iff h l
    simp only [resolveObj, resolveMembers, List.cons.injEq, Prod.mk.injEq, true_and, hv, hl, MemberHasMarker, or_imp,
      forall_and]

end

theorem eq_of_findClose : ∀ {l p r : List Char}, findClose l = some (p, r) → l = p ++ '\x7d' :: r
  | [], _, _, h => by cases h
  | c :: l, p, r, h => by
    unfold findClose at h
    split_ifs at h with hc
    · obtain ⟨rfl, rfl⟩ : [] = p ∧ l = r := by simpa using h
      rw [hc]
      rfl
    · obtain ⟨⟨q, r'⟩, hq, he⟩ := Option.map_eq_some_iff.mp h
      obtain ⟨rfl, rfl⟩ : c :: q = p ∧ r' = r := by simpa using he
      rw [eq_of_findClose hq]
      rfl

theorem eq_of_group {l p r : List Char} (h : group l = some (p, r)) : l = p ++ '\x7d' :: r := by
  cases l with
  | nil => cases h
  | cons c l =>
    have hc : c ≠ '\x7d' := by
      rintro rfl
      cases h
    refine eq_of_findClose ?_
    rw [findClose, if_neg hc, ← group_cons hc]
    exact h

/-- The pieces are all of the text. -/
theorem pieces_marker : ∀ (n : ℕ) (l : List Char), (pieces n l).flatMap (Piece.text marker) = l
  | 0, l => by
    rw [pieces, List.flatMap_map]
    exact List.flatMap_singleton' l
  | n + 1, [] => rfl
  | n + 1, c :: l => by
    have ih := pieces_marker n
    unfold pieces
    split_ifs with hc
    · obtain ⟨rfl, hhead⟩ := hc
      obtain ⟨rest, rfl⟩ : ∃ rest, l = '\x7b' :: rest := ⟨l.tail, (List.cons_head?_tail hhead).symm⟩
      rw [List.tail_cons]
      cases hg : group rest with
      | none => exact congrArg ('$' :: ·) (ih _)
      | some g =>
        have hrest := eq_of_group hg
        conv_rhs => rw [hrest]
        simp only [List.flatMap_cons, Piece.text, ih, marker, List.cons_append, List.append_assoc, List.nil_append]
    · exact congrArg (c :: ·) (ih l)

/-- The second text is the first with no more than the markers replaced that name something. -/
def Preserved (context : Json) (s t : String) : Prop :=
  ∃ f, fill marker s.toList = s.toList ∧ t = String.ofList (fill f s.toList) ∧
    ∀ path, walk context (Text.split '.' path) = none → f path = marker path

/-- **The resolvers agree, exactly.** The launcher makes of a config what the
runtime makes of it, just if no marker in it names an object with members. Both
leave everything as it is but the markers that name something. -/
theorem templates_agree_iff (identity : List (String × Json)) (h : TextsMembers identity) (config : Json) :
    (resolveTemplates (contextOf identity) config = resolveConfigTemplates (contextOf identity) config ↔
      ∀ path, HasMarker path config → ¬NamesObject (contextOf identity) path) ∧
    ∀ s : String, Preserved (contextOf identity) s (resolveString (contextOf identity) s) ∧
      Preserved (contextOf identity) s (resolveTemplateString s (contextOf identity)) := by
  refine ⟨values_agree_iff h config, fun s => ⟨⟨Templating.lookup (contextOf identity), ?_⟩, ⟨expand (contextOf identity), ?_⟩⟩⟩
  · refine ⟨pieces_marker _ _, resolveString_eq _ s, fun path hnone => ?_⟩
    simp only [Templating.lookup, hnone]
  · refine ⟨pieces_marker _ _, ?_, fun path hnone => ?_⟩
    · rw [resolveTemplateString, resolveRest_eq (expand_empty identity) le_rfl]
    · simp only [expand, lookupContextPath, hnone, Option.getD_none]

/-- An identity, and a config that names it as a whole. -/
def someone : List (String × Json) := [("device_id", .str "d1")]

/-- A marker of the whole identity is written as Python's dict, and as JSON. -/
theorem templates_disagree : ∃ (identity : List (String × Json)) (config : Json), TextsMembers identity ∧
    resolveTemplates (contextOf identity) config ≠ resolveConfigTemplates (contextOf identity) config := by
  refine ⟨someone, .str "$\x7bidentity\x7d", ⟨trivial, trivial⟩, fun he => ?_⟩
  have hstr : resolveString (contextOf someone) "$\x7bidentity\x7d" = resolveTemplateString "$\x7bidentity\x7d" (contextOf someone) :=
    Json.str.inj he
  exact absurd hstr (by decide +kernel)

/-- A marker of the device's id, and one that is not closed. -/
theorem templates_agree_device : resolveTemplates (contextOf someone) (.str "$\x7bidentity.device_id\x7d/$\x7b") =
    resolveConfigTemplates (contextOf someone) (.str "$\x7bidentity.device_id\x7d/$\x7b") := by
  refine (templates_agree_iff someone ⟨trivial, trivial⟩ _).1.mpr fun path hpath => ?_
  have hpieces : piecesOf "$\x7bidentity.device_id\x7d/$\x7b".toList =
      [.marker "identity.device_id".toList, .char '/', .char '$', .char '\x7b'] := by
    decide +kernel
  have hmem : .marker path ∈ piecesOf "$\x7bidentity.device_id\x7d/$\x7b".toList := hpath
  rw [hpieces] at hmem
  obtain rfl : path = "identity.device_id".toList := by
    rcases List.mem_cons.mp hmem with hmem | hmem
    · exact Piece.marker.inj hmem
    · simp at hmem
  have hsplit : Text.split '.' "identity.device_id".toList = ["identity".toList, "device_id".toList] := by decide +kernel
  rintro ⟨e, l, hwalk⟩
  rw [hsplit] at hwalk
  cases hwalk

end LocaiLink.Launcher.Setup
