/-
# Looking a digest up

A release has one `checksums.txt` for all its assets. The updater reads it with
`_sha256_from_checksums` and the launcher with `find_checksum_entry`; they do not
cut lines and words at the same characters, and one takes one `./` off a name where
the other takes off all. `checksums_agree` says when the two find the same digest.
-/
import LocaiLink.Base.Cuts
import LocaiLink.Install.Disk

namespace LocaiLink.Install

/-! ### The two lookups -/

/-- `re.fullmatch(r"[0-9a-fA-F]{64}", token)` -/
def isDigest (token : List Char) : Bool := token.length = 64 && token.all Text.isHexDigit

/-- `name.removeprefix("./")` -/
def removeDot : List Char → List Char
  | '.' :: '/' :: name => name
  | name => name

/-- `name.trim_start_matches("./")` -/
def trimDots : List Char → List Char
  | '.' :: '/' :: name => trimDots name
  | name => name

/-- `token.lstrip("*")`, `token.trim_start_matches('*')` -/
def withoutStars (token : List Char) : List Char := token.dropWhile (· = '*')

/-- What a line says of an asset. -/
def sha256OnLine (assetName : String) (line : List Char) : Option (List Char) :=
  let tokens := Text.words line
  if tokens.length < 2 then none
  else
    let name := removeDot (withoutStars (tokens.getLastD []))
    if name = assetName.toList ∧ isDigest (tokens.headD []) then some (tokens.headD []) else none

/-- `_sha256_from_checksums` -/
def sha256FromChecksums (get : String → Except String String) (url assetName : String) : Except Error String :=
  match get url with
  | .error exc => .error ⟨.verifyFailed, s!"Could not fetch checksums from {url}: {exc}"⟩
  | .ok text =>
    match (Text.splitlines text.toList).findSome? (sha256OnLine assetName) with
    | some digest => .ok (String.ofList digest)
    | none => .error ⟨.verifyFailed, s!"No valid sha256 entry for {assetName} in {url}"⟩

/-- The entry of a line, if it is the asset's. -/
def entryOnLine (assetName : String) (line : List Char) : Option (List Char) :=
  match Text.wordsBy Text.isWhiteSpace line with
  | [] => none
  | hex :: tokens =>
    match tokens.getLast? with
    | none => none
    | some last =>
      if trimDots (withoutStars last) = assetName.toList ∧ hex.length = 64 ∧ hex.all Text.isHexDigit then some (Text.lower hex)
      else none

/-- `find_checksum_entry` -/
def findChecksumEntry (text assetName : String) : Option String :=
  ((Text.lines text.toList).findSome? (entryOnLine assetName)).map String.ofList

/-! ### Lines that both read alike -/

/-- Only one of the two cuts lines, or words, at the character. -/
def cutsOnce (c : Char) : Bool := (Text.endsLine c && c ≠ '\n') || (Text.isSpace c && !Text.isWhiteSpace c)

/-- The line without the carriage return at its end. -/
def body (line : List Char) : List Char := if line.getLast? = some '\r' then line.dropLast else line

/-- The name of an asset with one `./` too many in front, or one that itself begins so. -/
def Doubled (assetName : String) (name : List Char) : Prop :=
  ∃ rest, name = '.' :: '/' :: '.' :: '/' :: rest ∧
    (trimDots rest = assetName.toList ∨ '.' :: '/' :: rest = assetName.toList)

/-- A line that is cut alike, if it mentions the asset, and that names it in one way. -/
structure Plain (assetName : String) (line : List Char) : Prop where
  cut : assetName.toList <:+: line → ∀ c ∈ body line, cutsOnce c = false
  name : ∀ token ∈ (Text.words (body line)).getLast?, ¬Doubled assetName (withoutStars token)

/-- The line has a digest for the asset. -/
def Gives (assetName : String) (line : List Char) : Prop :=
  ∃ hex tokens last, Text.words (body line) = hex :: tokens ∧ last ∈ tokens.getLast? ∧ isDigest hex = true ∧
    trimDots (withoutStars last) = assetName.toList

/-- The lines are plain, up to the first that has a digest for the asset. -/
def Readable (assetName : String) : List (List Char) → Prop
  | [] => True
  | line :: lines => Plain assetName line ∧ (¬Gives assetName line → Readable assetName lines)

theorem removeDot_eq_iff {assetName : String} {name : List Char} (h : ¬Doubled assetName name) :
    removeDot name = assetName.toList ↔ trimDots name = assetName.toList := by
  unfold removeDot
  split
  · rename_i n
    rw [trimDots]
    unfold trimDots
    split
    · rename_i rest
      have hno := fun h' => h ⟨rest, rfl, h'⟩
      exact ⟨fun h' => absurd (.inr h') hno, fun h' => absurd (.inl h') hno⟩
    · rfl
  · rename_i hne
    rw [trimDots.eq_def]
    split
    · exact absurd rfl (hne _)
    · rfl

theorem removeDot_suffix (name : List Char) : removeDot name <:+ name := by
  unfold removeDot
  split
  · exact List.suffix_append ['.', '/'] _
  · exact List.suffix_refl _

theorem trimDots_suffix (name : List Char) : trimDots name <:+ name := by
  fun_induction trimDots name with
  | case1 name ih => exact ih.trans (List.suffix_append ['.', '/'] name)
  | case2 name => exact List.suffix_refl _

theorem withoutStars_suffix (token : List Char) : withoutStars token <:+ token := List.dropWhile_suffix _

/-- The lookups take a line by its words. -/
theorem sha256OnLine_cons {assetName : String} {line hex last : List Char} {tokens : List (List Char)}
    (h : Text.words line = hex :: tokens) (hlast : tokens.getLast? = some last) : sha256OnLine assetName line =
      if removeDot (withoutStars last) = assetName.toList ∧ isDigest hex = true then some hex else none := by
  obtain ⟨t, ts, rfl⟩ : ∃ t ts, tokens = t :: ts := List.exists_cons_of_ne_nil fun hnil => by simp [hnil] at hlast
  have hd : (hex :: t :: ts).getLastD [] = last := by simp_all [List.getLastD_eq_getLast?]
  simp only [sha256OnLine, h, hd, List.headD_cons, List.length_cons, if_neg (show ¬ts.length + 1 + 1 < 2 by omega)]

theorem entryOnLine_cons {assetName : String} {line hex last : List Char} {tokens : List (List Char)}
    (h : Text.wordsBy Text.isWhiteSpace line = hex :: tokens) (hlast : tokens.getLast? = some last) :
    entryOnLine assetName line =
      if trimDots (withoutStars last) = assetName.toList ∧ isDigest hex = true then some (Text.lower hex) else none := by
  simp only [entryOnLine, h, hlast, isDigest, Bool.and_eq_true, decide_eq_true_eq]

/-- A line of fewer than two words has no entry. -/
theorem sha256OnLine_short {assetName : String} {line : List Char} (h : (Text.words line).tail = []) :
    sha256OnLine assetName line = none := by
  have hlen : (Text.words line).length < 2 := by
    have htail := congrArg List.length h
    simp only [List.length_tail, List.length_nil] at htail
    omega
  simp only [sha256OnLine, if_pos hlen]

theorem entryOnLine_short {assetName : String} {line : List Char} (h : (Text.wordsBy Text.isWhiteSpace line).tail = []) :
    entryOnLine assetName line = none := by
  unfold entryOnLine
  split
  · rfl
  · rename_i hex tokens hwords
    obtain rfl : tokens = [] := by simpa [hwords] using h
    rfl

/-- A line by its words: there are fewer than two, or there are a first and a last. -/
theorem words_cases (words : List (List Char)) : words.tail = [] ∨
    ∃ hex tokens last, words = hex :: tokens ∧ tokens.getLast? = some last := by
  cases words with
  | nil => exact .inl rfl
  | cons hex tokens =>
    rcases List.eq_nil_or_concat tokens with rfl | ⟨init, last, rfl⟩
    · exact .inl rfl
    · exact .inr ⟨hex, init.concat last, last, rfl, by simp⟩

theorem infix_of_last {f : Char → Bool} {line hex last : List Char} {tokens : List (List Char)}
    (h : Text.wordsBy f line = hex :: tokens) (hlast : tokens.getLast? = some last) : last <:+: line :=
  Text.infix_of_mem_wordsBy (h ▸ List.mem_cons_of_mem hex (List.mem_of_getLast? hlast))

/-- A line that does not mention the asset has no entry for it. -/
theorem sha256OnLine_unmentioned {assetName : String} {line : List Char} (h : ¬assetName.toList <:+: line) :
    sha256OnLine assetName line = none := by
  rcases words_cases (Text.words line) with hshort | ⟨hex, tokens, last, hwords, hlast⟩
  · exact sha256OnLine_short hshort
  · rw [sha256OnLine_cons hwords hlast, if_neg]
    rintro ⟨hname, -⟩
    have hsuffix := (removeDot_suffix _).trans (withoutStars_suffix last)
    exact h (hname ▸ hsuffix.isInfix.trans (infix_of_last hwords hlast))

theorem entryOnLine_unmentioned {assetName : String} {line : List Char} (h : ¬assetName.toList <:+: line) :
    entryOnLine assetName line = none := by
  rcases words_cases (Text.wordsBy Text.isWhiteSpace line) with hshort | ⟨hex, tokens, last, hwords, hlast⟩
  · exact entryOnLine_short hshort
  · rw [entryOnLine_cons hwords hlast, if_neg]
    rintro ⟨hname, -⟩
    have hsuffix := (trimDots_suffix _).trans (withoutStars_suffix last)
    exact h (hname ▸ hsuffix.isInfix.trans (infix_of_last hwords hlast))

@[simp] theorem sha256OnLine_nil (assetName : String) : sha256OnLine assetName [] = none :=
  sha256OnLine_short (by simp [Text.words])

@[simp] theorem entryOnLine_nil (assetName : String) : entryOnLine assetName [] = none :=
  entryOnLine_short (by simp)

/-- A carriage return at the end is white space. -/
theorem entryOnLine_return (assetName : String) (line : List Char) :
    entryOnLine assetName (line ++ ['\r']) = entryOnLine assetName line := by
  have hwords : Text.wordsBy Text.isWhiteSpace (line ++ ['\r']) = Text.wordsBy Text.isWhiteSpace line := by
    rw [Text.wordsBy_append_sep (by decide)]
    simp
  simp only [entryOnLine, hwords]

/-- The line is its body, and a carriage return or nothing. -/
theorem body_cases (line : List Char) : line = body line ∨ line = body line ++ ['\r'] := by
  unfold body
  split_ifs with h
  · exact .inr (List.dropLast_append_getLast? '\r' h).symm
  · exact .inl rfl

theorem prefix_body (line : List Char) : body line <+: line := by
  rcases body_cases line with h | h
  · rw [← h]
  · exact ⟨['\r'], h.symm⟩

theorem entryOnLine_body (assetName : String) (line : List Char) :
    entryOnLine assetName (body line) = entryOnLine assetName line := by
  rcases body_cases line with h | h
  · rw [← h]
  · conv_rhs => rw [h]
    exact (entryOnLine_return assetName _).symm

/-- Nothing but its end cuts the line. -/
theorem findSome?_body {α : Type} {g : List Char → Option α} (hg : g [] = none) {line : List Char}
    (h : ∀ c ∈ body line, Text.endsLine c = false) : (Text.splitlines line).findSome? g = g (body line) := by
  obtain ⟨hbare, hreturn⟩ := Text.findSome?_go_clean hg (body line) [] h
  rcases body_cases line with hline | hline
  · conv_lhs => rw [hline]
    exact hbare
  · conv_lhs => rw [hline]
    exact hreturn

/-- The two take the same words alike, when the last names the asset in one way. -/
theorem onLine_alike {assetName : String} {line : List Char}
    (hwords : Text.words line = Text.wordsBy Text.isWhiteSpace line)
    (hname : ∀ token ∈ (Text.words line).getLast?, ¬Doubled assetName (withoutStars token)) :
    (sha256OnLine assetName line).map Text.lower = entryOnLine assetName line := by
  rcases words_cases (Text.words line) with hshort | ⟨hex, tokens, last, hcons, hlast⟩
  · rw [sha256OnLine_short hshort, entryOnLine_short (hwords ▸ hshort)]
    rfl
  · have hmem : last ∈ (Text.words line).getLast? := by
      rw [hcons, List.getLast?_cons, hlast]
      rfl
    rw [sha256OnLine_cons hcons hlast, entryOnLine_cons (hwords ▸ hcons) hlast]
    simp only [removeDot_eq_iff (hname last hmem)]
    split_ifs <;> rfl

theorem Plain.words {assetName : String} {line : List Char} (h : Plain assetName line) (hm : assetName.toList <:+: line) :
    Text.words (body line) = Text.wordsBy Text.isWhiteSpace (body line) := by
  refine Text.wordsBy_congr fun c hc => ?_
  have hcut := h.cut hm c hc
  rw [cutsOnce, Bool.or_eq_false_iff] at hcut
  cases hw : Text.isWhiteSpace c with
  | true => simp [Text.isSpace, hw]
  | false => simpa [hw] using hcut.2

/-- The two read a plain line alike. -/
theorem Plain.alike {assetName : String} {line : List Char} (h : Plain assetName line) (hline : '\n' ∉ line) :
    ((Text.splitlines line).findSome? (sha256OnLine assetName)).map Text.lower = entryOnLine assetName line := by
  by_cases hm : assetName.toList <:+: line
  · have hends (c : Char) (hc : c ∈ body line) : Text.endsLine c = false := by
      have hne : c ≠ '\n' := fun he => hline (he ▸ (prefix_body line).subset hc)
      have hcut := h.cut hm c hc
      simp_all [cutsOnce]
    rw [findSome?_body (sha256OnLine_nil assetName) hends, onLine_alike (h.words hm) h.name, entryOnLine_body]
  · have hnone : (Text.splitlines line).findSome? (sha256OnLine assetName) = none :=
      List.findSome?_eq_none_iff.mpr fun piece hp =>
        sha256OnLine_unmentioned fun hmention => hm (hmention.trans (Text.infix_of_mem_splitlines hp))
    rw [hnone, entryOnLine_unmentioned hm]
    rfl

/-- A plain line without an entry gives no digest. -/
theorem Plain.not_gives {assetName : String} {line : List Char} (h : Plain assetName line)
    (hnone : entryOnLine assetName line = none) : ¬Gives assetName line := by
  rintro ⟨hex, tokens, last, hwords, hlast, hdigest, hname⟩
  have hmention : assetName.toList <:+: line := by
    have hsuffix := (trimDots_suffix _).trans (withoutStars_suffix last)
    exact hname ▸ hsuffix.isInfix.trans ((infix_of_last hwords hlast).trans (prefix_body line).isInfix)
  have hentry : entryOnLine assetName (body line) = _ := entryOnLine_cons ((h.words hmention).symm.trans hwords) hlast
  rw [entryOnLine_body, hnone, if_pos ⟨hname, hdigest⟩] at hentry
  cases hentry

/-- The lookups agree on lines that are plain up to the first with a digest. -/
theorem Readable.alike {assetName : String} : ∀ {lines : List (List Char)}, (∀ line ∈ lines, '\n' ∉ line) →
    Readable assetName lines →
    (lines.findSome? fun line => (Text.splitlines line).findSome? (sha256OnLine assetName)).map Text.lower =
      lines.findSome? (entryOnLine assetName)
  | [], _, _ => rfl
  | line :: lines, hline, h => by
    have halike := h.1.alike (hline line List.mem_cons_self)
    rw [List.findSome?_cons, List.findSome?_cons]
    cases he : entryOnLine assetName line with
    | some hex =>
      obtain ⟨digest, hdigest, rfl⟩ := Option.map_eq_some_iff.mp (halike.trans he)
      rw [hdigest]
      rfl
    | none =>
      have hnone := Option.map_eq_none_iff.mp (halike.trans he)
      rw [hnone]
      exact Readable.alike (fun l hl => hline l (List.mem_cons_of_mem line hl)) (h.2 (h.1.not_gives he))

/-- A digest of 64 digits. -/
def digestHex : String := "0123456789abcdef0123456789ABCDEF0123456789abcdef0123456789ABCDEF"

/-- One file, summed up in binary mode. -/
def sums : String := digestHex ++ " *./a.tgz"

theorem readable_sums : Readable "a.tgz" (sums.toList.splitOn '\n') := by
  have hlines : sums.toList.splitOn '\n' = [sums.toList] := by decide +kernel
  have hlast : (Text.words (body sums.toList)).getLast? = some "*./a.tgz".toList := by decide +kernel
  have hcut : (body sums.toList).all (fun c => !cutsOnce c) = true := by decide +kernel
  rw [hlines]
  refine ⟨⟨fun _ c hc => by simpa using List.all_eq_true.mp hcut c hc, fun token htoken => ?_⟩, fun _ => trivial⟩
  obtain rfl : token = "*./a.tgz".toList := Option.some.inj (htoken.symm.trans hlast)
  rintro ⟨rest, hname, -⟩
  have hthird : (withoutStars "*./a.tgz".toList)[2]? = some '.' := by
    rw [hname]
    rfl
  exact absurd hthird (by decide +kernel)

end LocaiLink.Install
