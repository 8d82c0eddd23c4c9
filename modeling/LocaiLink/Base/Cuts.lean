/-
# Cutting texts

What the words and the lines of a text have to do with the text: they are stretches
of it, and a search through its lines is a search through what the line feeds leave,
line by line.
-/
import LocaiLink.Base.Lines

namespace LocaiLink
namespace Text

/-- The parts between separators are the library's. -/
theorem split_eq (sep : Char) : ∀ l : List Char, split sep l = l.splitOn sep
  | [] => rfl
  | c :: l => by
    have ih := split_eq sep l
    obtain ⟨p, ps, hp⟩ := List.exists_cons_of_ne_nil (List.splitOn_ne_nil sep l)
    rw [split, List.splitOn_cons_eq_if_modifyHead, ih, hp]
    simp only [beq_iff_eq, List.modifyHead_cons]

/-! ### Ends of lines, and white space at the ends -/

theorem universalNewlines_of_ne_cr : ∀ {l : List Char}, '\r' ∉ l → universalNewlines l = l
  | [], _ => by unfold universalNewlines; rfl
  | c :: l, h => by
    rw [List.mem_cons, not_or] at h
    have htail := universalNewlines_of_ne_cr h.2
    rw [universalNewlines, htail]
    · rintro l' rfl -
      exact h.1 rfl
    · rintro rfl
      exact h.1 rfl

theorem cr_not_mem_universalNewlines (l : List Char) : '\r' ∉ universalNewlines l := by
  fun_induction universalNewlines l with
  | case1 l ih => exact fun h => (List.mem_cons.mp h).elim (by decide) ih
  | case2 l hl ih => exact fun h => (List.mem_cons.mp h).elim (by decide) ih
  | case3 c l hpair hc ih => exact fun h => (List.mem_cons.mp h).elim (fun h => hc h.symm) ih
  | case4 => exact List.not_mem_nil

theorem stripBy_infix (f : Char → Bool) (l : List Char) : stripBy f l <:+: l :=
  (List.rdropWhile_prefix f _).isInfix.trans (List.dropWhile_suffix f).isInfix

/-- A text without white space at its ends starts with something else. -/
theorem dropWhile_of_stripBy {f : Char → Bool} {l : List Char} (h : stripBy f l = l) : l.dropWhile f = l := by
  refine (List.dropWhile_suffix f).eq_of_length ?_
  have hle := (List.rdropWhile_prefix f (l.dropWhile f)).length_le
  have hge := (List.dropWhile_suffix f (l := l)).length_le
  have heq : ((l.dropWhile f).rdropWhile f).length = l.length := congrArg List.length h
  omega

theorem stripBy_stripBy (f : Char → Bool) (l : List Char) : stripBy f (stripBy f l) = stripBy f l := by
  have hfront : (stripBy f l).dropWhile f = stripBy f l := by
    unfold stripBy
    obtain ⟨rest, hrest⟩ := List.rdropWhile_prefix f (l.dropWhile f)
    cases hs : (l.dropWhile f).rdropWhile f with
    | nil => rfl
    | cons c cs =>
      rw [hs, List.cons_append] at hrest
      have hc : ¬f c = true := by
        have hhead := List.head_dropWhile_not f (l := l) (by rw [← hrest]; simp)
        simpa [← hrest] using hhead
      rw [List.dropWhile_cons_of_neg hc]
  rw [stripBy, hfront]
  exact List.rdropWhile_idempotent f _

/-- White space that is added at the end goes again. -/
theorem stripBy_concat {f : Char → Bool} {l : List Char} {c : Char} (hc : f c = true) (h : stripBy f l = l) :
    stripBy f (l ++ [c]) = l := by
  have hfront := dropWhile_of_stripBy h
  have hback : l.rdropWhile f = l := by
    rw [stripBy, hfront] at h
    exact h
  cases l with
  | nil => simp [stripBy, hc]
  | cons a l =>
    have ha : ¬f a = true := fun ha => by
      rw [List.dropWhile_cons_of_pos ha] at hfront
      have hlength := (List.dropWhile_suffix f (l := l)).length_le
      rw [hfront] at hlength
      simp at hlength
    rw [stripBy, List.cons_append, List.dropWhile_cons_of_neg ha, ← List.cons_append, List.rdropWhile_concat_pos f _ c hc, hback]

/-- A text without white space at its ends ends with something else. -/
theorem getLast?_of_stripBy {f : Char → Bool} {l : List Char} (h : stripBy f l = l) {c : Char} (hc : l.getLast? = some c) :
    f c = false := by
  obtain ⟨init, rfl⟩ : ∃ init, l = init ++ [c] := by
    obtain ⟨init, hinit⟩ := List.getLast?_eq_some_iff.mp hc
    exact ⟨init, hinit⟩
  have hfront := dropWhile_of_stripBy h
  rw [stripBy, hfront] at h
  by_contra hf
  rw [List.rdropWhile_concat_pos f _ c (Bool.eq_true_of_not_eq_false hf)] at h
  have hlength := (List.rdropWhile_prefix f init).length_le
  rw [h, List.length_append, List.length_singleton] at hlength
  omega

/-! ### Lines -/

/-- The first line, and those that follow. -/
theorem lines_cons {line rest : List Char} (hline : '\n' ∉ line) :
    lines (line ++ '\n' :: rest) = (if line.getLast? = some '\r' then line.dropLast else line) :: lines rest := by
  have hsplit : (line ++ '\n' :: rest).splitOn '\n' = line :: rest.splitOn '\n' := by
    rw [List.splitOn_append_cons_self, List.splitOn_eq_singleton hline]
    rfl
  unfold lines
  rw [hsplit]
  cases hparts : rest.splitOn '\n' with
  | nil => exact absurd hparts (List.splitOn_ne_nil _ _)
  | cons part parts =>
    dsimp only
    rw [List.dropLast_cons_of_ne_nil (List.cons_ne_nil part parts), List.map_cons, List.getLast?_cons_cons]
    cases (part :: parts).getLast? with
    | none => rfl
    | some last => cases last <;> rfl

/-! ### Words -/

theorem wordsBy_congr {f g : Char → Bool} : ∀ {l : List Char}, (∀ c ∈ l, f c = g c) → wordsBy f l = wordsBy g l := by
  intro l h
  have hsplit : l.splitOnP f = l.splitOnP g := by
    induction l with
    | nil => rfl
    | cons c l ih =>
      have ih := ih fun x hx => h x (List.mem_cons_of_mem c hx)
      rw [List.splitOnP_cons_eq_if_modifyHead, List.splitOnP_cons_eq_if_modifyHead, ih, h c List.mem_cons_self]
  simp only [wordsBy, hsplit]

theorem wordsBy_append_sep {f : Char → Bool} {c : Char} (h : f c = true) (l m : List Char) :
    wordsBy f (l ++ c :: m) = wordsBy f l ++ wordsBy f m := by
  simp only [wordsBy, List.splitOnP_append_cons l m h, List.filter_append]

@[simp] theorem wordsBy_nil (f : Char → Bool) : wordsBy f [] = [] := by
  simp [wordsBy]

/-- The first part is the beginning of the text, and the others are stretches of it. -/
theorem parts_of_splitOnP (f : Char → Bool) : ∀ {l p : List Char} {ps : List (List Char)}, l.splitOnP f = p :: ps →
    p <+: l ∧ ∀ w ∈ ps, w <:+: l
  | [], p, ps, h => by
    obtain ⟨rfl, rfl⟩ : [] = p ∧ [] = ps := by simpa using h
    exact ⟨List.nil_prefix, fun w hw => absurd hw List.not_mem_nil⟩
  | c :: l, p, ps, h => by
    obtain ⟨q, qs, hq⟩ := List.exists_cons_of_ne_nil (List.splitOnP_ne_nil f l)
    obtain ⟨hpre, hstretch⟩ := parts_of_splitOnP f hq
    have hcons (w : List Char) (hw : w <:+: l) : w <:+: c :: l := List.infix_cons_iff.mpr (.inr hw)
    rw [List.splitOnP_cons_eq_if_modifyHead, hq] at h
    split_ifs at h
    · obtain ⟨rfl, rfl⟩ := List.cons.inj h
      refine ⟨List.nil_prefix, fun w hw => hcons w ?_⟩
      rcases List.mem_cons.mp hw with rfl | hw
      · exact hpre.isInfix
      · exact hstretch w hw
    · obtain ⟨rfl, rfl⟩ := List.cons.inj h
      exact ⟨List.cons_prefix_cons.mpr ⟨rfl, hpre⟩, fun w hw => hcons w (hstretch w hw)⟩

/-- No part has a character that the text was cut at. -/
theorem of_mem_splitOnP {f : Char → Bool} : ∀ {l w : List Char}, w ∈ l.splitOnP f → ∀ c ∈ w, f c = false
  | [], w, h => by simp_all
  | c :: l, w, h => by
    obtain ⟨q, qs, hq⟩ := List.exists_cons_of_ne_nil (List.splitOnP_ne_nil f l)
    have ih {x : List Char} (hx : x ∈ q :: qs) := of_mem_splitOnP (hq ▸ hx)
    rw [List.splitOnP_cons_eq_if_modifyHead, hq] at h
    split_ifs at h with hc
    · rcases List.mem_cons.mp h with rfl | h
      · simp
      · exact ih h
    · rcases List.mem_cons.mp h with rfl | h
      · simpa [hc] using ih List.mem_cons_self
      · exact ih (List.mem_cons_of_mem q h)

theorem infix_of_mem_wordsBy {f : Char → Bool} {l w : List Char} (h : w ∈ wordsBy f l) : w <:+: l := by
  obtain ⟨p, ps, hp⟩ := List.exists_cons_of_ne_nil (List.splitOnP_ne_nil f l)
  have hmem : w ∈ p :: ps := hp ▸ (List.mem_filter.mp h).1
  rcases List.mem_cons.mp hmem with rfl | hw
  · exact (parts_of_splitOnP f hp).1.isInfix
  · exact (parts_of_splitOnP f hp).2 w hw

/-! ### Lines -/

/-- A character that no line feed follows as the second half of an end. -/
theorem splitlines_go_cons (c : Char) (l cur : List Char) (h : c = '\r' → l.head? ≠ some '\n') :
    splitlines.go (c :: l) cur = if endsLine c then cur.reverse :: splitlines.go l [] else splitlines.go l (c :: cur) := by
  rw [splitlines.go.eq_def]
  split
  · simp_all
  · simp_all
  · simp_all
  · simp_all

theorem infix_of_mem_go : ∀ {l cur w : List Char}, w ∈ splitlines.go l cur → w <:+: cur.reverse ++ l := by
  intro l cur w h
  fun_induction splitlines.go l cur with
  | case1 => exact absurd h List.not_mem_nil
  | case2 cur hcur => simpa using List.mem_singleton.mp h ▸ List.infix_refl _
  | case3 l cur ih =>
    rcases List.mem_cons.mp h with rfl | h
    · exact (List.prefix_append _ _).isInfix
    · exact (ih h).trans ⟨cur.reverse ++ ['\r', '\n'], [], by simp⟩
  | case4 c l cur hne hends ih =>
    rcases List.mem_cons.mp h with rfl | h
    · exact (List.prefix_append _ _).isInfix
    · exact (ih h).trans ⟨cur.reverse ++ [c], [], by simp⟩
  | case5 c l cur hne hends ih => simpa using ih h

theorem infix_of_mem_splitlines {l w : List Char} (h : w ∈ splitlines l) : w <:+: l := infix_of_mem_go h

/-- A search that an empty line has no part in goes on after a line feed as from the start. -/
theorem findSome?_go_append {α : Type} {g : List Char → Option α} (hg : g [] = none) (m : List Char) :
    ∀ (p cur : List Char), '\n' ∉ p → (splitlines.go (p ++ '\n' :: m) cur).findSome? g =
      ((splitlines.go p cur).findSome? g).or ((splitlines m).findSome? g)
  | [], cur, _ => by
    have hgo : splitlines.go ('\n' :: m) cur = cur.reverse :: splitlines m := by
      rw [splitlines_go_cons '\n' m cur (fun h => absurd h (by decide)), if_pos (by decide)]
      rfl
    rw [List.nil_append, hgo, List.findSome?_cons]
    cases cur with
    | nil => simp [splitlines.go, hg]
    | cons c cur =>
      simp only [splitlines.go, List.findSome?_cons, List.findSome?_nil]
      cases g (c :: cur).reverse <;> rfl
  | c :: p, cur, hp => by
    rw [List.mem_cons, not_or] at hp
    have ih := fun cur => findSome?_go_append hg m p cur hp.2
    by_cases hcr : c = '\r' ∧ p = []
    · obtain ⟨rfl, rfl⟩ := hcr
      have hgo : splitlines.go ['\r'] cur = [cur.reverse] := by
        rw [splitlines_go_cons '\r' [] cur (by simp), if_pos (by decide)]
        rfl
      rw [hgo]
      simp only [List.cons_append, List.nil_append, splitlines.go, List.findSome?_cons, List.findSome?_nil]
      cases g cur.reverse <;> rfl
    · have hhead : c = '\r' → p.head? ≠ some '\n' := fun _ h => hp.2 (List.mem_of_mem_head? h)
      have hhead' : c = '\r' → (p ++ '\n' :: m).head? ≠ some '\n' := by
        intro hc
        cases p with
        | nil => exact absurd ⟨hc, rfl⟩ hcr
        | cons d p => exact hhead hc
      rw [List.cons_append, splitlines_go_cons c _ cur hhead', splitlines_go_cons c p cur hhead]
      split_ifs
      · rw [List.findSome?_cons, List.findSome?_cons, ih]
        cases g cur.reverse <;> rfl
      · exact ih _

theorem findSome?_splitlines {α : Type} {g : List Char → Option α} (hg : g [] = none) (l : List Char) :
    (splitlines l).findSome? g = (l.splitOn '\n').findSome? fun p => (splitlines p).findSome? g := by
  have hparts : ∀ parts : List (List Char), parts ≠ [] → (∀ p ∈ parts, '\n' ∉ p) →
      (splitlines (['\n'].intercalate parts)).findSome? g = parts.findSome? fun p => (splitlines p).findSome? g := by
    intro parts hne hno
    induction parts with
    | nil => exact absurd rfl hne
    | cons p ps ih =>
      cases ps with
      | nil =>
        simp only [List.intercalate_singleton, List.findSome?_cons, List.findSome?_nil]
        cases (splitlines p).findSome? g <;> rfl
      | cons q ps =>
        have ih := ih (List.cons_ne_nil q ps) fun x hx => hno x (List.mem_cons_of_mem p hx)
        rw [List.intercalate_cons_cons, List.findSome?_cons, ← ih, List.append_assoc]
        refine (findSome?_go_append hg _ p [] (hno p List.mem_cons_self)).trans ?_
        show ((splitlines p).findSome? g).or _ = _
        cases (splitlines p).findSome? g <;> rfl
  have h := hparts (l.splitOn '\n') (List.splitOn_ne_nil '\n' l) fun p hp hmem => by
    rw [List.splitOn_eq_splitOnP] at hp
    have hcut := of_mem_splitOnP hp '\n' hmem
    simp at hcut
  rwa [List.intercalate_splitOn] at h

/-- Only the carriage return at its end ends the line. -/
theorem findSome?_go_clean {α : Type} {g : List Char → Option α} (hg : g [] = none) : ∀ (l cur : List Char),
    (∀ c ∈ l, endsLine c = false) → (splitlines.go l cur).findSome? g = g (cur.reverse ++ l) ∧
      (splitlines.go (l ++ ['\r']) cur).findSome? g = g (cur.reverse ++ l)
  | [], cur, _ => by
    have hcr : splitlines.go ['\r'] cur = [cur.reverse] := by
      rw [splitlines_go_cons '\r' [] cur (by simp), if_pos (by decide)]
      rfl
    refine ⟨?_, by simp [hcr]⟩
    cases cur with
    | nil => simp [splitlines.go, hg]
    | cons c cur => simp [splitlines.go]
  | c :: l, cur, h => by
    have hc : endsLine c = false := h c List.mem_cons_self
    have hne : c ≠ '\r' := by
      rintro rfl
      exact absurd hc (by decide)
    have ih := findSome?_go_clean hg l (c :: cur) fun x hx => h x (List.mem_cons_of_mem c hx)
    rw [List.cons_append, splitlines_go_cons c l cur fun hcr => absurd hcr hne,
      splitlines_go_cons c _ cur fun hcr => absurd hcr hne, if_neg (by simp [hc]), if_neg (by simp [hc])]
    simpa using ih

/-- A search that a carriage return at the end of a line has no part in. -/
theorem findSome?_lines {α : Type} {g : List Char → Option α} (hg : g [] = none) (hcr : ∀ p, g (p ++ ['\r']) = g p)
    (l : List Char) : (lines l).findSome? g = (l.splitOn '\n').findSome? g := by
  have hstrip (line : List Char) : g (if line.getLast? = some '\r' then line.dropLast else line) = g line := by
    split_ifs with h
    · conv_rhs => rw [← List.dropLast_append_getLast? '\r' h]
      exact (hcr _).symm
    · rfl
  obtain ⟨last, hlast⟩ := Option.isSome_iff_exists.mp (List.getLast?_isSome.mpr (List.splitOn_ne_nil '\n' l))
  have hparts : l.splitOn '\n' = (l.splitOn '\n').dropLast ++ [last] := (List.dropLast_append_getLast? last hlast).symm
  have hended : ((l.splitOn '\n').dropLast.map fun line => if line.getLast? = some '\r' then line.dropLast else line).findSome? g =
      (l.splitOn '\n').dropLast.findSome? g := by
    rw [List.findSome?_map]
    exact congrArg (List.findSome? · _) (funext hstrip)
  conv_rhs => rw [hparts, List.findSome?_append]
  unfold lines
  simp only [hlast]
  cases last with
  | nil =>
    rw [hended, List.findSome?_singleton, hg, Option.or_none]
  | cons c last => simp only [List.findSome?_append, hended]

end Text
end LocaiLink
