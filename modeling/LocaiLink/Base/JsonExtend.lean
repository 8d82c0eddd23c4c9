/-
# The reader and the text that follows

What the reader of JSON has read it reads again when more text follows and when
there is more fuel (`scan_append`). Only a number may go on in what follows, so
there the rest has to start with something that ends one, which every value
inside an array or a dictionary has behind it.
-/
import LocaiLink.Base.JsonText

namespace LocaiLink
namespace JsonText

/-! ### More text behind -/

/-- The rest goes on with something that ends a number. -/
def Closes (r : List Char) : Prop := ∃ c r', r = c :: r' ∧ (isSpace c = true ∨ c = ',' ∨ c = ']' ∨ c = '}')

theorem scanChars_append (t : List Char) : ∀ {s : List Char} {m : Mode} {cs r : List Char},
    scanChars m s = some (cs, r) → scanChars m (s ++ t) = some (cs, r ++ t)
  | [], m, cs, r, h => by cases m <;> cases h
  | c :: s, m, cs, r, h => by
    rw [List.cons_append]
    unfold scanChars at h ⊢
    split at h
    · cases h
    · obtain ⟨rfl, rfl⟩ := Prod.mk.inj (Option.some.inj h)
      rfl
    · exact scanChars_append t h
    · obtain ⟨p, hp, heq⟩ := Option.map_eq_some_iff.mp h
      obtain ⟨rfl, rfl⟩ := Prod.mk.inj heq
      rw [scanChars_append t hp]
      rfl

theorem spanDigits_append (t : List Char) : ∀ {s : List Char}, (spanDigits s).2 ≠ [] →
    spanDigits (s ++ t) = ((spanDigits s).1, (spanDigits s).2 ++ t)
  | [], hr => absurd rfl hr
  | c :: s, hr => by
    rw [List.cons_append, spanDigits, spanDigits]
    by_cases hc : c.isDigit = true
    · rw [spanDigits, if_pos hc] at hr
      have ih := spanDigits_append t (s := s) hr
      rw [if_pos hc, if_pos hc, ih]
    · rw [if_neg hc, if_neg hc, List.cons_append]

theorem scanWhole_append {s r : List Char} {n : ℕ} (t : List Char) (h : scanWhole s = some (n, r)) (hr : r ≠ []) :
    scanWhole (s ++ t) = some (n, r ++ t) := by
  cases s with
  | nil => cases h
  | cons c s =>
    rw [scanWhole] at h
    rw [List.cons_append, scanWhole]
    split_ifs at h ⊢
    · obtain ⟨rfl, rfl⟩ := Prod.mk.inj (Option.some.inj h)
      rfl
    · obtain ⟨hn, hrest⟩ := Prod.mk.inj (Option.some.inj h)
      have hspan := spanDigits_append t (s := c :: s) (hrest ▸ hr)
      rw [List.cons_append] at hspan
      rw [hspan, hn, hrest]

theorem scanFrac_append {s r : List Char} {ds : List Digit} (t : List Char) (h : scanFrac s = (ds, r)) {c : Char}
    {r' : List Char} (hr : r = c :: r') (hc : c ≠ '.') : scanFrac (s ++ t) = (ds, r ++ t) := by
  cases s with
  | nil =>
    cases h
    cases hr
  | cons d s =>
    rw [scanFrac] at h
    rw [List.cons_append, scanFrac]
    split_ifs at h with hd
    · have hne : (spanDigits s).2 ≠ [] := by
        rw [h, hr]
        exact List.cons_ne_nil _ _
      have hspan := spanDigits_append t hne
      rw [hspan, if_pos hd, h]
    · obtain ⟨rfl, rfl⟩ := Prod.mk.inj h
      have hdot : d ≠ '.' := by
        rw [(List.cons.inj hr).1]
        exact hc
      rw [if_neg fun h => hdot h.1]
      rfl

theorem scanSign_append {s : List Char} (t : List Char) (hs : s ≠ []) :
    scanSign (s ++ t) = ((scanSign s).1, (scanSign s).2 ++ t) := by
  cases s with
  | nil => exact absurd rfl hs
  | cons c s =>
    rw [List.cons_append, scanSign, scanSign]
    split_ifs <;> rfl

theorem scanExp_append {s r : List Char} {e : Option Exponent} (t : List Char) (h : scanExp s = (e, r)) {c : Char}
    {r' : List Char} (hr : r = c :: r') (hc : ¬(c = 'e' ∨ c = 'E')) : scanExp (s ++ t) = (e, r ++ t) := by
  have hne : r ≠ [] := by
    rw [hr]
    exact List.cons_ne_nil _ _
  cases s with
  | nil =>
    cases h
    cases hr
  | cons d s =>
    rw [scanExp] at h
    rw [List.cons_append, scanExp]
    split_ifs at h ⊢ with hd
    · split at h
      · rename_i d' ds r'' hspan
        obtain ⟨rfl, rfl⟩ := Prod.mk.inj h
        have hs : s ≠ [] := fun hs => by
          rw [hs] at hspan
          cases hspan
        have hne' : (spanDigits (scanSign s).2).2 ≠ [] := by
          rw [hspan]
          exact hne
        have hspan' := spanDigits_append t hne'
        rw [scanSign_append t hs]
        simp only [hspan', hspan]
      · obtain ⟨rfl, rfl⟩ := Prod.mk.inj h
        rw [(List.cons.inj hr).1] at hd
        exact absurd hd hc
    · obtain ⟨rfl, rfl⟩ := Prod.mk.inj h
      rfl

theorem closes_facts {c : Char} (h : isSpace c = true ∨ c = ',' ∨ c = ']' ∨ c = '}') :
    c ≠ '.' ∧ ¬(c = 'e' ∨ c = 'E') := by
  simp only [isSpace, Bool.or_eq_true, decide_eq_true_eq] at h
  rcases h with ((((rfl | rfl) | rfl) | rfl) | rfl | rfl | rfl) <;> decide

theorem scanUnsigned_append {neg : Bool} {s r : List Char} {a : Json} (t : List Char)
    (h : scanUnsigned neg s = some (a, r)) (hr : Closes r) : scanUnsigned neg (s ++ t) = some (a, r ++ t) := by
  obtain ⟨c, r', hcr, hc⟩ := hr
  obtain ⟨hdot, hexp⟩ := closes_facts hc
  obtain ⟨⟨n, r₁⟩, hw, heq⟩ := Option.map_eq_some_iff.mp h
  simp only at heq
  generalize hfrac : scanFrac r₁ = frac at heq
  obtain ⟨ds, r₂⟩ := frac
  simp only at heq
  generalize hexpo : scanExp r₂ = e at heq
  obtain ⟨e, r₃⟩ := e
  obtain ⟨rfl, rfl⟩ := Prod.mk.inj heq
  have hexp' := scanExp_append t hexpo hcr hexp
  -- what follows the fraction is not empty and starts with no dot
  obtain ⟨c₂, r₂', hr₂, hc₂⟩ : ∃ c₂ r₂', r₂ = c₂ :: r₂' ∧ c₂ ≠ '.' := by
    cases hr₂ : r₂ with
    | nil =>
      rw [hr₂] at hexpo
      cases hexpo
      cases hcr
    | cons c₂ r₂' =>
      refine ⟨c₂, r₂', rfl, ?_⟩
      rw [hr₂, scanExp] at hexpo
      split_ifs at hexpo with he
      · rintro rfl
        revert he
        decide
      · obtain ⟨-, rfl⟩ := Prod.mk.inj hexpo
        rw [(List.cons.inj hcr).1]
        exact hdot
  have hfrac' := scanFrac_append t hfrac hr₂ hc₂
  have hr₁ : r₁ ≠ [] := fun h => by
    rw [h] at hfrac
    obtain ⟨-, rfl⟩ := Prod.mk.inj hfrac
    cases hr₂
  rw [scanUnsigned, scanWhole_append t hw hr₁, Option.map_some, Option.some.injEq]
  simp only
  rw [hfrac']
  simp only
  rw [hexp']

theorem scanNumber_append {s r : List Char} {a : Json} (t : List Char) (h : scanNumber s = some (a, r))
    (hr : Closes r) : scanNumber (s ++ t) = some (a, r ++ t) := by
  cases s with
  | nil => cases h
  | cons c s =>
    rw [scanNumber] at h
    rw [List.cons_append, scanNumber]
    split_ifs at h ⊢
    · exact scanUnsigned_append t h hr
    · exact scanUnsigned_append t h hr

theorem literal_append {w s r : List Char} {j a : Json} (t : List Char) (h : literal w j s = some (a, r)) :
    literal w j (s ++ t) = some (a, r ++ t) := by
  unfold literal at h ⊢
  split_ifs at h with hw
  obtain ⟨rfl, rfl⟩ := Prod.mk.inj (Option.some.inj h)
  have hpre : w <+: s := List.isPrefixOf_iff_prefix.mp hw
  have hpre' : w.isPrefixOf (s ++ t) = true :=
    List.isPrefixOf_iff_prefix.mpr (hpre.trans (List.prefix_append s t))
  rw [if_pos hpre', List.drop_append_of_le_length hpre.length_le]

theorem skipSpace_append {s : List Char} (t : List Char) (h : skipSpace s ≠ []) :
    skipSpace (s ++ t) = skipSpace s ++ t := by
  unfold skipSpace at h ⊢
  rw [List.dropWhile_append, if_neg]
  simpa using h

theorem closes_of_skipSpace {s r : List Char} {c : Char} (h : skipSpace s = c :: r)
    (hc : c = ',' ∨ c = ']' ∨ c = '}') : Closes s := by
  cases s with
  | nil => cases h
  | cons d s =>
    by_cases hd : isSpace d = true
    · exact ⟨d, s, rfl, .inl hd⟩
    · rw [skipSpace, List.dropWhile_cons_of_neg hd] at h
      obtain ⟨rfl, rfl⟩ := List.cons.inj h
      exact ⟨d, s, rfl, .inr hc⟩

/-- With fuel `n`: what is read is read again when `t` follows, and with more fuel. -/
structure Extends (t : List Char) (n : ℕ) : Prop where
  once : ∀ {m : ℕ} {s r : List Char} {a : Json}, n ≤ m → scanOnce n s = some (a, r) →
    (Closes r ∨ s.head? = some '{') → scanOnce m (s ++ t) = some (a, r ++ t)
  items : ∀ {m : ℕ} {s r : List Char} {l : List Json}, n ≤ m → scanItems n s = some (l, r) →
    scanItems m (s ++ t) = some (l, r ++ t)
  members : ∀ {m : ℕ} {s r : List Char} {l : List (String × Json)}, n ≤ m → scanMembers n s = some (l, r) →
    scanMembers m (s ++ t) = some (l, r ++ t)

theorem skipSpace_append_of_head {s : List Char} {c : Char} (t : List Char) (h : (skipSpace s).head? = some c) :
    skipSpace (s ++ t) = skipSpace s ++ t :=
  skipSpace_append t fun he => by
    rw [he] at h
    cases h

theorem scanItems_ne_nil {n : ℕ} {s r : List Char} {l : List Json} (h : scanItems n s = some (l, r)) : s ≠ [] := by
  rintro rfl
  cases n with
  | zero => cases h
  | succ n =>
    cases n <;> cases h

theorem scanMembers_ne_nil {n : ℕ} {s r : List Char} {l : List (String × Json)}
    (h : scanMembers n s = some (l, r)) : s ≠ [] := by
  rintro rfl
  cases n <;> cases h

theorem Extends.once_succ {t : List Char} {n m : ℕ} (ih : Extends t n) (hnm : n ≤ m) {s r : List Char} {a : Json}
    (h : scanOnce (n + 1) s = some (a, r)) (hr : Closes r ∨ s.head? = some '{') :
    scanOnce (m + 1) (s ++ t) = some (a, r ++ t) := by
  cases s with
  | nil => cases h
  | cons c s =>
    rw [scanOnce] at h
    rw [List.cons_append, scanOnce]
    split_ifs at h with hq hbrace hnone hbracket hnone hn ht hf
    · obtain ⟨p, hp, heq⟩ := Option.map_eq_some_iff.mp h
      obtain ⟨rfl, rfl⟩ := Prod.mk.inj heq
      rw [if_pos hq, scanChars_append t hp]
      rfl
    · obtain ⟨rfl, rfl⟩ := Prod.mk.inj (Option.some.inj h)
      have hskip := skipSpace_append_of_head t hnone
      obtain ⟨r', hr'⟩ := List.head?_eq_some_iff.mp hnone
      rw [if_neg hq, if_pos hbrace, hskip, hr']
      rfl
    · obtain ⟨p, hp, heq⟩ := Option.map_eq_some_iff.mp h
      obtain ⟨rfl, rfl⟩ := Prod.mk.inj heq
      have hne := scanMembers_ne_nil hp
      have hhead : ¬(skipSpace s ++ t).head? = some '}' := by
        rwa [List.head?_append_of_ne_nil _ hne]
      rw [if_neg hq, if_pos hbrace, skipSpace_append t hne, if_neg hhead, ih.members hnm hp]
      rfl
    · obtain ⟨rfl, rfl⟩ := Prod.mk.inj (Option.some.inj h)
      have hskip := skipSpace_append_of_head t hnone
      obtain ⟨r', hr'⟩ := List.head?_eq_some_iff.mp hnone
      rw [if_neg hq, if_neg hbrace, if_pos hbracket, hskip, hr']
      rfl
    · obtain ⟨p, hp, heq⟩ := Option.map_eq_some_iff.mp h
      obtain ⟨rfl, rfl⟩ := Prod.mk.inj heq
      have hne := scanItems_ne_nil hp
      have hhead : ¬(skipSpace s ++ t).head? = some ']' := by
        rwa [List.head?_append_of_ne_nil _ hne]
      rw [if_neg hq, if_neg hbrace, if_pos hbracket, skipSpace_append t hne, if_neg hhead, ih.items hnm hp]
      rfl
    · rw [if_neg hq, if_neg hbrace, if_neg hbracket, if_pos hn]
      exact literal_append t h
    · rw [if_neg hq, if_neg hbrace, if_neg hbracket, if_neg hn, if_pos ht]
      exact literal_append t h
    · rw [if_neg hq, if_neg hbrace, if_neg hbracket, if_neg hn, if_neg ht, if_pos hf]
      exact literal_append t h
    · rw [if_neg hq, if_neg hbrace, if_neg hbracket, if_neg hn, if_neg ht, if_neg hf]
      have hcl : Closes r := hr.resolve_right fun he => hbrace (Option.some.inj he)
      exact scanNumber_append t h hcl

theorem Extends.items_succ {t : List Char} {n m : ℕ} (ih : Extends t n) (hnm : n ≤ m) {s r : List Char}
    {l : List Json} (h : scanItems (n + 1) s = some (l, r)) : scanItems (m + 1) (s ++ t) = some (l, r ++ t) := by
  rw [scanItems] at h ⊢
  obtain ⟨⟨a, r₁⟩, ha, h⟩ := Option.bind_eq_some_iff.mp h
  simp only at h
  split at h
  · cases h
  · rename_i c r₂ hskip
    have hcl : c = ']' ∨ c = ',' := by
      split_ifs at h with h₁ h₂
      · exact .inl h₁
      · exact .inr h₂
    have honce := ih.once hnm ha (.inl (closes_of_skipSpace hskip (by tauto)))
    have hskip' := skipSpace_append (s := r₁) t (by rw [hskip]; exact List.cons_ne_nil _ _)
    rw [honce, Option.bind_some]
    simp only
    rw [hskip', hskip, List.cons_append]
    simp only
    split_ifs at h ⊢ with h₁ h₂
    · obtain ⟨rfl, rfl⟩ := Prod.mk.inj (Option.some.inj h)
      rfl
    · obtain ⟨p, hp, heq⟩ := Option.map_eq_some_iff.mp h
      obtain ⟨rfl, rfl⟩ := Prod.mk.inj heq
      rw [skipSpace_append t (scanItems_ne_nil hp), ih.items hnm hp]
      rfl

theorem Extends.members_succ {t : List Char} {n m : ℕ} (ih : Extends t n) (hnm : n ≤ m) {s r : List Char}
    {l : List (String × Json)} (h : scanMembers (n + 1) s = some (l, r)) :
    scanMembers (m + 1) (s ++ t) = some (l, r ++ t) := by
  cases s with
  | nil => cases h
  | cons q s =>
    rw [scanMembers] at h
    rw [List.cons_append, scanMembers]
    split_ifs at h ⊢ with hq
    obtain ⟨⟨k, r₀⟩, hk, h⟩ := Option.bind_eq_some_iff.mp h
    rw [scanChars_append t hk, Option.bind_some]
    simp only at h ⊢
    split at h
    · cases h
    · rename_i c₀ s₀ hskip₀
      have hskip₀' := skipSpace_append (s := r₀) t (by rw [hskip₀]; exact List.cons_ne_nil _ _)
      rw [hskip₀', hskip₀, List.cons_append]
      simp only
      split_ifs at h ⊢ with hcolon
      obtain ⟨⟨a, r₁⟩, ha, h⟩ := Option.bind_eq_some_iff.mp h
      simp only at h
      split at h
      · cases h
      · rename_i c r₂ hskip
        have hcl : c = '}' ∨ c = ',' := by
          split_ifs at h with h₁ h₂
          · exact .inl h₁
          · exact .inr h₂
        have hs₀ : skipSpace s₀ ≠ [] := fun he => by
          rw [he] at ha
          cases n <;> cases ha
        have honce := ih.once hnm ha (.inl (closes_of_skipSpace hskip (by tauto)))
        have hskip' := skipSpace_append (s := r₁) t (by rw [hskip]; exact List.cons_ne_nil _ _)
        rw [skipSpace_append t hs₀, honce, Option.bind_some]
        simp only
        rw [hskip', hskip, List.cons_append]
        simp only
        split_ifs at h ⊢ with h₁ h₂
        · obtain ⟨rfl, rfl⟩ := Prod.mk.inj (Option.some.inj h)
          rfl
        · obtain ⟨p, hp, heq⟩ := Option.map_eq_some_iff.mp h
          obtain ⟨rfl, rfl⟩ := Prod.mk.inj heq
          rw [skipSpace_append t (scanMembers_ne_nil hp), ih.members hnm hp]
          rfl

theorem scan_append (t : List Char) : ∀ n, Extends t n
  | 0 => by
    constructor
    · rintro m s r a - ⟨⟩
    · rintro m s r l - ⟨⟩
    · rintro m s r l - ⟨⟩
  | n + 1 => by
    have ih := scan_append t n
    constructor
    · intro m s r a hm h hr
      obtain ⟨k, rfl⟩ : ∃ k, m = k + 1 := ⟨m - 1, by omega⟩
      exact ih.once_succ (by omega) h hr
    · intro m s r l hm h
      obtain ⟨k, rfl⟩ : ∃ k, m = k + 1 := ⟨m - 1, by omega⟩
      exact ih.items_succ (by omega) h
    · intro m s r l hm h
      obtain ⟨k, rfl⟩ : ∃ k, m = k + 1 := ⟨m - 1, by omega⟩
      exact ih.members_succ (by omega) h

end JsonText
end LocaiLink
