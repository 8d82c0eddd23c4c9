/-
# The digest beside a bundle

`_pick_assets` takes the first asset that is called like a bundle and the first one that is
called like the digest of a bundle. A bundle may be called in four ways, so the digest may
be that of another asset. It is the bundle's own just where no other digest stands in front
of it (`paired_iff`).
-/
import LocaiLink.Install.Assets

namespace LocaiLink
namespace Install

/-- What the digest of an asset is called. -/
def sidecarName (bundle : String) : String := bundle ++ ".sha256"

/-- What is taken for a bundle, and for the digest of one. -/
def isBundle (stem ptag version : String) : String → Bool := bundleRe stem ptag version ""

def isSidecar (stem ptag version : String) : String → Bool := bundleRe stem ptag version ".sha256"

section Pairs

variable {α : Type} (stem ptag version : String) (name : α → String) (assets : List α)

/-- `_pick_assets`, of assets with their names. -/
def picked : Option α × Option α := pickAssets stem ptag version (assets.map fun a => (a, name a))

/-- A bundle and a digest that are returned belong together, and a bundle whose digest is
listed is returned with a digest. -/
structure Paired : Prop where
  own : ∀ b s, picked stem ptag version name assets = (some b, some s) → name s = sidecarName (name b)
  listed : ∀ b, (picked stem ptag version name assets).1 = some b → sidecarName (name b) ∈ assets.map name →
    (picked stem ptag version name assets).2.isSome = true

/-- In front of the own digest of the first bundle, or anywhere where that is not listed,
stands no digest of a bundle; and a bundle whose digest is listed does not end in a line
feed. -/
def OwnFirst (names : List String) : Prop :=
  ∀ b, names.find? (isBundle stem ptag version) = some b →
    (∀ s ∈ names.takeWhile (· ≠ sidecarName b), isSidecar stem ptag version s = false) ∧
    (sidecarName b ∈ names → b.toList.getLast? ≠ some '\n')

end Pairs

/-! ### The two patterns -/

section Patterns

variable {stem ptag version ending name : String}

/-- A name that matches is spelled out up to a line feed at its end. -/
theorem bundleRe_cases (h : bundleRe stem ptag version ending name = true) :
    ∃ suffix, (suffix = "" ∨ suffix = "-v" ++ version) ∧ ∃ extension, (extension = ".tar.gz" ∨ extension = ".zip") ∧
      (name = stem ++ "-" ++ ptag ++ suffix ++ extension ++ ending ∨
        name = stem ++ "-" ++ ptag ++ suffix ++ extension ++ ending ++ "\n") := by
  simp only [bundleRe, List.any_eq_true, List.mem_cons, List.not_mem_nil, or_false] at h
  obtain ⟨suffix, hsuffix, extension, hextension, hmatch⟩ := h
  refine ⟨suffix, hsuffix, extension, hextension, ?_⟩
  simpa [matchesEnd] using hmatch

theorem bundleRe_of_eq {suffix extension : String} (hs : suffix = "" ∨ suffix = "-v" ++ version)
    (he : extension = ".tar.gz" ∨ extension = ".zip") (hn : name = stem ++ "-" ++ ptag ++ suffix ++ extension ++ ending) :
    bundleRe stem ptag version ending name = true := by
  simp only [bundleRe, List.any_eq_true, List.mem_cons, List.not_mem_nil, or_false]
  refine ⟨suffix, hs, extension, he, ?_⟩
  simp [matchesEnd, hn]

/-- The last character, but for line feeds. -/
def lastMark (name : String) : Option Char := (name.toList.reverse.dropWhile (· = '\n')).head?

theorem lastMark_append (x : String) {y : String} {c : Char} {l : List Char} (hy : y.toList.reverse = c :: l) (hc : c ≠ '\n') :
    lastMark (x ++ y) = some c ∧ lastMark (x ++ y ++ "\n") = some c := by
  have hlast : (x ++ y).toList.reverse = c :: (l ++ x.toList.reverse) := by
    rw [String.toList_append, List.reverse_append, hy, List.cons_append]
  constructor
  · rw [lastMark, hlast, List.dropWhile_cons_of_neg (by simpa using hc)]
    rfl
  · have hfeed : (x ++ y ++ "\n").toList.reverse = '\n' :: (c :: (l ++ x.toList.reverse)) := by
      rw [String.toList_append, List.reverse_append, hlast]
      rfl
    rw [lastMark, hfeed, List.dropWhile_cons_of_pos (by simp), List.dropWhile_cons_of_neg (by simpa using hc)]
    rfl

theorem lastMark_bundle (h : isBundle stem ptag version name = true) : lastMark name = some 'z' ∨ lastMark name = some 'p' := by
  obtain ⟨suffix, -, extension, hextension, hname⟩ := bundleRe_cases h
  rcases hextension with rfl | rfl
  · have hz := lastMark_append (stem ++ "-" ++ ptag ++ suffix) (y := ".tar.gz") (c := 'z') rfl (by decide)
    rw [String.append_empty] at hname
    rcases hname with rfl | rfl
    · exact .inl hz.1
    · exact .inl hz.2
  · have hp := lastMark_append (stem ++ "-" ++ ptag ++ suffix) (y := ".zip") (c := 'p') rfl (by decide)
    rw [String.append_empty] at hname
    rcases hname with rfl | rfl
    · exact .inr hp.1
    · exact .inr hp.2

theorem lastMark_sidecar (h : isSidecar stem ptag version name = true) : lastMark name = some '6' := by
  obtain ⟨suffix, -, extension, -, hname⟩ := bundleRe_cases h
  have h6 := lastMark_append (stem ++ "-" ++ ptag ++ suffix ++ extension) (y := ".sha256") (c := '6') rfl (by decide)
  rcases hname with rfl | rfl
  · exact h6.1
  · exact h6.2

/-- No name is called like both. -/
theorem not_sidecar_of_bundle (h : isBundle stem ptag version name = true) : isSidecar stem ptag version name = false := by
  by_contra hs
  have h6 := lastMark_sidecar (Bool.eq_true_of_not_eq_false hs)
  rcases lastMark_bundle h with hz | hp
  · exact absurd (h6.symm.trans hz) (by decide)
  · exact absurd (h6.symm.trans hp) (by decide)

theorem getLast_append (x : String) {y : String} {c : Char} (hy : y.toList.getLast? = some c) :
    (x ++ y).toList.getLast? = some c := by
  rw [String.toList_append, List.getLast?_append, hy, Option.some_or]

/-- The digest of a bundle is called like one, unless the bundle ends in a line feed. -/
theorem isSidecar_own_iff (h : isBundle stem ptag version name = true) :
    isSidecar stem ptag version (sidecarName name) = true ↔ name.toList.getLast? ≠ some '\n' := by
  obtain ⟨suffix, hsuffix, extension, hextension, hname⟩ := bundleRe_cases h
  have hlast (x : String) {y : String} (hy : y = ".tar.gz" ∨ y = ".zip") : (x ++ y).toList.getLast? ≠ some '\n' := by
    rcases hy with rfl | rfl
    · rw [getLast_append x (c := 'z') (by decide)]
      decide
    · rw [getLast_append x (c := 'p') (by decide)]
      decide
  have hfeed (x : String) : (x ++ "\n").toList.getLast? = some '\n' := getLast_append x (by decide)
  rw [String.append_empty] at hname
  rcases hname with rfl | rfl
  · exact iff_of_true (bundleRe_of_eq hsuffix hextension rfl) (hlast _ hextension)
  · refine iff_of_false (fun hs => ?_) (not_not_intro (hfeed _))
    obtain ⟨suffix', -, extension', hextension', hown⟩ := bundleRe_cases hs
    rcases hown with hown | hown
    · have hsame := String.append_left_inj _ |>.mp hown
      exact hlast (stem ++ "-" ++ ptag ++ suffix') hextension' (hsame ▸ hfeed _)
    · have hends : some '6' = some '\n' := by
        rw [← hfeed, ← hown]
        exact (getLast_append _ (by decide)).symm
      exact absurd hends (by decide)

end Patterns

/-! ### What is picked -/

section Picked

variable {α : Type} {stem ptag version : String} {name : α → String} {assets : List α}

/-- The first digest is the one that is picked: no bundle stands in its way. -/
theorem pickAssets_snd (stem tag version : String) (l : List (α × String)) :
    (pickAssets stem tag version l).2 = (l.find? fun a => isSidecar stem tag version a.2).map (·.1) := by
  have hfold (l : List (α × String)) (picked : Option α × Option α) :
      (l.foldl (fun picked a =>
        if bundleRe stem tag version "" a.2 && picked.1.isNone then (some a.1, picked.2)
        else if bundleRe stem tag version ".sha256" a.2 && picked.2.isNone then (picked.1, some a.1)
        else picked) picked).2 = picked.2.or ((l.find? fun a => isSidecar stem tag version a.2).map (·.1)) := by
    induction l generalizing picked with
    | nil => simp
    | cons a l ih =>
      rw [List.foldl_cons, ih, List.find?_cons]
      cases hb : bundleRe stem tag version "" a.2 with
      | true =>
        rw [not_sidecar_of_bundle hb, show bundleRe stem tag version ".sha256" a.2 = false from not_sidecar_of_bundle hb]
        simp only [Bool.false_and, Bool.false_eq_true, if_false]
        split_ifs <;> rfl
      | false =>
        rcases picked with ⟨p, _ | s⟩
        · cases hs : bundleRe stem tag version ".sha256" a.2 with
          | true => simp [isSidecar, hs]
          | false => simp [isSidecar, hs]
        · simp
  exact hfold l (none, none)

theorem picked_fst : (picked stem ptag version name assets).1 = assets.find? fun a => isBundle stem ptag version (name a) := by
  rw [picked, pickAssets_fst, List.find?_map, Option.map_map]
  exact Option.map_id'

theorem picked_snd : (picked stem ptag version name assets).2 = assets.find? fun a => isSidecar stem ptag version (name a) := by
  rw [picked, pickAssets_snd, List.find?_map, Option.map_map]
  exact Option.map_id'

/-- The first of the elements that meet a condition is the given one, and it meets it if it
is there, just if none before it meets it. -/
theorem first_iff {β : Type} [DecidableEq β] {p : β → Bool} {x : β} {l : List β} :
    ((∀ y, l.find? p = some y → y = x) ∧ (x ∈ l → p x = true)) ↔
      (∀ y ∈ l.takeWhile (· ≠ x), p y = false) ∧ (x ∈ l → p x = true) := by
  refine and_congr_left fun hx => ?_
  induction l with
  | nil => simp
  | cons z l ih =>
    by_cases hz : z = x
    · subst hz
      have hp : p z = true := hx List.mem_cons_self
      simp [hp]
    · rw [List.takeWhile_cons_of_pos (by simpa using hz), List.find?_cons]
      cases hp : p z with
      | true => simp [hz, hp]
      | false =>
        simp only [List.forall_mem_cons, hp, true_and]
        exact ih fun hmem => hx (List.mem_cons_of_mem _ hmem)

/-- **The digest is the bundle's own**, and one is returned where it is listed, just where
no other digest stands in front of it. -/
theorem paired_iff (stem ptag version : String) (name : α → String) (assets : List α) :
    Paired stem ptag version name assets ↔ OwnFirst stem ptag version (assets.map name) := by
  have hbundle : (assets.map name).find? (isBundle stem ptag version) =
      (picked stem ptag version name assets).1.map name := by
    rw [picked_fst, List.find?_map]
    rfl
  have hsidecar : (assets.map name).find? (isSidecar stem ptag version) =
      (picked stem ptag version name assets).2.map name := by
    rw [picked_snd, List.find?_map]
    rfl
  cases hb : (picked stem ptag version name assets).1 with
  | none =>
    rw [hb] at hbundle
    refine iff_of_true ⟨fun b s h => ?_, fun b h => ?_⟩ fun b h => ?_
    · rw [h] at hb
      cases hb
    · rw [hb] at h
      cases h
    · rw [hbundle] at h
      cases h
  | some b =>
    rw [hb] at hbundle
    have hmatch : isBundle stem ptag version (name b) = true := List.find?_some (hbundle : _ = some (name b))
    have hown : OwnFirst stem ptag version (assets.map name) ↔
        (∀ s, (assets.map name).find? (isSidecar stem ptag version) = some s → s = sidecarName (name b)) ∧
          (sidecarName (name b) ∈ assets.map name → isSidecar stem ptag version (sidecarName (name b)) = true) := by
      rw [first_iff, isSidecar_own_iff hmatch, OwnFirst, hbundle]
      simp
    rw [hown, hsidecar]
    constructor
    · rintro ⟨hpaired, hlisted⟩
      refine ⟨fun s hs => ?_, fun hmem => ?_⟩
      · obtain ⟨a, ha, rfl⟩ := Option.map_eq_some_iff.mp hs
        exact hpaired b a (Prod.ext hb ha)
      · obtain ⟨a, ha⟩ := Option.isSome_iff_exists.mp (hlisted b hb hmem)
        have hname := hpaired b a (Prod.ext hb ha)
        rw [picked_snd] at ha
        rw [← hname]
        exact List.find?_some (p := fun a => isSidecar stem ptag version (name a)) ha
    · rintro ⟨hfirst, hin⟩
      refine ⟨fun b' s h => ?_, fun b' h hmem => ?_⟩
      · rw [h] at hb hfirst
        obtain rfl := Option.some.inj hb
        exact hfirst (name s) rfl
      · obtain rfl := Option.some.inj (hb.symm.trans h)
        obtain ⟨a, ha, hname⟩ := List.mem_map.mp hmem
        rw [picked_snd, List.find?_isSome]
        exact ⟨a, ha, by rw [hname]; exact hin hmem⟩

end Picked

/-- A release with an archive of each kind: the digest of the other one comes first. -/
theorem sidecar_of_other : ¬∀ (stem ptag version : String) (assets : List String),
    Paired stem ptag version id assets := by
  intro h
  have hown := (h "locai-link-llm" "linux-x64" "1.0.17"
    ["locai-link-llm-linux-x64.tar.gz", "locai-link-llm-linux-x64.zip", "locai-link-llm-linux-x64.zip.sha256",
      "locai-link-llm-linux-x64.tar.gz.sha256"]).own
    "locai-link-llm-linux-x64.tar.gz" "locai-link-llm-linux-x64.zip.sha256" (by decide +kernel)
  exact absurd hown (by decide)

end Install
end LocaiLink
