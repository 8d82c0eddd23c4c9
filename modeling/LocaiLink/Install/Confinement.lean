/-
# Extraction is confined

Neither extractor changes anything outside of its destination, whatever the archive
holds and however the extraction ends (`extraction_confined`). The updater's stays inside
because no path and no link that passes its checks leads up. The launcher's makes no
links: its target is empty at first, or a link that leads nowhere and so cannot be
written through, and then a directory without links.
-/
import LocaiLink.Install.Tarball
import LocaiLink.Utils.Extraction

namespace LocaiLink
namespace Drive

/-! ### What the archive library promises -/

/-- A call that leaves every place but one as it was: it makes no link there, only new
files, and writes no file that was elsewhere. Owner, mode and times may be those of what
the path leads to. -/
structure Writes (dir : Place) (path : List String) (q : Place) (d d' : Drive) : Prop where
  nodes : Fs.Agree (fun p => p ≠ q) d'.tree d.tree
  link : ∀ target, d'.tree.node q = some (.link target) → d.tree.node q = some (.link target)
  file : ∀ i, d'.Holds q i → d.Holds q i ∨ d.next ≤ i ∧ i < d'.next
  next : d.next ≤ d'.next
  data : ∀ i, i < d.next → ¬d.Holds q i → d'.data i = d.data i
  touched : ∀ p ∈ d'.touched, p ∈ d.touched ∨ p = q ∨ d'.walk dir true path = .ok p ∧ (d'.tree.node p).isSome = true

variable {dest dir q : Place} {path : List String} {d d' : Drive}

theorem Writes.cases (h : Writes dir path q d d') (p : Place) : p = q ∨ d'.tree.node p = d.tree.node p := by
  by_cases hp : p = q
  · exact .inl hp
  · exact .inr (h.nodes p hp)

/-- A call that writes inside keeps what is outside. -/
theorem kept_writes (h : d.Tame dest) (hq : dest <+: q) (hw : Writes dir path q d d')
    (hpath : d'.Tame dest → ∀ p, d'.walk dir true path = .ok p → dest <+: p) : Kept dest d d' := by
  have hfile (p : Place) (i : ℕ) (hp : d'.Holds p i) : d.Holds p i ∨ p = q ∧ d.next ≤ i ∧ i < d'.next := by
    rcases hw.cases p with rfl | hsame
    · exact (hw.file i hp).imp_right fun hi => ⟨rfl, hi⟩
    · exact .inl (hsame.symm.trans hp)
  have htame : d'.Tame dest := by
    constructor
    · intro p target hp hnode
      rcases hw.cases p with rfl | hsame
      · exact h.links p target hp (hw.link target hnode)
      · exact h.links p target hp (hsame ▸ hnode)
    · intro p r i hp hpi hri
      rcases hfile p i hpi with hpi | ⟨-, hnew, -⟩
      · rcases hfile r i hri with hri | ⟨rfl, -⟩
        · exact h.unshared p r i hp hpi hri
        · exact hq
      · rcases hfile r i hri with hri | ⟨rfl, -⟩
        · exact absurd (h.fresh r i hri) (by omega)
        · exact hq
    · intro p i hpi
      rcases hfile p i hpi with hpi | ⟨-, -, hlt⟩
      · exact (h.fresh p i hpi).trans_le hw.next
      · exact hlt
  refine ⟨htame, ⟨fun p hp => hw.nodes p fun he => hp (he ▸ hq), fun p i hp hi => ?_, fun p hp => ?_⟩⟩
  · exact hw.data i (h.fresh p i hi) fun hqi => hp (h.unshared q p i hq hqi hi)
  · rcases hw.touched p hp with hp | rfl | ⟨hp, -⟩
    · exact .inl hp
    · exact .inr hq
    · exact .inr (hpath htame p hp)

end Drive

namespace Install
namespace Tarball

/-- Unpacking an entry that is no link writes at the place of the path, if its directory is there. -/
def Unpack.Plain (unpack : Unpack) : Prop :=
  ∀ n e dir path d, e.isLink = false →
    (∀ q, d.walk dir false path = .ok q → Drive.Writes dir path q d (unpack n e dir path d).2) ∧
      (∀ err, d.walk dir false path = .error err → (unpack n e dir path d).2 = d)

/-! ### The target -/

section Target

variable (dir : Place) (name : String) (d₀ d : Drive)

/-- Nothing can be found at the target: it is not there, or it is a link that leads nowhere. -/
structure Vacant : Prop where
  below : ∀ p, dir ++ [name] <+: p → p ≠ dir ++ [name] → d.tree.node p = none
  dangling : ∀ q, d.walk dir true [name] = .ok q → d.tree.node q = none
  fresh : ∀ p i, d.Holds p i → i < d.next

/-- The target has no links up and shares no file with what is outside, and is no link. -/
structure Plain : Prop where
  tame : d.Tame (dir ++ [name])
  noLink : d.tree.isLink (dir ++ [name]) = false

/-- The target's directory is there, the target is plain or empty, and outside nothing has changed. -/
structure Ready : Prop where
  parent : d.tree.node dir = some .dir
  target : Plain dir name d ∨ Vacant dir name d
  confined : Drive.Confined (dir ++ [name]) d₀ d

end Target

section Target

variable {dir : Place} {name : String} {d₀ d d' : Drive} {rel path : List String}

theorem not_prefix_parent : ¬dir ++ [name] <+: dir := fun h => by
  have := h.length_le
  rw [List.length_append, List.length_singleton] at this
  omega

theorem Ready.keep (h : Ready dir name d₀ d) (hc : Drive.Confined (dir ++ [name]) d d')
    (ht : Plain dir name d' ∨ Vacant dir name d') : Ready dir name d₀ d' :=
  ⟨(hc.nodes dir not_prefix_parent).trans h.parent, ht, h.confined.trans hc⟩

/-- An empty target is a plain one when it is no link. -/
theorem Vacant.plain (h : Vacant dir name d) (hnode : d.tree.node (dir ++ [name]) = none) : Plain dir name d := by
  refine ⟨Drive.tame_of_empty (fun p hp => .inl ?_) h.fresh, Fs.isLink_eq_false fun target hl => ?_⟩
  · by_cases hpt : p = dir ++ [name]
    · rw [hpt, hnode]
    · exact h.below p hp hpt
  · rw [hnode] at hl
    cases hl

variable (hname : name ≠ "" ∧ name ≠ "." ∧ name ≠ "..") (hdir : d.tree.node dir = some .dir)
include hname hdir

/-- A walk into a plain target stays in it. -/
theorem Plain.walk_eq (h : Plain dir name d) (last : Bool) : d.walk dir last (name :: rel) = d.walk (dir ++ [name]) last rel :=
  Fs.walk_down hdir hname h.noLink Fs.maxLinks

theorem Plain.inside (h : Plain dir name d) {last : Bool} (hrel : ".." ∉ rel) {q : Place}
    (hq : d.walk dir last (name :: rel) = .ok q) : dir ++ [name] <+: q := by
  rw [h.walk_eq hname hdir] at hq
  exact h.tame.walk (List.prefix_refl _) hrel hq

omit hname hdir in
/-- Nothing is found below an empty target. -/
theorem Vacant.not_below (h : Vacant dir name d) (hrel : rel ≠ []) {last : Bool} (q : Place) :
    d.walk dir last (name :: rel) ≠ .ok q := by
  have hdangling (q : Place) (hq : d.tree.walk true Fs.maxLinks dir [name] = .ok q) : d.tree.node q ≠ some .dir := by
    rw [h.dangling q hq]
    simp
  exact Fs.walk_append hrel hdangling q

/-- An empty target is not there, or it is a link, and then it is found only as itself. -/
theorem Vacant.none_or_link (h : Vacant dir name d) :
    d.tree.node (dir ++ [name]) = none ∨ d.tree.isLink (dir ++ [name]) = true := by
  cases hlink : d.tree.isLink (dir ++ [name]) with
  | true => exact .inr rfl
  | false =>
    refine .inl (h.dangling _ ?_)
    exact (Fs.walk_down hdir hname hlink Fs.maxLinks).trans (Fs.walk_nil _)

/-! ### Each action keeps the target ready -/

omit hname hdir in
theorem isLink_make {n : Fs.Node File} {p : Place} (hn : ∀ target, n ≠ .link target) (h : d.tree.isLink p = false) :
    (d.make dir path n).2.tree.isLink p = false := by
  unfold Drive.make Drive.change
  split
  · rename_i q _
    dsimp only
    split_ifs
    · exact h
    · refine Fs.isLink_eq_false fun target hnode => ?_
      by_cases hp : p = q
      · subst hp
        exact hn target (Option.some.inj ((Fs.node_set_self p (some n) d.tree).symm.trans hnode))
      · have hold : d.tree.node p = some (.link target) := (Fs.node_set_of_ne hp (some n) d.tree).symm.trans hnode
        rw [Fs.isLink_of_node hold] at h
        cases h
  · exact h

omit hdir in
theorem ready_mkdir (h : Ready dir name d₀ d) (hpath : path = [] ∨ ∃ rel, path = name :: rel ∧ ".." ∉ rel) :
    Ready dir name d₀ (d.mkdir dir path).2 := by
  rcases hpath with rfl | ⟨rel, rfl, hrel⟩
  · -- the parent is there, so it is not made
    have hsame : (d.mkdir dir []).2 = d := by
      unfold Drive.mkdir Drive.make Drive.change Drive.walk
      rw [Fs.walk_nil]
      dsimp only
      rw [h.parent]
      rfl
    rwa [hsame]
  have hplainly (hplain : Plain dir name d) : Ready dir name d₀ (d.mkdir dir (name :: rel)).2 := by
    have heq : d.mkdir dir (name :: rel) = d.mkdir (dir ++ [name]) rel := by
      unfold Drive.mkdir Drive.make Drive.change
      rw [hplain.walk_eq hname h.parent]
    obtain ⟨htame, hconfined⟩ := Drive.kept_mkdir (List.prefix_refl _) hplain.tame hrel
    rw [← heq] at htame hconfined
    exact h.keep hconfined (.inl ⟨htame, isLink_make (by simp) hplain.noLink⟩)
  rcases h.target with hplain | hvacant
  · exact hplainly hplain
  by_cases hnil : rel = []
  · subst hnil
    rcases hvacant.none_or_link hname h.parent with hnone | hlink
    · exact hplainly (hvacant.plain hnone)
    · have hsame : (d.mkdir dir [name]).2 = d := by
        obtain ⟨target, hnode⟩ := Fs.exists_link hlink
        unfold Drive.mkdir Drive.make Drive.change Drive.walk
        rw [Fs.walk_last h.parent hname]
        dsimp only
        rw [hnode]
        rfl
      rwa [hsame]
  · have hsame : (d.mkdir dir (name :: rel)).2 = d := by
      unfold Drive.mkdir Drive.make Drive.change
      cases hq : d.walk dir false (name :: rel) with
      | ok q => exact absurd hq (hvacant.not_below hnil q)
      | error err => rfl
    rwa [hsame]

omit hdir in
/-- A link that leads nowhere is no way out: what is written at it takes its place. -/
theorem vacant_writes (h : Ready dir name d₀ d) (hvacant : Vacant dir name d) (hlink : d.tree.isLink (dir ++ [name]) = true)
    (hw : Drive.Writes dir [name] (dir ++ [name]) d d') : Ready dir name d₀ d' := by
  obtain ⟨target, hold⟩ := Fs.exists_link hlink
  have hnotHeld (i : ℕ) : ¬d.Holds (dir ++ [name]) i := fun hi => by
    rw [Drive.Holds, hold] at hi
    cases hi
  have hne : dir ≠ dir ++ [name] := by simp
  have hparent : d'.tree.node dir = some .dir := (hw.nodes dir hne).trans h.parent
  by_cases hlink' : d'.tree.isLink (dir ++ [name]) = true
  · -- the link is still there, and leads nowhere still
    obtain ⟨target', hnew⟩ := Fs.exists_link hlink'
    have hnode : d'.tree.node = d.tree.node := by
      funext p
      rcases hw.cases p with rfl | hsame
      · rw [hnew, hw.link target' hnew]
      · exact hsame
    have hwalk : d'.walk dir true [name] = d.walk dir true [name] := Fs.walk_congr hnode Fs.maxLinks dir [name]
    have hvacant' : Vacant dir name d' := by
      refine ⟨fun p hp hne => ?_, fun q hq => ?_, fun p i hp => ?_⟩
      · rw [hnode]
        exact hvacant.below p hp hne
      · rw [hnode]
        exact hvacant.dangling q (hwalk ▸ hq)
      · rw [Drive.Holds, hnode] at hp
        exact (hvacant.fresh p i hp).trans_le hw.next
    refine h.keep ⟨fun p _ => congrFun hnode p, fun p i _ hi => ?_, fun p hp => ?_⟩ (.inr hvacant')
    · exact hw.data i (hvacant.fresh p i hi) (hnotHeld i)
    · rcases hw.touched p hp with hp | rfl | ⟨hp, hsome⟩
      · exact .inl hp
      · exact .inr (List.prefix_refl _)
      · rw [hvacant'.dangling p hp] at hsome
        cases hsome
  · -- as if the link had been removed before
    have hnoLink : d'.tree.isLink (dir ++ [name]) = false := by simpa using hlink'
    have hprefix : dir ++ [name] <+: dir ++ [name] := List.prefix_refl _
    have hput := Drive.confined_put (d := d) hprefix none
    have hnone : (d.put (dir ++ [name]) none).tree.node (dir ++ [name]) = none := Fs.node_set_self ..
    have hother (p : Place) (hp : p ≠ dir ++ [name]) : (d.put (dir ++ [name]) none).tree.node p = d.tree.node p :=
      Fs.node_set_of_ne hp ..
    have hheld (p : Place) (i : ℕ) (hp : (d.put (dir ++ [name]) none).Holds p i) : d.Holds p i := by
      by_cases hpt : p = dir ++ [name]
      · subst hpt
        rw [Drive.Holds, hnone] at hp
        cases hp
      · exact (hother p hpt).symm.trans hp
    have htame : (d.put (dir ++ [name]) none).Tame (dir ++ [name]) := by
      refine Drive.tame_of_empty (fun p hp => .inl ?_) fun p i hp => hvacant.fresh p i (hheld p i hp)
      by_cases hpt : p = dir ++ [name]
      · rw [hpt, hnone]
      · rw [hother p hpt]
        exact hvacant.below p hp hpt
    have hw' : Drive.Writes dir [name] (dir ++ [name]) (d.put (dir ++ [name]) none) d' := by
      refine ⟨fun p hp => (hw.nodes p hp).trans (hother p hp).symm, fun target' hnode => ?_, fun i hi => ?_, hw.next,
        fun i hlt _ => hw.data i hlt (hnotHeld i), fun p hp => ?_⟩
      · rw [Fs.isLink_of_node hnode] at hnoLink
        cases hnoLink
      · exact .inr ((hw.file i hi).resolve_left (hnotHeld i))
      · exact (hw.touched p hp).imp_left (List.mem_cons_of_mem _)
    obtain ⟨htame', hconfined⟩ := Drive.kept_writes htame hprefix hw' fun htame' p hp =>
      Plain.inside hname hparent ⟨htame', hnoLink⟩ List.not_mem_nil hp
    exact h.keep (hput.trans hconfined) (.inl ⟨htame', hnoLink⟩)

omit hdir in
theorem ready_unpack (h : Ready dir name d₀ d) {unpack : Unpack} (hu : unpack.Plain) (n : ℕ) {e : Entry} (he : e.isLink = false)
    (hrel : ".." ∉ rel) : Ready dir name d₀ (unpack n e dir (name :: rel) d).2 := by
  obtain ⟨hwrites, hfails⟩ := hu n e dir (name :: rel) d he
  have hplainly (hplain : Plain dir name d) : Ready dir name d₀ (unpack n e dir (name :: rel) d).2 := by
    cases hq : d.walk dir false (name :: rel) with
    | error err => rwa [hfails err hq]
    | ok q =>
      have hw := hwrites q hq
      have hinside := hplain.inside hname h.parent hrel hq
      have hnoLink : (unpack n e dir (name :: rel) d).2.tree.isLink (dir ++ [name]) = false := by
        refine Fs.isLink_eq_false fun target hnode => ?_
        have hold : d.tree.node (dir ++ [name]) = some (.link target) := by
          rcases hw.cases (dir ++ [name]) with rfl | hsame
          · exact hw.link target hnode
          · exact hsame ▸ hnode
        have := hplain.noLink
        rw [Fs.isLink_of_node hold] at this
        cases this
      have hparent : (unpack n e dir (name :: rel) d).2.tree.node dir = some .dir := by
        rcases hw.cases dir with rfl | hsame
        · exact absurd hinside not_prefix_parent
        · exact hsame.trans h.parent
      obtain ⟨htame, hconfined⟩ := Drive.kept_writes hplain.tame hinside hw fun htame p hp =>
        Plain.inside hname hparent ⟨htame, hnoLink⟩ hrel hp
      exact h.keep hconfined (.inl ⟨htame, hnoLink⟩)
  rcases h.target with hplain | hvacant
  · exact hplainly hplain
  · by_cases hnil : rel = []
    · subst hnil
      rcases hvacant.none_or_link hname h.parent with hnone | hlink
      · exact hplainly (hvacant.plain hnone)
      · exact vacant_writes hname h hvacant hlink (hwrites _ (Fs.walk_last h.parent hname Fs.maxLinks))
    · cases hq : d.walk dir false (name :: rel) with
      | ok q => exact absurd hq (hvacant.not_below hnil q)
      | error err => rwa [hfails err hq]

end Target

/-! ### The loop -/

section Loop

variable {dir : Place} {name : String} {d₀ : Drive} {unpack : Unpack}

/-- What the loop does: directories are made on the way to the target and in it, and entries are unpacked in it. -/
def Act.Inside (name : String) : Act → Prop
  | .there _ | .isDir _ => True
  | .removeDirAll _ => False
  | .mkdir path => path = [] ∨ ∃ rel, path = name :: rel ∧ ".." ∉ rel
  | .unpack e path => e.isLink = false ∧ ∃ rel, path = name :: rel ∧ ".." ∉ rel

theorem perform_ready (hname : name ≠ "" ∧ name ≠ "." ∧ name ≠ "..") (hu : unpack.Plain) {a : Act} {e : Env}
    (ha : a.Inside name) (h : Ready dir name d₀ e.drive) : Ready dir name d₀ (Env.perform unpack dir a e).2.drive := by
  cases a with
  | there path => exact h
  | isDir path => exact h
  | removeDirAll n => exact ha.elim
  | mkdir path =>
    change Ready dir name d₀ (e.mkdir dir path).2.drive
    unfold Env.mkdir
    split
    · exact h
    · exact ready_mkdir hname h ha
  | unpack entry path =>
    obtain ⟨hentry, rel, rfl, hrel⟩ := ha
    exact ready_unpack hname h hu e.tick hentry hrel

variable {path : List String}

theorem inside_makeDir (h : path = [] ∨ ∃ rel, path = name :: rel ∧ ".." ∉ rel) : (makeDir path).Only (Act.Inside name) := by
  refine ⟨h, fun r => ?_⟩
  cases r with
  | ok u => trivial
  | error err => exact ⟨trivial, fun dir => by cases dir <;> trivial⟩

/-- Parts that begin with the target's name, from the last to the first. -/
theorem inside_createDirAll : ∀ {ups : List String}, (ups = [] ∨ ∃ rel, ups.reverse = name :: rel ∧ ".." ∉ rel) →
    (createDirAll ups).Only (Act.Inside name)
  | [], _ => inside_makeDir (.inl rfl)
  | last :: up, h => by
    obtain ⟨rel, hrev, hrel⟩ := h.resolve_left (List.cons_ne_nil last up)
    have hpath : (last :: up).reverse = [] ∨ ∃ rel, (last :: up).reverse = name :: rel ∧ ".." ∉ rel := .inr ⟨rel, hrev, hrel⟩
    have hup : up = [] ∨ ∃ rel, up.reverse = name :: rel ∧ ".." ∉ rel := by
      rw [List.reverse_cons] at hrev
      cases hups : up.reverse with
      | nil => exact .inl (List.reverse_eq_nil_iff.mp hups)
      | cons first rest =>
        rw [hups, List.cons_append] at hrev
        obtain ⟨rfl, rfl⟩ := List.cons.inj hrev
        exact .inr ⟨rest, rfl, fun hmem => hrel (List.mem_append_left _ hmem)⟩
    refine ⟨hpath, fun r => ?_⟩
    have hisDir (err : Errno) : (do
        if ← act (.isDir (last :: up).reverse) then pure (.ok ()) else pure (.error err) :
          Script (Except Errno Unit)).Only (Act.Inside name) := ⟨trivial, fun there => by cases there <;> trivial⟩
    cases r with
    | ok u => trivial
    | error err =>
      cases err with
      | missing =>
        refine (inside_createDirAll hup).bind fun made => ?_
        cases made with
        | ok u => exact inside_makeDir hpath
        | error err => trivial
      | taken => exact hisDir .taken
      | notDirectory => exact hisDir .notDirectory
      | loop => exact hisDir .loop
      | other => exact hisDir .other

/-- Plain components do not lead up. -/
theorem not_up_of_plain {rel : List Component} (h : rel.all Component.isPlain = true) (hcomp : ∀ c ∈ rel, c ≠ .normal "..") :
    ".." ∉ rel.map Component.asStr := by
  rw [List.mem_map]
  rintro ⟨c, hc, hup⟩
  have hplain := List.all_eq_true.mp h c hc
  cases c with
  | rootDir => cases hplain
  | curDir => exact absurd hup (by decide)
  | parentDir => cases hplain
  | normal n => exact hcomp _ hc (congrArg Component.normal hup)

/-- No component is a name that leads up. -/
theorem components_ne (path : String) : ∀ c ∈ components path, c ≠ .normal ".." := by
  intro c hc
  unfold components at hc
  rcases List.mem_append.mp hc with hc | hc
  · split_ifs at hc
    · rw [List.mem_singleton.mp hc]
      simp
    · rw [List.mem_singleton.mp hc]
      simp
    · cases hc
  · obtain ⟨p, -, rfl⟩ := List.mem_map.mp hc
    unfold component
    split_ifs with hp
    · simp
    · simpa using hp

theorem relParts_subset {e : Entry} {rel : List Component} (h : relParts name e = some rel) : ∀ c ∈ rel, c ∈ components e.path := by
  unfold relParts at h
  split at h
  · rename_i first versionDir rest heq
    split_ifs at h
    obtain rfl := Option.some.inj h
    intro c hc
    rw [heq]
    exact List.mem_cons_of_mem _ (List.mem_cons_of_mem _ hc)
  · cases h

theorem inside_extractEntry (written : ℕ) (e : Entry) : (extractEntry name written e).Only (Act.Inside name) := by
  unfold extractEntry
  split_ifs with hlink
  · trivial
  split
  · trivial
  rename_i rel hrel
  split_ifs with hplain
  · trivial
  have hup : ".." ∉ rel.map Component.asStr :=
    not_up_of_plain (by simpa using hplain) fun c hc => components_ne e.path c (relParts_subset hrel c hc)
  have hups : (name :: rel.map Component.asStr).dropLast.reverse = [] ∨
      ∃ rel', (name :: rel.map Component.asStr).dropLast.reverse.reverse = name :: rel' ∧ ".." ∉ rel' := by
    rw [List.reverse_reverse]
    cases hmap : rel.map Component.asStr with
    | nil => exact .inl rfl
    | cons c cs =>
      refine .inr ⟨(c :: cs).dropLast, rfl, fun hmem => hup ?_⟩
      rw [hmap]
      exact List.mem_of_mem_dropLast hmem
  refine (inside_createDirAll hups).bind fun made => ?_
  cases made with
  | error err => trivial
  | ok u =>
    dsimp only
    split_ifs
    · trivial
    · refine ⟨⟨by simpa using hlink, _, rfl, hup⟩, fun unpacked => ?_⟩
      cases unpacked <;> trivial

theorem inside_extractEntries : ∀ (es : List (Option Entry)) (any : Bool) (written : ℕ),
    (extractEntries name es any written).Only (Act.Inside name)
  | [], _, _ => trivial
  | none :: _, _, _ => trivial
  | some e :: es, any, written => by
    rw [extractEntries]
    refine (inside_extractEntry written e).bind fun r => ?_
    cases r with
    | error err => trivial
    | ok r =>
      cases r with
      | none => exact inside_extractEntries es any written
      | some written => exact inside_extractEntries es true written

end Loop

/-! ### What comes before the loop -/

section Prepare

variable {dir : Place} {name : String} {unpack : Unpack} {e : Env}

/-- What is left when nothing is found at the target any more. -/
structure Cleared (dir : Place) (name : String) (d : Drive) : Prop where
  below : ∀ p, dir ++ [name] <+: p → p ≠ dir ++ [name] → d.tree.node p = none
  gone : d.tree.node (dir ++ [name]) = none ∨
    d.tree.node dir = some .dir ∧ ∀ q, d.walk dir true [name] = .ok q → d.tree.node q = none
  fresh : ∀ p i, d.Holds p i → i < d.next

/-- Where the directory is there, a cleared target is vacant. -/
theorem Cleared.vacant {d : Drive} (hname : name ≠ "" ∧ name ≠ "." ∧ name ≠ "..") (h : Cleared dir name d)
    (hdir : d.tree.node dir = some .dir) : Vacant dir name d := by
  refine ⟨h.below, fun q hq => ?_, h.fresh⟩
  rcases h.gone with hnone | ⟨-, hdangling⟩
  · have hlink : d.tree.isLink (dir ++ [name]) = false := Fs.isLink_eq_false fun target hl => by
      rw [hnone] at hl
      cases hl
    have hwalk : d.walk dir true [name] = .ok (dir ++ [name]) :=
      (Fs.walk_down hdir hname hlink Fs.maxLinks).trans (Fs.walk_nil _)
    obtain rfl := Except.ok.inj (hwalk.symm.trans hq)
    exact hnone
  · exact hdangling q hq

variable (hname : name ≠ "" ∧ name ≠ "." ∧ name ≠ "..") (hroot : e.drive.tree.Rooted)
  (hfresh : ∀ p i, e.drive.Holds p i → i < e.drive.next)
include hname hroot hfresh

/-- Where nothing is found at the target, there is nothing, or a link that leads nowhere. -/
theorem cleared_of_not_there (h : (e.drive.stat dir true [name]).isSome = false) : Cleared dir name e.drive := by
  have hdangling (q : Place) (hq : e.drive.walk dir true [name] = .ok q) : e.drive.tree.node q = none := by
    rw [Drive.stat, hq] at h
    simpa using h
  have hnotDir : e.drive.tree.node (dir ++ [name]) ≠ some .dir := by
    intro hnode
    have hdir : e.drive.tree.node dir = some .dir := hroot dir name (by rw [hnode]; rfl)
    have hlink : e.drive.tree.isLink (dir ++ [name]) = false := by rw [Fs.isLink, hnode]
    have hwalk : e.drive.walk dir true [name] = .ok (dir ++ [name]) :=
      (Fs.walk_down hdir hname hlink Fs.maxLinks).trans (Fs.walk_nil _)
    have := hdangling _ hwalk
    rw [hnode] at this
    cases this
  refine ⟨fun p hp hne => hroot.below hnotDir hp hne, ?_, hfresh⟩
  by_cases hdir : e.drive.tree.node dir = some .dir
  · exact .inr ⟨hdir, hdangling⟩
  · exact .inl (hroot.below hdir (List.prefix_append dir [name]) (by simp))

omit hname in
/-- A removal that succeeds leaves nothing. -/
theorem cleared_of_removed (h : (e.removeDirAll (dir ++ [name])).1 = true) :
    Cleared dir name (e.removeDirAll (dir ++ [name])).2.drive := by
  unfold Env.removeDirAll at h ⊢
  split at h
  · rename_i hnode
    split at h
    · cases h
    · refine ⟨fun p hp _ => Fs.node_drop_all hp _, .inl (Fs.node_drop_all (List.prefix_refl _) _), fun p i hp => ?_⟩
      refine hfresh p i ?_
      unfold Drive.Holds Env.next at hp
      by_cases hinside : dir ++ [name] <+: p
      · rw [Fs.node_drop_all hinside] at hp
        cases hp
      · rwa [Fs.node_drop_of_not hinside] at hp
  · rename_i target hnode
    split at h
    · cases h
    · have hnotDir : e.drive.tree.node (dir ++ [name]) ≠ some .dir := by
        rw [hnode]
        simp
      refine ⟨fun p hp hne => ?_, .inl (Fs.node_set_self ..), fun p i hp => ?_⟩
      · exact (Fs.node_set_of_ne hne none e.drive.tree).trans (hroot.below hnotDir hp hne)
      · refine hfresh p i ?_
        by_cases hpt : p = dir ++ [name]
        · subst hpt
          exact absurd ((Fs.node_set_self _ none e.drive.tree).symm.trans hp) (by simp)
        · exact (Fs.node_set_of_ne hpt none e.drive.tree).symm.trans hp
  · cases h

omit hname hroot hfresh

/-- The parent is made where nothing is there; else the call fails, or the parent is as it was. -/
theorem mkdir_parent (dir : Place) (e : Env) : (∃ err, e.mkdir dir [] = (.error err, e.next e.drive)) ∨
    e.drive.tree.node dir = none ∧ e.mkdir dir [] = (.ok (), e.next (e.drive.put dir (some .dir))) := by
  unfold Env.mkdir Drive.mkdir Drive.make Drive.change Drive.walk
  rw [Fs.walk_nil]
  dsimp only
  cases e.answer.error with
  | some err => exact .inl ⟨err, rfl⟩
  | none =>
    cases hnode : e.drive.tree.node dir with
    | none => exact .inr ⟨rfl, rfl⟩
    | some n => exact .inl ⟨.taken, rfl⟩

theorem makeDir_cleared (unpack : Unpack) (h : Cleared dir name e.drive)
    (hok : (Prog.run (Env.perform unpack dir) (makeDir []) e).1 = .ok ()) :
    (Prog.run (Env.perform unpack dir) (makeDir []) e).2.drive.tree.node dir = some .dir ∧
      Cleared dir name (Prog.run (Env.perform unpack dir) (makeDir []) e).2.drive := by
  have hrun : Prog.run (Env.perform unpack dir) (act (.mkdir [])) e = e.mkdir dir [] := rfl
  unfold makeDir at hok ⊢
  rw [Prog.run_bind, hrun] at hok ⊢
  rcases mkdir_parent dir e with ⟨err, hmk⟩ | ⟨hnone, hmk⟩
  · rw [hmk] at hok ⊢
    have hisDir : Prog.run (Env.perform unpack dir) (act (.isDir [])) (e.next e.drive) =
        (e.drive.isDir dir true [], (e.next e.drive).next e.drive) := rfl
    dsimp only at hok ⊢
    rw [Prog.run_bind, hisDir] at hok ⊢
    dsimp only at hok ⊢
    split_ifs at hok ⊢ with hdir
    · refine ⟨?_, h⟩
      unfold Drive.isDir Drive.stat Drive.walk at hdir
      rw [Fs.walk_nil] at hdir
      dsimp only at hdir
      split at hdir
      · assumption
      · cases hdir
    · cases hok
  · rw [hmk]
    have hnode : (e.drive.put dir (some .dir)).tree.node dir = some .dir := Fs.node_set_self ..
    have hother (p : Place) (hp : dir ++ [name] <+: p) : (e.drive.put dir (some .dir)).tree.node p = e.drive.tree.node p :=
      Fs.node_set_of_ne (fun he => not_prefix_parent (he ▸ hp)) ..
    refine ⟨hnode, fun p hp hne => (hother p hp).trans (h.below p hp hne), .inl ?_, fun p i hp => ?_⟩
    · rcases h.gone with hgone | ⟨hdir, -⟩
      · exact (hother _ (List.prefix_refl _)).trans hgone
      · rw [hnone] at hdir
        cases hdir
    · refine h.fresh p i ?_
      by_cases hpd : p = dir
      · subst hpd
        exact absurd (hnode.symm.trans hp) (by simp)
      · exact (Fs.node_set_of_ne hpd (some .dir) e.drive.tree).symm.trans hp

include hname in
theorem makeParent_ready (h : Cleared dir name e.drive)
    (hok : (Prog.run (Env.perform unpack dir) makeParent e).1 = .ok ()) :
    Ready dir name (Prog.run (Env.perform unpack dir) makeParent e).2.drive
      (Prog.run (Env.perform unpack dir) makeParent e).2.drive := by
  unfold makeParent at hok ⊢
  rw [Prog.run_bind, createDirAll] at hok ⊢
  cases hmade : (Prog.run (Env.perform unpack dir) (makeDir []) e).1 with
  | error err =>
    rw [hmade] at hok
    cases hok
  | ok u =>
    obtain ⟨hdir, hcleared⟩ := makeDir_cleared unpack h hmade
    exact ⟨hdir, .inr (hcleared.vacant hname hdir), .refl⟩

include hname hroot hfresh

theorem removeStale_cleared (h : (Prog.run (Env.perform unpack dir) (removeStale name) e).1 = true) :
    Cleared dir name (Prog.run (Env.perform unpack dir) (removeStale name) e).2.drive := by
  have hthere : Prog.run (Env.perform unpack dir) (act (.there [name])) e =
      ((e.drive.stat dir true [name]).isSome, e.next e.drive) := rfl
  have hremove : Prog.run (Env.perform unpack dir) (act (.removeDirAll name)) (e.next e.drive) =
      (e.next e.drive).removeDirAll (dir ++ [name]) := rfl
  unfold removeStale at h ⊢
  rw [Prog.run_bind, hthere] at h ⊢
  dsimp only at h ⊢
  split_ifs at h ⊢ with hstat
  · rw [hremove] at h ⊢
    exact cleared_of_removed (e := e.next e.drive) hroot hfresh h
  · have hnone : (e.drive.stat dir true [name]).isSome = false := by simpa using hstat
    exact cleared_of_not_there hname hroot hfresh hnone

/-- When the loop begins, nothing can be found at the target, and its directory is there. -/
theorem prepare_ready (hok : (Prog.run (Env.perform unpack dir) (prepare name) e).1 = .ok ()) :
    Ready dir name (Prog.run (Env.perform unpack dir) (prepare name) e).2.drive
      (Prog.run (Env.perform unpack dir) (prepare name) e).2.drive := by
  unfold prepare at hok ⊢
  rw [Prog.run_bind] at hok ⊢
  cases hstale : (Prog.run (Env.perform unpack dir) (removeStale name) e).1 with
  | false =>
    rw [hstale] at hok
    cases hok
  | true =>
    rw [hstale] at hok
    exact makeParent_ready hname (removeStale_cleared hname hroot hfresh hstale) hok

end Prepare

/-- The loop writes only in the target, however it ends. -/
theorem extractTarball_confined {unpack : Unpack} (hu : unpack.Plain) (target : FileName) (archive : Option (List (Option Entry)))
    {dir : Place} {e : Env} (hroot : e.drive.tree.Rooted) (hfresh : ∀ p i, e.drive.Holds p i → i < e.drive.next) :
    Drive.Confined (dir ++ [target.text]) (Prog.run (Env.perform unpack dir) (prepare target.text) e).2.drive
      (Prog.run (Env.perform unpack dir) (extractTarball target archive) e).2.drive := by
  unfold extractTarball
  rw [Prog.run_bind]
  cases hprepared : (Prog.run (Env.perform unpack dir) (prepare target.text) e).1 with
  | error err => exact .refl
  | ok u =>
    cases archive with
    | none => exact .refl
    | some entries =>
      have hready := prepare_ready target.normal hroot hfresh hprepared
      exact (Prog.Only.run_keeps (Env.perform unpack dir)
        (I := fun e' : Env => Ready dir target.text (Prog.run (Env.perform unpack dir) (prepare target.text) e).2.drive e'.drive)
        (fun _ _ ha h => perform_ready target.normal hu ha h) (inside_extractEntries entries false 0) hready).confined

/-! ### A library that unpacks entries -/

/-- A directory is made where there is none, and a file takes the place of what is no directory. -/
def unpackPlain : Unpack := fun _ e dir path d =>
  match d.walk dir false path with
  | .error _ => (false, d)
  | .ok q =>
    match e.entryType, d.tree.node q with
    | .directory, none => (true, d.put q (some .dir))
    | .directory, some .dir => (true, d)
    | .directory, some _ => (false, d)
    | _, some .dir => (false, d)
    | _, _ => (true, d.create q e.data)

section Unpack

variable {dir q : Place} {path : List String} {d : Drive}

theorem writes_refl : Drive.Writes dir path q d d :=
  ⟨Fs.Agree.refl _ _, fun _ h => h, fun _ h => .inl h, Nat.le_refl _, fun _ _ _ => rfl, fun _ h => .inl h⟩

theorem writes_dir : Drive.Writes dir path q d (d.put q (some .dir)) where
  nodes := Fs.agree_set (fun h => h rfl) _ _
  link target h := by
    have hdir : some Fs.Node.dir = some (.link target) := (Fs.node_set_self q _ d.tree).symm.trans h
    cases hdir
  file i h := by
    have hdir : some Fs.Node.dir = some (Fs.Node.file (File.regular i)) := (Fs.node_set_self q _ d.tree).symm.trans h
    cases hdir
  next := Nat.le_refl _
  data _ _ _ := rfl
  touched p hp := (List.mem_cons.mp hp).elim (fun h => .inr (.inl h)) .inl

theorem writes_create (bytes : Bytes) : Drive.Writes dir path q d (d.create q bytes) where
  nodes := Fs.agree_set (fun h => h rfl) _ _
  link target h := by
    have hfile : some (Fs.Node.file (File.regular d.next)) = some (.link target) := (Fs.node_set_self q _ d.tree).symm.trans h
    cases hfile
  file i h := by
    have hfile : some (Fs.Node.file (File.regular d.next)) = some (Fs.Node.file (File.regular i)) :=
      (Fs.node_set_self q _ d.tree).symm.trans h
    obtain rfl : d.next = i := File.regular.inj (Fs.Node.file.inj (Option.some.inj hfile))
    exact .inr ⟨Nat.le_refl _, Nat.lt_succ_self _⟩
  next := Nat.le_succ _
  data i hi _ := Function.update_of_ne hi.ne ..
  touched p hp := (List.mem_cons.mp hp).elim (fun h => .inr (.inl h)) .inl

theorem unpackPlain_plain : unpackPlain.Plain := by
  intro n e dir path d he
  constructor
  · intro q hq
    unfold unpackPlain
    rw [hq]
    dsimp only
    split
    · exact writes_dir
    · exact writes_refl
    · exact writes_refl
    · exact writes_refl
    · exact writes_create e.data
  · intro err hq
    unfold unpackPlain
    rw [hq]

end Unpack

end Tarball

/-! ### Both extractors -/

/-- Whatever an archive holds and however its extraction ends, nothing is changed outside of the destination: by
the updater's extractor, with the data filter or without, into a directory without links that lead up; by the
launcher's, from where its loop begins. -/
theorem extraction_confined {flt : Archive.Filter} {depth : ℕ} {source : Archive.Source} {dest : Place} {e : Archive.Env}
    (htame : e.drive.Tame dest) {unpack : Tarball.Unpack} (hu : unpack.Plain) (target : Tarball.FileName)
    (archive : Option (List (Option Tarball.Entry))) {dir : Place} {e' : Tarball.Env} (hroot : e'.drive.tree.Rooted)
    (hfresh : ∀ p i, e'.drive.Holds p i → i < e'.drive.next) :
    Drive.Confined dest e.drive (Prog.run (Archive.Env.perform dest) (Archive.extractArchive flt depth source).run e).2.drive ∧
      Drive.Confined (dir ++ [target.text]) (Prog.run (Tarball.Env.perform unpack dir) (Tarball.prepare target.text) e').2.drive
        (Prog.run (Tarball.Env.perform unpack dir) (Tarball.extractTarball target archive) e').2.drive :=
  ⟨(Archive.extractArchive_kept htame).2, Tarball.extractTarball_confined hu target archive hroot hfresh⟩

/-- An empty destination beside a file. -/
def besideSecret : Drive where
  tree := ((Fs.empty.set [] (some .dir)).set ["dest"] (some .dir)).set ["secret"] (some (.file (.regular 0)))
  data _ := []
  next := 1
  touched := []

theorem besideSecret_cases {p : Place} (h : besideSecret.tree.node p ≠ none) : p = ["secret"] ∨ p = ["dest"] ∨ p = [] := by
  have hmem := besideSecret.tree.complete p (Option.isSome_iff_ne_none.mpr h)
  simpa [besideSecret, Fs.set, Fs.empty] using hmem

theorem besideSecret_fresh (p : Place) (i : ℕ) (h : besideSecret.Holds p i) : i < besideSecret.next := by
  unfold Drive.Holds at h
  rcases besideSecret_cases (by rw [h]; simp) with rfl | rfl | rfl
  · obtain rfl : 0 = i := File.regular.inj (Fs.Node.file.inj (Option.some.inj h))
    exact Nat.zero_lt_one
  · cases h
  · cases h

theorem besideSecret_tame : besideSecret.Tame ["dest"] := by
  refine Drive.tame_of_empty (fun p hp => ?_) besideSecret_fresh
  by_cases hnone : besideSecret.tree.node p = none
  · exact .inl hnone
  · rcases besideSecret_cases hnone with rfl | rfl | rfl
    · exact absurd hp (by decide)
    · exact .inr rfl
    · exact absurd hp (by decide)

theorem besideSecret_rooted : besideSecret.tree.Rooted := by
  intro p c h
  rcases besideSecret_cases (Option.isSome_iff_ne_none.mp h) with hp | hp | hp
  · obtain ⟨rfl, -⟩ : p = [] ∧ [c] = ["secret"] := List.append_inj' hp rfl
    rfl
  · obtain ⟨rfl, -⟩ : p = [] ∧ [c] = ["dest"] := List.append_inj' hp rfl
    rfl
  · simp at hp

/-- A link, a file behind it, and a hard link to that file that is written once more. -/
def linked : Archive.Source where
  name := "linked.tar.gz"
  tar := .ok [⟨"d", .dir, "", [], 0⟩, ⟨"l", .symlink, "d", [], 1⟩, ⟨"l/x/f", .file, "", [1, 2], 2⟩,
    ⟨"h", .hardlink, "l/x/f", [], 3⟩, ⟨"h", .file, "", [7], 4⟩]
  zip := .error .other

def sampleTarget : Tarball.FileName := ⟨"1.0", by decide⟩

def sampleEntry : Tarball.Entry := ⟨.regular, "versions/1.0/runtime", some 1, [1]⟩

theorem linked_confined :
    Drive.Confined ["dest"] besideSecret
        (Prog.run (Archive.Env.perform ["dest"]) (Archive.extractArchive .data 3 linked).run ⟨besideSecret, fun _ => {}, 0⟩).2.drive ∧
      Drive.Confined (["dest"] ++ [sampleTarget.text])
        (Prog.run (Tarball.Env.perform Tarball.unpackPlain ["dest"]) (Tarball.prepare sampleTarget.text)
          ⟨besideSecret, fun _ => {}, 0⟩).2.drive
        (Prog.run (Tarball.Env.perform Tarball.unpackPlain ["dest"]) (Tarball.extractTarball sampleTarget (some [some sampleEntry]))
          ⟨besideSecret, fun _ => {}, 0⟩).2.drive :=
  extraction_confined (e := ⟨besideSecret, fun _ => {}, 0⟩) besideSecret_tame Tarball.unpackPlain_plain sampleTarget
    (some [some sampleEntry]) besideSecret_rooted besideSecret_fresh

/-- The file behind the link is written in the directory that the link leads to, and again through its other name. -/
example : (Prog.run (Archive.Env.perform ["dest"]) (Archive.extractArchive .data 3 linked).run
    ⟨besideSecret, fun _ => {}, 0⟩).2.drive.data 1 = [7] := by decide +kernel

end Install
end LocaiLink
