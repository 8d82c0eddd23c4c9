/-
# Extracting changes nothing outside of the destination

What passes the checks leads nowhere up: a name has no part `..`, and a link's target is
followed from where it is and has none either. So every call of an extraction is by a
path that only goes down, over links that only go down (`Call.Descends`), and the drive
outside of the destination stays as it is.
-/
import LocaiLink.Utils.Archive
import LocaiLink.Base.Cuts
import LocaiLink.Base.Triple

namespace LocaiLink
namespace Archive

/-! ### Texts that lead down -/

theorem mem_parts {text part : String} : part ∈ parts text ↔ part.toList ∈ Text.split '/' text.toList := by
  unfold parts
  rw [List.mem_map]
  constructor
  · rintro ⟨l, hl, rfl⟩
    rwa [String.toList_ofList]
  · exact fun h => ⟨part.toList, h, String.ofList_toList⟩

/-- The first part is the beginning of the text, up to a slash or to its end. -/
theorem startsUp_of_split {l : List Char} {ps : List (List Char)} (h : Text.split '/' l = "..".toList :: ps) :
    startsUp l = true := by
  have hl : ['/'].intercalate ("..".toList :: ps) = l := by
    rw [← h, Text.split_eq, List.intercalate_splitOn]
  cases ps with
  | nil =>
    rw [List.intercalate_singleton] at hl
    subst hl
    rfl
  | cons p ps =>
    rw [List.intercalate_cons_cons] at hl
    subst hl
    rfl

/-- The other parts come after a slash. -/
theorem turnsUp_of_split : ∀ {l p : List Char} {ps : List (List Char)}, Text.split '/' l = p :: ps → "..".toList ∈ ps →
    turnsUp l = true
  | [], _, _, h, hmem => by
    cases h
    cases hmem
  | c :: l, p, ps, h, hmem => by
    obtain ⟨q, qs, hq⟩ : ∃ q qs, Text.split '/' l = q :: qs := by
      rw [Text.split_eq]
      exact List.exists_cons_of_ne_nil (List.splitOn_ne_nil '/' l)
    rw [Text.split, hq] at h
    rw [turnsUp, Bool.or_eq_true]
    split_ifs at h with hc
    · obtain ⟨-, rfl⟩ := List.cons.inj h
      rcases List.mem_cons.mp hmem with rfl | hmem
      · left
        rw [startsUp_of_split hq, hc]
        rfl
      · exact .inr (turnsUp_of_split hq hmem)
    · obtain ⟨-, rfl⟩ := List.cons.inj h
      exact .inr (turnsUp_of_split hq hmem)

/-- What is not refused has no part that leads up and does not begin at the root. -/
theorem descends_of_safe {text : String} (h : unsafePath text = false) :
    ".." ∉ parts text ∧ text.toList.head? ≠ some '/' := by
  unfold unsafePath at h
  rw [Bool.or_eq_false_iff, Bool.or_eq_false_iff, Bool.or_eq_false_iff] at h
  obtain ⟨⟨⟨hhead, -⟩, hstart⟩, hturn⟩ := h
  constructor
  · rw [mem_parts]
    intro hmem
    obtain ⟨p, ps, hp⟩ : ∃ p ps, Text.split '/' text.toList = p :: ps := by
      rw [Text.split_eq]
      exact List.exists_cons_of_ne_nil (List.splitOn_ne_nil '/' _)
    rw [hp] at hmem
    rcases List.mem_cons.mp hmem with rfl | hmem
    · rw [startsUp_of_split hp] at hstart
      cases hstart
    · rw [turnsUp_of_split hp hmem] at hturn
      cases hturn
  · intro hslash
    rw [hslash] at hhead
    cases hhead

/-- A link's target that is not refused leads down. -/
theorem target_descends {text : String} (h : unsafePath text = false) : (Drive.target text).Descends := by
  obtain ⟨hparts, hhead⟩ := descends_of_safe h
  refine ⟨?_, hparts⟩
  unfold Drive.target Path.isAbsolute
  rw [if_neg hhead]
  rfl

/-- Parts joined by slashes are the parts of what they are joined to. -/
theorem parts_intercalate {ps : List String} (hne : ps ≠ []) (hslash : ∀ p ∈ ps, '/' ∉ p.toList) :
    parts ("/".intercalate ps) = ps := by
  have hjoin : ("/".intercalate ps).toList = ['/'].intercalate (ps.map String.toList) := String.toList_intercalate
  unfold parts
  rw [hjoin, Text.split_eq, List.splitOn_intercalate '/' ?_ (by simpa using hne)]
  · simp
  · intro l hl
    obtain ⟨p, hp, rfl⟩ := List.mem_map.mp hl
    exact hslash p hp

/-- Without parts that lead up there are no detours. -/
theorem foldl_collapse {ps : List String} (h : ".." ∉ ps) (root : ℕ) : ∀ done, ps.foldl (collapse root) done = done ++ ps := by
  induction ps with
  | nil => simp
  | cons p ps ih =>
    rw [List.mem_cons, not_or] at h
    intro done
    have hp : collapse root done p = done ++ [p] := if_pos (.inl (Ne.symm h.1))
    rw [List.foldl_cons, hp, ih h.2, List.append_assoc]
    rfl

/-- No part has a slash. -/
theorem slash_not_mem {text part : String} (h : part ∈ parts text) : '/' ∉ part.toList := by
  rw [mem_parts, Text.split_eq, List.splitOn_eq_splitOnP] at h
  intro hmem
  have := Text.of_mem_splitOnP h '/' hmem
  simp at this

/-- The data filter's spelling of a target that leads down leads down. -/
theorem normpath_descends {text : String} (hparts : ".." ∉ parts text) (hhead : text.toList.head? ≠ some '/') :
    (Drive.target (normpath text)).Descends := by
  have hroot : (Path.ofString text).root = 0 := by
    unfold Path.ofString
    cases htext : text.toList with
    | nil => rfl
    | cons c l =>
      have hc : c ≠ '/' := by
        rintro rfl
        exact hhead (by rw [htext]; rfl)
      have hlead : Path.leadingSlashes (c :: l) = 0 := by
        unfold Path.leadingSlashes
        split
        · rename_i heq
          exact absurd (List.cons.inj heq).1 hc
        · rfl
      simp only [hlead]
  have hsub : ∀ p ∈ (Path.ofString text).parts, p ∈ parts text := fun p hp => (List.mem_filter.mp hp).1
  have hup : ".." ∉ (Path.ofString text).parts := fun hp => hparts (hsub _ hp)
  have hsame : normpath text = ({ Path.ofString text with root := 0 } : Path).text := by
    unfold normpath
    dsimp only
    rw [foldl_collapse hup, List.nil_append, hroot]
  rw [hsame]
  unfold Path.text
  by_cases hnil : (Path.ofString text).parts = []
  · rw [if_pos ⟨rfl, hnil⟩]
    exact target_descends (by decide +kernel)
  · rw [if_neg fun h => hnil h.2]
    have hjoin : String.ofList (List.replicate 0 '/') ++ "/".intercalate (Path.ofString text).parts =
        "/".intercalate (Path.ofString text).parts := by simp
    rw [hjoin]
    have hback := parts_intercalate hnil fun p hp => slash_not_mem (hsub p hp)
    refine ⟨?_, fun hmem => hup (hback ▸ hmem)⟩
    have hfirst : ("/".intercalate (Path.ofString text).parts).toList.head? ≠ some '/' := by
      intro hslash
      obtain ⟨l, hl⟩ := List.head?_eq_some_iff.mp hslash
      have hempty : "" ∈ parts ("/".intercalate (Path.ofString text).parts) := by
        rw [mem_parts, hl, Text.split, if_pos rfl]
        exact List.mem_cons_self
      rw [hback] at hempty
      exact absurd (List.mem_filter.mp hempty).2 (by simp)
    unfold Drive.target Path.isAbsolute
    rw [if_neg hfirst]
    rfl

/-! ### Calls that keep what is outside -/

/-- The paths of a call that changes something have no part that leads up. -/
def Change.Descends : Change → Prop
  | .mkdir path | .mknod path | .write path _ | .unlink path | .setAttrs _ path => ".." ∉ path
  | .symlink text path => (Drive.target text).Descends ∧ ".." ∉ path
  | .link src path => ".." ∉ src ∧ ".." ∉ path

def Call.Descends : Call → Prop
  | .change c => c.Descends
  | _ => True

section Calls

variable {dest : Place} {d₀ : Drive} {e : Env}

theorem kept_change {texts : List String} {f : Drive → Except Errno Unit × Drive}
    (hf : ∀ d, d.Tame dest → Drive.Kept dest d (f d).2) (h : Drive.Kept dest d₀ e.drive) :
    Drive.Kept dest d₀ (e.change texts f).2.drive := by
  unfold Env.change
  split
  · exact h
  · exact h.step (hf e.drive)

theorem performChange_kept {c : Change} (hc : c.Descends) (h : Drive.Kept dest d₀ e.drive) :
    Drive.Kept dest d₀ (e.performChange dest c).2.drive := by
  have hdest : dest <+: dest := List.prefix_refl dest
  cases c with
  | mkdir path => exact kept_change (fun d hd => Drive.kept_mkdir hdest hd hc) h
  | mknod path => exact kept_change (fun d hd => Drive.kept_mknod hdest hd hc) h
  | write path data =>
    unfold Env.performChange Env.write
    dsimp only
    split
    · exact kept_change (fun d hd => Drive.kept_write hdest hd hc data) h
    · rename_i n err _
      exact kept_change (fun d hd => Drive.kept_write hdest hd hc (data.take n)) h
  | unlink path => exact kept_change (fun d hd => Drive.kept_unlink hdest hd hc) h
  | symlink text path => exact kept_change (fun d hd => Drive.kept_symlink hdest hd hc.2 hc.1) h
  | link src path => exact kept_change (fun d hd => Drive.kept_link hdest hd hc.2 hc.1) h
  | setAttrs follow path => exact kept_change (fun d hd => Drive.kept_setAttrs hdest hd hc) h

/-- A call by paths that lead down keeps what is outside. -/
theorem perform_kept {c : Call} (hc : c.Descends) (h : Drive.Kept dest d₀ e.drive) :
    Drive.Kept dest d₀ (Env.perform dest c e).2.drive := by
  cases c with
  | there path => exact h
  | linkThere path => exact h
  | isDir path => exact h
  | lstatIsDir path => exact h
  | change c => exact performChange_kept hc h
  | filter m => exact kept_change (fun d hd => ⟨hd, .refl⟩) h

end Calls

/-! ### Programs of such calls -/

/-- The program comes only to calls by paths that lead down, and returns what is in `Q`. -/
abbrev DownTo {α : Type} (Q : α → Prop) (x : Raising α) : Prop := x.run.EndsIn Call.Descends (Prog.Returns Q)

abbrev Down {α : Type} (x : Raising α) : Prop := DownTo (fun _ => True) x

section Programs

variable {α β : Type} {Q : α → Prop} {R : β → Prop} {x : Raising α} {path : List String} {m u : Member} {flt : Filter}
  {archive : List Member}

theorem DownTo.bind {f : α → Raising β} (hx : DownTo Q x) (hf : ∀ a, Q a → DownTo R (f a)) : DownTo R (x >>= f) :=
  Prog.EndsIn.raising hx hf

theorem DownTo.mono {Q' : α → Prop} (hx : DownTo Q x) (h : ∀ a, Q a → Q' a) : DownTo Q' x :=
  Prog.EndsIn.mono (fun r hr => match r with
    | .ok a => h a hr
    | .error _ => trivial) hx

theorem DownTo.tryCatch {g : Err → Raising α} (hx : DownTo Q x) (hg : ∀ e, DownTo Q (g e)) : DownTo Q (tryCatch x g) :=
  Prog.EndsIn.tryCatch hx hg

theorem downTo_pure {a : α} (h : Q a) : DownTo Q (pure a) := h

theorem downTo_throw (e : Err) : DownTo Q (throw e : Raising α) := trivial

theorem down_pure (a : α) : Down (pure a) := trivial

theorem DownTo.ite {c : Prop} [Decidable c] {y : Raising α} (hx : DownTo Q x) (hy : DownTo Q y) :
    DownTo Q (if c then x else y) := by
  split_ifs <;> assumption

theorem down_ask {c : Call} (hc : c.Descends) : Down (ask c) := ⟨hc, fun _ => trivial⟩

/-- A question whose answer decides what comes next. -/
theorem downTo_asking {c : Call} (hc : c.Descends) {f : c.Resp → Raising α} (hf : ∀ r, DownTo Q (f r)) :
    DownTo Q (ask c >>= f) :=
  (down_ask hc).bind fun r _ => hf r

theorem down_syscall {c : Change} (hc : c.Descends) : Down (syscall c) :=
  ⟨hc, fun r => match r with
    | .ok _ => trivial
    | .error _ => trivial⟩

/-- An exception is raised again, or something else is done. -/
theorem downTo_reraise {c : Prop} [Decidable c] {e : Err} (hx : DownTo Q x) : DownTo Q (if c then x else throw e) :=
  hx.ite (downTo_throw e)

theorem down_makedirs : ∀ {ups : List String}, ".." ∉ ups → Down (makedirs ups)
  | [], _ => down_syscall (c := .mkdir []) List.not_mem_nil
  | tail :: up, h => by
    have hall : ".." ∉ (tail :: up).reverse := by rwa [List.mem_reverse]
    have hmkdir : Down (syscall (.mkdir (tail :: up).reverse)) := down_syscall (c := .mkdir _) hall
    have hup : Down (makedirs up) := down_makedirs fun hmem => h (List.mem_cons_of_mem tail hmem)
    have hcaught := hup.tryCatch (g := fun e => if e = .fileExists then pure () else throw e) fun e =>
      downTo_reraise (down_pure ())
    rw [makedirs]
    refine downTo_asking (c := .there up.reverse) trivial fun there => hmkdir.ite ?_
    exact hcaught.bind fun _ _ => hmkdir.ite (down_pure ())

theorem down_makeUpperdirs (h : ".." ∉ path) : Down (makeUpperdirs path) := by
  have hup : ".." ∉ path.dropLast.reverse := fun hmem => h (List.mem_of_mem_dropLast (List.mem_reverse.mp hmem))
  exact downTo_asking (c := .there path.dropLast) trivial fun there => (down_makedirs hup).ite (down_pure ())

theorem down_makedir (h : ".." ∉ path) : Down (makedir path) := by
  refine (down_syscall (c := .mkdir path) h).tryCatch fun e => downTo_reraise ?_
  exact downTo_asking (c := .isDir path) trivial fun dir => DownTo.ite (downTo_throw e) (down_pure ())

theorem down_setAttrs (h : ".." ∉ path) : Down (setAttrs m path) :=
  (down_syscall (c := .setAttrs _ path) h).tryCatch fun _ => downTo_throw _

/-! ### Entries that lead down -/

/-- An entry that is not refused: its name has no part that leads up, nor has its target. -/
def Member.Descends (m : Member) : Prop := ".." ∉ parts m.name ∧ (m.isLink = true → (Drive.target m.linkname).Descends)

theorem Member.Descends.targetPath (h : m.Descends) : ".." ∉ targetPath m.name := fun hmem =>
  h.1 (List.mem_filter.mp hmem).1

/-- The slashes at the front are the empty parts at the front. -/
theorem mem_split_dropSlashes {part : List Char} : ∀ {l : List Char},
    part ∈ Text.split '/' (l.dropWhile (· = '/')) → part ∈ Text.split '/' l
  | [], h => h
  | c :: l, h => by
    by_cases hc : c = '/'
    · rw [List.dropWhile_cons_of_pos (by simpa using hc)] at h
      rw [Text.split, if_pos hc]
      exact List.mem_cons_of_mem _ (mem_split_dropSlashes h)
    · rwa [List.dropWhile_cons_of_neg (by simpa using hc)] at h

theorem Member.Descends.filtered (h : m.Descends) : m.filtered.Descends := by
  constructor
  · intro hmem
    rw [mem_parts] at hmem
    unfold Member.filtered at hmem
    rw [String.toList_ofList] at hmem
    exact h.1 (mem_parts.mpr (mem_split_dropSlashes hmem))
  · intro hlink
    have hlink : m.isLink = true := hlink
    obtain ⟨habs, hparts⟩ := h.2 hlink
    have hhead : m.linkname.toList.head? ≠ some '/' := by
      intro hslash
      unfold Drive.target Path.isAbsolute at habs
      rw [if_pos hslash] at habs
      cases habs
    have htext : m.filtered.linkname = normpath m.linkname := if_pos hlink
    rw [htext]
    exact normpath_descends hparts hhead

/-- What a filter makes of an entry that leads down leads down. -/
theorem down_apply (flt : Filter) (h : m.Descends) : DownTo Member.Descends (flt.apply m) := by
  cases flt with
  | fullyTrusted => exact downTo_pure h
  | data =>
    have hfilter : Down (attempt (act (.filter m))) :=
      ⟨trivial, fun r => match r with
        | .ok _ => trivial
        | .error _ => trivial⟩
    exact hfilter.bind fun _ _ => downTo_pure h.filtered

theorem findLinkTarget_mem (h : findLinkTarget archive m = some u) : u ∈ archive := by
  unfold findLinkTarget at h
  split_ifs at h
  · exact List.mem_reverse.mp (List.mem_of_find?_eq_some h)
  · exact List.takeWhile_subset _ (List.mem_reverse.mp (List.mem_of_find?_eq_some h))

section Members

variable {linkTarget : Option (List String)} (harchive : ∀ u ∈ archive, u.Descends) (hm : m.Descends) (hpath : ".." ∉ path)
  (hsrc : ∀ src, linkTarget = some src → ".." ∉ src)
include hm hpath hsrc

theorem down_tryLink (hlink : m.isLink = true) : Down (tryLink m linkTarget path) := by
  unfold tryLink
  split_ifs with hkind
  · have hsymlink : Down (do syscall (.symlink m.linkname path); pure true) :=
      (down_syscall (c := .symlink m.linkname path) ⟨hm.2 hlink, hpath⟩).bind fun _ _ => down_pure true
    refine downTo_asking (c := .linkThere path) trivial fun there => ?_
    exact DownTo.ite ((down_syscall (c := .unlink path) hpath).bind fun _ _ => hsymlink) hsymlink
  · cases linkTarget with
    | none => exact downTo_throw _
    | some src =>
      have hmake := down_syscall (c := .link src path) ⟨hsrc src rfl, hpath⟩
      exact downTo_asking (c := .there src) trivial fun there =>
        DownTo.ite (hmake.bind fun _ _ => down_pure true) (down_pure false)

include harchive

theorem down_makelink {again : Member → Raising Unit} (hagain : ∀ u, u.Descends → Down (again u)) (hlink : m.isLink = true) :
    Down (makelink again flt archive m linkTarget path) := by
  unfold makelink
  have htry : Down (some <$> tryLink m linkTarget path) :=
    (down_tryLink hm hpath hsrc hlink).bind fun made _ => down_pure (some made)
  refine (htry.tryCatch fun e => downTo_reraise (down_pure none)).bind fun made _ => DownTo.ite (down_pure ()) ?_
  split
  · exact downTo_throw _
  · rename_i unfiltered hfound
    have happly := down_apply flt (harchive unfiltered (findLinkTarget_mem hfound))
    exact (happly.tryCatch fun e => downTo_throw _).bind fun u hu => hagain u hu

theorem down_materialise {again : Member → Raising Unit} (hagain : ∀ u, u.Descends → Down (again u)) (attrs : Bool) :
    Down (materialise again flt archive m linkTarget path attrs) := by
  unfold materialise
  have hattrs : Down (if attrs then setAttrs m path else pure ()) := (down_setAttrs hpath).ite (down_pure ())
  have hlink (h : m.isLink = true) : Down (makelink again flt archive m linkTarget path) :=
    down_makelink harchive hm hpath hsrc hagain h
  refine (down_makeUpperdirs hpath).bind fun _ _ => ?_
  cases hkind : m.kind with
  | file => exact (down_syscall (c := .write path m.data) hpath).bind fun _ _ => hattrs
  | dir => exact (down_makedir hpath).bind fun _ _ => hattrs
  | special => exact (down_syscall (c := .mknod path) hpath).bind fun _ _ => hattrs
  | symlink => exact (hlink (by simp [Member.isLink, hkind])).bind fun _ _ => hattrs
  | hardlink => exact (hlink (by simp [Member.isLink, hkind])).bind fun _ _ => hattrs

end Members

theorem down_extractMember (flt : Filter) (harchive : ∀ u ∈ archive, u.Descends) (depth : ℕ) : ∀ {m : Member}
    {linkTarget : Option (List String)} {path : List String} (attrs : Bool), m.Descends → ".." ∉ path →
      (∀ src, linkTarget = some src → ".." ∉ src) → Down (extractMember flt archive depth m linkTarget path attrs) := by
  induction depth with
  | zero => exact fun attrs hm hpath hsrc => down_materialise harchive hm hpath hsrc (fun _ _ => downTo_throw _) attrs
  | succ depth ih =>
    intro m linkTarget path attrs hm hpath hsrc
    exact down_materialise harchive hm hpath hsrc (fun u hu => ih true hu hpath fun _ h => by cases h) attrs

/-- An `ExtractError`, or anything that is caught, is left at that. -/
theorem downTo_caught {c : Prop} [Decidable c] {e : Err} {a : α} (h : Q a) : DownTo Q (if c then pure a else throw e) :=
  DownTo.ite (downTo_pure h) (downTo_throw e)

theorem down_extractEntry (harchive : ∀ u ∈ archive, u.Descends) {depth : ℕ} (hm : m.Descends) :
    Down (extractEntry flt depth archive m) := by
  unfold extractEntry
  have happly : DownTo (fun f : Option Member => ∀ u, f = some u → u.Descends) (some <$> flt.apply m) :=
    (down_apply flt hm).bind fun u hu => downTo_pure fun v hv => Option.some.inj hv ▸ hu
  refine (happly.tryCatch fun e => downTo_caught fun _ h => by cases h).bind fun filtered hfiltered => ?_
  cases filtered with
  | none => exact down_pure none
  | some u =>
    have hu := hfiltered u rfl
    have hsrc : ∀ src, (if u.kind = .hardlink then some (parts u.linkname) else none) = some src → ".." ∉ src := by
      intro src h
      split_ifs at h with hkind
      obtain rfl := Option.some.inj h
      exact (hu.2 (by simp [Member.isLink, hkind])).2
    have hextract := down_extractMember flt harchive depth (u.kind ≠ .dir) hu hu.targetPath hsrc
    exact (hextract.tryCatch fun e => downTo_caught trivial).bind fun _ _ => down_pure (some u)

theorem down_extractEntries (harchive : ∀ u ∈ archive, u.Descends) (depth : ℕ) : ∀ {ms : List Member},
    (∀ m ∈ ms, m.Descends) → DownTo (fun dirs => ∀ m ∈ dirs, m.Descends) (extractEntries flt depth archive ms)
  | [], h => downTo_pure h
  | m :: ms, h => by
    have hm := h m List.mem_cons_self
    have hms := down_extractEntries harchive depth fun u hu => h u (List.mem_cons_of_mem m hu)
    rw [extractEntries]
    refine (down_extractEntry harchive hm).bind fun u _ => hms.bind fun dirs hdirs => downTo_pure ?_
    split_ifs
    · exact List.forall_mem_cons.mpr ⟨hm, hdirs⟩
    · exact hdirs

theorem down_fixDirectory (hm : m.Descends) : Down (fixDirectory flt m) := by
  unfold fixDirectory
  have happly : DownTo (fun f : Option Member => ∀ u, f = some u → u.Descends) (some <$> flt.apply m) :=
    (down_apply flt hm).bind fun u hu => downTo_pure fun v hv => Option.some.inj hv ▸ hu
  refine (happly.tryCatch fun e => downTo_caught fun _ h => by cases h).bind fun filtered hfiltered => ?_
  cases filtered with
  | none => exact down_pure ()
  | some u =>
    have hlstat : Down (attempt (act (.lstatIsDir (parts u.name)))) :=
      ⟨trivial, fun r => match r with
        | .ok _ => trivial
        | .error _ => trivial⟩
    have hattrs : Down (setAttrs u (parts u.name)) := down_setAttrs (hfiltered u rfl).1
    exact hlstat.bind fun dir _ => DownTo.ite (hattrs.tryCatch fun e => downTo_caught trivial) (down_pure ())

theorem down_fixDirectories : ∀ {ms : List Member}, (∀ m ∈ ms, m.Descends) → Down (fixDirectories flt ms)
  | [], _ => down_pure ()
  | m :: _, h =>
    (down_fixDirectory (h m List.mem_cons_self)).bind fun _ _ =>
      down_fixDirectories fun u hu => h u (List.mem_cons_of_mem m hu)

theorem down_extractall (harchive : ∀ u ∈ archive, u.Descends) (depth : ℕ) : Down (extractall flt depth archive) :=
  (down_extractEntries harchive depth harchive).bind fun _ hdirs =>
    down_fixDirectories fun m hm => hdirs m (List.mem_mergeSort.mp hm)

/-! ### The checks -/

theorem down_refuseUnsafe (name : String) : DownTo (fun _ => unsafePath name = false) (refuseUnsafe name) := by
  unfold refuseUnsafe
  split_ifs with h
  · exact downTo_throw _
  · exact downTo_pure (by simpa using h)

theorem down_refuseMember (m : Member) : DownTo (fun _ => m.Descends) (refuseMember m) := by
  unfold refuseMember
  refine (down_refuseUnsafe m.name).bind fun _ hname => ?_
  have hparts := (descends_of_safe hname).1
  split_ifs with hlink
  · exact (down_refuseUnsafe m.linkname).mono fun _ htarget => ⟨hparts, fun _ => target_descends htarget⟩
  · exact downTo_pure ⟨hparts, fun h => absurd h hlink⟩

/-- Once the checks are passed, every entry leads down. -/
theorem down_refuseMembers : ∀ ms : List Member, DownTo (fun _ => ∀ m ∈ ms, m.Descends) (refuseMembers ms)
  | [] => downTo_pure fun _ h => absurd h List.not_mem_nil
  | m :: ms =>
    (down_refuseMember m).bind fun _ hm => (down_refuseMembers ms).mono fun _ hms => List.forall_mem_cons.mpr ⟨hm, hms⟩

theorem down_refuseNames : ∀ ns : List String, Down (refuseNames ns)
  | [] => down_pure ()
  | n :: ns => (down_refuseUnsafe n).bind fun _ _ => down_refuseNames ns

theorem down_extractTar (depth : ℕ) (members : Except Err (List Member)) : Down (extractTar flt depth members) := by
  unfold extractTar
  cases members with
  | error err => exact downTo_throw err
  | ok members => exact (down_refuseMembers members).bind fun _ hall => down_extractall hall depth

/-! ### Zip entries, whose names lose the parts that lead up -/

theorem down_extractZipEntry (z : ZipEntry) : Down (extractZipEntry z) := by
  unfold extractZipEntry
  have hpath : ".." ∉ arcname z.name := fun hmem => by simpa using (List.mem_filter.mp hmem).2
  have hmkdir : Down (syscall (.mkdir (arcname z.name))) := down_syscall (c := .mkdir _) hpath
  have hentry : Down (do
      makeUpperdirs (arcname z.name)
      if z.isDir then
        if !(← ask (.isDir (arcname z.name))) then syscall (.mkdir (arcname z.name))
      else syscall (.write (arcname z.name) z.data)) := by
    refine (down_makeUpperdirs hpath).bind fun _ _ => DownTo.ite ?_ (down_syscall (c := .write _ z.data) hpath)
    exact downTo_asking (c := .isDir _) trivial fun dir => hmkdir.ite (down_pure ())
  exact DownTo.ite ((downTo_throw _).bind fun _ (_ : True) => hentry) hentry

theorem down_extractNames (entries : List ZipEntry) : ∀ ns : List String, Down (extractNames entries ns)
  | [] => down_pure ()
  | n :: ns => by
    have hrest := down_extractNames entries ns
    rw [extractNames]
    split
    · exact (downTo_throw (Q := fun _ => True) _).bind fun _ _ => hrest
    · exact (down_extractZipEntry _).bind fun _ _ => hrest

theorem down_extractZip (entries : Except Err (List ZipEntry)) : Down (extractZip entries) := by
  unfold extractZip
  cases entries with
  | error err => exact downTo_throw err
  | ok entries => exact (down_refuseNames _).bind fun _ _ => down_extractNames entries _

theorem down_mkdirDest : Down mkdirDest := by
  refine (down_syscall (c := .mkdir []) List.not_mem_nil).tryCatch fun err => downTo_reraise ?_
  exact downTo_asking (c := .isDir []) trivial fun dir => DownTo.ite (downTo_throw err) (down_pure ())

/-- Every call of an extraction is by paths that lead down. -/
theorem down_extractArchive (flt : Filter) (depth : ℕ) (source : Source) : Down (extractArchive flt depth source) := by
  unfold extractArchive
  refine down_mkdirDest.bind fun _ _ => ?_
  exact DownTo.ite (down_extractTar depth source.tar) (DownTo.ite (down_extractZip source.zip) (downTo_throw _))

end Programs

/-- What is outside of the destination stays as it is, and the destination stays tame. -/
theorem extractArchive_kept {flt : Filter} {depth : ℕ} {source : Source} {dest : Place} {e : Env} (h : e.drive.Tame dest) :
    Drive.Kept dest e.drive (Prog.run (Env.perform dest) (extractArchive flt depth source).run e).2.drive :=
  Prog.Only.run_keeps (Env.perform dest) (I := fun e' : Env => Drive.Kept dest e.drive e'.drive)
    (fun _ _ hc hkept => perform_kept hc hkept) (down_extractArchive flt depth source).only ⟨h, .refl⟩

end Archive
end LocaiLink
