/-
# Who reads which version

From a fresh install root, whatever the updater, the bootstrap and the rollback
write, `current` is a link to a version's directory or `CURRENT` holds a version's
name (`Pointed`). The readers of the updater, of the launcher and of the app agree
wherever `current` is a link or no text file is there, and nowhere else
(`readers_agree_iff`).
-/
import LocaiLink.Install.Rules

namespace LocaiLink
namespace Install

open Prog World

/-! ### Places below the install root -/

section Places

variable {root q : Place} {a b : String} {l l' : List String}

theorem below_root_iff : root ++ a :: l <+: root ++ b :: l' ↔ a = b ∧ l <+: l' := by
  rw [List.prefix_append_right_inj, List.cons_prefix_cons]

theorem ne_of_name (h : a ≠ b) : root ++ a :: l ≠ root ++ b :: l' := fun he => by
  rw [List.append_cancel_left_eq, List.cons.injEq] at he
  exact h he.1

theorem agree_mkdirs {P : Place → Prop} {p : Place} (h : ∀ q, q <+: p → ¬P q) (t : Fs Bytes) :
    Fs.Agree P (mkdirs p t) t := by
  have hall (l : List Place) (hl : ∀ q ∈ l, ¬P q) (u : Fs Bytes) : Fs.Agree P
      (l.foldl (fun t q => if (t.node q).isSome then t else t.set q (some .dir)) u) u := by
    induction l generalizing u with
    | nil => exact .refl P u
    | cons q l ih =>
      refine (ih (fun r hr => hl r (List.mem_cons_of_mem _ hr)) _).trans ?_
      dsimp only
      split_ifs
      · exact .refl P u
      · exact Fs.agree_set (hl q (List.mem_cons_self ..)) _ u
  exact hall _ (fun q hq => h q ((List.mem_inits ..).mp hq)) t

/-- Below an entry of the install root whose name meets `p`. -/
def Where (root : Place) (p : String → Prop) (q : Place) : Prop := ∃ name l, q = root ++ name :: l ∧ p name

variable {p : String → Prop} {name : String}

theorem not_where (hname : ¬p name) (hq : root ++ name :: l <+: q) : ¬Where root p q := by
  rintro ⟨name', l', rfl, hmem⟩
  exact hname ((below_root_iff.mp hq).1 ▸ hmem)

/-- The way to an entry of another name is not there either. -/
theorem not_where_way (hname : ¬p name) (hq : q <+: root ++ [name]) : ¬Where root p q := by
  rintro ⟨name', l', rfl, hmem⟩
  exact hname ((below_root_iff.mp hq).1 ▸ hmem)

theorem agree_mkdirs_where (hname : ¬p name) (t : Fs Bytes) : Fs.Agree (Where root p) (mkdirs (root ++ [name]) t) t :=
  agree_mkdirs (fun _ hq => not_where_way hname hq) t

theorem agree_set_where (hname : ¬p name) (l : List String) (n : Option Node) (t : Fs Bytes) :
    Fs.Agree (Where root p) (t.set (root ++ name :: l) n) t :=
  Fs.agree_set (not_where hname (List.prefix_refl _)) n t

theorem agree_drop_where (hname : ¬p name) (gone : Place → Bool) (t : Fs Bytes) :
    Fs.Agree (Where root p) (t.drop gone (root ++ [name])) t :=
  Fs.agree_drop (fun _ hq => not_where hname hq) gone t

theorem agree_rename_where (ha : ¬p a) (hb : ¬p b) (t : Fs Bytes) :
    Fs.Agree (Where root p) (rename (root ++ a :: l) (root ++ b :: l') t) t := by
  unfold World.rename
  split_ifs
  · exact .refl _ t
  · exact Fs.agree_move (fun _ hq => not_where ha hq) (fun _ hq => not_where hb hq) t

end Places

/-! ### What the writers keep -/

/-- The text files that the writers rename. -/
def tempFiles : List String :=
  [currentPointerFile ++ ".tmp", previousPointerFile ++ ".tmp", currentPointerFile ++ ".bootstrap.tmp",
    currentPointerFile ++ ".rollback.tmp"]

/-- A version with its directory. -/
structure Named (root : Place) (v : String) (t : Fs Bytes) : Prop where
  plain : PlainName v
  dir : t.node (versionDir root v) = some .dir

/-- **The invariant**: a link at `current` is to a version's directory, and what is
at `CURRENT` is a text file with a name. -/
structure Pointed (root : Place) (t : Fs Bytes) : Prop where
  versions : t.node (root ++ [versionsDir]) = some .dir
  link : ∀ n, t.node (root ++ [currentLink]) = some n → ∃ v, Named root v t ∧ n = .link (versionPath v)
  file : ∀ n, t.node (root ++ [currentPointerFile]) = some n → ∃ v, n = .file (Bytes.encode (v ++ "\n"))
  temp : ∀ name ∈ tempFiles, t.isLink (root ++ [name]) = false

/-- The names of the install root that `Pointed` is about. -/
def watchedNames : List String := currentLink :: currentPointerFile :: versionsDir :: tempFiles

def Watched (root p : Place) : Prop := ∃ name l, p = root ++ name :: l ∧ name ∈ watchedNames

section Watched

variable {root : Place} {s t : Fs Bytes} {name v : String}

theorem not_watched {l : List String} {q : Place} (hname : name ∉ watchedNames) (hq : root ++ name :: l <+: q) :
    ¬Watched root q := not_where hname hq

theorem Named.agree (h : Named root v s) (hst : Fs.Agree (Watched root) t s) : Named root v t := by
  refine ⟨h.plain, (hst _ ⟨versionsDir, [v], h.plain.versionDir root, by simp [watchedNames]⟩).trans h.dir⟩

theorem Pointed.agree (h : Pointed root s) (hst : Fs.Agree (Watched root) t s) : Pointed root t := by
  have hsame {name : String} (hname : name ∈ watchedNames) : t.node (root ++ [name]) = s.node (root ++ [name]) :=
    hst _ ⟨name, [], rfl, hname⟩
  refine ⟨(hsame (by simp [watchedNames])).trans h.versions, fun n hn => ?_, fun n hn => ?_, fun name hname => ?_⟩
  · obtain ⟨v, hv, hn⟩ := h.link n ((hsame (by simp [watchedNames])).symm.trans hn)
    exact ⟨v, hv.agree hst, hn⟩
  · exact h.file n ((hsame (by simp [watchedNames])).symm.trans hn)
  · have hold := h.temp name hname
    unfold Fs.isLink at hold ⊢
    rwa [hsame (by simp [watchedNames, hname])]

end Watched

/-! ### One change -/

section Changes

variable {root : Place} {t : Fs Bytes} {name v : String}

theorem isLink_set_of_ne {p q : Place} (h : q ≠ p) (n : Option Node) : (t.set p n).isLink q = t.isLink q := by
  rw [Fs.isLink, Fs.node_set_of_ne h, Fs.isLink]

/-- The directory of a version is no entry of the root. -/
theorem Named.set (h : Named root v t) (n : Option Node) : Named root v (t.set (root ++ [name]) n) := by
  refine ⟨h.plain, (Fs.node_set_of_ne (fun he => ?_) n t).trans h.dir⟩
  rw [h.plain.versionDir root, List.append_cancel_left_eq] at he
  exact absurd (congrArg List.length he) (by simp)

theorem Pointed.unlink (h : Pointed root t) (hname : name ≠ versionsDir) : Pointed root (t.set (root ++ [name]) none) := by
  refine ⟨(Fs.node_set_of_ne (ne_of_name hname.symm) none t).trans h.versions, fun n hn => ?_, fun n hn => ?_, fun x hx => ?_⟩
  · by_cases hname : currentLink = name
    · rw [hname, Fs.node_set_self] at hn
      cases hn
    · rw [Fs.node_set_of_ne (ne_of_name hname)] at hn
      obtain ⟨v, hv, hn⟩ := h.link n hn
      exact ⟨v, hv.set none, hn⟩
  · by_cases hname : currentPointerFile = name
    · rw [hname, Fs.node_set_self] at hn
      cases hn
    · rw [Fs.node_set_of_ne (ne_of_name hname)] at hn
      exact h.file n hn
  · by_cases hname : x = name
    · rw [hname, Fs.isLink, Fs.node_set_self]
    · rw [isLink_set_of_ne (ne_of_name hname)]
      exact h.temp x hx

/-- A text is written to one of the temporary files. -/
theorem Pointed.write (h : Pointed root t) (hname : name ∈ tempFiles) (d : Bytes) :
    Pointed root (t.set (root ++ [name]) (some (.file d))) := by
  have hne {x : String} (hx : x ∉ tempFiles) : x ≠ name := fun he => hx (he ▸ hname)
  refine ⟨(Fs.node_set_of_ne (ne_of_name (hne (by decide))) _ t).trans h.versions, fun n hn => ?_, fun n hn => ?_, fun x hx => ?_⟩
  · rw [Fs.node_set_of_ne (ne_of_name (hne (by decide)))] at hn
    obtain ⟨v, hv, hn⟩ := h.link n hn
    exact ⟨v, hv.set _, hn⟩
  · rw [Fs.node_set_of_ne (ne_of_name (hne (by decide)))] at hn
    exact h.file n hn
  · by_cases hx' : x = name
    · rw [hx', Fs.isLink, Fs.node_set_self]
    · rw [isLink_set_of_ne (ne_of_name hx')]
      exact h.temp x hx

/-- A place that is none of what two renamed places were. -/
theorem node_move_name {a b x : String} {l : List String} (ha : a ≠ x) (hb : b ≠ x) :
    (t.move (root ++ [a]) (root ++ [b])).node (root ++ x :: l) = t.node (root ++ x :: l) :=
  Fs.node_move_of_not (fun hp => ha (below_root_iff.mp hp).1) (fun hp => hb (below_root_iff.mp hp).1) t

theorem node_moved {p q : Place} : (t.move p q).node q = t.node p := by
  have h := Fs.node_move_target p q [] t
  rwa [List.append_nil, List.append_nil] at h

theorem Named.move (h : Named root v t) {a b : String} (ha : a ≠ versionsDir) (hb : b ≠ versionsDir) :
    Named root v (t.move (root ++ [a]) (root ++ [b])) := by
  have hplace := h.dir
  refine ⟨h.plain, ?_⟩
  rw [h.plain.versionDir root] at hplace ⊢
  rw [node_move_name ha hb, hplace]

/-- The staged link that is renamed to `current`. -/
theorem Pointed.renameLink (h : Pointed root t) (hv : Named root v t) (hname : name ∉ watchedNames)
    (hlink : t.node (root ++ [name]) = some (.link (versionPath v))) :
    Pointed root (t.move (root ++ [name]) (root ++ [currentLink])) := by
  have hne {x : String} (hx : x ∈ watchedNames) : name ≠ x := fun he => hname (he ▸ hx)
  refine ⟨(node_move_name (hne (by decide)) (by decide)).trans h.versions, fun n hn => ?_, fun n hn => ?_, fun x hx => ?_⟩
  · rw [node_moved, hlink] at hn
    exact ⟨v, hv.move (hne (by decide)) (by decide), (Option.some.inj hn).symm⟩
  · rw [node_move_name (hne (by decide)) (by decide)] at hn
    exact h.file n hn
  · have hx' : currentLink ≠ x := fun he => absurd (he ▸ hx) (by decide)
    rw [Fs.isLink, node_move_name (hne (by simp [watchedNames, hx])) hx']
    exact h.temp x hx

/-- The text file that is renamed to `CURRENT`, or to a name that is not watched. -/
theorem Pointed.renameFile (h : Pointed root t) (hname : name ∈ tempFiles) {b : String}
    (hb : b = currentPointerFile ∨ b ∉ watchedNames)
    (hfile : t.node (root ++ [name]) = some (.file (Bytes.encode (v ++ "\n")))) :
    Pointed root (t.move (root ++ [name]) (root ++ [b])) := by
  have hne {x : String} (hx : x ∉ tempFiles) : name ≠ x := fun he => hx (he ▸ hname)
  have hb' {x : String} (hx : x ∈ watchedNames) (hx' : currentPointerFile ≠ x) : b ≠ x := by
    rcases hb with rfl | hb
    · exact hx'
    · exact fun he => hb (he ▸ hx)
  refine ⟨(node_move_name (hne (by decide)) (hb' (by decide) (by decide))).trans h.versions, fun n hn => ?_, fun n hn => ?_, fun x hx => ?_⟩
  · rw [node_move_name (hne (by decide)) (hb' (by decide) (by decide))] at hn
    obtain ⟨u, hu, hn⟩ := h.link n hn
    exact ⟨u, hu.move (hne (by decide)) (hb' (by decide) (by decide)), hn⟩
  · by_cases hbc : b = currentPointerFile
    · rw [hbc, node_moved, hfile] at hn
      exact ⟨v, (Option.some.inj hn).symm⟩
    · rw [node_move_name (hne (by decide)) hbc] at hn
      exact h.file n hn
  · have hbx : b ≠ x := hb' (by simp [watchedNames, hx]) fun he => absurd (he ▸ hx) (by decide)
    by_cases hx' : name = x
    · -- the renamed file is gone from its place
      rw [Fs.isLink, ← hx', Fs.node_move_source (List.prefix_refl _) fun hp => ?_]
      exact hbx ((below_root_iff.mp hp).1.trans hx')
    · rw [Fs.isLink, node_move_name hx' hbx]
      exact h.temp x hx

end Changes

/-! ### The writers -/

section Writers

variable {root : Place} {v : String} {P : Fs Bytes → Prop}

theorem leaves_unlinkIf {c : Fs Bytes → Bool} {p : Place} (h : ∀ t, P t → P (t.set p none)) :
    Leaves P (unlinkIf c p) (fun _ => P) P := by
  refine (leaves_look fun _ h => h).bind fun a => Leaves.ite (fun _ => ?_) fun _ => leaves_return fun _ ht => ht.1
  exact leaves_change (fun _ => rfl) (fun t ht _ => h t ht.1) fun _ ht => ht.1

theorem tempName_eq (root : Place) (t : Fs Bytes) : ∃ s, tempName root t = "tmp" ++ s := by
  unfold tempName
  cases hfind : ((List.range (t.support.length + 1)).map fun n => s!"tmp{n}").find?
      (fun name => (t.node (root ++ [name])).isNone) with
  | none => exact ⟨"", rfl⟩
  | some name =>
    obtain ⟨n, -, rfl⟩ := List.mem_map.mp (List.mem_of_find?_eq_some hfind)
    exact ⟨toString n, rfl⟩

theorem tempName_unwatched (root : Place) (t : Fs Bytes) : tempName root t ∉ watchedNames := by
  obtain ⟨s, hs⟩ := tempName_eq root t
  have hhead : (tempName root t).toList.head? = some 't' := by simp [hs]
  intro hmem
  have hall : ∀ x ∈ watchedNames, x.toList.head? ≠ some 't' := by decide
  exact hall _ hmem hhead

/-- A block with a temporary directory. -/
theorem leaves_withTemp {Q E : Fs Bytes → Prop} {body : Place → Raising Unit}
    (hmk : ∀ name, name ∉ watchedNames → ∀ t, P t → P (mkdirs (root ++ [name]) t))
    (hbody : ∀ name, name ∉ watchedNames → Leaves P (body (root ++ [name])) (fun _ => Q) E)
    (hQ : ∀ name, name ∉ watchedNames → ∀ t gone, Q t → Q (t.drop gone (root ++ [name])))
    (hE : ∀ name, name ∉ watchedNames → ∀ t gone, E t → E (t.drop gone (root ++ [name])))
    (hPE : ∀ t, P t → E t) (hQE : ∀ t, Q t → E t) : Leaves P (withTemp root body) (fun _ => Q) E := by
  refine (leaves_look hPE).bind fun a => ?_
  have hname := tempName_unwatched root a
  generalize tempName root a = name at hname ⊢
  refine Leaves.bind (R := fun _ => P) ?_ fun _ => ?_
  · exact leaves_change (fun _ => rfl) (fun t ht _ => hmk name hname t ht.1) fun t ht => hPE t ht.1
  refine leaves_lift (hbody name hname) fun r => ?_
  cases r with
  | ok u =>
    refine Triple.raising (R := fun _ s => Q s.fs) ?_ fun _ => leaves_return (P := Q) fun _ h => h
    exact leaves_rmtree (hQ name hname) hQE hQE
  | error e =>
    refine Triple.raising (R := fun _ s => E s.fs) ?_ fun _ => leaves_throw (P := E) fun _ h => h
    exact leaves_rmtree (hE name hname) (fun _ h => h) fun _ h => h

theorem pointed_mkdirs {name : String} (hname : name ∉ watchedNames) {t : Fs Bytes} :
    Fs.Agree (Watched root) (mkdirs (root ++ [name]) t) t :=
  agree_mkdirs_where hname t

theorem agree_of_unwatched {name : String} (hname : name ∉ watchedNames) (l : List String) (n : Option Node)
    (t : Fs Bytes) : Fs.Agree (Watched root) (t.set (root ++ name :: l) n) t :=
  agree_set_where hname l n t

theorem agree_drop_unwatched {name : String} (hname : name ∉ watchedNames) (gone : Place → Bool) (t : Fs Bytes) :
    Fs.Agree (Watched root) (t.drop gone (root ++ [name])) t :=
  agree_drop_where hname gone t

theorem agree_rename_unwatched {a b : String} {l l' : List String} (ha : a ∉ watchedNames) (hb : b ∉ watchedNames)
    (t : Fs Bytes) : Fs.Agree (Watched root) (rename (root ++ a :: l) (root ++ b :: l') t) t :=
  agree_rename_where ha hb t

/-- What a pointer may be moved to: `current` to a version with its directory. -/
def Movable (root : Place) (ptr : Pointer) (v : String) (t : Fs Bytes) : Prop :=
  Pointed root t ∧ (ptr = current → Named root v t)

theorem Movable.agree {ptr : Pointer} {s t : Fs Bytes} (h : Movable root ptr v s) (ha : Fs.Agree (Watched root) t s) :
    Movable root ptr v t := ⟨h.1.agree ha, fun hp => (h.2 hp).agree ha⟩

/-- `_write_pointer`, of either pointer. -/
theorem leaves_writePointer {ptr : Pointer} (hptr : ptr = current ∨ ptr = previous) (useSymlink : Bool) :
    Leaves (Movable root ptr v) (writePointer root ptr v useSymlink) (fun _ => Pointed root) (Pointed root) := by
  have hstaged : "." ++ ptr.link ++ ".tmp" ∉ watchedNames := by rcases hptr with rfl | rfl <;> decide
  have hne : "." ++ ptr.link ++ ".tmp" ≠ ptr.link := by rcases hptr with rfl | rfl <;> decide
  unfold writePointer
  refine Leaves.ite (fun _ => ?_) fun _ => ?_
  · refine Leaves.bind (R := fun _ => Pointed root) ?_ fun _ => leaves_unlinkIf fun t ht => ht.unlink (by rcases hptr with rfl | rfl <;> decide)
    refine leaves_withTemp (fun name hname t ht => ht.agree (pointed_mkdirs hname)) (fun name hname => ?_)
      (fun name hname t gone ht => ht.agree (agree_drop_unwatched hname gone t))
      (fun name hname t gone ht => ht.agree (agree_drop_unwatched hname gone t)) (fun _ ht => ht.1) fun _ ht => ht
    have htmp : (root ++ [name]) ++ ["link.tmp"] = root ++ name :: ["link.tmp"] := by simp
    have hlength : root ++ name :: ["link.tmp"] ≠ root ++ ["." ++ ptr.link ++ ".tmp"] := fun he =>
      absurd (congrArg List.length he) (by simp)
    rw [htmp]
    -- the link is made in the temporary directory, staged beside the pointer, and takes its place
    have hmade : Leaves (Movable root ptr v) (attempt (act (.symlink (versionPath v) (root ++ name :: ["link.tmp"]))))
        (fun _ t => Movable root ptr v t ∧ t.node (root ++ name :: ["link.tmp"]) = some (.link (versionPath v)))
        (Pointed root) :=
      leaves_change (fun _ => rfl) (fun t ht _ => ⟨ht.agree (agree_of_unwatched hname _ _ t), Fs.node_set_self ..⟩)
        fun t ht => ht.1
    refine hmade.bind fun _ => Leaves.bind (R := fun _ t => Movable root ptr v t ∧
      t.node (root ++ name :: ["link.tmp"]) = some (.link (versionPath v))) ?_ fun _ => ?_
    · refine (leaves_unlinkIf fun t ht => ⟨ht.1.agree (agree_of_unwatched hstaged [] _ t), ?_⟩).mono
        (fun _ _ h => h) fun _ h => h.1.1
      exact (Fs.node_set_of_ne hlength none t).trans ht.2
    refine Leaves.bind (R := fun _ t => Movable root ptr v t ∧
      t.node (root ++ ["." ++ ptr.link ++ ".tmp"]) = some (.link (versionPath v))) ?_ fun _ => ?_
    · refine leaves_change (fun _ => rfl) (fun t ht _ => ⟨ht.1.agree (agree_rename_unwatched hname hstaged t), ?_⟩)
        fun t ht => ht.1.1
      rw [World.rename, if_neg hlength, node_moved]
      exact ht.2
    · refine leaves_change (fun _ => rfl) (fun t ht _ => ?_) fun t ht => ht.1.1
      rw [World.rename, if_neg (ne_of_name hne)]
      rcases hptr with rfl | rfl
      · exact ht.1.1.renameLink (ht.1.2 rfl) hstaged ht.2
      · refine ht.1.1.agree (Fs.agree_move (fun _ hq => not_watched hstaged hq) (fun _ hq => ?_) t)
        have hprevious : previousLink ∉ watchedNames := by decide
        exact not_watched hprevious hq
  · have htemp : ptr.file ++ ".tmp" ∈ tempFiles := by rcases hptr with rfl | rfl <;> decide
    have hfile : ptr.file = currentPointerFile ∨ ptr.file ∉ watchedNames := by rcases hptr with rfl | rfl <;> decide
    have hneFile : ptr.file ++ ".tmp" ≠ ptr.file := by rcases hptr with rfl | rfl <;> decide
    have hwritten : Leaves (Movable root ptr v)
        (attempt (act (.write (root ++ [ptr.file ++ ".tmp"]) (Bytes.encode (v ++ "\n")))))
        (fun _ t => Pointed root t ∧ t.node (root ++ [ptr.file ++ ".tmp"]) = some (.file (Bytes.encode (v ++ "\n"))))
        (Pointed root) :=
      leaves_write (fun t ht => ht.1.temp _ htemp) (fun t ht _ => ⟨ht.1.write htemp _, Fs.node_set_self ..⟩)
        fun t ht => ht.1
    refine hwritten.bind fun _ => Leaves.bind (R := fun _ => Pointed root) ?_ fun _ => leaves_unlinkIf fun t ht => ht.unlink (by rcases hptr with rfl | rfl <;> decide)
    refine leaves_change (fun _ => rfl) (fun t ht _ => ?_) fun t ht => ht.1
    rw [World.rename, if_neg (ne_of_name hneFile)]
    exact ht.1.renameFile htemp hfile ht.2

/-- `flip_current` to a version with its directory. -/
theorem leaves_flipCurrent (win32 : Bool) : Leaves (fun t => Pointed root t ∧ Named root v t)
    (flipCurrent win32 root v) (fun _ => Pointed root) (Pointed root) := by
  refine (leaves_look fun _ h => h.1).bind fun a => Leaves.ite (fun _ => ?_) fun _ => leaves_throw fun _ h => h.1.1
  refine (leaves_attempt_pure _ (P := fun t => Pointed root t ∧ Named root v t) fun _ h => h.1).pre
    (fun _ h => h.1) |>.bind fun old => ?_
  refine Leaves.bind (R := fun _ => Pointed root) ?_ fun _ => ?_
  · exact (leaves_writePointer (.inl rfl) _).pre fun _ h => ⟨h.1, fun _ => h.2⟩
  · cases old with
    | none => exact leaves_return fun _ h => h
    | some old =>
      refine Leaves.ite (fun _ => ?_) fun _ => leaves_return fun _ h => h
      exact (leaves_writePointer (.inr rfl) _).pre fun _ h => ⟨h, fun he => absurd he (by decide)⟩

/-- The two writers of the launcher, by what their files are called. -/
def launcherWriters : List String := ["bootstrap", "rollback"]

theorem leaves_removeIfSymlink : Leaves (Pointed root) (removeIfSymlink (root ++ [currentLink]))
    (fun _ => Pointed root) (Pointed root) := by
  refine leaves_peek.bind fun a => Leaves.ite (fun _ => leaves_ignoring ?_) fun _ => leaves_return fun _ h => h.1
  exact leaves_change (fun _ => rfl) (fun t ht _ => ht.1.unlink (by decide)) fun _ ht => ht.1

theorem leaves_removeIfRegularFile : Leaves (Pointed root) (removeIfRegularFile (root ++ [currentPointerFile]))
    (fun _ => Pointed root) (Pointed root) := by
  refine leaves_peek.bind fun a => Leaves.ite (fun _ => leaves_ignoring ?_) fun _ => leaves_return fun _ h => h.1
  exact leaves_change (fun _ => rfl) (fun t ht _ => ht.1.unlink (by decide)) fun _ ht => ht.1

theorem leaves_writePointerFile {what : String} (hwhat : what ∈ launcherWriters) :
    Leaves (Pointed root) (writePointerFile what root v) (fun _ => Pointed root) (Pointed root) := by
  have htemp : currentPointerFile ++ "." ++ what ++ ".tmp" ∈ tempFiles := by
    rcases List.mem_pair.mp hwhat with rfl | rfl <;> decide
  have hne : currentPointerFile ++ "." ++ what ++ ".tmp" ≠ currentPointerFile := by
    rcases List.mem_pair.mp hwhat with rfl | rfl <;> decide
  have hwritten : Leaves (Pointed root)
      (attempt (act (.write (root ++ [currentPointerFile ++ "." ++ what ++ ".tmp"]) (Bytes.encode (v ++ "\n")))))
      (fun _ t => Pointed root t ∧ t.node (root ++ [currentPointerFile ++ "." ++ what ++ ".tmp"]) =
        some (.file (Bytes.encode (v ++ "\n")))) (Pointed root) :=
    leaves_write (fun t ht => ht.temp _ htemp) (fun t ht _ => ⟨ht.write htemp _, Fs.node_set_self ..⟩) fun _ ht => ht
  refine (leaves_mapErr hwritten).bind fun _ => Leaves.bind (R := fun _ => Pointed root) (leaves_mapErr ?_) fun _ =>
    leaves_removeIfSymlink
  refine leaves_change (fun _ => rfl) (fun t ht _ => ?_) fun t ht => ht.1
  rw [World.rename, if_neg (ne_of_name hne)]
  exact ht.1.renameFile htemp (.inl rfl) ht.2

theorem leaves_writePointerLink {what : String} (hwhat : what ∈ launcherWriters) :
    Leaves (fun t => Pointed root t ∧ Named root v t) (writePointerLink what root v) (fun _ => Pointed root)
      (Pointed root) := by
  have htmp : "." ++ currentLink ++ "." ++ what ++ ".tmp" ∉ watchedNames := by
    rcases List.mem_pair.mp hwhat with rfl | rfl <;> decide
  have hne : "." ++ currentLink ++ "." ++ what ++ ".tmp" ≠ currentLink := by
    rcases List.mem_pair.mp hwhat with rfl | rfl <;> decide
  have hversions : "." ++ currentLink ++ "." ++ what ++ ".tmp" ≠ versionsDir := by
    rcases List.mem_pair.mp hwhat with rfl | rfl <;> decide
  have hunlink : Leaves (fun t => Pointed root t ∧ Named root v t)
      (ignoring (act (.unlink (root ++ ["." ++ currentLink ++ "." ++ what ++ ".tmp"]))))
      (fun _ t => Pointed root t ∧ Named root v t) (Pointed root) :=
    leaves_ignoring (leaves_change (fun _ => rfl) (fun t ht _ => ⟨ht.1.unlink hversions, ht.2.set none⟩) fun _ ht => ht)
  have hmade : Leaves (fun t => Pointed root t ∧ Named root v t)
      (attempt (act (.symlink (versionPath v) (root ++ ["." ++ currentLink ++ "." ++ what ++ ".tmp"]))))
      (fun _ t => (Pointed root t ∧ Named root v t) ∧
        t.node (root ++ ["." ++ currentLink ++ "." ++ what ++ ".tmp"]) = some (.link (versionPath v)))
      fun t => Pointed root t ∧ Named root v t := by
    refine leaves_change (fun _ => rfl) (fun t ht _ => ⟨⟨ht.1.agree ?_, ht.2.set _⟩, Fs.node_set_self ..⟩) fun _ ht => ht
    exact agree_of_unwatched htmp [] _ t
  have hrenamed : Leaves (fun t => (Pointed root t ∧ Named root v t) ∧
      t.node (root ++ ["." ++ currentLink ++ "." ++ what ++ ".tmp"]) = some (.link (versionPath v)))
      (mapErr s!"rename {what} symlink"
        (act (.rename (root ++ ["." ++ currentLink ++ "." ++ what ++ ".tmp"]) (root ++ [currentLink]))))
      (fun _ => Pointed root) (Pointed root) := by
    refine leaves_mapErr (leaves_change (fun _ => rfl) (fun t ht _ => ?_) fun t ht => ht.1.1)
    rw [World.rename, if_neg (ne_of_name hne)]
    exact ht.1.1.renameLink ht.1.2 htmp ht.2
  refine hunlink.bind fun _ => leaves_lift hmade fun r => ?_
  cases r with
  | ok u => exact hrenamed.bind fun _ => leaves_removeIfRegularFile
  | error e =>
    exact (hunlink.mono (fun _ _ h => h.1) fun _ h => h).bind fun _ => leaves_writePointerFile hwhat

theorem leaves_writeBootstrapPointer : Leaves (fun t => Pointed root t ∧ Named root v t) (writeBootstrapPointer root v)
    (fun _ => Pointed root) (Pointed root) := leaves_writePointerLink (by decide)

theorem leaves_writeRollbackPointer : Leaves (fun t => Pointed root t ∧ Named root v t) (writeRollbackPointer root v)
    (fun _ => Pointed root) (Pointed root) := by
  refine leaves_peek.bind fun a => Leaves.ite (fun _ => ?_) fun _ => ?_
  · exact (leaves_writePointerLink (by decide)).pre fun _ h => h.1
  · exact (leaves_writePointerFile (by decide)).pre fun _ h => h.1.1

end Writers

/-! ### The readers -/

/-- The version that a directory is named by. -/
def placeName (p : Place) : String := p.getLast?.getD ""

/-- The four readers of `current` say the same. -/
structure ReadersAgree (root : Place) (t : Fs Bytes) (v : Option String) : Prop where
  resolved : (resolveCurrent root t).map (Option.map placeName) = .ok v
  pointer : readPointerVersion root current t = .ok v
  launcher : resolveCurrentVersion root t = v
  app : (installedVersion root t).map (·.version) = v

section ReadersAgree

variable {root : Place} {t : Fs Bytes} {v : String}

/-- A link to a directory is what the updater resolves. -/
theorem resolvePointer_link (ptr : Pointer) {p : Place} (hfollow : t.follow Fs.maxLinks (root ++ [ptr.link]) = some p)
    (hdir : t.isDir p = true) : resolvePointer root ptr t = .ok (some p) := by
  rw [resolvePointer, hfollow, Option.filter_some, if_pos hdir]

/-- The last name of a link's target is what the updater reads. -/
theorem readPointerVersion_link (ptr : Pointer) {target : Path} (h : t.node (root ++ [ptr.link]) = some (.link target)) :
    readPointerVersion root ptr t = .ok (some target.name) := by
  rw [readPointerVersion, h]

/-- All readers follow a link to a version's directory. -/
theorem agree_of_link (hv : Named root v t) (hlink : t.node (root ++ [currentLink]) = some (.link (versionPath v))) :
    ReadersAgree root t (some v) := by
  have hplace : (versionPath v).resolve (root ++ [currentLink]).dropLast = versionDir root v := by
    rw [List.dropLast_concat]
    rfl
  have hnolink : t.isLink (versionDir root v) = false := by rw [Fs.isLink, hv.dir]
  have hdir : t.isDir (versionDir root v) = true := Fs.isDir_of_node hv.dir
  have hfollow : t.follow Fs.maxLinks (root ++ [currentLink]) = some (versionDir root v) := by
    rw [Fs.maxLinks, Fs.follow_link hlink, hplace, Fs.follow_of_node hnolink]
  have hpath := hv.plain.versionPath
  have hname : fileName (versionPath v) = some v := by
    simp [fileName, hpath, hv.plain.notUp]
  refine ⟨?_, ?_, ?_, ?_⟩
  · rw [resolveCurrent, resolvePointer_link current hfollow hdir, hv.plain.versionDir root]
    simp [Except.map, placeName]
  · rw [readPointerVersion_link current hlink]
    simp [Path.name, hpath]
  · rw [resolveCurrentVersion, linkTarget, hlink]
    simp [hname]
  · have hthere : t.there ((versionPath v).resolve root) = true := by
      change (t.stat (versionDir root v)).isSome = true
      rw [Fs.stat_of_node hnolink, hv.dir]
      rfl
    have hjoined : fileName ((⟨1, root⟩ : Path).join (versionPath v)) = some v := by
      simp [fileName, Path.join, Path.isAbsolute, hpath, hv.plain.notUp]
    rw [installedVersion, resolveSharedCurrent, linkTarget, hlink]
    simp [hthere, hjoined]

theorem data_of_none {p : Place} (h : t.node p = none) : t.data p = none ∧ t.isFile p = false ∧ t.isDir p = false ∧
    t.isLink p = false := by
  have hl : t.isLink p = false := by rw [Fs.isLink, h]
  refine ⟨?_, ?_, ?_, hl⟩
  · rw [Fs.data, Fs.stat_of_node hl, h]
  · rw [Fs.isFile, Fs.stat_of_node hl, h]
  · rw [Fs.isDir, Fs.stat_of_node hl, h]

/-- Without a node at `current`, the app reads nothing. -/
theorem installedVersion_none (h : t.node (root ++ [currentLink]) = none) : installedVersion root t = none := by
  have hdata : readToString (root ++ [currentLink]) t = none := by
    rw [readToString, (data_of_none h).1]
    rfl
  rw [installedVersion, resolveSharedCurrent, linkTarget, h]
  simp [hdata]

/-- Without a node at `current`, the updater reads the text file. -/
theorem resolveCurrent_none (h : t.node (root ++ [currentLink]) = none) : resolveCurrent root t = (do
    match ← readText (root ++ [currentPointerFile]) t with
    | some text =>
      let target := versionDir root (String.ofList (Text.strip text))
      pure (if t.isDir target then some target else none)
    | none => pure none) := by
  obtain ⟨-, -, hdir, hlink⟩ := data_of_none h
  have hfollow : (t.follow Fs.maxLinks (root ++ [current.link])).filter (fun p => t.isDir p) = none := by
    rw [Fs.follow_of_node (p := root ++ [current.link]) hlink, Option.filter_some]
    exact if_neg (by rw [show current.link = currentLink from rfl, hdir]; simp)
  rw [resolveCurrent, resolvePointer, hfollow]
  rfl

theorem readPointerVersion_none (h : t.node (root ++ [currentLink]) = none) : readPointerVersion root current t = (do
    match ← readText (root ++ [currentPointerFile]) t with
    | some text =>
      let version := String.ofList (Text.strip text)
      pure (if version = "" then none else some version)
    | none => pure none) := by
  have hnode : t.node (root ++ [current.link]) = none := h
  rw [readPointerVersion, hnode]
  rfl

theorem agree_of_nothing (h : t.node (root ++ [currentLink]) = none)
    (hfile : t.node (root ++ [currentPointerFile]) = none) : ReadersAgree root t none := by
  have htext : readText (root ++ [currentPointerFile]) t = .ok none := by
    rw [readText, (data_of_none hfile).2.1]
    rfl
  refine ⟨?_, ?_, ?_, ?_⟩
  · rw [resolveCurrent_none h, htext]
    rfl
  · rw [readPointerVersion_none h, htext]
    rfl
  · rw [resolveCurrentVersion, linkTarget, h, readToString, (data_of_none hfile).1]
    rfl
  · rw [installedVersion_none h]
    rfl

/-- A text file that the app does not read, the updater reads. -/
theorem not_agree_of_file (hp : Pointed root t) (h : t.node (root ++ [currentLink]) = none) {s : String}
    (hfile : t.node (root ++ [currentPointerFile]) = some (.file (Bytes.encode s))) (v : Option String) :
    ¬ReadersAgree root t v := by
  intro ha
  obtain rfl : none = v := by rw [← ha.app, installedVersion_none h]; rfl
  have htext : readText (root ++ [currentPointerFile]) t = .ok (some (Text.universalNewlines s.toList)) := by
    rw [readText, Fs.isFile_of_node hfile, Fs.data_of_node hfile, Option.bind_some, Bytes.decode_encode]
    rfl
  have hpointer := ha.pointer
  rw [readPointerVersion_none h, htext] at hpointer
  have hempty : String.ofList (Text.strip (Text.universalNewlines s.toList)) = "" := by
    by_contra hne
    have hsome := Except.ok.inj hpointer
    rw [if_neg hne] at hsome
    cases hsome
  -- a blank text names the directory of the versions itself
  have hversions : versionDir root "" = root ++ [versionsDir] := by
    simp [versionDir, versionPath, Path.div, Path.join, Path.resolve, Path.isAbsolute, Path.ofString,
      Path.leadingSlashes, Text.split, Path.enter, versionsDir]
  have hresolved := ha.resolved
  rw [resolveCurrent_none h, htext] at hresolved
  change Except.map _ (.ok (if t.isDir (versionDir root (String.ofList (Text.strip _))) then _ else _)) = _ at hresolved
  rw [hempty, hversions, if_pos (Fs.isDir_of_node hp.versions)] at hresolved
  cases hresolved

/-- **Where the readers agree**: where `current` is a link, or no text file is there. -/
theorem Pointed.agree_iff (h : Pointed root t) :
    (∃ v, ReadersAgree root t v) ↔ t.isLink (root ++ [currentLink]) = true ∨ t.isFile (root ++ [currentPointerFile]) = false := by
  cases hlink : t.node (root ++ [currentLink]) with
  | some n =>
    obtain ⟨v, hv, rfl⟩ := h.link n hlink
    exact ⟨fun _ => .inl (Fs.isLink_of_node hlink), fun _ => ⟨some v, agree_of_link hv hlink⟩⟩
  | none =>
    cases hfile : t.node (root ++ [currentPointerFile]) with
    | none => exact ⟨fun _ => .inr (data_of_none hfile).2.1, fun _ => ⟨none, agree_of_nothing hlink hfile⟩⟩
    | some n =>
      obtain ⟨v, rfl⟩ := h.file n hfile
      constructor
      · rintro ⟨r, hr⟩
        exact absurd hr (not_agree_of_file h hlink hfile r)
      · rintro (hl | hf)
        · rw [(data_of_none hlink).2.2.2] at hl
          cases hl
        · rw [Fs.isFile_of_node hfile] at hf
          cases hf

end ReadersAgree

/-! ### Every sequence of writers -/

/-- The writers of `current`: `flip_current`, and `write_current_pointer` of the
bootstrap and of the rollback. -/
inductive Writer
  | flip (win32 : Bool) (v : String)
  | bootstrap (v : String)
  | rollback (v : String)

def Writer.version : Writer → String
  | .flip _ v | .bootstrap v | .rollback v => v

def Writer.script (root : Place) : Writer → Raising Unit
  | .flip win32 v => flipCurrent win32 root v
  | .bootstrap v => writeBootstrapPointer root v
  | .rollback v => writeRollbackPointer root v

/-- An install root with no pointer yet. -/
structure Fresh (root : Place) (t : Fs Bytes) : Prop where
  versions : t.node (root ++ [versionsDir]) = some .dir
  link : t.node (root ++ [currentLink]) = none
  file : t.node (root ++ [currentPointerFile]) = none
  temp : ∀ name ∈ tempFiles, t.isLink (root ++ [name]) = false

/-- The states that writers reach from a fresh root, each for a version whose directory
is there; an action of theirs may fail at any point. -/
inductive Reached (root : Place) : World → Prop
  | fresh {s : World} (h : Fresh root s.fs) : Reached root s
  | version {s : World} {v : String} (h : Reached root s) (hv : PlainName v)
      (hnew : s.fs.node (versionDir root v) = none) :
      Reached root { s with fs := s.fs.set (versionDir root v) (some .dir) }
  | write {s : World} (h : Reached root s) (w : Writer) (hv : Named root w.version s.fs) :
      Reached root (run perform (w.script root).run s).2

section Reached

variable {root : Place}

theorem Fresh.pointed {t : Fs Bytes} (h : Fresh root t) : Pointed root t := by
  refine ⟨h.versions, fun n hn => ?_, fun n hn => ?_, h.temp⟩
  · rw [h.link] at hn
    cases hn
  · rw [h.file] at hn
    cases hn

/-- A new version's directory. -/
theorem Pointed.version {t : Fs Bytes} {v : String} (h : Pointed root t) (hv : PlainName v) :
    Pointed root (t.set (versionDir root v) (some .dir)) := by
  rw [hv.versionDir root]
  have hne {name : String} : root ++ [name] ≠ root ++ [versionsDir, v] := fun he =>
    absurd (congrArg List.length he) (by simp)
  refine ⟨(Fs.node_set_of_ne hne _ t).trans h.versions, fun n hn => ?_, fun n hn => ?_, fun name hname => ?_⟩
  · rw [Fs.node_set_of_ne hne] at hn
    obtain ⟨u, hu, hn⟩ := h.link n hn
    refine ⟨u, ⟨hu.plain, ?_⟩, hn⟩
    by_cases he : versionDir root u = root ++ [versionsDir, v]
    · rw [he, Fs.node_set_self]
    · rw [Fs.node_set_of_ne he, hu.dir]
  · rw [Fs.node_set_of_ne hne] at hn
    exact h.file n hn
  · rw [isLink_set_of_ne hne]
    exact h.temp name hname

theorem leaves_writer (w : Writer) : Leaves (fun t => Pointed root t ∧ Named root w.version t) (w.script root)
    (fun _ => Pointed root) (Pointed root) := by
  cases w with
  | flip win32 v => exact leaves_flipCurrent win32
  | bootstrap v => exact leaves_writeBootstrapPointer
  | rollback v => exact leaves_writeRollbackPointer

theorem Reached.pointed {s : World} (h : Reached root s) : Pointed root s.fs := by
  induction h with
  | fresh h => exact h.pointed
  | version _ hv _ ih => exact ih.version hv
  | write _ w hv ih =>
    have hleaves := leaves_writer w _ ⟨ih, hv⟩
    revert hleaves
    cases (run perform (w.script root).run _).1 with
    | ok u => exact id
    | error e => exact id

/-- **The readers of `current`** agree, after any sequence of writers, where `current`
is a link or no text file is there, and nowhere else. -/
theorem readers_agree_iff {s : World} (h : Reached root s) : (∃ v, ReadersAgree root s.fs v) ↔
    s.fs.isLink (root ++ [currentLink]) = true ∨ s.fs.isFile (root ++ [currentPointerFile]) = false :=
  h.pointed.agree_iff

end Reached

/-! ### An install where links are not permitted -/

def installTree : Fs Bytes :=
  ((((Fs.empty.set [] (some .dir)).set ["locai"] (some .dir)).set ["locai", "versions"] (some .dir)).set
    ["locai", "versions", "1.0.16"] (some .dir))

/-- The first link is refused. -/
def noLinks : World := ⟨installTree, 0, fun n => if n = 1 then { error := some ⟨.other, "not permitted"⟩ } else {}, 0⟩

def withLinks : World := ⟨installTree, 0, fun _ => {}, 0⟩

theorem fresh_installTree : Fresh ["locai"] installTree := ⟨by decide, by decide, by decide, by decide⟩

theorem named_installTree : Named ["locai"] "1.0.16" installTree :=
  ⟨⟨by decide, by decide, by decide, by decide⟩, by decide +kernel⟩

/-- The bootstrap falls back to the text file, which the app does not read. -/
theorem readers_disagree : ¬ ∀ (root : Place) (s : World), Reached root s → ∃ v, ReadersAgree root s.fs v := by
  intro h
  have hreached : Reached ["locai"] (run perform ((Writer.bootstrap "1.0.16").script ["locai"]).run noLinks).2 :=
    .write (.fresh fresh_installTree) (.bootstrap "1.0.16") named_installTree
  rcases hreached.pointed.agree_iff.mp (h _ _ hreached) with hlink | hfile
  · exact absurd hlink (by decide +kernel)
  · exact absurd hfile (by decide +kernel)

theorem readers_agree_flip : ∃ v, ReadersAgree ["locai"]
    (run perform ((Writer.flip false "1.0.16").script ["locai"]).run withLinks).2.fs v :=
  (readers_agree_iff (.write (.fresh fresh_installTree) (.flip false "1.0.16") named_installTree)).mpr
    (.inl (by decide +kernel))

end Install
end LocaiLink
