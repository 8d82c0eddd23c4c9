/-
# Drives

A file tree whose files are numbered, so that one file may be at several places, with
the system calls that change it. Paths are walked from a directory, `dir`. A drive
keeps the places its calls changed (`touched`).

A directory is `Tame` when no link in it leads up and no file in it is also somewhere
outside. Calls by paths that do not lead up then change nothing outside (`Confined`),
and leave the directory tame.
-/
import LocaiLink.Base.Walk
import LocaiLink.Base.Lines

namespace LocaiLink

/-- A regular file by its number, or a device or a pipe. -/
inductive File
  | regular (inode : ℕ)
  | special
  deriving DecidableEq

structure Drive where
  tree : Fs File
  data : ℕ → Bytes
  /-- No file has this number or a later one. -/
  next : ℕ
  touched : List Place

namespace Drive

/-! ### Changes -/

/-- Another node at a place. -/
def put (q : Place) (n : Option (Fs.Node File)) (d : Drive) : Drive :=
  { d with tree := d.tree.set q n, touched := q :: d.touched }

/-- Other data in a file, which is at this place. -/
def fill (q : Place) (i : ℕ) (bytes : Bytes) (d : Drive) : Drive :=
  { d with data := Function.update d.data i bytes, touched := q :: d.touched }

/-- A file that was not there. -/
def create (q : Place) (bytes : Bytes) (d : Drive) : Drive :=
  { d.put q (some (.file (.regular d.next))) with data := Function.update d.data d.next bytes, next := d.next + 1 }

/-- Owner, mode or times of what is at a place. -/
def touch (q : Place) (d : Drive) : Drive := { d with touched := q :: d.touched }

/-! ### System calls -/

variable (dir : Place)

def walk (last : Bool) (path : List String) (d : Drive) : Except Errno Place := d.tree.walk last Fs.maxLinks dir path

/-- What is there, after a link at the end or not. -/
def stat (last : Bool) (path : List String) (d : Drive) : Option (Fs.Node File) :=
  match d.walk dir last path with
  | .ok q => d.tree.node q
  | .error _ => none

def isDir (last : Bool) (path : List String) (d : Drive) : Bool :=
  match d.stat dir last path with
  | some .dir => true
  | _ => false

/-- A change at the place that a path leads to. -/
def change (last : Bool) (path : List String) (f : Place → Except Errno Unit × Drive) (d : Drive) : Except Errno Unit × Drive :=
  match d.walk dir last path with
  | .ok q => f q
  | .error e => (.error e, d)

/-- A node where there is none. -/
def make (path : List String) (n : Fs.Node File) (d : Drive) : Except Errno Unit × Drive :=
  d.change dir false path fun q => if (d.tree.node q).isSome then (.error .taken, d) else (.ok (), d.put q (some n))

def mkdir (path : List String) (d : Drive) : Except Errno Unit × Drive := d.make dir path .dir

def mknod (path : List String) (d : Drive) : Except Errno Unit × Drive := d.make dir path (.file .special)

/-- The text of a link as a path, with its dots and empty parts. -/
def target (text : String) : Path where
  root := if text.toList.head? = some '/' then 1 else 0
  parts := (Text.split '/' text.toList).map String.ofList

def symlink (text : String) (path : List String) (d : Drive) : Except Errno Unit × Drive :=
  if text = "" then (.error .missing, d) else d.make dir path (.link (target text))

/-- Opening a file for writing, and writing it. -/
def write (path : List String) (bytes : Bytes) (d : Drive) : Except Errno Unit × Drive :=
  d.change dir true path fun q =>
    match d.tree.node q with
    | none => (.ok (), d.create q bytes)
    | some (.file (.regular i)) => (.ok (), d.fill q i bytes)
    | some (.file .special) => (.ok (), d.touch q)
    | some _ => (.error .other, d)

def unlink (path : List String) (d : Drive) : Except Errno Unit × Drive :=
  d.change dir false path fun q =>
    match d.tree.node q with
    | none => (.error .missing, d)
    | some .dir => (.error .other, d)
    | some _ => (.ok (), d.put q none)

/-- Another place for what is at a path; whether a link there is followed is up to the system. -/
def link (follow : Bool) (src path : List String) (d : Drive) : Except Errno Unit × Drive :=
  match d.stat dir follow src with
  | none => (.error .missing, d)
  | some .dir => (.error .other, d)
  | some n => d.make dir path n

/-- Owner, mode or times of what is at a path. -/
def setAttrs (follow : Bool) (path : List String) (d : Drive) : Except Errno Unit × Drive :=
  d.change dir follow path fun q => if (d.tree.node q).isSome then (.ok (), d.touch q) else (.error .missing, d)

/-! ### What is outside stays as it is -/

variable {dir} {dest q : Place} {d d' d₀ : Drive}

/-- Where a regular file is. -/
def Holds (d : Drive) (p : Place) (i : ℕ) : Prop := d.tree.node p = some (.file (.regular i))

/-- No link in the directory leads up, and no file in it is also outside. -/
structure Tame (dest : Place) (d : Drive) : Prop where
  links : d.tree.Descending dest
  unshared : ∀ p q i, dest <+: p → d.Holds p i → d.Holds q i → dest <+: q
  fresh : ∀ p i, d.Holds p i → i < d.next

/-- Outside the directory are the same nodes and the same data, and no place was touched. -/
structure Confined (dest : Place) (d d' : Drive) : Prop where
  nodes : Fs.Agree (fun p => ¬dest <+: p) d'.tree d.tree
  data : ∀ p i, ¬dest <+: p → d.Holds p i → d'.data i = d.data i
  touched : ∀ p ∈ d'.touched, p ∈ d.touched ∨ dest <+: p

theorem Confined.refl : Confined dest d d := ⟨Fs.Agree.refl _ _, fun _ _ _ _ => rfl, fun _ h => .inl h⟩

theorem Confined.trans (h : Confined dest d₀ d) (h' : Confined dest d d') : Confined dest d₀ d' where
  nodes := h'.nodes.trans h.nodes
  data p i hp hi := by
    have hi' : d.Holds p i := (h.nodes p hp).trans hi
    exact (h'.data p i hp hi').trans (h.data p i hp hi)
  touched p hp := (h'.touched p hp).elim (h.touched p) .inr

/-- A drive that is tame and changed only inside. -/
def Kept (dest : Place) (d₀ d : Drive) : Prop := d.Tame dest ∧ Confined dest d₀ d

theorem Kept.step (h : Kept dest d₀ d) (h' : d.Tame dest → Kept dest d d') : Kept dest d₀ d' :=
  ⟨(h' h.1).1, h.2.trans (h' h.1).2⟩

theorem confined_put (hq : dest <+: q) (n : Option (Fs.Node File)) : Confined dest d (d.put q n) where
  nodes := Fs.agree_set (fun h => h hq) n d.tree
  data _ _ _ _ := rfl
  touched p hp := by
    rcases List.mem_cons.mp hp with rfl | hp
    · exact .inr hq
    · exact .inl hp

/-- What a place inside may hold: a link that leads down, or a file that is known and not outside. -/
def Welcome (dest : Place) (d : Drive) : Option (Fs.Node File) → Prop
  | some (.link target) => target.Descends
  | some (.file (.regular i)) => i < d.next ∧ ∀ p, d.Holds p i → dest <+: p
  | _ => True

theorem Tame.welcome (h : d.Tame dest) (hq : dest <+: q) : Welcome dest d (d.tree.node q) := by
  unfold Welcome
  split
  · rename_i target hnode
    exact h.links q target hq hnode
  · rename_i i hnode
    exact ⟨h.fresh q i hnode, fun p hp => h.unshared q p i hq hnode hp⟩
  · trivial

theorem Tame.put (h : d.Tame dest) (hq : dest <+: q) {n : Option (Fs.Node File)} (hn : Welcome dest d n) :
    (d.put q n).Tame dest := by
  -- what the changed place holds is `n`, and any other place holds what it held
  have hcases (p : Place) (x : Fs.Node File) (hp : (d.put q n).tree.node p = some x) :
      p = q ∧ n = some x ∨ d.tree.node p = some x := by
    by_cases hpq : p = q
    · subst hpq
      exact .inl ⟨rfl, (Fs.node_set_self p n d.tree).symm.trans hp⟩
    · exact .inr ((Fs.node_set_of_ne hpq n d.tree).symm.trans hp)
  constructor
  · intro p target hp hnode
    rcases hcases p _ hnode with ⟨-, rfl⟩ | hnode
    · exact hn
    · exact h.links p target hp hnode
  · intro p r i hp hpi hri
    rcases hcases p _ hpi with ⟨-, rfl⟩ | hpi
    · rcases hcases r _ hri with ⟨rfl, -⟩ | hri
      · exact hq
      · exact hn.2 r hri
    · rcases hcases r _ hri with ⟨rfl, -⟩ | hri
      · exact hq
      · exact h.unshared p r i hp hpi hri
  · intro p i hpi
    rcases hcases p _ hpi with ⟨-, rfl⟩ | hpi
    · exact hn.1
    · exact h.fresh p i hpi

theorem kept_put (h : d.Tame dest) (hq : dest <+: q) {n : Option (Fs.Node File)} (hn : Welcome dest d n) :
    Kept dest d (d.put q n) :=
  ⟨h.put hq hn, confined_put hq n⟩

theorem kept_touch (h : d.Tame dest) (hq : dest <+: q) : Kept dest d (d.touch q) :=
  ⟨⟨h.links, h.unshared, h.fresh⟩, Fs.Agree.refl _ _, fun _ _ _ _ => rfl, (confined_put hq none).touched⟩

/-- A file inside is no file outside, so its data may change. -/
theorem kept_fill (h : d.Tame dest) (hq : dest <+: q) {i : ℕ} (hi : d.Holds q i) (bytes : Bytes) :
    Kept dest d (d.fill q i bytes) := by
  refine ⟨⟨h.links, h.unshared, h.fresh⟩, Fs.Agree.refl _ _, fun p j hp hj => ?_, (confined_put hq none).touched⟩
  have hne : j ≠ i := by
    rintro rfl
    exact hp (h.unshared q p j hq hi hj)
  exact Function.update_of_ne hne ..

theorem kept_create (h : d.Tame dest) (hq : dest <+: q) (bytes : Bytes) : Kept dest d (d.create q bytes) := by
  have hnext (p : Place) (i : ℕ) (hp : d.Holds p i) : i ≠ d.next := (h.fresh p i hp).ne
  have hbigger : Tame dest { d with next := d.next + 1 } :=
    ⟨h.links, h.unshared, fun p i hp => Nat.lt_succ_of_lt (h.fresh p i hp)⟩
  have hwelcome : Welcome dest { d with next := d.next + 1 } (some (.file (.regular d.next))) :=
    ⟨Nat.lt_succ_self _, fun p hp => absurd rfl (hnext p d.next hp)⟩
  have htame := hbigger.put hq hwelcome
  have hput := confined_put (d := d) hq (some (.file (.regular d.next)))
  refine ⟨⟨htame.links, htame.unshared, htame.fresh⟩, hput.nodes, fun p i hp hi => ?_, hput.touched⟩
  exact Function.update_of_ne (hnext p i hi) ..

/-! ### Each call keeps what is outside -/

section Calls

variable (hdir : dest <+: dir) (h : d.Tame dest) {last : Bool} {path : List String}
include hdir h

theorem Tame.walk (hpath : ".." ∉ path) (hq : d.walk dir last path = .ok q) : dest <+: q :=
  Fs.inside_walk h.links hdir hpath hq

theorem kept_change (hpath : ".." ∉ path) {f : Place → Except Errno Unit × Drive}
    (hf : ∀ q, dest <+: q → Kept dest d (f q).2) : Kept dest d (d.change dir last path f).2 := by
  unfold change
  cases hq : d.walk dir last path with
  | ok q => exact hf q (h.walk hdir hpath hq)
  | error e => exact ⟨h, .refl⟩

theorem kept_make (hpath : ".." ∉ path) {n : Fs.Node File} (hn : Welcome dest d (some n)) :
    Kept dest d (d.make dir path n).2 :=
  kept_change hdir h hpath fun q hq => by
    split_ifs
    · exact ⟨h, .refl⟩
    · exact kept_put h hq hn

theorem kept_mkdir (hpath : ".." ∉ path) : Kept dest d (d.mkdir dir path).2 := kept_make hdir h hpath trivial

theorem kept_mknod (hpath : ".." ∉ path) : Kept dest d (d.mknod dir path).2 := kept_make hdir h hpath trivial

theorem kept_symlink (hpath : ".." ∉ path) {text : String} (htext : (target text).Descends) :
    Kept dest d (d.symlink dir text path).2 := by
  unfold symlink
  split_ifs
  · exact ⟨h, .refl⟩
  · exact kept_make hdir h hpath htext

theorem kept_write (hpath : ".." ∉ path) (bytes : Bytes) : Kept dest d (d.write dir path bytes).2 :=
  kept_change hdir h hpath fun q hq => by
    split
    · exact kept_create h hq bytes
    · exact kept_fill h hq ‹_› bytes
    · exact kept_touch h hq
    · exact ⟨h, .refl⟩

theorem kept_unlink (hpath : ".." ∉ path) : Kept dest d (d.unlink dir path).2 :=
  kept_change hdir h hpath fun q hq => by
    split
    · exact ⟨h, .refl⟩
    · exact ⟨h, .refl⟩
    · exact kept_put h hq trivial

theorem kept_link (hpath : ".." ∉ path) {follow : Bool} {src : List String} (hsrc : ".." ∉ src) :
    Kept dest d (d.link dir follow src path).2 := by
  unfold link stat
  cases hq : d.walk dir follow src with
  | error e => exact ⟨h, .refl⟩
  | ok q =>
    have hwelcome := h.welcome (h.walk hdir hsrc hq)
    dsimp only
    split
    · exact ⟨h, .refl⟩
    · exact ⟨h, .refl⟩
    · rename_i n hn
      exact kept_make hdir h hpath (hn ▸ hwelcome)

theorem kept_setAttrs (hpath : ".." ∉ path) {follow : Bool} : Kept dest d (d.setAttrs dir follow path).2 :=
  kept_change hdir h hpath fun q hq => by
    split_ifs
    · exact kept_touch h hq
    · exact ⟨h, .refl⟩

end Calls

/-- Where there is nothing, nothing leads out. -/
theorem tame_of_empty (hempty : ∀ p, dest <+: p → d.tree.node p = none ∨ d.tree.node p = some .dir)
    (hfresh : ∀ p i, d.Holds p i → i < d.next) : d.Tame dest where
  links p target hp hnode := by
    rcases hempty p hp with h | h
    · rw [h] at hnode
      cases hnode
    · rw [h] at hnode
      cases hnode
  unshared p q i hp hpi _ := by
    unfold Holds at hpi
    rcases hempty p hp with h | h
    · rw [h] at hpi
      cases hpi
    · rw [h] at hpi
      cases hpi
  fresh := hfresh

end Drive
end LocaiLink
