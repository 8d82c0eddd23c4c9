/-
# File trees

A tree has a node at some places: a directory, a file with its data, or a link to
a path. Links are followed at the end of a path; the directories on the way are
taken as they are spelled. What each change does to the node of a place is a
lemma, and what a change leaves alone is `Fs.Agree`, the trees that agree on a
set of places.
-/
import Mathlib.Data.List.Dedup
import Mathlib.Data.List.Infix
import LocaiLink.Base.Path

namespace LocaiLink

/-- The names from the root down. -/
abbrev Place := List String

inductive Fs.Node (δ : Type)
  | dir
  | file (data : δ)
  | link (target : Path)
  deriving DecidableEq

/-- A tree, with a list that holds every place where there is something. -/
structure Fs (δ : Type) where
  node : Place → Option (Fs.Node δ)
  support : List Place
  complete : ∀ p, (node p).isSome = true → p ∈ support

namespace Fs

variable {δ : Type}

def empty : Fs δ := ⟨fun _ => none, [], fun _ h => by cases h⟩

instance : Inhabited (Fs δ) := ⟨empty⟩

/-! ### Changes -/

/-- The node of one place. -/
def set (p : Place) (n : Option (Node δ)) (t : Fs δ) : Fs δ where
  node := Function.update t.node p n
  support := p :: t.support
  complete q h := by
    by_cases hq : q = p
    · exact hq ▸ List.mem_cons_self ..
    · rw [Function.update_of_ne hq] at h
      exact List.mem_cons_of_mem _ (t.complete q h)

/-- Some of what is at a place and below it goes. -/
def drop (gone : Place → Bool) (p : Place) (t : Fs δ) : Fs δ where
  node q := if p <+: q ∧ gone q = true then none else t.node q
  support := t.support
  complete q h := by
    split_ifs at h
    · cases h
    · exact t.complete q h

/-- What is at a place and below it takes another place. -/
def move (p q : Place) (t : Fs δ) : Fs δ where
  node r := if q <+: r then t.node (p ++ r.drop q.length) else if p <+: r then none else t.node r
  support := t.support.map (fun r => q ++ r.drop p.length) ++ t.support
  complete r h := by
    split_ifs at h with hq hp
    · refine List.mem_append_left _ (List.mem_map.mpr ⟨p ++ r.drop q.length, t.complete _ h, ?_⟩)
      rw [List.drop_left]
      exact List.prefix_append_drop hq |>.symm
    · cases h
    · exact List.mem_append_right _ (t.complete _ h)

@[simp] theorem node_set_self (p : Place) (n : Option (Node δ)) (t : Fs δ) : (t.set p n).node p = n :=
  Function.update_self ..

theorem node_set_of_ne {p q : Place} (h : q ≠ p) (n : Option (Node δ)) (t : Fs δ) : (t.set p n).node q = t.node q :=
  Function.update_of_ne h ..

theorem node_drop_of_not {p q : Place} (h : ¬p <+: q) (gone : Place → Bool) (t : Fs δ) :
    (t.drop gone p).node q = t.node q :=
  if_neg fun hq => h hq.1

theorem node_drop_all {p q : Place} (h : p <+: q) (t : Fs δ) : (t.drop (fun _ => true) p).node q = none :=
  if_pos ⟨h, rfl⟩

theorem node_move_target (p q r : Place) (t : Fs δ) : (t.move p q).node (q ++ r) = t.node (p ++ r) := by
  change (if q <+: q ++ r then _ else _) = _
  rw [if_pos (List.prefix_append q r), List.drop_left]

theorem node_move_source {p q r : Place} (hp : p <+: r) (hq : ¬q <+: r) (t : Fs δ) : (t.move p q).node r = none := by
  change (if q <+: r then _ else _) = _
  rw [if_neg hq, if_pos hp]

theorem node_move_of_not {p q r : Place} (hp : ¬p <+: r) (hq : ¬q <+: r) (t : Fs δ) :
    (t.move p q).node r = t.node r := by
  change (if q <+: r then _ else _) = _
  rw [if_neg hq, if_neg hp]

/-! ### Links -/

/-- The place that a place is, after at most so many links. -/
def follow (t : Fs δ) : ℕ → Place → Option Place
  | fuel, p =>
    match t.node p with
    | some (.link target) =>
      match fuel with
      | 0 => none
      | fuel + 1 => t.follow fuel (target.resolve p.dropLast)
    | _ => some p

/-- How many links are followed. -/
def maxLinks : ℕ := 40

/-- What is there when links are followed. -/
def stat (p : Place) (t : Fs δ) : Option (Node δ) := (t.follow maxLinks p).bind t.node

def isLink (p : Place) (t : Fs δ) : Bool :=
  match t.node p with
  | some (.link _) => true
  | _ => false

def isDir (p : Place) (t : Fs δ) : Bool :=
  match t.stat p with
  | some .dir => true
  | _ => false

def isFile (p : Place) (t : Fs δ) : Bool :=
  match t.stat p with
  | some (.file _) => true
  | _ => false

def there (p : Place) (t : Fs δ) : Bool := (t.stat p).isSome

/-- The data of a file, after links. -/
def data (p : Place) (t : Fs δ) : Option δ :=
  match t.stat p with
  | some (.file d) => some d
  | _ => none

theorem follow_of_node {p : Place} {t : Fs δ} (h : t.isLink p = false) (fuel : ℕ) : t.follow fuel p = some p := by
  unfold follow
  unfold isLink at h
  split
  · rename_i hl
    rw [hl] at h
    cases h
  · rfl

theorem follow_link {p : Place} {t : Fs δ} {target : Path} (h : t.node p = some (.link target)) (fuel : ℕ) :
    t.follow (fuel + 1) p = t.follow fuel (target.resolve p.dropLast) := by
  rw [follow, h]

theorem stat_of_node {p : Place} {t : Fs δ} (h : t.isLink p = false) : t.stat p = t.node p := by
  rw [stat, follow_of_node h]
  rfl

theorem isLink_eq_false {p : Place} {t : Fs δ} (h : ∀ target, t.node p ≠ some (.link target)) : t.isLink p = false := by
  unfold isLink
  split
  · rename_i target hl
    exact absurd hl (h target)
  · rfl

theorem isLink_of_node {p : Place} {t : Fs δ} {target : Path} (h : t.node p = some (.link target)) : t.isLink p = true := by
  rw [isLink, h]

theorem isDir_of_node {p : Place} {t : Fs δ} (h : t.node p = some .dir) : t.isDir p = true := by
  have hl : t.isLink p = false := by rw [isLink, h]
  rw [isDir, stat_of_node hl, h]

theorem isFile_of_node {p : Place} {t : Fs δ} {d : δ} (h : t.node p = some (.file d)) : t.isFile p = true := by
  have hl : t.isLink p = false := by rw [isLink, h]
  rw [isFile, stat_of_node hl, h]

theorem data_of_node {p : Place} {t : Fs δ} {d : δ} (h : t.node p = some (.file d)) : t.data p = some d := by
  have hl : t.isLink p = false := by rw [isLink, h]
  rw [data, stat_of_node hl, h]

/-! ### What is in a directory -/

/-- The names in a directory, in no particular order. -/
def children (p : Place) (t : Fs δ) : List String :=
  (t.support.filterMap fun q =>
    if p <+: q ∧ q.length = p.length + 1 ∧ (t.node q).isSome then q.getLast? else none).dedup

/-- The places below a directory where there is something. -/
def below (p : Place) (t : Fs δ) : List Place :=
  (t.support.filter fun q => p <+: q ∧ q ≠ p ∧ (t.node q).isSome).dedup

theorem mem_below {p q : Place} {t : Fs δ} : q ∈ t.below p ↔ p <+: q ∧ q ≠ p ∧ (t.node q).isSome = true := by
  rw [below, List.mem_dedup, List.mem_filter]
  refine ⟨fun h => by simpa using h.2, fun h => ⟨t.complete q h.2.2, by simpa using h⟩⟩

/-! ### Trees that agree -/

/-- The trees have the same nodes at these places. -/
def Agree (P : Place → Prop) (s t : Fs δ) : Prop := ∀ p, P p → s.node p = t.node p

theorem Agree.refl (P : Place → Prop) (t : Fs δ) : Agree P t t := fun _ _ => rfl

theorem Agree.symm {P : Place → Prop} {s t : Fs δ} (h : Agree P s t) : Agree P t s := fun p hp => (h p hp).symm

theorem Agree.trans {P : Place → Prop} {s t u : Fs δ} (h : Agree P s t) (h' : Agree P t u) : Agree P s u :=
  fun p hp => (h p hp).trans (h' p hp)

theorem Agree.mono {P Q : Place → Prop} {s t : Fs δ} (h : Agree P s t) (hQ : ∀ p, Q p → P p) : Agree Q s t :=
  fun p hp => h p (hQ p hp)

theorem agree_set {P : Place → Prop} {p : Place} (h : ¬P p) (n : Option (Node δ)) (t : Fs δ) : Agree P (t.set p n) t :=
  fun q hq => node_set_of_ne (q := q) (fun he => h (by rw [← he]; exact hq)) n t

theorem agree_drop {P : Place → Prop} {p : Place} (h : ∀ q, p <+: q → ¬P q) (gone : Place → Bool) (t : Fs δ) :
    Agree P (t.drop gone p) t :=
  fun q hq => node_drop_of_not (fun hp => h q hp hq) gone t

theorem agree_move {P : Place → Prop} {p q : Place} (hp : ∀ r, p <+: r → ¬P r) (hq : ∀ r, q <+: r → ¬P r) (t : Fs δ) :
    Agree P (t.move p q) t :=
  fun r hr => node_move_of_not (fun h => hp r h hr) (fun h => hq r h hr) t

end Fs
end LocaiLink
