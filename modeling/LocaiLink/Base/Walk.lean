/-
# Walks along paths

A walk takes the components of a path one after the other, from a directory, and
goes on behind every link it meets; whether a link at the end is followed is up to
who asks. Where no link below a directory and no component leads up, a walk that
starts in the directory ends in it (`inside_walk`).
-/
import LocaiLink.Base.Fs

namespace LocaiLink

/-- Why a path leads nowhere, or a change is not made. -/
inductive Errno
  | taken | missing | notDirectory | loop | other
  deriving DecidableEq

namespace Fs

variable {δ : Type} {t : Fs δ} {dest at' q : Place} {last : Bool} {cs : List String}

/-- The place that components lead to; `jump` goes on behind a link. A dot, and
nothing before or after a slash, stay in a directory. -/
def walkFrom (t : Fs δ) (last : Bool) (jump : Place → List String → Except Errno Place) :
    Place → List String → Except Errno Place
  | at', [] => .ok at'
  | at', c :: cs =>
    match t.node at' with
    | none => .error .missing
    | some (.file _) => .error .notDirectory
    | some (.link _) => .error .notDirectory
    | some .dir =>
      if c = "" ∨ c = "." then t.walkFrom last jump at' cs
      else if c = ".." then t.walkFrom last jump at'.dropLast cs
      else
        match t.node (at' ++ [c]) with
        | some (.link target) =>
          if cs = [] ∧ last = false then .ok (at' ++ [c])
          else jump (if target.isAbsolute then [] else at') (target.parts ++ cs)
        | _ => t.walkFrom last jump (at' ++ [c]) cs

/-- A walk behind at most so many links. -/
def walk (t : Fs δ) (last : Bool) : ℕ → Place → List String → Except Errno Place
  | 0 => t.walkFrom last fun _ _ => .error .loop
  | links + 1 => t.walkFrom last (t.walk last links)

theorem walk_nil (links : ℕ) : t.walk last links at' [] = .ok at' := by
  cases links <;> rfl

theorem exists_link {p : Place} (h : t.isLink p = true) : ∃ target, t.node p = some (.link target) := by
  unfold isLink at h
  split at h
  · exact ⟨_, ‹_›⟩
  · cases h

section Steps

variable {jump : Place → List String → Except Errno Place} {c : String}

/-- Only a directory is walked on from. -/
theorem walkFrom_ne_ok (h : t.node at' ≠ some .dir) : t.walkFrom last jump at' (c :: cs) ≠ .ok q := by
  rw [walkFrom]
  cases hn : t.node at' with
  | none => simp
  | some n =>
    cases n with
    | dir => exact absurd hn h
    | file d => simp
    | link target => simp

variable (h : t.node at' = some .dir)
include h

theorem walkFrom_stay (hc : c = "" ∨ c = ".") : t.walkFrom last jump at' (c :: cs) = t.walkFrom last jump at' cs := by
  rw [walkFrom, h]
  exact if_pos hc

theorem walkFrom_up (hc : c = "..") : t.walkFrom last jump at' (c :: cs) = t.walkFrom last jump at'.dropLast cs := by
  subst hc
  rw [walkFrom, h]
  rfl

theorem walkFrom_link {target : Path} (hstay : ¬(c = "" ∨ c = ".")) (hup : c ≠ "..")
    (hlink : t.node (at' ++ [c]) = some (.link target)) : t.walkFrom last jump at' (c :: cs) =
      if cs = [] ∧ last = false then .ok (at' ++ [c])
      else jump (if target.isAbsolute then [] else at') (target.parts ++ cs) := by
  rw [walkFrom, h]
  dsimp only
  rw [if_neg hstay, if_neg hup, hlink]

theorem walkFrom_down (hstay : ¬(c = "" ∨ c = ".")) (hup : c ≠ "..") (hlink : t.isLink (at' ++ [c]) = false) :
    t.walkFrom last jump at' (c :: cs) = t.walkFrom last jump (at' ++ [c]) cs := by
  rw [walkFrom, h]
  dsimp only
  rw [if_neg hstay, if_neg hup]
  unfold isLink at hlink
  cases hn : t.node (at' ++ [c]) with
  | none => rfl
  | some n =>
    rw [hn] at hlink
    cases n with
    | dir => rfl
    | file d => rfl
    | link target => cases hlink

end Steps

/-- A walk goes down into what is no link. -/
theorem walk_down {c : String} (h : t.node at' = some .dir) (hc : c ≠ "" ∧ c ≠ "." ∧ c ≠ "..")
    (hlink : t.isLink (at' ++ [c]) = false) (links : ℕ) :
    t.walk last links at' (c :: cs) = t.walk last links (at' ++ [c]) cs := by
  have hstay : ¬(c = "" ∨ c = ".") := not_or.mpr ⟨hc.1, hc.2.1⟩
  cases links with
  | zero => exact walkFrom_down h hstay hc.2.2 hlink
  | succ links => exact walkFrom_down h hstay hc.2.2 hlink

/-- Where a link at the end is not followed, the last step is to its place. -/
theorem walk_last {c : String} (h : t.node at' = some .dir) (hc : c ≠ "" ∧ c ≠ "." ∧ c ≠ "..") (links : ℕ) :
    t.walk false links at' [c] = .ok (at' ++ [c]) := by
  cases hlink : t.isLink (at' ++ [c]) with
  | false => rw [walk_down h hc hlink, walk_nil]
  | true =>
    obtain ⟨target, hnode⟩ := exists_link hlink
    have hstay : ¬(c = "" ∨ c = ".") := not_or.mpr ⟨hc.1, hc.2.1⟩
    cases links with
    | zero => exact (walkFrom_link h hstay hc.2.2 hnode).trans (if_pos ⟨rfl, rfl⟩)
    | succ links => exact (walkFrom_link h hstay hc.2.2 hnode).trans (if_pos ⟨rfl, rfl⟩)

/-! ### Walks in trees with the same nodes -/

theorem walkFrom_congr {t' : Fs δ} (h : t'.node = t.node) {jump jump' : Place → List String → Except Errno Place}
    (hjump : ∀ at' cs, jump' at' cs = jump at' cs) : ∀ (cs : List String) (at' : Place),
      t'.walkFrom last jump' at' cs = t.walkFrom last jump at' cs
  | [], _ => rfl
  | c :: cs, at' => by
    have ih := walkFrom_congr h hjump cs
    simp only [walkFrom, h, ih, hjump]

theorem walk_congr {t' : Fs δ} (h : t'.node = t.node) : ∀ (links : ℕ) (at' : Place) (cs : List String),
    t'.walk last links at' cs = t.walk last links at' cs
  | 0, at', cs => walkFrom_congr h (fun _ _ => rfl) cs at'
  | links + 1, at', cs => walkFrom_congr h (walk_congr h links) cs at'

/-! ### Everything is in a directory -/

def Rooted (t : Fs δ) : Prop := ∀ p c, (t.node (p ++ [c])).isSome = true → t.node p = some .dir

/-- Below what is no directory there is nothing. -/
theorem Rooted.below (h : t.Rooted) {p : Place} (hp : t.node p ≠ some .dir) : ∀ {q : Place}, p <+: q → q ≠ p → t.node q = none := by
  intro q hq hne
  obtain ⟨r, rfl⟩ := hq
  induction r using List.reverseRecOn with
  | nil => exact absurd (List.append_nil p) hne
  | append_singleton r c ih =>
    by_contra hsome
    have hparent : t.node (p ++ r) = some .dir := by
      refine h (p ++ r) c ?_
      rw [List.append_assoc]
      exact Option.isSome_iff_ne_none.mpr hsome
    by_cases hr : p ++ r = p
    · rw [hr] at hparent
      exact hp hparent
    · rw [ih hr] at hparent
      cases hparent

/-! ### Walks that only go down -/

end Fs

/-- A path from where it is followed, with no component that leads up. -/
def Path.Descends (p : Path) : Prop := p.isAbsolute = false ∧ ".." ∉ p.parts

namespace Fs

variable {δ : Type} {t : Fs δ} {dest : Place} {last : Bool}

/-- The links at a place and below it lead down. -/
def Descending (dest : Place) (t : Fs δ) : Prop :=
  ∀ p target, dest <+: p → t.node p = some (.link target) → target.Descends

theorem inside_walkFrom {jump : Place → List String → Except Errno Place} (h : Descending dest t)
    (hjump : ∀ at' cs q, dest <+: at' → ".." ∉ cs → jump at' cs = .ok q → dest <+: q) {q : Place} :
    ∀ {cs : List String} {at' : Place}, dest <+: at' → ".." ∉ cs → t.walkFrom last jump at' cs = .ok q → dest <+: q
  | [], at', hat, _, hq => by
    have hq : at' = q := Except.ok.inj hq
    rwa [← hq]
  | c :: cs, at', hat, hcs, hq => by
    have hup : c ≠ ".." := fun hc => hcs (hc ▸ List.mem_cons_self)
    have hrest : ".." ∉ cs := fun hmem => hcs (List.mem_cons_of_mem c hmem)
    have hdown : dest <+: at' ++ [c] := hat.trans (List.prefix_append at' [c])
    have hdir : t.node at' = some .dir := by
      by_contra hdir
      exact walkFrom_ne_ok hdir hq
    by_cases hstay : c = "" ∨ c = "."
    · rw [walkFrom_stay hdir hstay] at hq
      exact inside_walkFrom h hjump hat hrest hq
    cases hlink : t.isLink (at' ++ [c]) with
    | false =>
      rw [walkFrom_down hdir hstay hup hlink] at hq
      exact inside_walkFrom h hjump hdown hrest hq
    | true =>
      obtain ⟨target, hnode⟩ := exists_link hlink
      obtain ⟨hrel, hparts⟩ := h _ target hdown hnode
      rw [walkFrom_link hdir hstay hup hnode, hrel] at hq
      by_cases hend : cs = [] ∧ last = false
      · rw [if_pos hend] at hq
        have hq : at' ++ [c] = q := Except.ok.inj hq
        rwa [← hq]
      · rw [if_neg hend] at hq
        have hpath : ".." ∉ target.parts ++ cs := by
          rw [List.mem_append, not_or]
          exact ⟨hparts, hrest⟩
        exact hjump at' _ q hat hpath hq

/-- Where no link leads up, a walk stays where it starts. -/
theorem inside_walk (h : Descending dest t) {links : ℕ} : ∀ {at' : Place} {cs : List String} {q : Place},
    dest <+: at' → ".." ∉ cs → t.walk last links at' cs = .ok q → dest <+: q := by
  induction links with
  | zero => exact fun hat hcs hq => inside_walkFrom h (fun _ _ _ _ _ hloop => by cases hloop) hat hcs hq
  | succ links ih => exact fun hat hcs hq => inside_walkFrom h (fun _ _ _ hat hcs hq => ih hat hcs hq) hat hcs hq

/-! ### Walks that end early -/

theorem walkFrom_append {jump jump' : Place → List String → Except Errno Place} {ys : List String} (hys : ys ≠ [])
    (hjump : ∀ at' xs, (∀ q, jump' at' xs = .ok q → t.node q ≠ some .dir) → ∀ q, jump at' (xs ++ ys) ≠ .ok q) {q : Place} :
    ∀ {xs : List String} {at' : Place}, (∀ q, t.walkFrom true jump' at' xs = .ok q → t.node q ≠ some .dir) →
      t.walkFrom last jump at' (xs ++ ys) ≠ .ok q
  | [], at', h => by
    obtain ⟨y, ys, rfl⟩ := List.exists_cons_of_ne_nil hys
    exact walkFrom_ne_ok (h at' rfl)
  | x :: xs, at', h => by
    rw [List.cons_append]
    by_cases hdir : t.node at' = some .dir
    · by_cases hstay : x = "" ∨ x = "."
      · rw [walkFrom_stay hdir hstay] at h ⊢
        exact walkFrom_append hys hjump h
      by_cases hup : x = ".."
      · rw [walkFrom_up hdir hup] at h ⊢
        exact walkFrom_append hys hjump h
      cases hlink : t.isLink (at' ++ [x]) with
      | false =>
        rw [walkFrom_down hdir hstay hup hlink] at h ⊢
        exact walkFrom_append hys hjump h
      | true =>
        obtain ⟨target, hnode⟩ := exists_link hlink
        have hne : ¬(xs ++ ys = [] ∧ last = false) := fun hnil => hys (List.append_eq_nil_iff.mp hnil.1).2
        rw [walkFrom_link hdir hstay hup hnode, if_neg (by simp)] at h
        rw [walkFrom_link hdir hstay hup hnode, if_neg hne, ← List.append_assoc]
        exact hjump _ _ h q
    · exact walkFrom_ne_ok hdir

/-- Behind what is no directory nothing is found. -/
theorem walk_append {ys : List String} (hys : ys ≠ []) {links : ℕ} : ∀ {xs : List String} {at' : Place},
    (∀ q, t.walk true links at' xs = .ok q → t.node q ≠ some .dir) → ∀ q, t.walk last links at' (xs ++ ys) ≠ .ok q := by
  induction links with
  | zero => exact fun h q => walkFrom_append hys (fun _ _ _ _ hloop => by cases hloop) h
  | succ links ih => exact fun h q => walkFrom_append hys (fun _ _ h => ih h) h

end Fs
end LocaiLink
