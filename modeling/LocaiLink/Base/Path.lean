/-
# Paths

A path as its text is taken apart: the root (none, `/` or `//`) and the parts,
without empty ones and single dots. Two texts are the same path when they come
apart the same way. `resolve` is the place a path names, from a working
directory, with `..` taken lexically.
-/
import LocaiLink.Base.Cuts

namespace LocaiLink

structure Path where
  root : ℕ
  parts : List String
  deriving DecidableEq

namespace Path

def leadingSlashes : List Char → ℕ
  | '/' :: l => leadingSlashes l + 1
  | _ => 0

/-- Two slashes at the start are a root of their own, three are one. -/
def ofString (s : String) : Path where
  root := match leadingSlashes s.toList with
    | 0 => 0
    | 2 => 2
    | _ => 1
  parts := ((Text.split '/' s.toList).map String.ofList).filter fun p => p ≠ "" ∧ p ≠ "."

def isAbsolute (p : Path) : Bool := p.root ≠ 0

/-- An absolute second path replaces the first. -/
def join (p q : Path) : Path := if q.isAbsolute then q else { p with parts := p.parts ++ q.parts }

def div (p : Path) (s : String) : Path := p.join (ofString s)

/-- The last part, empty for a path without parts. -/
def name (p : Path) : String := p.parts.getLast?.getD ""

def parent (p : Path) : Path := { p with parts := p.parts.dropLast }

/-- The path with another last part, `none` when it has none or the new one is
no single part. -/
def withName (p : Path) (s : String) : Option Path :=
  if p.parts = [] ∨ s = "" ∨ s = "." ∨ '/' ∈ s.toList then none
  else some { p with parts := p.parts.dropLast ++ [s] }

def text (p : Path) : String :=
  if p.root = 0 ∧ p.parts = [] then "."
  else String.ofList (List.replicate p.root '/') ++ "/".intercalate p.parts

/-- One step of resolving: up for `..`, down for a name. -/
def enter (at' : List String) (part : String) : List String :=
  if part = ".." then at'.dropLast else at' ++ [part]

/-- The directories from the root down to the place the path names. -/
def resolve (cwd : List String) (p : Path) : List String :=
  p.parts.foldl enter (if p.isAbsolute then [] else cwd)

example : ofString "a//./b/" = ofString "a/b" := by decide +kernel

/-! ### One directory down -/

/-- A text that is one part of a path. -/
structure Single (s : String) : Prop where
  nonempty : s ≠ ""
  dot : s ≠ "."
  dots : s ≠ ".."
  slash : '/' ∉ s.toList

theorem ofString_single {s : String} (hne : s ≠ "") (hdot : s ≠ ".") (hslash : '/' ∉ s.toList) : ofString s = ⟨0, [s]⟩ := by
  have hroot : leadingSlashes s.toList = 0 := by
    cases hs : s.toList with
    | nil => rfl
    | cons c l =>
      have hc : c ≠ '/' := fun hc => hslash (by rw [hs, hc]; exact List.mem_cons_self)
      unfold leadingSlashes
      split
      · rename_i heq
        exact absurd (List.cons.inj heq).1 hc
      · rfl
  have hsplit : Text.split '/' s.toList = [s.toList] := by rw [Text.split_eq, List.splitOn_eq_singleton hslash]
  unfold ofString
  rw [hroot, hsplit]
  simp [String.ofList_toList, hne, hdot]

theorem div_single {s : String} (h : Single s) (p : Path) : p.div s = { p with parts := p.parts ++ [s] } := by
  rw [div, ofString_single h.nonempty h.dot h.slash]
  rfl

/-- A part leads one directory down. -/
theorem resolve_concat {s : String} (h : Single s) (p : Path) (cwd : List String) :
    resolve cwd { p with parts := p.parts ++ [s] } = p.resolve cwd ++ [s] := by
  unfold resolve
  rw [List.foldl_append]
  exact if_neg h.dots

theorem resolve_div {s : String} (h : Single s) (p : Path) (cwd : List String) :
    (p.div s).resolve cwd = p.resolve cwd ++ [s] := by
  rw [div_single h, resolve_concat h]

/-- The name of a path below a directory, with something after it. -/
theorem withName_div {s t : String} (h : Single s) (ht : Single t) (p : Path) : (p.div s).withName t = some (p.div t) := by
  rw [div_single h, div_single ht]
  unfold withName
  rw [if_neg]
  · simp
  · simp [ht.nonempty, ht.dot, ht.slash]

theorem name_div {s : String} (h : Single s) (p : Path) : (p.div s).name = s := by
  rw [div_single h]
  unfold name
  simp

/-! ### What a walk comes to -/

/-- The parts of a path are neither empty nor a dot, and have no slash in them. -/
theorem of_mem_parts {s part : String} (h : part ∈ (ofString s).parts) : part ≠ "" ∧ part ≠ "." ∧ '/' ∉ part.toList := by
  obtain ⟨hmem, hkept⟩ := List.mem_filter.mp h
  obtain ⟨l, hl, rfl⟩ := List.mem_map.mp hmem
  simp only [decide_eq_true_eq] at hkept
  refine ⟨hkept.1, hkept.2, ?_⟩
  rw [String.toList_ofList]
  rw [Text.split_eq] at hl
  exact fun hslash => absurd (Text.of_mem_splitOnP hl '/' hslash) (by decide)

/-- Walking parts goes up from where one is, and then down to some of them. -/
theorem walk_eq (cwd : List String) (parts : List String) : ∃ up down, parts.foldl enter cwd = cwd.take up ++ down ∧
    ∀ part ∈ down, part ∈ parts ∧ part ≠ ".." := by
  induction parts using List.reverseRecOn with
  | nil => exact ⟨cwd.length, [], by simp, fun part hpart => by cases hpart⟩
  | append_singleton parts x ih =>
    obtain ⟨up, down, hwalk, hdown⟩ := ih
    have hmem : ∀ part ∈ down, part ∈ parts ++ [x] ∧ part ≠ ".." := fun part hpart =>
      ⟨List.mem_append_left _ (hdown part hpart).1, (hdown part hpart).2⟩
    rw [List.foldl_append, hwalk]
    change ∃ up' down', enter (cwd.take up ++ down) x = _ ∧ _
    unfold enter
    split_ifs with hx
    · rcases List.eq_nil_or_concat down with rfl | ⟨rest, y, rfl⟩
      · refine ⟨(cwd.take up).length - 1, [], ?_, fun part hpart => by cases hpart⟩
        rw [List.append_nil, List.append_nil, List.dropLast_eq_take, List.take_take]
        congr 1
        simp
      · refine ⟨up, rest, ?_, fun part hpart => hmem part (by simp [hpart])⟩
        rw [List.concat_eq_append, ← List.append_assoc, List.dropLast_concat]
    · refine ⟨up, down ++ [x], by simp, fun part hpart => ?_⟩
      rcases List.mem_append.mp hpart with hpart | hpart
      · exact hmem part hpart
      · obtain rfl := List.mem_singleton.mp hpart
        exact ⟨by simp, hx⟩

/-- A walk that ends further down than it starts ends in one of its parts. -/
theorem last_of_walk {cwd place : List String} {parts : List String} {last : String} (h : parts.foldl enter cwd = place ++ [last])
    (hlength : cwd.length ≤ place.length) : last ∈ parts ∧ last ≠ ".." := by
  obtain ⟨up, down, hwalk, hdown⟩ := walk_eq cwd parts
  rw [h] at hwalk
  rcases List.eq_nil_or_concat down with rfl | ⟨rest, y, rfl⟩
  · have htake := congrArg List.length hwalk
    simp at htake
    omega
  · rw [List.concat_eq_append, ← List.append_assoc] at hwalk
    obtain ⟨-, hlast⟩ := List.append_inj' hwalk rfl
    obtain rfl : last = y := by simpa using hlast
    exact hdown last (by simp)

end Path
end LocaiLink
