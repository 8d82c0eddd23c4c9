/-
# Template placeholders

`resolve_templates` of `config/templating.py`: every `$` `{path}` marker in a
string is replaced by what the dotted path names in the context, and stays as
it is when it names nothing. Keys are not touched.
-/
import LocaiLink.Base.Text

namespace LocaiLink
namespace Templating

/-- The marker with its braces, `\x24\x7bpath\x7d`. -/
def marker (path : List Char) : List Char := '$' :: '\x7b' :: path ++ ['\x7d']

/-- The value the parts of a path name, `none` where a part names nothing. -/
def walk : Json → List (List Char) → Option Json
  | node, [] => some node
  | node, part :: parts => (node.get? (String.ofList part)).bind fun v => walk v parts

/-- `_lookup`: the text of the value, or the marker itself. -/
def lookup (context : Json) (path : List Char) : List Char :=
  match walk context (Text.split '.' path) with
  | some v => Text.str v
  | none => marker path

/-- The group a marker matches after its opening brace: at least one character,
up to the first closing brace, and what follows it. -/
def group : List Char → Option (List Char × List Char)
  | [] => none
  | c :: l =>
    if c = '\x7d' then none
    else match l with
      | '\x7d' :: rest => some ([c], rest)
      | _ => (group l).map fun g => (c :: g.1, g.2)

/-- Each marker is replaced, from left to right. The fuel is the length of the text. -/
def subst (context : Json) : ℕ → List Char → List Char
  | 0, l => l
  | _, [] => []
  | n + 1, c :: l =>
    match c, l with
    | '$', '\x7b' :: l' =>
      match group l' with
      | some (path, rest) => lookup context path ++ subst context n rest
      | none => c :: subst context n l
    | _, _ => c :: subst context n l

def resolveString (context : Json) (s : String) : String :=
  String.ofList (subst context s.toList.length s.toList)

mutual

def resolveTemplates (context : Json) : Json → Json
  | .str s => .str (resolveString context s)
  | .obj l => .obj (resolveObj context l)
  | .arr l => .arr (resolveArr context l)
  | v => v

def resolveArr (context : Json) : List Json → List Json
  | [] => []
  | v :: l => resolveTemplates context v :: resolveArr context l

def resolveObj (context : Json) : List (String × Json) → List (String × Json)
  | [] => []
  | (k, v) :: l => (k, resolveTemplates context v) :: resolveObj context l

end

/-- Text without a `$` holds no marker. -/
theorem subst_of_not_mem (context : Json) : ∀ (n : ℕ) (l : List Char), '$' ∉ l → subst context n l = l
  | 0, l, _ => by simp [subst]
  | _ + 1, [], _ => rfl
  | n + 1, c :: l, h => by
    rw [List.mem_cons, not_or] at h
    have ih := subst_of_not_mem context n l h.2
    unfold subst
    split
    · exact absurd rfl h.1
    · rw [ih]

theorem resolveString_of_not_mem (context : Json) {s : String} (h : '$' ∉ s.toList) :
    resolveString context s = s := by
  rw [resolveString, subst_of_not_mem context _ _ h, String.ofList_toList]

theorem lookup_resolveObj (context : Json) (k : String) : ∀ l : List (String × Json),
    (resolveObj context l).lookup k = (l.lookup k).map (resolveTemplates context)
  | [] => rfl
  | (k', v) :: l => by
    rw [resolveObj, List.lookup_cons, List.lookup_cons, lookup_resolveObj context k l]
    cases k == k' <;> rfl

/-- Keys stay where they are. -/
theorem get?_resolveTemplates (context : Json) (k : String) (j : Json) :
    (resolveTemplates context j).get? k = (j.get? k).map (resolveTemplates context) := by
  cases j with
  | obj l => exact lookup_resolveObj context k l
  | _ => rfl

example : resolveString (.obj [("identity", .obj [("device_id", .str "d1")])])
    "\x24\x7bidentity.device_id\x7d/\x24\x7ba.b\x7d/\x24\x7b\x7d" = "d1/\x24\x7ba.b\x7d/\x24\x7b\x7d" := by
  decide +kernel

end Templating
end LocaiLink
