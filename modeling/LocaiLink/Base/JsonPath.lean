/-
# Nested objects

`getIn` follows keys from object to object, and `putIn` sets a value at their end,
with new objects where a key is missing, as chained `setdefault`s do. A value that
is put is found, and nothing else of the same depth changes. `sortKeys` is a value
with the members of every object in the order of their keys, which the lookups do
not notice.
-/
import Mathlib.Data.List.Sort
import LocaiLink.Base.JsonTrip

namespace LocaiLink
namespace Json

open JsonText

/-- `j[k][..]`, none where a key is missing or there is no object. -/
def getIn : List String → Json → Option Json
  | [], j => some j
  | k :: ks, j => (j.get? k).bind (getIn ks)

/-- `j.setdefault(k, {})[..] = v`, none where something on the way is no object. -/
def putIn : List String → Json → Json → Option Json
  | [], v, _ => some v
  | k :: ks, v, .obj l => (putIn ks v ((l.lookup k).getD (.obj []))).map fun j => .obj (Dict.setEntry k j l)
  | _ :: _, _, _ => none

/-- Objects of objects, so many levels deep. -/
def Nested : ℕ → Json → Prop
  | 0, _ => True
  | n + 1, .obj l => ∀ e ∈ l, Nested n e.2
  | _ + 1, _ => False

theorem getIn_empty {ks : List String} (h : ks ≠ []) : getIn ks (.obj []) = none := by
  cases ks with
  | nil => exact absurd rfl h
  | cons k ks => rfl

theorem putIn_cons {k : String} {ks : List String} {v j j' : Json} (h : putIn (k :: ks) v j = some j') :
    ∃ l child, j = .obj l ∧ putIn ks v ((l.lookup k).getD (.obj [])) = some child ∧ j' = .obj (Dict.setEntry k child l) := by
  cases j with
  | obj l =>
    obtain ⟨child, hchild, rfl⟩ := Option.map_eq_some_iff.mp h
    exact ⟨l, child, rfl, hchild, rfl⟩
  | _ => cases h

theorem get?_setEntry (k k' : String) (j : Json) (l : List (String × Json)) :
    (Json.obj (Dict.setEntry k j l)).get? k' = if k' = k then some j else (Json.obj l).get? k' :=
  Dict.lookup_setEntry k k' j l

theorem getIn_putIn_self : ∀ {ks : List String} {v j j' : Json}, putIn ks v j = some j' → getIn ks j' = some v
  | [], _, _, _, h => h.symm
  | k :: ks, v, j, j', h => by
    obtain ⟨l, child, rfl, hchild, rfl⟩ := putIn_cons h
    rw [getIn, get?_setEntry, if_pos rfl]
    exact getIn_putIn_self hchild

/-- Another path that is as long is not touched. -/
theorem getIn_putIn_of_ne : ∀ {ks qs : List String} {v j j' : Json}, qs.length = ks.length → qs ≠ ks →
    putIn ks v j = some j' → getIn qs j' = getIn qs j
  | [], [], _, _, _, _, hne, _ => absurd rfl hne
  | k :: ks, q :: qs, v, j, j', hlen, hne, h => by
    obtain ⟨l, child, rfl, hchild, rfl⟩ := putIn_cons h
    rw [getIn, getIn, get?_setEntry]
    split_ifs with hq
    · subst hq
      have hne' : qs ≠ ks := fun heq => hne (by rw [heq])
      have ih := getIn_putIn_of_ne (Nat.succ.inj hlen) hne' hchild
      refine ih.trans ?_
      change _ = (l.lookup q).bind (getIn qs)
      cases l.lookup q with
      | none =>
        refine getIn_empty fun hqs => hne' ?_
        have hks : ks.length = 0 := by simpa [hqs] using hlen.symm
        rw [hqs, List.eq_nil_of_length_eq_zero hks]
      | some c => rfl
    · rfl

theorem mem_setEntry {k : String} {j : Json} {e : String × Json} : ∀ {l : List (String × Json)},
    e ∈ Dict.setEntry k j l → e = (k, j) ∨ e ∈ l
  | [], h => .inl (List.mem_singleton.mp h)
  | a :: l, h => by
    unfold Dict.setEntry at h
    split_ifs at h
    · rcases List.mem_cons.mp h with h | h
      · exact .inl h
      · exact .inr (List.mem_cons_of_mem _ h)
    · rcases List.mem_cons.mp h with h | h
      · exact .inr (h ▸ List.mem_cons_self)
      · exact (mem_setEntry h).imp_right (List.mem_cons_of_mem _)

theorem nested_lookup {n : ℕ} {l : List (String × Json)} (h : ∀ e ∈ l, Nested n e.2) (k : String) :
    Nested n ((l.lookup k).getD (.obj [])) := by
  cases hk : l.lookup k with
  | none =>
    cases n with
    | zero => trivial
    | succ n => exact fun e he => absurd he List.not_mem_nil
  | some j => exact h _ (Dict.mem_of_lookup hk)

/-- A path goes through objects that are deep enough, and leaves them so. -/
theorem putIn_of_nested : ∀ {ks : List String} {j : Json} (v : Json), Nested ks.length j →
    ∃ j', putIn ks v j = some j' ∧ Nested ks.length j'
  | [], _, v, _ => ⟨v, rfl, trivial⟩
  | k :: ks, .obj l, v, h => by
    obtain ⟨child, hchild, hnested⟩ := putIn_of_nested v (nested_lookup h k)
    refine ⟨.obj (Dict.setEntry k child l), by rw [putIn, hchild]; rfl, fun e he => ?_⟩
    rcases mem_setEntry he with rfl | he
    · exact hnested
    · exact h e he

theorem proper_putIn : ∀ {ks : List String} {v j j' : Json}, Proper v → Proper j → putIn ks v j = some j' → Proper j'
  | [], _, _, _, hv, _, h => Option.some.inj h ▸ hv
  | k :: ks, v, j, j', hv, hj, h => by
    obtain ⟨l, child, rfl, hchild, rfl⟩ := putIn_cons h
    have hproper : Proper ((l.lookup k).getD (.obj [])) := by
      cases hk : l.lookup k with
      | none => exact ⟨List.nodup_nil, trivial⟩
      | some c => exact proper_lookup hj.2 hk
    exact ⟨Dict.nodup_setEntry k child l hj.1, properMembers_setEntry (proper_putIn hv hproper hchild) hj.2⟩

/-! ### Sorted keys -/

def sortMembers (l : List (String × Json)) : List (String × Json) := l.insertionSort fun a b => a.1 ≤ b.1

mutual

/-- The value with the members of every object by key. -/
def sortKeys : Json → Json
  | .arr l => .arr (sortItems l)
  | .obj l => .obj (sortMembers (sortValues l))
  | j => j

def sortItems : List Json → List Json
  | [] => []
  | a :: l => sortKeys a :: sortItems l

def sortValues : List (String × Json) → List (String × Json)
  | [] => []
  | (k, a) :: l => (k, sortKeys a) :: sortValues l

end

theorem keys_sortValues : ∀ l : List (String × Json), (sortValues l).map Prod.fst = l.map Prod.fst
  | [] => rfl
  | (k, _) :: l => congrArg (k :: ·) (keys_sortValues l)

theorem lookup_sortValues (k : String) : ∀ l : List (String × Json), (sortValues l).lookup k = (l.lookup k).map sortKeys
  | [] => rfl
  | (k', a) :: l => by
    have ih := lookup_sortValues k l
    rw [sortValues, List.lookup_cons, List.lookup_cons, ih]
    split <;> rfl

theorem lookup_perm {l m : List (String × Json)} (h : l.Perm m) (hl : (l.map Prod.fst).Nodup) (k : String) :
    m.lookup k = l.lookup k := by
  have hm : (m.map Prod.fst).Nodup := (h.map _).nodup_iff.mp hl
  cases hk : l.lookup k with
  | some j => exact Dict.lookup_of_mem hm (h.mem_iff.mp (Dict.mem_of_lookup hk))
  | none =>
    cases hk' : m.lookup k with
    | none => rfl
    | some j =>
      have hback := Dict.lookup_of_mem hl (h.mem_iff.mpr (Dict.mem_of_lookup hk'))
      rw [hk] at hback
      cases hback

theorem get?_sortKeys {j : Json} (hj : Proper j) (k : String) : (sortKeys j).get? k = (j.get? k).map sortKeys := by
  cases j with
  | obj l =>
    have hnodup : ((sortValues l).map Prod.fst).Nodup := (keys_sortValues l).symm ▸ hj.1
    exact (lookup_perm (List.perm_insertionSort _ _).symm hnodup k).trans (lookup_sortValues k l)
  | _ => rfl

theorem getIn_sortKeys : ∀ {ks : List String} {j : Json}, Proper j → getIn ks (sortKeys j) = (getIn ks j).map sortKeys
  | [], _, _ => rfl
  | k :: ks, j, hj => by
    rw [getIn, getIn, get?_sortKeys hj]
    cases hk : j.get? k with
    | none => rfl
    | some c => exact getIn_sortKeys (proper_get? hj hk)

mutual

theorem proper_sortKeys : ∀ j : Json, Proper j → Proper (sortKeys j)
  | .null, _ | .bool _, _ | .int _, _ | .float _, _ | .str _, _ => trivial
  | .arr l, hj => proper_sortItems l hj
  | .obj l, hj => by
    have hperm := List.perm_insertionSort (fun a b : String × Json => a.1 ≤ b.1) (sortValues l)
    refine ⟨(hperm.map _).nodup_iff.mpr ((keys_sortValues l).symm ▸ hj.1), properMembers_iff.mpr fun e he => ?_⟩
    exact properMembers_iff.mp (proper_sortValues l hj.2) e (hperm.mem_iff.mp he)

theorem proper_sortItems : ∀ l : List Json, ProperItems l → ProperItems (sortItems l)
  | [], _ => trivial
  | a :: l, h => ⟨proper_sortKeys a h.1, proper_sortItems l h.2⟩

theorem proper_sortValues : ∀ l : List (String × Json), ProperMembers l → ProperMembers (sortValues l)
  | [], _ => trivial
  | (_, a) :: l, h => ⟨proper_sortKeys a h.1, proper_sortValues l h.2⟩

end

end Json
end LocaiLink
