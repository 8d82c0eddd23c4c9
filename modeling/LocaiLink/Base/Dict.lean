/-
# Dictionaries that keep their insertion order

A `Dict` is a list of entries with distinct keys. Setting a key it has keeps
the key's place, setting a new one appends it, as the dictionaries of a
scripting language do. Everything else reads it through `get?`
(`get?_set`, `get?_erase`, `get?_ofList`).
-/
import Mathlib.Data.List.Nodup
import Mathlib.Data.List.Lookmap

namespace LocaiLink

/-- Entries in insertion order, no key twice. -/
structure Dict (κ β : Type) where
  entries : List (κ × β)
  nodup : (entries.map Prod.fst).Nodup

namespace Dict

variable {κ β γ : Type} [DecidableEq κ]

/-- Set `k` in its place, or at the end. -/
def setEntry (k : κ) (v : β) : List (κ × β) → List (κ × β)
  | [] => [(k, v)]
  | e :: l => if e.1 = k then (k, v) :: l else e :: setEntry k v l

theorem mem_keys_setEntry (k : κ) (v : β) (x : κ) : ∀ l : List (κ × β),
    x ∈ (setEntry k v l).map Prod.fst ↔ x = k ∨ x ∈ l.map Prod.fst
  | [] => by simp [setEntry]
  | e :: l => by
    have ih := mem_keys_setEntry k v x l
    unfold setEntry
    split_ifs with h
    · simp only [List.map_cons, List.mem_cons, h]
      tauto
    · simp only [List.map_cons, List.mem_cons, ih]
      tauto

theorem nodup_setEntry (k : κ) (v : β) : ∀ l : List (κ × β),
    (l.map Prod.fst).Nodup → ((setEntry k v l).map Prod.fst).Nodup
  | [], _ => by simp [setEntry]
  | e :: l, h => by
    rw [List.map_cons, List.nodup_cons] at h
    unfold setEntry
    split_ifs with hk
    · rw [List.map_cons, List.nodup_cons]
      exact ⟨hk ▸ h.1, h.2⟩
    · rw [List.map_cons, List.nodup_cons, mem_keys_setEntry]
      exact ⟨fun hm => hm.elim hk h.1, nodup_setEntry k v l h.2⟩

def empty : Dict κ β := ⟨[], by simp⟩

def set (d : Dict κ β) (k : κ) (v : β) : Dict κ β :=
  ⟨setEntry k v d.entries, nodup_setEntry k v _ d.nodup⟩

def erase (d : Dict κ β) (k : κ) : Dict κ β :=
  ⟨d.entries.filter (fun e => e.1 ≠ k), d.nodup.sublist (List.filter_sublist.map _)⟩

def get? (d : Dict κ β) (k : κ) : Option β := d.entries.lookup k

def contains (d : Dict κ β) (k : κ) : Bool := (d.get? k).isSome

def keys (d : Dict κ β) : List κ := d.entries.map Prod.fst

/-- The dictionary a list of pairs builds: a later pair overwrites an earlier one. -/
def ofList (l : List (κ × β)) : Dict κ β := l.foldl (fun d e => d.set e.1 e.2) empty

@[simp] theorem get?_empty (k : κ) : (empty : Dict κ β).get? k = none := rfl

theorem lookup_cons_ne {k a : κ} (b : β) (l : List (κ × β)) (h : k ≠ a) :
    ((a, b) :: l).lookup k = l.lookup k := by
  rw [List.lookup_cons, beq_eq_false_iff_ne.mpr h]

theorem lookup_setEntry (k k' : κ) (v : β) : ∀ l : List (κ × β),
    (setEntry k v l).lookup k' = if k' = k then some v else l.lookup k'
  | [] => by
    by_cases h : k' = k
    · simp [setEntry, h]
    · rw [if_neg h, setEntry, lookup_cons_ne _ _ h]
  | e :: l => by
    obtain ⟨a, b⟩ := e
    have ih := lookup_setEntry k k' v l
    unfold setEntry
    by_cases ha : a = k
    · subst ha
      rw [if_pos rfl]
      by_cases h : k' = a
      · simp [h]
      · rw [lookup_cons_ne _ _ h, lookup_cons_ne _ _ h, if_neg h]
    · rw [if_neg ha]
      by_cases h' : k' = a
      · subst h'
        simp [ha]
      · rw [lookup_cons_ne _ _ h', lookup_cons_ne _ _ h', ih]

theorem get?_set (d : Dict κ β) (k k' : κ) (v : β) :
    (d.set k v).get? k' = if k' = k then some v else d.get? k' :=
  lookup_setEntry k k' v d.entries

@[simp] theorem get?_set_self (d : Dict κ β) (k : κ) (v : β) : (d.set k v).get? k = some v := by
  rw [get?_set, if_pos rfl]

theorem get?_set_of_ne (d : Dict κ β) {k k' : κ} (v : β) (h : k' ≠ k) :
    (d.set k v).get? k' = d.get? k' := by
  rw [get?_set, if_neg h]

theorem lookup_filter_ne (k k' : κ) : ∀ l : List (κ × β),
    (l.filter fun e => e.1 ≠ k).lookup k' = if k' = k then none else l.lookup k'
  | [] => by simp
  | e :: l => by
    obtain ⟨a, b⟩ := e
    have ih := lookup_filter_ne k k' l
    by_cases ha : a = k
    · subst ha
      rw [List.filter_cons_of_neg (by simp), ih]
      by_cases h : k' = a
      · simp [h]
      · rw [lookup_cons_ne _ _ h]
    · rw [List.filter_cons_of_pos (by simpa using ha)]
      by_cases h' : k' = a
      · subst h'
        simp [ha]
      · rw [lookup_cons_ne _ _ h', lookup_cons_ne _ _ h', ih]

theorem get?_erase (d : Dict κ β) (k k' : κ) :
    (d.erase k).get? k' = if k' = k then none else d.get? k' :=
  lookup_filter_ne k k' d.entries

@[simp] theorem get?_erase_self (d : Dict κ β) (k : κ) : (d.erase k).get? k = none := by
  rw [get?_erase, if_pos rfl]

theorem get?_erase_of_ne (d : Dict κ β) {k k' : κ} (h : k' ≠ k) :
    (d.erase k).get? k' = d.get? k' := by
  rw [get?_erase, if_neg h]

theorem lookup_isSome (k : κ) : ∀ l : List (κ × β),
    (l.lookup k).isSome ↔ k ∈ l.map Prod.fst
  | [] => by simp
  | (a, b) :: l => by
    by_cases h : k = a
    · simp [h]
    · rw [lookup_cons_ne _ _ h, lookup_isSome k l]
      simp [h]

theorem lookup_of_mem {k : κ} {v : β} : ∀ {l : List (κ × β)}, (l.map Prod.fst).Nodup → (k, v) ∈ l →
    l.lookup k = some v
  | e :: l, hl, h => by
    rw [List.map_cons, List.nodup_cons] at hl
    rcases List.mem_cons.mp h with rfl | h
    · rw [List.lookup_cons_self]
    · have hk : k ∈ l.map Prod.fst := List.mem_map.mpr ⟨_, h, rfl⟩
      have hne : k ≠ e.1 := fun he => hl.1 (he ▸ hk)
      exact (lookup_cons_ne e.2 l hne).trans (lookup_of_mem hl.2 h)

/-- Of a key that is there, `get?` finds the entry. -/
theorem get?_of_mem {d : Dict κ β} {k : κ} {v : β} (h : (k, v) ∈ d.entries) : d.get? k = some v :=
  lookup_of_mem d.nodup h

theorem mem_of_lookup {k : κ} {v : β} : ∀ {l : List (κ × β)}, l.lookup k = some v → (k, v) ∈ l
  | e :: l, h => by
    by_cases hk : k = e.1
    · subst hk
      rw [List.lookup_cons_self, Option.some.injEq] at h
      rw [← h]
      exact List.mem_cons_self
    · rw [lookup_cons_ne e.2 l hk] at h
      exact List.mem_cons_of_mem e (mem_of_lookup h)

theorem mem_of_get? {d : Dict κ β} {k : κ} {v : β} (h : d.get? k = some v) : (k, v) ∈ d.entries :=
  mem_of_lookup h

theorem mem_keys (d : Dict κ β) (k : κ) : k ∈ d.keys ↔ (d.get? k).isSome :=
  (lookup_isSome k d.entries).symm

theorem contains_iff (d : Dict κ β) (k : κ) : d.contains k = true ↔ ∃ v, d.get? k = some v := by
  simp [contains, Option.isSome_iff_exists]

/-- Of the pairs of a list with one key, the last one counts. -/
theorem get?_foldl_set (k : κ) : ∀ (l : List (κ × β)) (d : Dict κ β),
    (l.foldl (fun d e => d.set e.1 e.2) d).get? k =
      ((l.reverse.find? fun e => e.1 = k).map Prod.snd).or (d.get? k)
  | [], d => by simp
  | e :: l, d => by
    rw [List.foldl_cons, get?_foldl_set k l, List.reverse_cons, List.find?_append, get?_set]
    cases hf : l.reverse.find? fun e => decide (e.1 = k) with
    | some x => simp
    | none =>
      by_cases h : e.1 = k
      · simp [h]
      · simp [h, Ne.symm h]

theorem get?_ofList (l : List (κ × β)) (k : κ) :
    (ofList l).get? k = (l.reverse.find? fun e => e.1 = k).map Prod.snd := by
  rw [ofList, get?_foldl_set, get?_empty, Option.or_none]

theorem contains_set (d : Dict κ β) (k k' : κ) (v : β) :
    (d.set k v).contains k' = true ↔ k' = k ∨ d.contains k' = true := by
  unfold contains
  rw [get?_set]
  by_cases h : k' = k <;> simp [h]

theorem contains_erase (d : Dict κ β) (k k' : κ) :
    (d.erase k).contains k' = true ↔ k' ≠ k ∧ d.contains k' = true := by
  unfold contains
  rw [get?_erase]
  by_cases h : k' = k <;> simp [h]

theorem contains_ofList (l : List (κ × β)) (k : κ) :
    (ofList l).contains k = true ↔ k ∈ l.map Prod.fst := by
  simp [contains, get?_ofList, List.find?_isSome]

theorem keys_setEntry_of_mem (k : κ) (v : β) : ∀ l : List (κ × β),
    k ∈ l.map Prod.fst → (setEntry k v l).map Prod.fst = l.map Prod.fst
  | e :: l, h => by
    unfold setEntry
    split_ifs with hk
    · rw [List.map_cons, List.map_cons, hk]
    · have hl : k ∈ l.map Prod.fst := by
        rw [List.map_cons, List.mem_cons] at h
        exact h.resolve_left fun he => hk he.symm
      rw [List.map_cons, List.map_cons, keys_setEntry_of_mem k v l hl]

/-- Setting a key that is there changes no key. -/
theorem keys_set (d : Dict κ β) {k : κ} {v' : β} (v : β) (h : d.get? k = some v') : (d.set k v).keys = d.keys := by
  have hk : k ∈ d.keys := by
    rw [mem_keys, h]
    rfl
  exact keys_setEntry_of_mem k v d.entries hk

theorem setEntry_of_not_mem (k : κ) (v : β) : ∀ l : List (κ × β),
    k ∉ l.map Prod.fst → setEntry k v l = l ++ [(k, v)]
  | [], _ => rfl
  | e :: l, h => by
    rw [List.map_cons, List.mem_cons, not_or] at h
    rw [setEntry, if_neg (Ne.symm h.1), setEntry_of_not_mem k v l h.2, List.cons_append]

theorem entries_foldl_set : ∀ (l : List (κ × β)) (d : Dict κ β),
    ((d.entries ++ l).map Prod.fst).Nodup →
      (l.foldl (fun d e => d.set e.1 e.2) d).entries = d.entries ++ l
  | [], d, _ => by simp
  | e :: l, d, h => by
    have hk : e.1 ∉ d.entries.map Prod.fst := by
      rw [List.map_append, List.nodup_append] at h
      exact fun hm => h.2.2 _ hm _ (by simp) rfl
    have hset : (d.set e.1 e.2).entries = d.entries ++ [e] := setEntry_of_not_mem _ _ _ hk
    rw [List.foldl_cons, entries_foldl_set l, hset, List.append_assoc, List.singleton_append]
    rwa [hset, List.append_assoc, List.singleton_append]

omit [DecidableEq κ] in
theorem ext_entries : ∀ {d e : Dict κ β}, d.entries = e.entries → d = e
  | ⟨_, _⟩, ⟨_, _⟩, rfl => rfl

@[simp] theorem ofList_entries (d : Dict κ β) : ofList d.entries = d :=
  ext_entries (entries_foldl_set d.entries empty d.nodup)

theorem setEntry_of_lookup {k : κ} {v : β} : ∀ {l : List (κ × β)}, l.lookup k = some v → setEntry k v l = l
  | [], h => by cases h
  | (a, b) :: l, h => by
    by_cases ha : a = k
    · subst ha
      rw [List.lookup_cons_self] at h
      rw [setEntry, if_pos rfl, Option.some.inj h]
    · rw [lookup_cons_ne _ _ (Ne.symm ha)] at h
      rw [setEntry, if_neg ha, setEntry_of_lookup h]

/-- Setting a key changes nothing just where it has the value. -/
theorem set_eq_self_iff {d : Dict κ β} {k : κ} {v : β} : d.set k v = d ↔ d.get? k = some v := by
  refine ⟨fun h => ?_, fun h => ext_entries (setEntry_of_lookup h)⟩
  rw [← h, get?_set_self]

/-- Equality of dictionaries, which the order of the keys does not enter. -/
def Same (d e : Dict κ β) : Prop := ∀ k, d.get? k = e.get? k

theorem Same.refl (d : Dict κ β) : Same d d := fun _ => rfl

/-- Every value changed, the keys as they are. -/
def mapValues (f : β → γ) (d : Dict κ β) : Dict κ γ :=
  ⟨d.entries.map fun e => (e.1, f e.2), by rw [List.map_map]; exact d.nodup⟩

theorem get?_mapValues (f : β → γ) (d : Dict κ β) (k : κ) : (d.mapValues f).get? k = (d.get? k).map f := by
  obtain ⟨l, hl⟩ := d
  show (l.map fun e => (e.1, f e.2)).lookup k = (l.lookup k).map f
  clear hl
  induction l with
  | nil => rfl
  | cons e l ih =>
    obtain ⟨a, b⟩ := e
    by_cases h : k = a
    · subst h
      simp
    · rw [List.map_cons, lookup_cons_ne _ _ h, lookup_cons_ne _ _ h, ih]

end Dict
end LocaiLink
