/-
# A flip that is stopped

`flip_current` moves `current` to a new version and `previous` to the one that was current,
in the shape of the install. Wherever it is stopped, or raises, `current` reads as before or
as the new version, and where the version that was current is there, so is the one that
`current` then leads to (`flip_atomic`). For the text shape the name has to be one that
reading gives back.
-/
import LocaiLink.Base.Cuts
import LocaiLink.Base.Stops
import LocaiLink.Install.Readers

namespace LocaiLink
namespace Install

open Prog World

/-! ### Rules for scripts that are stopped -/

/-- From a tree in `P`: what the script leaves when it returns, and when it raises or is
stopped. -/
abbrev Survives {α : Type} (P : Fs Bytes → Prop) (x : Raising α) (Q : α → Fs Bytes → Prop) (C : Fs Bytes → Prop) : Prop :=
  Guards (σ := sig) perform (fun s => P s.fs) x.run (Post (fun a s => Q a s.fs) fun _ s => C s.fs) fun s => C s.fs

section Rules

variable {α β : Type} {P Q C : Fs Bytes → Prop} {root : Place}

theorem survives_return {a : α} {Q : α → Fs Bytes → Prop} (h : ∀ t, P t → Q a t) (hC : ∀ t, P t → C t) :
    Survives P (pure a) Q C :=
  guards_pure (fun _ hs => h _ hs) fun _ hs => hC _ hs

theorem survives_throw {e : Error} {Q : α → Fs Bytes → Prop} (h : ∀ t, P t → C t) : Survives P (throw e) Q C :=
  guards_pure (fun _ hs => h _ hs) fun _ hs => h _ hs

theorem Survives.bind {x : Raising α} {f : α → Raising β} {R : α → Fs Bytes → Prop} {T : β → Fs Bytes → Prop}
    (h : Survives P x R C) (hf : ∀ a, Survives (R a) (f a) T C) : Survives P (x >>= f) T C :=
  Guards.raising h hf fun _ _ hs => hs

theorem Survives.mono {x : Raising α} {R R' : α → Fs Bytes → Prop} {C' : Fs Bytes → Prop} (h : Survives P x R C)
    (hR : ∀ a t, R a t → R' a t) (hC : ∀ t, C t → C' t) : Survives P x R' C' :=
  Guards.mono h (fun r _ hs => match r with
    | .ok a => hR a _ hs
    | .error _ => hC _ hs) fun _ hs => hC _ hs

theorem Survives.pre {x : Raising α} {R : α → Fs Bytes → Prop} {P' : Fs Bytes → Prop} (h : Survives P x R C)
    (hP : ∀ t, P' t → P t) : Survives P' x R C :=
  Guards.pre h fun _ hs => hP _ hs

/-- The tree before may be given a name. -/
theorem Survives.fix {x : Raising α} {R : α → Fs Bytes → Prop} (h : ∀ t, P t → Survives (fun u => u = t) x R C) :
    Survives P x R C :=
  fun s hs => h s.fs hs s rfl

theorem Survives.ite {c : Prop} [Decidable c] {x y : Raising α} {R : α → Fs Bytes → Prop} (hx : c → Survives P x R C)
    (hy : ¬c → Survives P y R C) : Survives P (if c then x else y) R C := by
  split_ifs with h
  · exact hx h
  · exact hy h

/-- A script that is stopped before or after its one change. -/
def Single (x : Script (Except Error α)) : Prop :=
  ∀ s t, Passes (σ := sig) perform x s t → t = s ∨ t = (x.run perform s).2

theorem Leaves.survives {x : Script (Except Error α)} {R : α → Fs Bytes → Prop} (hx : Single x)
    (h : Leaves P (attempt x) R C) (hP : ∀ t, P t → C t) (hR : ∀ a t, R a t → C t) : Survives P (attempt x) R C := by
  refine fun s hs => ⟨h s hs, fun t ht => ?_⟩
  have hpost : Post (fun a s => R a s.fs) (fun _ s => C s.fs) (x.run perform s).1 (x.run perform s).2 := h s hs
  rcases hx s t ht with rfl | rfl
  · exact hP _ hs
  · cases hr : (x.run perform s).1 with
    | ok a =>
      rw [hr] at hpost
      exact hR a _ hpost
    | error e =>
      rw [hr] at hpost
      exact hpost

/-- A change is made, or it is raised and nothing is. -/
theorem survives_change {x : Script (Except Error Unit)} {fails : Fs Bytes → Option Error} {f : Fs Bytes → Fs Bytes}
    (hsingle : Single x) (hx : ∀ s, x.run perform s = s.change (fails s.fs) f)
    (hok : ∀ t, P t → fails t = none → Q (f t)) (hP : ∀ t, P t → C t) (hQ : ∀ t, Q t → C t) :
    Survives P (attempt x) (fun _ => Q) C :=
  (leaves_change hx hok hP).survives hsingle hP fun _ => hQ

theorem survives_look (hP : ∀ t, P t → C t) : Survives P look (fun a t => P t ∧ a = t) C :=
  (leaves_look hP).survives (fun _ _ h => passes_call h) hP fun _ _ h => hP _ h.1

theorem survives_unlinkIf {c : Fs Bytes → Bool} {p : Place} (hyes : ∀ t, P t → c t = true → Q (t.set p none))
    (hno : ∀ t, P t → c t = false → Q t) (hP : ∀ t, P t → C t) (hQ : ∀ t, Q t → C t) :
    Survives P (unlinkIf c p) (fun _ => Q) C := by
  unfold unlinkIf
  refine (survives_look hP).bind fun a => Survives.ite (fun hc => ?_) fun hc => ?_
  · refine survives_change (fun _ _ h => passes_call h) (fun _ => rfl) (fun t ht _ => ?_) (fun t ht => hP t ht.1) hQ
    exact hyes t ht.1 (ht.2 ▸ hc)
  · refine survives_return (fun t ht => ?_) fun t ht => hP t ht.1
    exact hno t ht.1 (Bool.eq_false_iff.mpr (ht.2 ▸ hc))

/-- What was computed is returned or raised. -/
theorem survives_pure (r : Except Error α) (hP : ∀ t, P t → C t) :
    Survives P (attempt (pure r)) (fun a t => P t ∧ r = .ok a) C := by
  cases r with
  | ok a => exact guards_pure (fun _ hs => ⟨hs, rfl⟩) fun _ hs => hP _ hs
  | error e => exact guards_pure (fun _ hs => hP _ hs) fun _ hs => hP _ hs

/-- A block with a temporary directory. -/
theorem survives_withTemp {body : Place → Raising Unit} (hP : ∀ t, P t → C t) (hQ : ∀ t, Q t → C t)
    (hmk : ∀ name, name.toList.head? = some 't' → ∀ t, P t → P (mkdirs (root ++ [name]) t))
    (hbody : ∀ name, name.toList.head? = some 't' → Survives P (body (root ++ [name])) (fun _ => Q) C)
    (hdropQ : ∀ name, name.toList.head? = some 't' → ∀ t gone, Q t → Q (t.drop gone (root ++ [name])))
    (hdropC : ∀ name, name.toList.head? = some 't' → ∀ t gone, C t → C (t.drop gone (root ++ [name]))) :
    Survives P (withTemp root body) (fun _ => Q) C := by
  unfold withTemp
  refine (survives_look hP).bind fun a => ?_
  have hname : (tempName root a).toList.head? = some 't' := by
    obtain ⟨s, hs⟩ := tempName_eq root a
    simp [hs]
  generalize tempName root a = name at hname ⊢
  refine Survives.bind (R := fun _ => P) ?_ fun _ => ?_
  · exact survives_change (fun _ _ h => passes_call h) (fun _ => rfl) (fun t ht _ => hmk name hname t ht.1)
      (fun t ht => hP t ht.1) hP
  refine Guards.raising (R := fun (r : Except Error Unit) s => Post (fun _ s => Q s.fs) (fun _ s => C s.fs) r s) ?_ ?_
    fun _ _ hs => hs
  · refine Guards.bind (hbody name hname) fun r => guards_pure (fun _ hs => hs) fun s hs => ?_
    cases r with
    | ok u => exact hQ _ hs
    | error e => exact hs
  intro r
  cases r with
  | ok u =>
    refine Survives.bind (P := Q) (R := fun _ => Q) ?_ fun _ => survives_return (P := Q) (fun _ h => h) hQ
    exact (leaves_rmtree (hdropQ name hname) hQ hQ).survives (fun _ _ h => passes_call h) hQ fun _ => hQ
  | error e =>
    refine Survives.bind (P := C) (R := fun _ => C) ?_ fun _ => survives_throw (P := C) fun _ h => h
    exact (leaves_rmtree (hdropC name hname) (fun _ h => h) fun _ h => h).survives (fun _ _ h => passes_call h)
      (fun _ h => h) fun _ _ h => h

end Rules

/-! ### Moving a pointer -/

/-- The names that are written before the pointer itself. -/
def Pointer.stagedLink (ptr : Pointer) : String := "." ++ ptr.link ++ ".tmp"

def Pointer.stagedFile (ptr : Pointer) : String := ptr.file ++ ".tmp"

/-- A name of the install root that stays as it is up to the last rename, and one that
stays as it is. -/
def Pointer.Steady (ptr : Pointer) (name : String) : Prop :=
  name ≠ ptr.stagedLink ∧ name ≠ ptr.stagedFile ∧ name.toList.head? ≠ some 't'

def Pointer.Apart (ptr : Pointer) (name : String) : Prop := ptr.Steady name ∧ name ≠ ptr.link ∧ name ≠ ptr.file

/-- The one that is given has been written, in its shape; a stray one of the other shape may
still be there. -/
def Shows (root : Place) (ptr : Pointer) (v : String) (useSymlink : Bool) (t : Fs Bytes) : Prop :=
  if useSymlink then t.node (root ++ [ptr.link]) = some (.link (versionPath v))
  else t.node (root ++ [ptr.file]) = some (.file (Bytes.encode (v ++ "\n")))

/-- Beside what was there, either pointer is as it was, or the new one is there. -/
structure Midway (root : Place) (ptr : Pointer) (v : String) (useSymlink : Bool) (before t : Fs Bytes) : Prop where
  apart : Fs.Agree (Where root ptr.Apart) t before
  pointer : (t.node (root ++ [ptr.link]) = before.node (root ++ [ptr.link]) ∧
      t.node (root ++ [ptr.file]) = before.node (root ++ [ptr.file])) ∨
    (Shows root ptr v useSymlink t ∧ (useSymlink = false →
      t.node (root ++ [ptr.link]) = before.node (root ++ [ptr.link]) ∨ t.node (root ++ [ptr.link]) = none))

/-- The pointer is written, and no other one is left. -/
structure Moved (root : Place) (ptr : Pointer) (v : String) (useSymlink : Bool) (before t : Fs Bytes) : Prop where
  midway : Midway root ptr v useSymlink before t
  shows : Shows root ptr v useSymlink t
  alone : if useSymlink then t.isFile (root ++ [ptr.file]) = false ∧
      (t.node (root ++ [ptr.file]) = before.node (root ++ [ptr.file]) ∨ t.node (root ++ [ptr.file]) = none)
    else t.isLink (root ++ [ptr.link]) = false

section Move

variable {root : Place} {ptr : Pointer} {v : String} {useSymlink : Bool} {before t u : Fs Bytes}

/-- The names of the two pointers are told apart. -/
theorem Pointer.names (hptr : ptr = current ∨ ptr = previous) :
    ptr.Steady ptr.link ∧ ptr.Steady ptr.file ∧ ptr.link ≠ ptr.file ∧ ptr.stagedLink ≠ ptr.link ∧
      ptr.stagedFile ≠ ptr.file ∧ ptr.stagedFile ≠ ptr.link ∧ ptr.stagedLink.toList.head? ≠ some 't' := by
  unfold Pointer.Steady
  rcases hptr with rfl | rfl <;> decide

theorem Pointer.Apart.steady {name : String} (h : ptr.Apart name) : ptr.Steady name := h.1

theorem where_mono {p q : String → Prop} (h : ∀ name, p name → q name) {r : Place} (hr : Where root p r) : Where root q r := by
  obtain ⟨name, l, rfl, hp⟩ := hr
  exact ⟨name, l, rfl, h name hp⟩

theorem where_self {p : String → Prop} {name : String} (h : p name) : Where root p (root ++ [name]) := ⟨name, [], rfl, h⟩

/-- Nothing has been renamed yet. -/
theorem midway_of_steady (hptr : ptr = current ∨ ptr = previous) (h : Fs.Agree (Where root ptr.Steady) t before) :
    Midway root ptr v useSymlink before t := by
  obtain ⟨hlink, hfile, -⟩ := Pointer.names hptr
  exact ⟨h.mono fun _ => where_mono fun _ ha => ha.steady, .inl ⟨h _ (where_self hlink), h _ (where_self hfile)⟩⟩

theorem Shows.agree (hptr : ptr = current ∨ ptr = previous) (h : Shows root ptr v useSymlink t)
    (hu : Fs.Agree (Where root ptr.Steady) u t) : Shows root ptr v useSymlink u := by
  obtain ⟨hlink, hfile, -⟩ := Pointer.names hptr
  unfold Shows at h ⊢
  rw [hu _ (where_self hlink), hu _ (where_self hfile)]
  exact h

theorem Midway.agree (hptr : ptr = current ∨ ptr = previous) (h : Midway root ptr v useSymlink before t)
    (hu : Fs.Agree (Where root ptr.Steady) u t) : Midway root ptr v useSymlink before u := by
  obtain ⟨hlink, hfile, -⟩ := Pointer.names hptr
  refine ⟨(hu.mono fun _ => where_mono fun _ ha => ha.steady).trans h.apart, ?_⟩
  rw [hu _ (where_self hlink), hu _ (where_self hfile)]
  rcases h.pointer with hold | ⟨hnew, hlinked⟩
  · exact .inl hold
  · exact .inr ⟨hnew.agree hptr hu, hlinked⟩

/-- A name of the temporary directory is not steady. -/
theorem not_steady_temp {name : String} (h : name.toList.head? = some 't') : ¬ptr.Steady name := fun hs => hs.2.2 h

/-- `_write_pointer` in the shape of a link. -/
theorem survives_writeLink (hptr : ptr = current ∨ ptr = previous) :
    Survives (fun t => t = before) (writePointer root ptr v true) (fun _ => Moved root ptr v true before)
      (Midway root ptr v true before) := by
  obtain ⟨hlink, hfile, hne, hstaged, -, -, hhead⟩ := Pointer.names hptr
  have hnotStaged : ¬ptr.Steady ptr.stagedLink := fun h => h.1 rfl
  have hsteady : ∀ t, Fs.Agree (Where root ptr.Steady) t before → Midway root ptr v true before t :=
    fun t => midway_of_steady hptr
  have hnew : ∀ t, Fs.Agree (Where root ptr.Apart) t before ∧ t.node (root ++ [ptr.link]) = some (.link (versionPath v)) →
      Midway root ptr v true before t := fun t ht => ⟨ht.1, .inr ⟨by rw [Shows, if_pos rfl]; exact ht.2, nofun⟩⟩
  have hfileNe : ptr.stagedLink ≠ ptr.file := fun he => hnotStaged (he ▸ hfile)
  rw [writePointer, if_pos rfl]
  refine Survives.bind (R := fun _ t => (Fs.Agree (Where root ptr.Apart) t before ∧
    t.node (root ++ [ptr.link]) = some (.link (versionPath v))) ∧
    t.node (root ++ [ptr.file]) = before.node (root ++ [ptr.file])) ?_ fun _ => ?_
  · refine Survives.pre (P := fun t => Fs.Agree (Where root ptr.Steady) t before)
      (survives_withTemp hsteady (fun t ht => hnew t ht.1) ?_ ?_ ?_ ?_)
      fun t ht => by rw [ht]; exact .refl _ _
    · exact fun name hname t ht => (agree_mkdirs_where (not_steady_temp hname) t).trans ht
    · intro name hname
      have htmp : (root ++ [name]) ++ ["link.tmp"] = root ++ name :: ["link.tmp"] := by simp
      have hlength {b : String} : root ++ name :: ["link.tmp"] ≠ root ++ [b] := fun he =>
        absurd (congrArg List.length he) (by simp)
      rw [htmp]
      -- the link is made in the temporary directory, staged beside the pointer, and takes its place
      refine Survives.bind (R := fun _ t => Fs.Agree (Where root ptr.Steady) t before ∧
        t.node (root ++ name :: ["link.tmp"]) = some (.link (versionPath v))) ?_ fun _ => ?_
      · refine survives_change (fun _ _ h => passes_call h) (fun _ => rfl) (fun t ht _ => ?_) hsteady fun t ht => hsteady t ht.1
        exact ⟨(agree_set_where (not_steady_temp hname) _ _ t).trans ht, Fs.node_set_self ..⟩
      refine Survives.bind (R := fun _ t => Fs.Agree (Where root ptr.Steady) t before ∧
        t.node (root ++ name :: ["link.tmp"]) = some (.link (versionPath v))) ?_ fun _ => ?_
      · refine survives_unlinkIf (fun t ht _ => ⟨(agree_set_where hnotStaged [] none t).trans ht.1, ?_⟩)
          (fun t ht _ => ht) (fun t ht => hsteady t ht.1) fun t ht => hsteady t ht.1
        exact (Fs.node_set_of_ne hlength none t).trans ht.2
      refine Survives.bind (R := fun _ t => Fs.Agree (Where root ptr.Steady) t before ∧
        t.node (root ++ [ptr.stagedLink]) = some (.link (versionPath v))) ?_ fun _ => ?_
      · refine survives_change (fun _ _ h => passes_call h) (fun _ => rfl) (fun t ht _ => ?_)
          (fun t ht => hsteady t ht.1) fun t ht => hsteady t ht.1
        refine ⟨(agree_rename_where (not_steady_temp hname) hnotStaged t).trans ht.1, ?_⟩
        change (World.rename (root ++ name :: ["link.tmp"]) (root ++ [ptr.stagedLink]) t).node _ = _
        rw [World.rename, if_neg hlength, node_moved]
        exact ht.2
      · refine survives_change (fun _ _ h => passes_call h) (fun _ => rfl) (fun t ht _ => ?_)
          (fun t ht => hsteady t ht.1) fun t ht => hnew t ht.1
        change (Fs.Agree _ (World.rename (root ++ [ptr.stagedLink]) (root ++ [ptr.link]) t) _ ∧
          (World.rename (root ++ [ptr.stagedLink]) (root ++ [ptr.link]) t).node _ = _) ∧
          (World.rename (root ++ [ptr.stagedLink]) (root ++ [ptr.link]) t).node _ = _
        refine ⟨⟨(agree_rename_where (fun ha => hnotStaged ha.steady) (fun ha => ha.2.1 rfl) t).trans
          (ht.1.mono fun _ => where_mono fun _ ha => ha.steady), ?_⟩, ?_⟩
        · rw [World.rename, if_neg (ne_of_name hstaged), node_moved]
          exact ht.2
        · rw [World.rename, if_neg (ne_of_name hstaged), node_move_name hfileNe hne]
          exact ht.1 _ (where_self hfile)
    · rintro name hname t gone ⟨⟨hapart, hshown⟩, hkept⟩
      have hname' {x : String} (hx : ptr.Steady x) : name ≠ x := fun he => hx.2.2 (he ▸ hname)
      refine ⟨⟨(agree_drop_where (fun ha => not_steady_temp hname ha.steady) gone t).trans hapart, ?_⟩, ?_⟩
      · rw [Fs.node_drop_of_not fun hp => hname' hlink (below_root_iff.mp hp).1]
        exact hshown
      · rw [Fs.node_drop_of_not fun hp => hname' hfile (below_root_iff.mp hp).1]
        exact hkept
    · exact fun name hname t gone ht => ht.agree hptr (agree_drop_where (not_steady_temp hname) gone t)
  · refine survives_unlinkIf (fun t ht _ => ?_) (fun t ht hno => ?_) (fun t ht => hnew t ht.1) fun t ht => ht.midway
    · have hshown : (t.set (root ++ [ptr.file]) none).node (root ++ [ptr.link]) = some (.link (versionPath v)) :=
        (Fs.node_set_of_ne (ne_of_name hne) none t).trans ht.1.2
      have hapart := (agree_set_where (p := ptr.Apart) (fun ha => ha.2.2 rfl) [] none t).trans ht.1.1
      have hnone : (t.set (root ++ [ptr.file]) none).node (root ++ [ptr.file]) = none := Fs.node_set_self ..
      refine ⟨hnew _ ⟨hapart, hshown⟩, by rw [Shows, if_pos rfl]; exact hshown, ?_⟩
      rw [if_pos rfl]
      exact ⟨(data_of_none hnone).2.1, .inr hnone⟩
    · exact ⟨hnew t ht.1, by rw [Shows, if_pos rfl]; exact ht.1.2, by rw [if_pos rfl]; exact ⟨hno, .inl ht.2⟩⟩

/-- `_write_pointer` in the shape of a text file. -/
theorem survives_writeText (hptr : ptr = current ∨ ptr = previous)
    (htemp : before.isLink (root ++ [ptr.stagedFile]) = false) :
    Survives (fun t => t = before) (writePointer root ptr v false) (fun _ => Moved root ptr v false before)
      (Midway root ptr v false before) := by
  obtain ⟨hlink, hfile, hne, -, hstaged, hstagedLink, -⟩ := Pointer.names hptr
  have hnotStaged : ¬ptr.Steady ptr.stagedFile := fun h => h.2.1 rfl
  have hbefore : ∀ t, t = before → Midway root ptr v false before t := by
    rintro t rfl
    exact midway_of_steady hptr (.refl _ _)
  have hnew : ∀ t, Fs.Agree (Where root ptr.Apart) t before ∧ Shows root ptr v false t ∧
      (t.node (root ++ [ptr.link]) = before.node (root ++ [ptr.link]) ∨ t.node (root ++ [ptr.link]) = none) →
      Midway root ptr v false before t := fun t ht => ⟨ht.1, .inr ⟨ht.2.1, fun _ => ht.2.2⟩⟩
  rw [writePointer, if_neg Bool.false_ne_true]
  refine Survives.bind (R := fun _ t => Fs.Agree (Where root ptr.Steady) t before ∧
    t.node (root ++ [ptr.stagedFile]) = some (.file (Bytes.encode (v ++ "\n")))) ?_ fun _ => ?_
  · refine (leaves_write (fun t ht => ht ▸ htemp) (fun t ht _ => ?_) hbefore).survives (fun _ _ h => passes_call h) hbefore
      fun _ t ht => midway_of_steady hptr ht.1
    rw [ht]
    exact ⟨agree_set_where hnotStaged [] _ before, Fs.node_set_self ..⟩
  refine Survives.bind (R := fun _ t => Fs.Agree (Where root ptr.Apart) t before ∧ Shows root ptr v false t ∧
    (t.node (root ++ [ptr.link]) = before.node (root ++ [ptr.link]) ∨ t.node (root ++ [ptr.link]) = none)) ?_ fun _ => ?_
  · refine survives_change (fun _ _ h => passes_call h) (fun _ => rfl) (fun t ht _ => ?_)
      (fun t ht => midway_of_steady hptr ht.1) hnew
    change Fs.Agree _ (World.rename (root ++ [ptr.stagedFile]) (root ++ [ptr.file]) t) _ ∧
      Shows root ptr v false (World.rename (root ++ [ptr.stagedFile]) (root ++ [ptr.file]) t) ∧
      ((World.rename (root ++ [ptr.stagedFile]) (root ++ [ptr.file]) t).node _ = _ ∨ _)
    refine ⟨(agree_rename_where (fun ha => hnotStaged ha.steady) (fun ha => ha.2.2 rfl) t).trans
      (ht.1.mono fun _ => where_mono fun _ ha => ha.steady), ?_, .inl ?_⟩
    · rw [Shows, if_neg Bool.false_ne_true, World.rename, if_neg (ne_of_name hstaged), node_moved]
      exact ht.2
    · rw [World.rename, if_neg (ne_of_name hstaged), node_move_name hstagedLink hne.symm]
      exact ht.1 _ (where_self hlink)
  · refine survives_unlinkIf (fun t ht _ => ?_) (fun t ht hno => ?_) hnew fun t ht => ht.midway
    · have hshown : Shows root ptr v false (t.set (root ++ [ptr.link]) none) := by
        have hold := ht.2.1
        rw [Shows, if_neg Bool.false_ne_true] at hold ⊢
        exact (Fs.node_set_of_ne (ne_of_name hne.symm) none t).trans hold
      have hnone : (t.set (root ++ [ptr.link]) none).node (root ++ [ptr.link]) = none := Fs.node_set_self ..
      refine ⟨hnew _ ⟨(agree_set_where (fun ha => ha.2.1 rfl) [] none t).trans ht.1, hshown, .inr hnone⟩, hshown, ?_⟩
      rw [if_neg Bool.false_ne_true]
      exact (data_of_none hnone).2.2.2
    · exact ⟨hnew t ht, ht.2.1, by rw [if_neg Bool.false_ne_true]; exact hno⟩

theorem survives_writePointer (hptr : ptr = current ∨ ptr = previous)
    (htemp : before.isLink (root ++ [ptr.stagedFile]) = false) :
    Survives (fun t => t = before) (writePointer root ptr v useSymlink) (fun _ => Moved root ptr v useSymlink before)
      (Midway root ptr v useSymlink before) := by
  cases useSymlink with
  | true => exact survives_writeLink hptr
  | false => exact survives_writeText hptr htemp

end Move

/-! ### What is read -/

/-- A name that is the same when it is written to a text file and read again. -/
structure Legible (v : String) : Prop where
  nonempty : v ≠ ""
  trimmed : Text.strip v.toList = v.toList
  noReturn : '\r' ∉ v.toList

section Read

variable {root : Place} {ptr : Pointer} {v : String} {t : Fs Bytes}

theorem Legible.read (h : Legible v) : String.ofList (Text.strip (Text.universalNewlines (v ++ "\n").toList)) = v := by
  have hreturn : '\r' ∉ (v ++ "\n").toList := by
    rw [String.toList_append, List.mem_append, not_or]
    exact ⟨h.noReturn, by decide⟩
  rw [Text.universalNewlines_of_ne_cr hreturn, String.toList_append]
  have hstrip : Text.strip (v.toList ++ ['\n']) = v.toList := Text.stripBy_concat (by decide) h.trimmed
  change String.ofList (Text.strip (v.toList ++ ['\n'])) = v
  rw [hstrip, String.ofList_toList]

/-- What is read of a text file is legible. -/
theorem legible_of_text (l : List Char) (h : String.ofList (Text.strip (Text.universalNewlines l)) ≠ "") :
    Legible (String.ofList (Text.strip (Text.universalNewlines l))) := by
  refine ⟨h, ?_, ?_⟩
  · rw [String.toList_ofList]
    exact Text.stripBy_stripBy _ _
  · rw [String.toList_ofList]
    exact fun hmem => Text.cr_not_mem_universalNewlines l ((Text.stripBy_infix _ _).subset hmem)

/-- Where no link is there, the text file is read. -/
theorem readPointerVersion_text (h : t.isLink (root ++ [ptr.link]) = false) : readPointerVersion root ptr t = (do
    match ← readText (root ++ [ptr.file]) t with
    | some text =>
      let version := String.ofList (Text.strip text)
      pure (if version = "" then none else some version)
    | none => pure none) := by
  rw [readPointerVersion]
  cases hn : t.node (root ++ [ptr.link]) with
  | none => rfl
  | some n =>
    cases n with
    | link target => rw [Fs.isLink_of_node hn] at h; cases h
    | dir => rfl
    | file d => rfl

theorem readText_file {p : Place} {s : String} (h : t.node p = some (.file (Bytes.encode s))) :
    readText p t = .ok (some (Text.universalNewlines s.toList)) := by
  rw [readText, Fs.isFile_of_node h, Fs.data_of_node h, Option.bind_some, Bytes.decode_encode]
  rfl

/-- A version that is written as a text is read. -/
theorem readPointerVersion_written (hlink : t.isLink (root ++ [ptr.link]) = false) (hv : Legible v)
    (h : t.node (root ++ [ptr.file]) = some (.file (Bytes.encode (v ++ "\n")))) :
    readPointerVersion root ptr t = .ok (some v) := by
  rw [readPointerVersion_text hlink, readText_file h]
  change Except.ok (if String.ofList (Text.strip _) = "" then none else some (String.ofList (Text.strip _))) = _
  rw [hv.read, if_neg hv.nonempty]

/-- What is read of a text is legible. -/
theorem legible_of_read (hlink : t.isLink (root ++ [ptr.link]) = false) (h : readPointerVersion root ptr t = .ok (some v)) :
    Legible v := by
  rw [readPointerVersion_text hlink, readText] at h
  split_ifs at h with hfile
  · cases hd : (t.data (root ++ [ptr.file])).bind Bytes.decode with
    | none =>
      rw [hd] at h
      cases h
    | some s =>
      rw [hd] at h
      have hread : (if String.ofList (Text.strip (Text.universalNewlines s.toList)) = "" then none
          else some (String.ofList (Text.strip (Text.universalNewlines s.toList)))) = some v := Except.ok.inj h
      split_ifs at hread with hempty
      rw [← Option.some.inj hread]
      exact legible_of_text _ hempty
  · cases h

/-- The name that a link is read as is written as such a link. -/
theorem versionPath_name {s : String} (h : (Path.ofString s).name ≠ "") :
    (versionPath (Path.ofString s).name).name = (Path.ofString s).name := by
  obtain ⟨part, hpart⟩ : ∃ part, (Path.ofString s).parts.getLast? = some part := by
    cases hl : (Path.ofString s).parts.getLast? with
    | none => exact absurd (by rw [Path.name, hl]; rfl) h
    | some part => exact ⟨part, rfl⟩
  have hname : (Path.ofString s).name = part := by rw [Path.name, hpart]; rfl
  have hmem : part ∈ (Path.ofString s).parts := List.mem_of_getLast? hpart
  rw [hname] at h ⊢
  obtain ⟨-, hdot, hsingle⟩ := Path.of_mem_parts hmem
  rw [versionPath, Path.div, Path.join, Path.ofString_single h hdot hsingle]
  rfl

end Read

/-! ### The flip -/

/-- What `current` is, in a flip to a version: as it was, or the new one. -/
structure Turning (root : Place) (new : String) (useSymlink : Bool) (before t : Fs Bytes) : Prop where
  versions : Fs.Agree (Where root (· = versionsDir)) t before
  pointer : (t.node (root ++ [currentLink]) = before.node (root ++ [currentLink]) ∧
      t.node (root ++ [currentPointerFile]) = before.node (root ++ [currentPointerFile])) ∨
    (Shows root current new useSymlink t ∧ (useSymlink = false →
      t.node (root ++ [currentLink]) = before.node (root ++ [currentLink]) ∨ t.node (root ++ [currentLink]) = none))

/-- After the flip, where `old` was current. -/
structure Turned (root : Place) (new : String) (useSymlink : Bool) (old : Option String) (before t : Fs Bytes) : Prop where
  turning : Turning root new useSymlink before t
  shows : Shows root current new useSymlink t
  alone : if useSymlink then t.isFile (root ++ [currentPointerFile]) = false else t.isLink (root ++ [currentLink]) = false
  previous : ∀ v, old = some v → v ≠ "" → v ≠ new → Shows root previous v useSymlink t ∧
    (useSymlink = false → t.isLink (root ++ [previousLink]) = false)

/-- No link stands where a text file is staged. -/
structure Unstaged (root : Place) (t : Fs Bytes) : Prop where
  current : t.isLink (root ++ [currentPointerFile ++ ".tmp"]) = false
  previous : t.isLink (root ++ [previousPointerFile ++ ".tmp"]) = false

section Flip

variable {root : Place} {v new : String} {useSymlink : Bool} {before t u : Fs Bytes}

theorem Midway.turning (h : Midway root current new useSymlink before t) : Turning root new useSymlink before t := by
  have hversions : current.Apart versionsDir := by
    unfold Pointer.Apart Pointer.Steady
    decide
  exact ⟨h.apart.mono fun _ => where_mono fun _ hn => hn ▸ hversions, h.pointer⟩

/-- While `previous` is moved, `current` stays. -/
theorem Midway.keeps {b : Bool} {old : String} (h : Midway root previous old b t u) :
    u.node (root ++ [currentLink]) = t.node (root ++ [currentLink]) ∧
      u.node (root ++ [currentPointerFile]) = t.node (root ++ [currentPointerFile]) ∧
      Fs.Agree (Where root (· = versionsDir)) u t := by
  have happart : previous.Apart currentLink ∧ previous.Apart currentPointerFile ∧ previous.Apart versionsDir := by
    unfold Pointer.Apart Pointer.Steady
    decide
  exact ⟨h.apart _ (where_self happart.1), h.apart _ (where_self happart.2.1),
    h.apart.mono fun _ => where_mono fun _ hn => hn ▸ happart.2.2⟩

theorem Turning.trans {b : Bool} {old : String} (h : Turning root new useSymlink before t)
    (hu : Midway root previous old b t u) : Turning root new useSymlink before u := by
  obtain ⟨hlink, hfile, hversions⟩ := hu.keeps
  refine ⟨hversions.trans h.versions, ?_⟩
  rw [hlink, hfile]
  rcases h.pointer with hold | ⟨hshows, hlinked⟩
  · exact .inl hold
  · refine .inr ⟨?_, hlinked⟩
    unfold Shows at hshows ⊢
    rw [show current.link = currentLink from rfl, show current.file = currentPointerFile from rfl] at hshows ⊢
    rw [hlink, hfile]
    exact hshows

theorem shows_keeps {b : Bool} {old : String} (h : Shows root current new useSymlink t)
    (hu : Midway root previous old b t u) : Shows root current new useSymlink u := by
  obtain ⟨hlink, hfile, -⟩ := hu.keeps
  unfold Shows at h ⊢
  rw [show current.link = currentLink from rfl, show current.file = currentPointerFile from rfl] at h ⊢
  rw [hlink, hfile]
  exact h

/-- A text file that is no link is read where it stands. -/
theorem isFile_congr {p : Place} (h : u.node p = t.node p) (hlink : t.isLink p = false) : u.isFile p = t.isFile p := by
  have hlink' : u.isLink p = false := by rw [Fs.isLink, h]; exact hlink
  rw [Fs.isFile, Fs.isFile, Fs.stat_of_node hlink, Fs.stat_of_node hlink', h]

theorem isLink_congr {p : Place} (h : u.node p = t.node p) : u.isLink p = t.isLink p := by
  rw [Fs.isLink, Fs.isLink, h]

/-- `flip_current` -/
theorem survives_flipCurrent (win32 : Bool) (new : String) (hunstaged : Unstaged root before)
    (hfile : before.isLink (root ++ [currentPointerFile]) = false) :
    Survives (fun t => t = before) (flipCurrent win32 root new)
      (fun _ t => ∃ old, readPointerVersion root current before = .ok old ∧
        Turned root new (installUsesSymlink win32 root before) old before t)
      (Turning root new (installUsesSymlink win32 root before) before) := by
  have hstart : ∀ t, t = before → Turning root new (installUsesSymlink win32 root before) before t := by
    rintro t rfl
    exact ⟨.refl _ _, .inl ⟨rfl, rfl⟩⟩
  unfold flipCurrent
  refine (survives_look hstart).bind fun a => ?_
  refine Survives.fix fun t ⟨ht, ha⟩ => ?_
  obtain rfl : a = before := ha.trans ht
  obtain rfl : t = a := ht
  refine Survives.ite (fun _ => ?_) fun _ => survives_throw hstart
  refine (survives_pure (readPointerVersion root current t) hstart).bind fun old => Survives.fix fun t' ⟨ht', hold⟩ => ?_
  obtain rfl : t' = t := ht'
  refine Survives.bind (R := fun _ => Moved root current new (installUsesSymlink win32 root t') t') ?_ fun _ => ?_
  · exact (survives_writePointer (.inl rfl) hunstaged.current).mono (fun _ _ h => h) fun _ h => h.turning
  -- what stands at `CURRENT` then is no link either
  have hplain : ∀ u, Moved root current new (installUsesSymlink win32 root t') t' u →
      u.isLink (root ++ [currentPointerFile]) = false := by
    intro u hu
    have halone := hu.alone
    have hshows := hu.shows
    unfold Shows at hshows
    split_ifs at halone hshows
    · rcases halone.2 with hsame | hnone
      · exact (isLink_congr hsame).trans hfile
      · exact (data_of_none hnone).2.2.2
    · exact Fs.isLink_eq_false fun target hl => by
        rw [show current.file = currentPointerFile from rfl, hl] at hshows
        cases hshows
  have hdone : ∀ u, Moved root current new (installUsesSymlink win32 root t') t' u →
      (∀ v, old = some v → v ≠ "" → v ≠ new → False) →
      ∃ old, readPointerVersion root current t' = .ok old ∧ Turned root new (installUsesSymlink win32 root t') old t' u := by
    intro u hu hno
    refine ⟨old, hold, hu.midway.turning, hu.shows, ?_, fun v hv hne hne' => (hno v hv hne hne').elim⟩
    have halone := hu.alone
    split_ifs at halone ⊢
    · exact halone.1
    · exact halone
  cases old with
  | none => exact survives_return (fun u hu => hdone u hu nofun) fun u hu => hu.midway.turning
  | some old =>
    refine Survives.ite (fun hc => ?_) fun hc => survives_return (fun u hu => hdone u hu ?_) fun u hu => hu.midway.turning
    · refine Survives.fix fun t₁ h₁ => ?_
      have happart : current.Apart previous.stagedFile := by
        unfold Pointer.Apart Pointer.Steady
        decide
      have hunstaged₁ : t₁.isLink (root ++ [previous.stagedFile]) = false :=
        (isLink_congr (h₁.midway.apart _ (where_self happart))).trans hunstaged.previous
      refine (survives_writePointer (v := old) (.inr rfl) hunstaged₁).mono (fun _ u hu => ?_) fun u hu => h₁.midway.turning.trans hu
      refine ⟨some old, hold, h₁.midway.turning.trans hu.midway, shows_keeps h₁.shows hu.midway, ?_, ?_⟩
      · obtain ⟨hlink, hfile', -⟩ := hu.midway.keeps
        have halone := h₁.alone
        split_ifs at halone ⊢
        · rw [isFile_congr hfile' (hplain t₁ h₁)]
          exact halone.1
        · rw [isLink_congr hlink]
          exact halone
      · rintro v hv - -
        obtain rfl := Option.some.inj hv
        refine ⟨hu.shows, fun hb => ?_⟩
        have halone := hu.alone
        rw [hb, if_neg Bool.false_ne_true] at halone
        exact halone
    · rintro v hv hne hne'
      obtain rfl := Option.some.inj hv
      exact hc ⟨hne, hne'⟩

/-- Two trees with the same pointer are read the same. -/
theorem readPointerVersion_congr {ptr : Pointer} (hlink : u.node (root ++ [ptr.link]) = t.node (root ++ [ptr.link]))
    (hfile : u.node (root ++ [ptr.file]) = t.node (root ++ [ptr.file])) (hplain : t.isLink (root ++ [ptr.file]) = false) :
    readPointerVersion root ptr u = readPointerVersion root ptr t := by
  have hdata : u.data (root ++ [ptr.file]) = t.data (root ++ [ptr.file]) := by
    have hplain' : u.isLink (root ++ [ptr.file]) = false := (isLink_congr hfile).trans hplain
    rw [Fs.data, Fs.data, Fs.stat_of_node hplain, Fs.stat_of_node hplain', hfile]
  have htext : readText (root ++ [ptr.file]) u = readText (root ++ [ptr.file]) t := by
    rw [readText, readText, isFile_congr hfile hplain, hdata]
  rw [readPointerVersion, readPointerVersion, hlink, htext]

/-- A version that `current` leads to. -/
structure Live (root : Place) (v : String) (t : Fs Bytes) : Prop where
  named : Named root v t
  read : readPointerVersion root current t = .ok (some v)
  link : ∀ n, t.node (root ++ [currentLink]) = some n → n = .link (versionPath v)

theorem Live.resolves (h : Live root v t) : resolveCurrent root t = .ok (some (versionDir root v)) := by
  cases hn : t.node (root ++ [currentLink]) with
  | some n =>
    rw [h.link n hn] at hn
    have hdir : t.isDir (versionDir root v) = true := Fs.isDir_of_node h.named.dir
    have hnolink : t.isLink (versionDir root v) = false := by rw [Fs.isLink, h.named.dir]
    have hfollow : t.follow Fs.maxLinks (root ++ [currentLink]) = some (versionDir root v) := by
      rw [Fs.maxLinks, Fs.follow_link hn, List.dropLast_concat]
      exact Fs.follow_of_node hnolink _
    exact resolvePointer_link current hfollow hdir
  | none =>
    have hread := h.read
    rw [readPointerVersion_none hn] at hread
    rw [resolveCurrent_none hn]
    cases htext : readText (root ++ [currentPointerFile]) t with
    | error e =>
      rw [htext] at hread
      cases hread
    | ok text =>
      rw [htext] at hread
      cases text with
      | none => cases hread
      | some text =>
        have hsome : (if String.ofList (Text.strip text) = "" then none else some (String.ofList (Text.strip text))) = some v :=
          Except.ok.inj hread
        split_ifs at hsome
        change Except.ok (if t.isDir (versionDir root (String.ofList (Text.strip text))) then
          some (versionDir root (String.ofList (Text.strip text))) else none) = _
        rw [Option.some.inj hsome, if_pos (Fs.isDir_of_node h.named.dir)]

/-- The text shape is one without a link. -/
theorem isLink_of_text {win32 : Bool} (h : installUsesSymlink win32 root t = false) : t.isLink (root ++ [currentLink]) = false := by
  by_contra hl
  rw [installUsesSymlink, if_pos (Bool.eq_true_of_not_eq_false hl)] at h
  cases h

/-- The new version is read. -/
theorem read_of_shows (hplain : PlainName new) (hlegible : useSymlink = false → Legible new)
    (hlink : useSymlink = false → t.isLink (root ++ [currentLink]) = false) (h : Shows root current new useSymlink t) :
    readPointerVersion root current t = .ok (some new) := by
  unfold Shows at h
  split_ifs at h with hb
  · rw [readPointerVersion_link current h, hplain.versionPath]
    rfl
  · exact readPointerVersion_written (hlink (Bool.eq_false_iff.mpr hb)) (hlegible (Bool.eq_false_iff.mpr hb)) h

theorem Turning.link {win32 : Bool} (h : (useSymlink = false → t.node (root ++ [currentLink]) = before.node (root ++ [currentLink]) ∨
    t.node (root ++ [currentLink]) = none)) (hb : installUsesSymlink win32 root before = useSymlink) :
    useSymlink = false → t.isLink (root ++ [currentLink]) = false := by
  intro hfalse
  rcases h hfalse with hsame | hnone
  · exact (isLink_congr hsame).trans (isLink_of_text (hb.trans hfalse))
  · exact (data_of_none hnone).2.2.2

/-- `current` reads as before, or as the new version. -/
theorem Turning.read {win32 : Bool} (h : Turning root new (installUsesSymlink win32 root before) before t) (hplain : PlainName new)
    (hlegible : installUsesSymlink win32 root before = false → Legible new)
    (hfile : before.isLink (root ++ [currentPointerFile]) = false) :
    readPointerVersion root current t = readPointerVersion root current before ∨
      readPointerVersion root current t = .ok (some new) := by
  rcases h.pointer with ⟨hlink, hfile'⟩ | ⟨hshows, hlinked⟩
  · exact .inl (readPointerVersion_congr hlink hfile' hfile)
  · exact .inr (read_of_shows hplain hlegible (Turning.link hlinked rfl) hshows)

theorem Named.turning {b : Bool} (h : Named root v before) (ht : Turning root new b before t) : Named root v t := by
  refine ⟨h.plain, (ht.versions _ ⟨versionsDir, [v], h.plain.versionDir root, rfl⟩).trans h.dir⟩

/-- Where a version was there, one is there. -/
theorem Turning.live {win32 : Bool} (h : Turning root new (installUsesSymlink win32 root before) before t)
    (hnew : Named root new before) (hlegible : installUsesSymlink win32 root before = false → Legible new)
    (hfile : before.isLink (root ++ [currentPointerFile]) = false) (hv : Live root v before) :
    Live root v t ∨ Live root new t := by
  rcases h.pointer with ⟨hlink, hfile'⟩ | ⟨hshows, hlinked⟩
  · exact .inl ⟨hv.named.turning h, (readPointerVersion_congr hlink hfile' hfile).trans hv.read, fun n hn => hv.link n (hlink ▸ hn)⟩
  · refine .inr ⟨hnew.turning h, read_of_shows hnew.plain hlegible (Turning.link hlinked rfl) hshows, fun n hn => ?_⟩
    unfold Shows at hshows
    split_ifs at hshows with hb
    · exact (Option.some.inj (hshows.symm.trans hn)).symm
    · rcases hlinked (Bool.eq_false_iff.mpr hb) with hsame | hnone
      · have hold := hsame.symm.trans hn
        have hlink := isLink_of_text (Bool.eq_false_iff.mpr hb)
        rw [Fs.isLink, hold, hv.link n hold] at hlink
        cases hlink
      · rw [hnone] at hn
        cases hn

/-- The states of an install root: what is called `current` is a link, what is called
`CURRENT` is a text file, and what is left staged is no link to write through. -/
structure Shaped (root : Place) (t : Fs Bytes) : Prop where
  link : ∀ n, t.node (root ++ [currentLink]) = some n → ∃ s, n = .link (Path.ofString s)
  file : ∀ n, t.node (root ++ [currentPointerFile]) = some n → ∃ d, n = .file d
  unstaged : Unstaged root t

theorem Shaped.plain (h : Shaped root t) : t.isLink (root ++ [currentPointerFile]) = false := by
  refine Fs.isLink_eq_false fun target hl => ?_
  obtain ⟨d, hd⟩ := h.file _ hl
  cases hd

/-- What a flip to a version is to do, from a state and wherever it is stopped. -/
structure FlipAtomic (win32 : Bool) (root : Place) (new : String) (s : World) : Prop where
  stopped : ∀ s', Passes (σ := sig) perform (flipCurrent win32 root new).run s s' →
    readPointerVersion root current s'.fs = readPointerVersion root current s.fs ∨
      readPointerVersion root current s'.fs = .ok (some new)
  live : Named root new s.fs → ∀ v, Live root v s.fs → ∀ s', Passes (σ := sig) perform (flipCurrent win32 root new).run s s' →
    Live root v s'.fs ∨ Live root new s'.fs
  completed : (run perform (flipCurrent win32 root new).run s).1 = .ok () →
    readPointerVersion root current (run perform (flipCurrent win32 root new).run s).2.fs = .ok (some new) ∧
    (∀ v, readPointerVersion root current s.fs = .ok (some v) → v ≠ "" → v ≠ new →
      readPointerVersion root previous (run perform (flipCurrent win32 root new).run s).2.fs = .ok (some v)) ∧
    installUsesSymlink win32 root (run perform (flipCurrent win32 root new).run s).2.fs = installUsesSymlink win32 root s.fs

/-- The version that was current is read of `previous`. -/
theorem read_previous {win32 : Bool} (hshaped : Shaped root before) (hold : readPointerVersion root current before = .ok (some v))
    (hne : v ≠ "") (h : Shows root previous v (installUsesSymlink win32 root before) t)
    (hlink : installUsesSymlink win32 root before = false → t.isLink (root ++ [previousLink]) = false) :
    readPointerVersion root previous t = .ok (some v) := by
  unfold Shows at h
  split_ifs at h with hb
  · rw [readPointerVersion_link previous h]
    cases hn : before.node (root ++ [currentLink]) with
    | some n =>
      obtain ⟨s, rfl⟩ := hshaped.link n hn
      rw [readPointerVersion_link current hn] at hold
      have hv : (Path.ofString s).name = v := Option.some.inj (Except.ok.inj hold)
      rw [← hv] at hne ⊢
      rw [versionPath_name hne]
    | none =>
      -- without a link this is the shape of an install where no text file is there either
      have hnotFile : before.isFile (root ++ [currentPointerFile]) = false := by
        by_contra hfile
        rw [installUsesSymlink, (data_of_none hn).2.2.2, Bool.eq_true_of_not_eq_false hfile] at hb
        simp at hb
      rw [readPointerVersion_none hn, readText, hnotFile] at hold
      cases hold
  · have hb' : installUsesSymlink win32 root before = false := Bool.eq_false_iff.mpr hb
    exact readPointerVersion_written (hlink hb') (legible_of_read (isLink_of_text hb') hold) h

theorem Turned.link {win32 : Bool} {old : Option String} (h : Turned root new (installUsesSymlink win32 root before) old before t)
    (hb : installUsesSymlink win32 root before = false) : t.isLink (root ++ [currentLink]) = false := by
  have halone := h.alone
  rw [hb, if_neg Bool.false_ne_true] at halone
  exact halone

/-- The shape is kept. -/
theorem Turned.shape {win32 : Bool} {old : Option String} (h : Turned root new (installUsesSymlink win32 root before) old before t) :
    installUsesSymlink win32 root t = installUsesSymlink win32 root before := by
  have hshows := h.shows
  unfold Shows at hshows
  cases hb : installUsesSymlink win32 root before with
  | true =>
    rw [hb, if_pos rfl] at hshows
    have hlink : t.isLink (root ++ [currentLink]) = true := Fs.isLink_of_node hshows
    rw [installUsesSymlink, if_pos hlink]
  | false =>
    rw [hb, if_neg Bool.false_ne_true] at hshows
    have hfile : t.isFile (root ++ [currentPointerFile]) = true := Fs.isFile_of_node hshows
    rw [installUsesSymlink, if_neg (by rw [h.link hb]; exact Bool.false_ne_true), if_pos hfile]

end Flip

/-! ### A name with white space -/

/-- An install with a text file, and a new version whose name starts with a space. -/
def textInstall : World :=
  ⟨((((installTree.set ["locai", "versions", " 1.0.17"] (some .dir)).set ["locai", "CURRENT"]
    (some (.file (Bytes.encode "1.0.16\n")))))), 0, fun _ => {}, 0⟩

theorem shaped_textInstall : Shaped ["locai"] textInstall.fs := by
  refine ⟨fun n hn => ?_, fun n hn => ?_, ⟨by decide +kernel, by decide +kernel⟩⟩
  · have hnone : textInstall.fs.node (["locai"] ++ [currentLink]) = none := by decide +kernel
    rw [hnone] at hn
    cases hn
  · have hfile : textInstall.fs.node (["locai"] ++ [currentPointerFile]) = some (.file (Bytes.encode "1.0.16\n")) := by
      decide +kernel
    rw [hfile] at hn
    exact ⟨_, (Option.some.inj hn).symm⟩

end Install
end LocaiLink
