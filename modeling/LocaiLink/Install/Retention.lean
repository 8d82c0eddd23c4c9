/-
# The versions that are kept

`gc_old_versions` removes directories of `versions`: never one that a pointer names, and of
the others the oldest, so that no more than `keep` are left, or as many as are named
(`gc_laws`). The times of the directories are any, and any removal may fail.
-/
import LocaiLink.Base.Ghost
import LocaiLink.Install.Readers
import LocaiLink.Install.Update

namespace LocaiLink
namespace Install

open World
open Prog (run trace run_ok run_error trace_ok trace_error)

/-! ### What is kept of a list -/

section Keepers

variable {keep : ℕ} {kept names : List String}

/-- The names that are kept beside the pinned ones come first, and are no more than are asked for. -/
theorem keepers_spec (keep : ℕ) : ∀ (kept names : List String), kept.Nodup →
    (keepers keep kept names).Nodup ∧ (keepers keep kept names).length ≤ max keep kept.length ∧
      ∃ first rest, names = first ++ rest ∧ ∀ x, x ∈ keepers keep kept names ↔ x ∈ kept ∨ x ∈ first
  | kept, [], h => ⟨h, le_max_right .., [], [], rfl, fun x => by simp [keepers]⟩
  | kept, name :: names, h => by
    unfold keepers
    split_ifs with hkeep
    · exact ⟨h, le_max_right .., [], name :: names, rfl, fun x => by simp⟩
    · obtain ⟨hnodup, hlength, first, rest, rfl, hmem⟩ := keepers_spec keep (kept.insert name) names (h.insert)
      refine ⟨hnodup, ?_, name :: first, rest, rfl, fun x => ?_⟩
      · have hinsert : (kept.insert name).length ≤ kept.length + 1 := by
          by_cases hname : name ∈ kept
          · rw [List.insert_of_mem hname]
            omega
          · rw [List.length_insert_of_not_mem hname]
        omega
      · rw [hmem, List.mem_insert_iff, List.mem_cons]
        tauto

end Keepers

section Candidates

variable {root : Place} {mtime : String → ℤ} {keep : ℕ} {pins : List String} {t : Fs Bytes} {a b name : String}

theorem mem_subdirs {p : Place} : name ∈ subdirs p t ↔ name ∈ t.children p ∧ t.isDir (p ++ [name]) = true := List.mem_filter

theorem candidates_pairwise : (candidates root mtime t).Pairwise fun a b => mtime b ≤ mtime a :=
  List.pairwise_insertionSort _ _

theorem mem_unkept : name ∈ unkept root mtime keep pins t ↔
    name ∈ candidates root mtime t ∧ name ∉ keepers keep pins (candidates root mtime t) := by
  rw [unkept, List.mem_filter]
  simp

/-- What is kept and not pinned is no older than what is not kept. -/
theorem unkept_older (hpins : pins.Nodup) (ha : a ∈ unkept root mtime keep pins t) (hb : b ∈ candidates root mtime t)
    (hkept : b ∉ unkept root mtime keep pins t) (hfree : b ∉ pins) : mtime a ≤ mtime b := by
  obtain ⟨-, -, first, rest, hsplit, hmem⟩ := keepers_spec keep pins (candidates root mtime t) hpins
  rw [mem_unkept] at ha hkept
  have hfirst : b ∈ first := by
    have hb' : b ∈ keepers keep pins (candidates root mtime t) := by tauto
    exact ((hmem b).mp hb').resolve_left hfree
  have hrest : a ∈ rest := by
    have ha' := hsplit ▸ ha.1
    exact (List.mem_append.mp ha').resolve_left fun h => ha.2 ((hmem a).mpr (.inr h))
  have hsorted : (candidates root mtime t).Pairwise fun a b => mtime b ≤ mtime a := candidates_pairwise
  rw [hsplit] at hsorted
  exact (List.pairwise_append.mp hsorted).2.2 b hfirst a hrest

theorem not_mem_unkept_of_pinned (hpins : pins.Nodup) (h : name ∈ pins) : name ∉ unkept root mtime keep pins t := by
  obtain ⟨-, -, first, rest, -, hmem⟩ := keepers_spec keep pins (candidates root mtime t) hpins
  rw [mem_unkept, not_and_not_right]
  exact fun _ => (hmem name).mpr (.inl h)

end Candidates

/-! ### What is removed -/

section Acts

variable {α β : Type} {x : Raising α} {f : α → Raising β} {w : World}

/-- What a script does, in order. -/
def actsOf (x : Raising α) (w : World) : List Act := trace (σ := sig) perform x.run w

theorem actsOf_ok {a : α} (h : (run perform x.run w).1 = .ok a) :
    actsOf (x >>= f) w = actsOf x w ++ actsOf (f a) (run perform x.run w).2 := trace_ok h

theorem actsOf_error {e : Error} (h : (run perform x.run w).1 = .error e) : actsOf (x >>= f) w = actsOf x w := trace_error h

theorem actsOf_pure (r : Except Error α) : actsOf (attempt (pure r)) w = [] := rfl

theorem actsOf_look : actsOf look w = [.look] := rfl

theorem run_look_ok (h : w.ask.error = none) : run perform look.run w = (.ok w.fs, w.tock) := by
  change World.perform .look w = _
  simp only [World.perform, h]

theorem run_look_error {e : Error} (h : w.ask.error = some e) : run perform look.run w = (.error e, w.tock) := by
  change World.perform .look w = _
  simp only [World.perform, h]

end Acts

/-- What removing the entries of `versions` leaves, where it lists these as removed. -/
structure Swept (root : Place) (names removed : List String) (t t' : Fs Bytes) : Prop where
  listed : removed ⊆ names
  apart : ∀ p, (∀ name ∈ names, ¬root ++ [versionsDir, name] <+: p) → t'.node p = t.node p
  less : ∀ p, t'.node p = t.node p ∨ t'.node p = none
  gone : ∀ name ∈ removed, ∀ p, root ++ [versionsDir, name] <+: p → t'.node p = none

section Sweep

variable {root : Place} {names removed : List String} {name : String} {t t' : Fs Bytes}

/-- A tree is removed, or some of it is, or nothing. -/
theorem rmtree_spec (p : Place) (s : World) : (∀ q, ¬p <+: q → (s.rmtree p).2.fs.node q = s.fs.node q) ∧
    (∀ q, (s.rmtree p).2.fs.node q = s.fs.node q ∨ (s.rmtree p).2.fs.node q = none) ∧
    ((s.rmtree p).1.isOk = true → ∀ q, p <+: q → (s.rmtree p).2.fs.node q = none) := by
  have hdrop (gone : Place → Bool) (q : Place) : (s.fs.drop gone p).node q = s.fs.node q ∨ (s.fs.drop gone p).node q = none := by
    change (if _ then none else _) = _ ∨ (if _ then none else _) = _
    split_ifs
    · exact .inr rfl
    · exact .inl rfl
  unfold World.rmtree
  split
  · exact ⟨fun _ _ => rfl, fun _ => .inl rfl, nofun⟩
  · split
    · exact ⟨fun q hq => Fs.node_drop_of_not hq _ _, hdrop _, nofun⟩
    · exact ⟨fun q hq => Fs.node_drop_of_not hq _ _, hdrop _, fun _ q hq => Fs.node_drop_all hq _⟩

theorem Swept.refl (root : Place) (t : Fs Bytes) : Swept root [] [] t t :=
  ⟨fun _ h => h, fun _ _ => rfl, fun _ => .inl rfl, nofun⟩

theorem Swept.cons {s : World} (h : Swept root names removed (s.rmtree (root ++ [versionsDir, name])).2.fs t') :
    Swept root (name :: names) (if (s.rmtree (root ++ [versionsDir, name])).1.isOk then name :: removed else removed) s.fs t' := by
  obtain ⟨hapart, hless, hgone⟩ := rmtree_spec (root ++ [versionsDir, name]) s
  have hnone {p : Place} (hp : (s.rmtree (root ++ [versionsDir, name])).2.fs.node p = none) : t'.node p = none :=
    (h.less p).elim (fun heq => heq.trans hp) id
  refine ⟨fun x hx => ?_, fun p hp => ?_, fun p => ?_, fun x hx p hp => ?_⟩
  · split_ifs at hx
    · exact (List.mem_cons.mp hx).elim (fun he => he ▸ List.mem_cons_self ..) fun hx => List.mem_cons_of_mem _ (h.listed hx)
    · exact List.mem_cons_of_mem _ (h.listed hx)
  · rw [h.apart p fun x hx => hp x (List.mem_cons_of_mem _ hx), hapart p (hp name (List.mem_cons_self ..))]
  · rcases hless p with heq | hp
    · exact heq ▸ h.less p
    · exact .inr (hnone hp)
  · split_ifs at hx with hok
    · rcases List.mem_cons.mp hx with rfl | hx
      · exact hnone (hgone hok p hp)
      · exact h.gone x hx p hp
    · exact h.gone x hx p hp

/-- `removeAll` asks for each entry, and returns. -/
theorem removeAll_spec (root : Place) : ∀ (names : List String) (s : World),
    actsOf (removeAll root names) s = names.map (fun name => .rmtree (root ++ [versionsDir, name])) ∧
      ∃ removed, (run perform (removeAll root names).run s).1 = .ok removed ∧
        Swept root names removed s.fs (run perform (removeAll root names).run s).2.fs
  | [], s => ⟨rfl, [], rfl, .refl root s.fs⟩
  | name :: names, s => by
    obtain ⟨htrace, removed, hok, hswept⟩ := removeAll_spec root names (s.rmtree (root ++ [versionsDir, name])).2
    -- the first entry goes, and the rest is asked for from there
    have hrun : run perform (removeAll root (name :: names)).run s =
        (.ok (if (s.rmtree (root ++ [versionsDir, name])).1.isOk then name :: removed else removed),
          (run perform (removeAll root names).run (s.rmtree (root ++ [versionsDir, name])).2).2) := by
      have hrest : run perform (removeAll root (name :: names)).run s = run perform (removeAll root names >>= fun removed =>
          pure (if (s.rmtree (root ++ [versionsDir, name])).1.isOk then name :: removed else removed)).run
            (s.rmtree (root ++ [versionsDir, name])).2 := rfl
      rw [hrest, run_ok hok]
      rfl
    refine ⟨?_, _, congrArg Prod.fst hrun, ?_⟩
    · have hrest : actsOf (removeAll root (name :: names)) s =
          .rmtree (root ++ [versionsDir, name]) :: actsOf (removeAll root names >>= fun removed =>
            pure (if (s.rmtree (root ++ [versionsDir, name])).1.isOk then name :: removed else removed))
              (s.rmtree (root ++ [versionsDir, name])).2 := rfl
      rw [hrest, actsOf_ok hok, htrace]
      exact congrArg (List.cons _) (List.append_nil _)
    · rw [hrun]
      exact hswept.cons

end Sweep

/-! ### The laws -/

/-- The version directories, of which those that end in `.tmp` do not count. -/
def versionDirs (root : Place) (t : Fs Bytes) : List String :=
  if t.isDir (root ++ [versionsDir]) then
    (subdirs (root ++ [versionsDir]) t).filter fun name => !Text.endsWith name ".tmp"
  else []

section Laws

variable (root : Place) (mtime : String → ℤ) (keep : ℕ) (w : World)

/-- What `gc_old_versions` returns, and what it leaves. -/
def gcRun : Except Error (List String) × World := run perform (gcOldVersions root mtime keep).run w

/-- `gc_old_versions` comes to remove the directory. -/
def Tried (name : String) : Prop :=
  Act.rmtree (root ++ [versionsDir, name]) ∈ actsOf (gcOldVersions root mtime keep) w

/-- What is kept and what goes: what a pointer names stays, only directories of `versions`
go, there are no more than `keep`, or as many as are named, when every removal succeeds, and
none goes that is newer than one that stays and is not named. -/
structure GcLaws : Prop where
  named : ∀ ptr v, ptr = current ∨ ptr = previous → readPointerVersion root ptr w.fs = .ok (some v) → v ≠ "" →
    ∀ p, root ++ [versionsDir, v] <+: p → (gcRun root mtime keep w).2.fs.node p = w.fs.node p
  confined : ∀ p, (gcRun root mtime keep w).2.fs.node p ≠ w.fs.node p →
    (gcRun root mtime keep w).2.fs.node p = none ∧ ∃ name ∈ versionDirs root w.fs, root ++ [versionsDir, name] <+: p
  bounded : ∀ removed pins, (gcRun root mtime keep w).1 = .ok removed → pinned root w.fs = .ok pins →
    (∀ name, Tried root mtime keep w name → name ∈ removed) →
    (versionDirs root (gcRun root mtime keep w).2.fs).length ≤ max keep pins.length
  newest : ∀ a b, Tried root mtime keep w a → b ∈ versionDirs root w.fs → ¬Tried root mtime keep w b →
    readPointerVersion root current w.fs ≠ .ok (some b) → readPointerVersion root previous w.fs ≠ .ok (some b) →
    mtime a ≤ mtime b

end Laws

section Laws

variable {root : Place} {mtime : String → ℤ} {keep : ℕ} {w : World} {pins : List String} {t t' : Fs Bytes} {name : String}

theorem pinned_spec (h : pinned root t = .ok pins) : pins.Nodup ∧ ∀ v, v ∈ pins ↔
    v ≠ "" ∧ (readPointerVersion root current t = .ok (some v) ∨ readPointerVersion root previous t = .ok (some v)) := by
  unfold pinned at h
  cases hc : readPointerVersion root current t with
  | error e =>
    rw [hc] at h
    cases h
  | ok a =>
    cases hp : readPointerVersion root previous t with
    | error e =>
      rw [hc, hp] at h
      cases h
    | ok b =>
      rw [hc, hp] at h
      obtain rfl : _ = pins := Except.ok.inj h
      refine ⟨List.nodup_dedup _, fun v => ?_⟩
      rw [List.mem_dedup, List.mem_filter]
      cases a <;> cases b <;> simp <;> tauto

theorem mem_candidates (hdir : t.isDir (root ++ [versionsDir]) = true) :
    name ∈ candidates root mtime t ↔ name ∈ versionDirs root t := by
  rw [versionDirs, if_pos hdir, candidates, List.mem_insertionSort]

/-- What a run of `gc_old_versions` comes to. -/
theorem gc_cases (root : Place) (mtime : String → ℤ) (keep : ℕ) (w : World) :
    ((gcRun root mtime keep w).2.fs = w.fs ∧ (∀ name, ¬Tried root mtime keep w name) ∧
      ∀ removed, (gcRun root mtime keep w).1 = .ok removed → versionDirs root w.fs = []) ∨
    ∃ pins removed, pinned root w.fs = .ok pins ∧ w.fs.isDir (root ++ [versionsDir]) = true ∧
      (gcRun root mtime keep w).1 = .ok removed ∧
      Swept root (unkept root mtime keep pins w.fs) removed w.fs (gcRun root mtime keep w).2.fs ∧
      ∀ name, Tried root mtime keep w name ↔ name ∈ unkept root mtime keep pins w.fs := by
  unfold gcRun Tried gcOldVersions
  cases herror : w.ask.error with
  | some e =>
    have hlook := congrArg Prod.fst (run_look_error herror)
    rw [run_error hlook, actsOf_error hlook, run_look_error herror, actsOf_look]
    exact .inl ⟨rfl, fun name => by simp, nofun⟩
  | none =>
    have hlook := congrArg Prod.fst (run_look_ok herror)
    rw [run_ok hlook, actsOf_ok hlook, run_look_ok herror, actsOf_look]
    split_ifs with hdir
    · cases hpins : pinned root w.fs with
      | error e =>
        have hraised : (run perform (attempt (pure (.error e) : Script (Except Error (List String)))).run w.tock).1 = .error e := rfl
        rw [actsOf_error hraised, actsOf_pure]
        exact .inl ⟨rfl, fun name => by simp, nofun⟩
      | ok pins =>
        have hread : (run perform (attempt (pure (.ok pins) : Script (Except Error (List String)))).run w.tock).1 = .ok pins := rfl
        obtain ⟨hacts, removed, hok, hswept⟩ := removeAll_spec root (unkept root mtime keep pins w.fs) w.tock
        rw [actsOf_ok hread, actsOf_pure]
        refine .inr ⟨pins, removed, rfl, hdir, hok, hswept, fun name => ?_⟩
        change _ ∈ [Act.look] ++ ([] ++ actsOf (removeAll root (unkept root mtime keep pins w.fs)) w.tock) ↔ _
        rw [hacts]
        simp
    · have hnone : actsOf (pure [] : Raising (List String)) w.tock = [] := rfl
      rw [hnone]
      exact .inl ⟨rfl, fun name => by simp, fun _ _ => if_neg hdir⟩

theorem mem_children {p : Place} : name ∈ t.children p ↔ (t.node (p ++ [name])).isSome = true := by
  unfold Fs.children
  rw [List.mem_dedup, List.mem_filterMap]
  constructor
  · rintro ⟨q, -, hq⟩
    split_ifs at hq with hc
    obtain ⟨⟨l, rfl⟩, hlength, hsome⟩ := hc
    obtain ⟨x, rfl⟩ := List.length_eq_one_iff.mp (show l.length = 1 by simpa using hlength)
    obtain rfl : x = name := by simpa using hq
    exact hsome
  · exact fun h => ⟨p ++ [name], t.complete _ h, by simp [h]⟩

theorem isDir_iff {p : Place} : t.isDir p = true ↔ t.stat p = some .dir := by
  unfold Fs.isDir
  split
  · rename_i h
    simp [h]
  · rename_i h
    exact iff_of_false Bool.false_ne_true h

/-- Where a tree that has less finds a directory, the tree finds it, by the same links. -/
theorem follow_of_less (h : ∀ p, t'.node p = t.node p ∨ t'.node p = none) (fuel : ℕ) (p : Place)
    (hp : (t'.follow fuel p).bind t'.node = some .dir) : (t.follow fuel p).bind t.node = some .dir := by
  have hsome {q : Place} {n : Node} (hq : t'.node q = some n) : t.node q = some n :=
    (h q).elim (fun he => he ▸ hq) fun hn => by rw [hn] at hq; cases hq
  induction fuel generalizing p with
  | zero =>
    unfold Fs.follow at hp
    split at hp
    · cases hp
    · have hnode := hsome hp
      rw [Fs.follow_of_node (by rw [Fs.isLink, hnode])]
      exact hnode
  | succ fuel ih =>
    unfold Fs.follow at hp
    split at hp
    · rename_i target hn
      rw [Fs.follow_link (hsome hn)]
      exact ih _ hp
    · have hnode := hsome hp
      rw [Fs.follow_of_node (by rw [Fs.isLink, hnode])]
      exact hnode

/-- A tree that has less has fewer directories. -/
theorem isDir_of_less (h : ∀ p, t'.node p = t.node p ∨ t'.node p = none) {p : Place} (hdir : t'.isDir p = true) :
    t.isDir p = true :=
  isDir_iff.mpr (follow_of_less h Fs.maxLinks p (isDir_iff.mp hdir))

/-- What is still a version directory was one, and none that was removed is. -/
theorem versionDirs_swept {names removed : List String} (h : Swept root names removed t t') (hname : name ∈ versionDirs root t') :
    name ∈ versionDirs root t ∧ name ∉ removed := by
  unfold versionDirs at hname ⊢
  split_ifs at hname with hdir'
  · rw [if_pos (isDir_of_less h.less hdir')]
    obtain ⟨hsub, hend⟩ := List.mem_filter.mp hname
    obtain ⟨hchild, hdir⟩ := mem_subdirs.mp hsub
    have hsome := mem_children.mp hchild
    refine ⟨List.mem_filter.mpr ⟨mem_subdirs.mpr ⟨mem_children.mpr ?_, isDir_of_less h.less hdir⟩, hend⟩, fun hr => ?_⟩
    · rcases h.less (root ++ [versionsDir] ++ [name]) with heq | hnone
      · rwa [← heq]
      · rw [hnone] at hsome
        cases hsome
    · have hplace : root ++ [versionsDir, name] = root ++ [versionsDir] ++ [name] := by simp
      rw [← hplace, h.gone name hr _ (List.prefix_refl _)] at hsome
      cases hsome
  · cases hname

theorem nodup_versionDirs : (versionDirs root t).Nodup := by
  unfold versionDirs
  split_ifs
  · exact ((List.nodup_dedup _).filter _).filter _
  · exact List.nodup_nil

/-- **What `gc_old_versions` keeps**, from any tree and whatever fails. -/
theorem gc_laws (root : Place) (mtime : String → ℤ) (keep : ℕ) (w : World) : GcLaws root mtime keep w := by
  rcases gc_cases root mtime keep w with ⟨hsame, hnot, hempty⟩ | ⟨pins, removed, hpins, hdir, hok, hswept, htried⟩
  · refine ⟨fun _ _ _ _ _ p _ => by rw [hsame], fun p hp => absurd (by rw [hsame]) hp, fun removed pins hok _ _ => ?_,
      fun a _ ha => absurd ha (hnot a)⟩
    rw [hsame, hempty removed hok]
    exact Nat.zero_le _
  · obtain ⟨hnodup, hmem⟩ := pinned_spec hpins
    refine ⟨fun ptr v hptr hv hne p hp => hswept.apart p fun name hname hp' => ?_, fun p hp => ?_, fun r ps hr hps hall => ?_,
      fun a b ha hb hb' hcurrent hprevious => ?_⟩
    · -- an entry that goes is not the one that is named
      obtain rfl : v = name := by
        have hsame : root ++ [versionsDir, v] <+: root ++ [versionsDir, name] := List.prefix_of_prefix_length_le hp hp' (by simp)
        simpa using (below_root_iff.mp hsame).2
      exact not_mem_unkept_of_pinned hnodup ((hmem v).mpr ⟨hne, hptr.elim (fun he => .inl (he ▸ hv)) fun he => .inr (he ▸ hv)⟩) hname
    · refine ⟨(hswept.less p).resolve_left hp, ?_⟩
      by_contra hnone
      exact hp (hswept.apart p fun name hname hp' => hnone ⟨name, (mem_candidates hdir).mp (mem_unkept.mp hname).1, hp'⟩)
    · obtain rfl : removed = r := Except.ok.inj (hok.symm.trans hr)
      obtain rfl : pins = ps := Except.ok.inj (hpins.symm.trans hps)
      obtain ⟨-, hlength, -⟩ := keepers_spec keep pins (candidates root mtime w.fs) hnodup
      refine (List.subperm_of_subset nodup_versionDirs fun name hname => ?_).length_le.trans hlength
      obtain ⟨hold, hleft⟩ := versionDirs_swept hswept hname
      by_contra hkept
      exact hleft (hall name ((htried name).mpr (mem_unkept.mpr ⟨(mem_candidates hdir).mpr hold, hkept⟩)))
    · rw [htried] at ha hb'
      refine unkept_older hnodup ha ((mem_candidates hdir).mpr hb) hb' fun hpin => ?_
      exact ((hmem b).mp hpin).2.elim hcurrent hprevious

end Laws

end Install
end LocaiLink
