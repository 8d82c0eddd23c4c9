/-
# The version to roll back to

An update stamps the install with the version that the launcher is to go back to when the
new one fails, and then removes old versions. The version is taken from the manifest, what
is kept is told by the pointers. It is still there after an update where the manifest has
the name that `current` is read as (`rollback_kept`); a manifest that spells it otherwise
gives the launcher a name that no directory has.
-/
import LocaiLink.Install.Flip
import LocaiLink.Install.Newer
import LocaiLink.Install.Retention
import LocaiLink.Install.Spared

namespace LocaiLink
namespace Install

open World
open Prog (run run_ok run_error Triple)

/-! ### What an update relies on -/

/-- The version's directory, and the pointers and the stamp. -/
def Relied (root : Place) (v : String) (q : Place) : Prop := q = root ++ [versionsDir, v] ∨ ∃ name ∈ reliedNames, q = root ++ [name]

section Relied

variable {root : Place} {v name : String} {l : List String} {before t : Fs Bytes} {q : Place}

theorem Relied.rooted (h : Relied root v q) : Rooted root q := by
  rcases h with rfl | ⟨x, hx, rfl⟩
  · exact ⟨versionsDir, [v], rfl, List.mem_cons_self ..⟩
  · exact ⟨x, [], rfl, List.mem_cons_of_mem _ hx⟩

theorem relied_dir : Relied root v (root ++ [versionsDir, v]) := .inl rfl

theorem relied_name (h : name ∈ reliedNames) : Relied root v (root ++ [name]) := .inr ⟨name, h, rfl⟩

end Relied

/-! ### The download -/

section Download

variable {root : Place} {v name : String}

theorem partialOf_staged : partialOf (root ++ [stagingDir, name]) = root ++ [stagingDir, name ++ ".partial"] := by
  simp [partialOf]

theorem relied_aside : Aside (Relied root v) (root ++ [stagingDir, name]) where
  named h := by simp at h
  file _ hq := not_below_free free_staging hq.rooted
  partialFile _ hq := by
    rw [partialOf_staged]
    exact not_below_free free_staging hq.rooted
  way _ hq := by
    have hdir : (root ++ [stagingDir, name]).dropLast = root ++ stagingDir :: [] := by simp
    rw [hdir]
    exact not_above_free free_staging hq.rooted

end Download

/-! ### The flip -/

section Flip

variable {root : Place} {v new name : String} {before t u : Fs Bytes} {α : Type}

theorem Leaves.fix {P : Fs Bytes → Prop} {E : Fs Bytes → Prop} {x : Raising α} {R : α → Fs Bytes → Prop}
    (h : ∀ t, P t → Leaves (fun u => u = t) x R E) : Leaves P x R E := fun s hs => h s.fs hs s rfl

theorem Leaves.both {P E : Fs Bytes → Prop} {x : Raising α} {R T : α → Fs Bytes → Prop} (h : Leaves P x R E) (h' : Leaves P x T E) :
    Leaves P x (fun a t => R a t ∧ T a t) E := by
  intro s hs
  have hR : Prog.Post (fun a s => R a s.fs) (fun _ s => E s.fs) (run perform x.run s).1 (run perform x.run s).2 := h s hs
  have hT : Prog.Post (fun a s => T a s.fs) (fun _ s => E s.fs) (run perform x.run s).1 (run perform x.run s).2 := h' s hs
  revert hR hT
  cases (run perform x.run s).1 with
  | ok a => exact fun hR hT => ⟨hR, hT⟩
  | error e => exact fun hR _ => hR

theorem Survives.leaves {P C E : Fs Bytes → Prop} {x : Raising α} {R : α → Fs Bytes → Prop} (h : Survives P x R C)
    (hE : ∀ t, C t → E t) : Leaves P x R E :=
  Leaves.mono (fun s hs => (h s hs).1) (fun _ _ h => h) hE

/-- A flip leaves a name alone that is none of its own. -/
theorem leaves_flipCurrent_apart (win32 : Bool) (new : String) (hunstaged : Unstaged root before) (hcurrent : current.Apart name)
    (hprevious : previous.Apart name) : Leaves (fun t => t = before) (flipCurrent win32 root new)
      (fun _ t => t.node (root ++ [name]) = before.node (root ++ [name])) fun _ => True := by
  unfold flipCurrent
  refine (leaves_look fun _ _ => trivial).bind fun a => ?_
  refine Leaves.ite (fun _ => ?_) fun _ => leaves_throw fun _ _ => trivial
  refine (leaves_attempt_pure _ fun _ _ => trivial).bind fun old => ?_
  refine Leaves.bind (R := fun _ => Moved root current new (installUsesSymlink win32 root a) before) ?_ fun _ => ?_
  · exact ((survives_writePointer (.inl rfl) hunstaged.current).leaves fun _ _ => trivial).pre fun t ht => ht.1
  have hfirst : ∀ t, Moved root current new (installUsesSymlink win32 root a) before t →
      t.node (root ++ [name]) = before.node (root ++ [name]) := fun t h => h.midway.apart _ (where_self hcurrent)
  cases old with
  | none => exact leaves_return hfirst
  | some old =>
    refine Leaves.ite (fun _ => Leaves.fix fun t₁ h₁ => ?_) fun _ => leaves_return hfirst
    have happart : current.Apart previous.stagedFile := by
      unfold Pointer.Apart Pointer.Steady
      decide
    have hunstaged₁ : t₁.isLink (root ++ [previous.stagedFile]) = false :=
      (isLink_congr (h₁.midway.apart _ (where_self happart))).trans hunstaged.previous
    refine ((survives_writePointer (.inr rfl) hunstaged₁).leaves fun _ _ => trivial).mono (fun _ t h => ?_) fun _ h => h
    exact (h.midway.apart _ (where_self hprevious)).trans (hfirst t₁ h₁)

/-- The version before is there, and `previous` is read as it. -/
structure Remembered (root : Place) (v : String) (t : Fs Bytes) : Prop where
  dir : t.node (root ++ [versionsDir, v]) = some .dir
  pointer : (∃ target, t.node (root ++ [previousLink]) = some (.link target) ∧ target.name = v) ∨
    (t.isLink (root ++ [previousLink]) = false ∧ Legible v ∧
      t.node (root ++ [previousPointerFile]) = some (.file (Bytes.encode (v ++ "\n"))))

theorem Remembered.read (h : Remembered root v t) : readPointerVersion root previous t = .ok (some v) := by
  rcases h.pointer with ⟨target, hlink, hname⟩ | ⟨hlink, hlegible, hfile⟩
  · rw [readPointerVersion_link previous hlink, hname]
  · exact readPointerVersion_written hlink hlegible hfile

theorem Remembered.congr (h : Remembered root v t) (hdir : u.node (root ++ [versionsDir, v]) = t.node (root ++ [versionsDir, v]))
    (hlink : u.node (root ++ [previousLink]) = t.node (root ++ [previousLink]))
    (hfile : u.node (root ++ [previousPointerFile]) = t.node (root ++ [previousPointerFile])) : Remembered root v u := by
  refine ⟨hdir.trans h.dir, ?_⟩
  rw [hlink, isLink_congr hlink, hfile]
  exact h.pointer

theorem Remembered.agree (h : Remembered root v t) (hu : Fs.Agree (Relied root v) u t) : Remembered root v u :=
  h.congr (hu _ relied_dir) (hu _ (relied_name (by decide))) (hu _ (relied_name (by decide)))

theorem Shaped.agree (h : Shaped root before) (ht : Fs.Agree (Relied root v) t before) : Shaped root t := by
  have hsame {x : String} (hx : x ∈ reliedNames) := ht _ (relied_name hx)
  refine ⟨fun n hn => h.link n ((hsame (by decide)).symm.trans hn), fun n hn => h.file n ((hsame (by decide)).symm.trans hn), ?_, ?_⟩
  · exact (isLink_congr (hsame (by decide))).trans h.unstaged.current
  · exact (isLink_congr (hsame (by decide))).trans h.unstaged.previous

/-- After the flip `previous` remembers what was current. -/
theorem leaves_flip (win32 : Bool) (hshaped : Shaped root before) (hread : readPointerVersion root current before = .ok (some v))
    (hv : PlainName v) (hdir : before.node (root ++ [versionsDir, v]) = some .dir) (hnew : v ≠ new)
    (htemp : before.isLink (root ++ [updatePendingStamp ++ ".tmp"]) = false) :
    Leaves (fun t => Fs.Agree (Relied root v) t before) (flipCurrent win32 root new)
      (fun _ t => Remembered root v t ∧ t.isLink (root ++ [updatePendingStamp ++ ".tmp"]) = false) fun _ => True := by
  refine Leaves.fix fun t₁ h₁ => ?_
  have hshaped₁ := hshaped.agree h₁
  have hsame {x : String} (hx : x ∈ reliedNames) : t₁.node (root ++ [x]) = before.node (root ++ [x]) := h₁ _ (relied_name hx)
  have hread₁ : readPointerVersion root current t₁ = .ok (some v) := by
    have hcongr : readPointerVersion root current t₁ = readPointerVersion root current before :=
      readPointerVersion_congr (hsame (by decide)) (hsame (by decide)) hshaped.plain
    exact hcongr.trans hread
  have htemp₁ : t₁.isLink (root ++ [updatePendingStamp ++ ".tmp"]) = false := (isLink_congr (hsame (by decide))).trans htemp
  have happart : current.Apart (updatePendingStamp ++ ".tmp") ∧ previous.Apart (updatePendingStamp ++ ".tmp") := by
    unfold Pointer.Apart Pointer.Steady
    decide
  refine (((survives_flipCurrent win32 new hshaped₁.unstaged hshaped₁.plain).leaves fun _ _ => trivial).both
    (leaves_flipCurrent_apart win32 new hshaped₁.unstaged happart.1 happart.2)).mono (fun _ t h => ?_) fun _ h => h
  obtain ⟨⟨old, hold, hturned⟩, hsame⟩ := h
  refine ⟨⟨?_, ?_⟩, (isLink_congr hsame).trans htemp₁⟩
  · rw [hturned.turning.versions _ ⟨versionsDir, [v], rfl, rfl⟩, h₁ _ relied_dir, hdir]
  · obtain ⟨hshows, hlinked⟩ := hturned.previous v (Except.ok.inj (hold.symm.trans hread₁)) hv.nonempty hnew
    have hprevious := read_previous hshaped₁ hread₁ hv.nonempty hshows hlinked
    unfold Shows at hshows
    split_ifs at hshows with hb
    · refine .inl ⟨_, hshows, ?_⟩
      rw [readPointerVersion_link previous hshows] at hprevious
      exact Option.some.inj (Except.ok.inj hprevious)
    · have hlink := hlinked (Bool.eq_false_iff.mpr hb)
      exact .inr ⟨hlink, legible_of_read hlink hprevious, hshows⟩

end Flip

/-! ### The stamp -/

/-- A version that a stamp can hold: one line, without white space around it. -/
structure OneLine (v : String) : Prop where
  nonempty : v ≠ ""
  noFeed : '\n' ∉ v.toList
  trimmed : Text.trim v.toList = v.toList

section Stamp

variable {root : Place} {v : String} {before t u : Fs Bytes}

theorem not_feed_of_nat (n : ℕ) : '\n' ∉ (toString n).toList := by
  intro h
  have hdigit : ('\n').isDigit = true := Nat.isDigit_of_mem_toDigits (b := 10) (n := n) (by decide) (by decide) (by simpa using h)
  exact absurd hdigit (by decide)

theorem recordedVersion_stampText (h : OneLine v) (now : ℕ) : recordedVersion (stampText now v).toList = some v := by
  have htext : (stampText now v).toList = (toString now).toList ++ '\n' :: (v.toList ++ '\n' :: []) := by
    simp [stampText]
  have hreturn : v.toList.getLast? ≠ some '\r' := fun hr => absurd (Text.getLast?_of_stripBy h.trimmed hr) (by decide)
  rw [recordedVersion, htext, Text.lines_cons (not_feed_of_nat now), Text.lines_cons h.noFeed, if_neg hreturn]
  change (some (String.ofList (Text.trim v.toList))).filter (· ≠ "") = some v
  rw [h.trimmed, String.ofList_toList, Option.filter_some, if_pos (by simpa using h.nonempty)]

/-- The stamp is there, and so is the version that it records. -/
def Stamped (root : Place) (v : String) (t : Fs Bytes) : Prop :=
  Remembered root v t ∧ ∃ now : ℕ, t.node (root ++ [updatePendingStamp]) = some (.file (Bytes.encode (stampText now v)))

theorem Stamped.agree (h : Stamped root v t) (hu : Fs.Agree (Relied root v) u t) : Stamped root v u := by
  obtain ⟨hrem, now, hstamp⟩ := h
  exact ⟨hrem.agree hu, now, (hu _ (relied_name (by decide))).trans hstamp⟩

theorem Stamped.pending (h : Stamped root v t) (hv : OneLine v) : pendingVersion root t = some v := by
  obtain ⟨-, now, hstamp⟩ := h
  have hread : readToString (root ++ [updatePendingStamp]) t = some (stampText now v).toList := by
    rw [readToString, Fs.data_of_node hstamp, Option.bind_some, Bytes.decode_encode]
    rfl
  rw [pendingVersion, hread, Option.bind_some, recordedVersion_stampText hv]

/-- `_write_update_pending` leaves the pointers alone. -/
theorem leaves_writeUpdatePending :
    Leaves (fun t => Remembered root v t ∧ t.isLink (root ++ [updatePendingStamp ++ ".tmp"]) = false) (writeUpdatePending root v)
      (fun _ t => Stamped root v t) fun _ => True := by
  have hne {x : String} (hx : x ≠ updatePendingStamp ++ ".tmp") : root ++ [x] ≠ root ++ [updatePendingStamp ++ ".tmp"] := ne_of_name hx
  have hset {t : Fs Bytes} (h : Remembered root v t) (n : Option Node) :
      Remembered root v (t.set (root ++ [updatePendingStamp ++ ".tmp"]) n) := by
    refine h.congr (Fs.node_set_of_ne ?_ n t) (Fs.node_set_of_ne (hne (by decide)) n t) (Fs.node_set_of_ne (hne (by decide)) n t)
    exact ne_of_name (by decide)
  have hmove {t : Fs Bytes} (h : Remembered root v t) :
      Remembered root v (t.move (root ++ [updatePendingStamp ++ ".tmp"]) (root ++ [updatePendingStamp])) :=
    h.congr (node_move_name (by decide) (by decide)) (node_move_name (by decide) (by decide)) (node_move_name (by decide) (by decide))
  have hwritten (now : ℕ) : Leaves (fun t => Remembered root v t ∧ t.isLink (root ++ [updatePendingStamp ++ ".tmp"]) = false)
      (attempt (act (.write (root ++ [updatePendingStamp ++ ".tmp"]) (Bytes.encode (stampText now v)))))
      (fun _ t => Remembered root v t ∧
        t.node (root ++ [updatePendingStamp ++ ".tmp"]) = some (.file (Bytes.encode (stampText now v)))) fun _ => True :=
    leaves_write (fun t ht => ht.2) (fun t ht _ => ⟨hset ht.1 _, Fs.node_set_self ..⟩) fun _ _ => trivial
  have hrenamed (now : ℕ) : Leaves (fun t => Remembered root v t ∧
      t.node (root ++ [updatePendingStamp ++ ".tmp"]) = some (.file (Bytes.encode (stampText now v))))
      (attempt (act (.rename (root ++ [updatePendingStamp ++ ".tmp"]) (root ++ [updatePendingStamp]))))
      (fun _ t => Stamped root v t) fun _ => True := by
    refine leaves_change (fun _ => rfl) (fun t ht _ => ?_) fun _ _ => trivial
    rw [World.rename, if_neg (ne_of_name (by decide))]
    exact ⟨hmove ht.1, now, node_moved.trans ht.2⟩
  unfold writeUpdatePending
  refine leaves_lift (R := fun _ s => Remembered root v s.fs ∧ s.fs.isLink (root ++ [updatePendingStamp ++ ".tmp"]) = false)
    (fun s hs => hs) fun now => ?_
  exact (hwritten now).bind fun _ => hrenamed now

end Stamp

/-! ### The whole update -/

section Update

variable {U : Updater} {root home : Place} {v : String} {ui : UiSwap root} {mtime : String → ℤ} {w : World} {before : Fs Bytes}

theorem keeps_ui (manifest : Manifest) : Keeps (Stamped root v) (ui.script manifest) := by
  refine fun s hs => hs.agree ((ui.keeps manifest s).mono fun q hq name hname hbelow => ?_)
  have hfree : ∀ name ∈ appNames, Free name := by decide
  exact not_below_free (hfree name hname) hq.rooted hbelow

theorem keeps_rm {p : Place} (hp : ∀ q, Relied root v q → ¬p <+: q) : Keeps (Stamped root v) (rm p).run := by
  unfold rm
  refine keeps_look.bind fun t => Keeps.ite (keeps_ignoring ?_) (Keeps.ite ?_ keeps_pure)
  · exact keeps_rmtree fun t gone h => h.agree (Fs.agree_drop (fun q hq hrel => hp q hrel hq) gone t)
  · exact keeps_change (fun _ => rfl) fun t h _ => h.agree (Fs.agree_set (fun hrel => hp p hrel (List.prefix_refl _)) none t)

theorem keeps_removeTargets : ∀ ps : List Place, (∀ p ∈ ps, ∀ q, Relied root v q → ¬p <+: q) →
    Keeps (Stamped root v) (removeTargets ps).run
  | [], _ => keeps_pure
  | p :: ps, h => Keeps.bind (keeps_ignoring (keeps_rm (h p (List.mem_cons_self ..)))) fun _ =>
    keeps_removeTargets ps fun q hq => h q (List.mem_cons_of_mem _ hq)

/-- The version that `previous` remembers is one of those that are kept. -/
theorem keeps_gcOldVersions (keep : ℕ) (hne : v ≠ "") : Keeps (Stamped root v) (gcOldVersions root mtime keep).run := by
  intro w hs
  have hlaws := gc_laws root mtime keep w
  refine hs.agree fun q hq => ?_
  rcases hq with rfl | ⟨x, -, rfl⟩
  · exact hlaws.named previous v (.inr rfl) hs.1.read hne _ (List.prefix_refl _)
  · by_contra hchanged
    obtain ⟨-, name, -, hbelow⟩ := hlaws.confined _ hchanged
    have hlength := hbelow.length_le
    simp at hlength

/-- What an update that goes on needs of the install, so that the version it records is kept. The
manifest has the name that `current` is read as, which a stamp can hold, and that version is a
directory; the release has other places; nothing is staged that is a link. -/
structure Restorable (U : Updater) (root home : Place) (m : Manifest) (release : ReleaseInfo) (t : Fs Bytes) : Prop where
  named : readPointerVersion root current t = .ok (some m.version)
  plain : PlainName m.version
  oneLine : OneLine m.version
  dir : t.node (versionDir root m.version) = some .dir
  target : ∀ q, Relied root m.version q → ¬versionDir root release.version <+: q
  asset : PlainName release.assetName
  legacy : ∀ p ∈ legacyTargets U root home, ∀ q, Relied root m.version q → ¬p <+: q
  shaped : Shaped root t
  stamp : t.isLink (root ++ [updatePendingStamp ++ ".tmp"]) = false
  archive : t.isLink (partialOf (stagedAt root release.assetName)) = false

theorem PlainName.stagedAt {name : String} (h : PlainName name) (root : Place) : stagedAt root name = root ++ [stagingDir, name] := by
  rw [Install.stagedAt, Path.div, Path.join, h.path, Path.resolve]
  simp [Path.isAbsolute, Path.enter, stagingDir, h.notUp]

theorem leaves_carryOut {step : Step} (h : Restorable U root home step.manifest step.release before) :
    Leaves (fun t => t = before) (carryOut U root home ui mtime step) (fun _ => Stamped root step.manifest.version) fun _ => True := by
  have hdir := h.dir
  rw [h.plain.versionDir root] at hdir
  have hstaged := h.asset.stagedAt root
  have hnew : step.manifest.version ≠ step.release.version := fun he =>
    h.target _ relied_dir (by rw [← he, h.plain.versionDir root])
  have hfetched : Leaves (fun t => t = before) (fetchArchive U root step.release)
      (fun _ t => Fs.Agree (Relied root step.manifest.version) t before) fun _ => True := by
    have haside : Aside (Relied root step.manifest.version) (stagedAt root step.release.assetName) := hstaged ▸ relied_aside
    have hkeeps : Leaves (Fetching (Relied root step.manifest.version) (stagedAt root step.release.assetName) before)
        (fetchArchive U root step.release)
        (fun _ => Fetching (Relied root step.manifest.version) (stagedAt root step.release.assetName) before) fun _ => True :=
      (keeps_fetchArchive (fun _ hq => hq.rooted) haside).leaves fun _ _ => trivial
    have hstart : ∀ t, t = before → Fetching (Relied root step.manifest.version) (stagedAt root step.release.assetName) before t := by
      rintro t rfl
      exact ⟨.refl _ _, h.archive⟩
    exact (hkeeps.pre hstart).mono (fun _ _ h => h.1) fun _ h => h
  unfold carryOut
  refine hfetched.bind fun archive => Leaves.bind
    ((keeps_installPayload (fun _ hq => hq.rooted) archive h.target).leaves fun _ _ => trivial) fun _ => ?_
  refine (leaves_flip U.win32 h.shaped h.named h.plain hdir hnew h.stamp).bind fun _ => ?_
  refine leaves_writeUpdatePending.bind fun _ => ?_
  have hrest : Keeps (Stamped root step.manifest.version) (do
      ExceptT.lift (ui.script step.manifest)
      removeLegacySetupAssistant U root home
      let _ ← gcOldVersions root mtime 2
      removeTree (root ++ [stagingDir]) : Raising Unit).run := by
    refine Keeps.lift (keeps_ui step.manifest) fun _ => (keeps_removeTargets _ h.legacy).bind fun _ =>
      (keeps_gcOldVersions 2 h.plain.nonempty).bind fun _ => ?_
    unfold removeTree
    refine keeps_look.bind fun t => Keeps.ite (keeps_ignoring (keeps_rmtree fun t gone ht => ht.agree ?_)) keeps_pure
    exact spared_drop (fun q hq => not_below_free free_staging hq.rooted) gone (.refl _ _)
  exact hrest.leaves fun _ _ => trivial

/-- The version in the stamp is there. -/
def RecordedThere (root : Place) (t : Fs Bytes) : Prop := ∃ v, pendingVersion root t = some v ∧ t.isDir (versionDir root v) = true

/-- After an update that succeeded. -/
def UpdateKeeps (U : Updater) (root home : Place) (ui : UiSwap root) (mtime : String → ℤ) (w : World) : Prop :=
  (run perform (swapBundle U root home ui mtime).run w).1 = .ok true →
    RecordedThere root (run perform (swapBundle U root home ui mtime).run w).2.fs

/-- **The version to roll back to is kept** by an update that succeeds, from any install that is as asked for. -/
theorem updateKeeps (h : ∀ step, (run perform (pendingUpdate U root).run w).1 = .ok (some step) →
    Restorable U root home step.manifest step.release w.fs) : UpdateKeeps U root home ui mtime w := by
  unfold UpdateKeeps swapBundle
  cases hpending : (run perform (pendingUpdate U root).run w).1 with
  | error e =>
    rw [run_error hpending]
    exact nofun
  | ok pending =>
    rw [run_ok hpending]
    cases pending with
    | none => exact fun hfalse => by cases hfalse
    | some step =>
      have hready := h step hpending
      have hsame : (run perform (pendingUpdate U root).run w).2.fs = w.fs :=
        keeps_pendingUpdate (P := fun t => t = w.fs) w rfl
      have hcarried : Leaves (fun t => t = w.fs) (carryOut U root home ui mtime step) (fun _ => Stamped root step.manifest.version)
          fun _ => True := leaves_carryOut hready
      have hleaves := hcarried _ hsame
      intro htrue
      cases hcarry : (run perform (carryOut U root home ui mtime step).run (run perform (pendingUpdate U root).run w).2).1 with
      | error e =>
        rw [run_error hcarry] at htrue
        cases htrue
      | ok u =>
        have hstamped : Prog.Post (fun _ s => Stamped root step.manifest.version s.fs) (fun _ _ => True)
            (run perform (carryOut U root home ui mtime step).run (run perform (pendingUpdate U root).run w).2).1
            (run perform (carryOut U root home ui mtime step).run (run perform (pendingUpdate U root).run w).2).2 := hleaves
        rw [hcarry] at hstamped
        rw [run_ok hcarry]
        refine ⟨step.manifest.version, hstamped.pending hready.oneLine, Fs.isDir_of_node ?_⟩
        rw [hready.plain.versionDir root]
        exact hstamped.1.dir

/-- **What the removal of old versions keeps**: the laws of `gc_old_versions`, from any tree, and the
version to roll back to, in every update of an install that is as asked for. -/
theorem retention (U : Updater) (root home : Place) (ui : UiSwap root) (mtime : String → ℤ) (keep : ℕ) (w : World) :
    GcLaws root mtime keep w ∧ ((∀ step, (run perform (pendingUpdate U root).run w).1 = .ok (some step) →
      Restorable U root home step.manifest step.release w.fs) → UpdateKeeps U root home ui mtime w) :=
  ⟨gc_laws root mtime keep w, updateKeeps⟩

end Update

/-! ### A manifest that spells the version otherwise -/

def noughts : String := String.ofList (List.replicate 64 '0')

/-- A release of 1.0.17, with a digest beside the bundle. -/
def newRelease : Json :=
  .obj [("tag_name", .str "v1.0.17"), ("assets", .arr [
    .obj [("name", .str "locai-link-headless-linux-x64.tar.gz"), ("browser_download_url", .str "https://github.com/bundle")],
    .obj [("name", .str "locai-link-headless-linux-x64.tar.gz.sha256"), ("browser_download_url", .str "https://github.com/sum")]])]

/-- Every request is answered, and every process does what it should. -/
def obliging : Answer :=
  { json := .ok newRelease
    text := .ok noughts
    reply := .ok ⟨200, .ok 1, [[0]], none⟩
    entries := fun _ => [(["bundle", runtimeBinary], .file [0]),
      (["bundle", manifestName], .file (Bytes.encode (manifestText "1.0.17")))] }

/-- An install whose `current` is a link to a directory, with a manifest of a version. -/
def updating (dir version : String) : World := ⟨installed dir version, 0, fun _ => obliging, 0⟩

def hashing : Updater := ⟨frozenLinux, fun _ => noughts⟩

/-- What an update returns, and the version it records if that is not there. -/
def outcome (w : World) : Option (Bool × Option String) :=
  let r := run perform (swapBundle hashing ["locai"] ["home"] (noUiSwap _) fun _ => 0).run w
  r.1.toOption.map fun ok => (ok, (pendingVersion ["locai"] r.2.fs).filter fun v => !r.2.fs.isDir (versionDir ["locai"] v))

theorem outcome_spelled : outcome (updating "1.0.16-rc1" "1.0.16rc1") = some (true, some "1.0.16rc1") := by decide +kernel

/-- The stamp records a version that no directory has. -/
theorem recorded_not_there : ¬((∀ root mtime keep w, GcLaws root mtime keep w) ∧
    ∀ (U : Updater) (root home : Place) (ui : UiSwap root) (mtime : String → ℤ) (w : World),
      UpdateKeeps U root home ui mtime w) := by
  rintro ⟨-, h⟩
  have hkept := h hashing ["locai"] ["home"] (noUiSwap _) (fun _ => 0) (updating "1.0.16-rc1" "1.0.16rc1")
  have houtcome := outcome_spelled
  unfold outcome at houtcome
  unfold UpdateKeeps at hkept
  dsimp only at houtcome
  revert hkept houtcome
  generalize run perform (swapBundle hashing ["locai"] ["home"] (noUiSwap _) fun _ => 0).run (updating "1.0.16-rc1" "1.0.16rc1") = r
  intro hkept houtcome
  cases hr : r.1 with
  | error e =>
    rw [hr] at houtcome
    cases houtcome
  | ok b =>
    rw [hr] at houtcome
    obtain ⟨rfl, hrecorded⟩ := Prod.mk.inj (Option.some.inj houtcome)
    obtain ⟨v, hv, hdir⟩ := hkept hr
    rw [hv, Option.filter_some] at hrecorded
    simp [hdir] at hrecorded

theorem shaped_installed : Shaped ["locai"] (installed "1.0.16" "1.0.16") := by
  refine ⟨fun n hn => ?_, fun n hn => ?_, ⟨by decide +kernel, by decide +kernel⟩⟩
  · have hlink : (installed "1.0.16" "1.0.16").node (["locai"] ++ [currentLink]) = some (.link (Path.ofString "versions/1.0.16")) := by
      decide +kernel
    exact ⟨_, (Option.some.inj (hlink.symm.trans hn)).symm⟩
  · have hnone : (installed "1.0.16" "1.0.16").node (["locai"] ++ [currentPointerFile]) = none := by decide +kernel
    rw [hnone] at hn
    cases hn

/-- What goes on there: the manifest's version, and the places of the release. -/
theorem pendingUpdate_updating {step : Step}
    (h : (run perform (pendingUpdate hashing ["locai"]).run (updating "1.0.16" "1.0.16")).1 = .ok (some step)) :
    step.manifest.version = "1.0.16" ∧ step.release.version = "1.0.17" ∧
      step.release.assetName = "locai-link-headless-linux-x64.tar.gz" := by
  have hread : (run perform (pendingUpdate hashing ["locai"]).run (updating "1.0.16" "1.0.16")).1.toOption.map (fun pending =>
      pending.map fun step => (step.manifest.version, step.release.version, step.release.assetName)) =
      some (some ("1.0.16", "1.0.17", "locai-link-headless-linux-x64.tar.gz")) := by decide +kernel
  rw [h] at hread
  obtain ⟨hversion, hrest⟩ := Prod.mk.inj (Option.some.inj (Option.some.inj hread))
  exact ⟨hversion, Prod.mk.inj hrest⟩

theorem relied_cases {P : Place → Prop} {root : Place} {v : String} (hdir : P (root ++ [versionsDir, v]))
    (hname : ∀ name ∈ reliedNames, P (root ++ [name])) (q : Place) (h : Relied root v q) : P q := by
  rcases h with rfl | ⟨name, hmem, rfl⟩
  · exact hdir
  · exact hname name hmem

/-- An update of an install with a plain version. -/
theorem retention_updating : UpdateKeeps hashing ["locai"] ["home"] (noUiSwap _) (fun _ => 0) (updating "1.0.16" "1.0.16") := by
  refine (retention hashing ["locai"] ["home"] (noUiSwap _) (fun _ => 0) 2 (updating "1.0.16" "1.0.16")).2 fun step hstep => ?_
  obtain ⟨hversion, hrelease, hasset⟩ := pendingUpdate_updating hstep
  refine ⟨?_, ?_, ?_, ?_, ?_, ?_, ?_, shaped_installed, by decide +kernel, ?_⟩
  · rw [hversion]
    decide +kernel
  · rw [hversion]
    exact ⟨by decide, by decide, by decide, by decide⟩
  · rw [hversion]
    exact ⟨by decide, by decide, by decide +kernel⟩
  · rw [hversion]
    decide +kernel
  · rw [hversion, hrelease]
    exact relied_cases (by decide +kernel) (by decide +kernel)
  · rw [hasset]
    exact ⟨by decide, by decide, by decide, by decide⟩
  · rw [hversion]
    intro p hp
    have hall : ∀ p ∈ legacyTargets hashing ["locai"] ["home"], (¬p <+: ["locai"] ++ [versionsDir, "1.0.16"]) ∧
        ∀ name ∈ reliedNames, ¬p <+: ["locai"] ++ [name] := by decide +kernel
    exact relied_cases (hall p hp).1 (hall p hp).2
  · rw [hasset]
    decide +kernel

end Install
end LocaiLink
