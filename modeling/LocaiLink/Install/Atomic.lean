/-
# An update that fails before the flip

`swap_bundle` replaces the directory of the new version before it checks what it has put
there. A failure up to the flip leaves the pointers, the stamp and the versions that they
name as they were where none of these is in a place that the update writes
(`failure_atomic`); the directory of a version that is current or previous is lost to a
release of the same version.
-/
import LocaiLink.Install.Rollback

namespace LocaiLink
namespace Install

open World
open Prog (run run_ok run_error Triple)

/-! ### What must not be lost -/

/-- A version that a pointer or the stamp names. -/
def Mentioned (root : Place) (v : String) (t : Fs Bytes) : Prop :=
  readPointerVersion root current t = .ok (some v) ∨ readPointerVersion root previous t = .ok (some v) ∨ pendingVersion root t = some v

/-- The pointers and the stamp, and the version directories that they name with what is in them. -/
def Vital (root : Place) (t : Fs Bytes) (q : Place) : Prop :=
  (∃ name ∈ reliedNames, q = root ++ [name]) ∨
    ∃ v, PlainName v ∧ Mentioned root v t ∧ t.node (root ++ [versionsDir, v]) = some .dir ∧ root ++ [versionsDir, v] <+: q

/-- All of that is as it was. -/
def Intact (root : Place) (before after : Fs Bytes) : Prop := Fs.Agree (Vital root before) after before

/-- What an update writes before the flip is apart from that: the archive, where no link stands for its partial file,
and the place of the new version. -/
structure Unharmed (root : Place) (release : ReleaseInfo) (t : Fs Bytes) : Prop where
  archive : Aside (Vital root t) (stagedAt root release.assetName)
  unlinked : t.isLink (partialOf (stagedAt root release.assetName)) = false
  target : ∀ q, Vital root t q → ¬versionDir root release.version <+: q

/-- `swap_bundle` up to the flip. -/
def beforeFlip (U : Updater) (root : Place) : Raising (Option Step) := do
  match ← pendingUpdate U root with
  | none => pure none
  | some step => do
    let archive ← fetchArchive U root step.release
    installPayload U root step.release archive
    pure (some step)

/-- And from there. -/
def fromFlip (U : Updater) (root home : Place) (ui : UiSwap root) (mtime : String → ℤ) : Option Step → Raising Bool
  | none => pure false
  | some step => do
    flipCurrent U.win32 root step.release.version
    writeUpdatePending root step.manifest.version
    ExceptT.lift (ui.script step.manifest)
    removeLegacySetupAssistant U root home
    let _ ← gcOldVersions root mtime 2
    removeTree (root ++ [stagingDir])
    pure true

/-- A failure before the flip is the update's, and leaves all of that as it was. -/
def FailsIntact (U : Updater) (root home : Place) (ui : UiSwap root) (mtime : String → ℤ) (w : World) : Prop :=
  ∀ e, (run perform (beforeFlip U root).run w).1 = .error e →
    (run perform (swapBundle U root home ui mtime).run w).1 = .error e ∧
      Intact root w.fs (run perform (swapBundle U root home ui mtime).run w).2.fs

section Atomic

variable {U : Updater} {root home : Place} {ui : UiSwap root} {mtime : String → ℤ} {release : ReleaseInfo} {payload : Place}
  {w : World} {t : Fs Bytes} {v : String} {q : Place}

theorem swapBundle_eq : swapBundle U root home ui mtime = beforeFlip U root >>= fromFlip U root home ui mtime := by
  unfold swapBundle beforeFlip carryOut
  rw [bind_assoc]
  refine bind_congr fun pending => ?_
  cases pending with
  | none => rfl
  | some step => simp only [fromFlip, bind_assoc, pure_bind]

theorem Vital.rooted (h : Vital root t q) : Rooted root q := by
  rcases h with ⟨x, hx, rfl⟩ | ⟨v, -, -, -, l, rfl⟩
  · exact ⟨x, [], rfl, List.mem_cons_of_mem _ hx⟩
  · exact ⟨versionsDir, v :: l, by simp, List.mem_cons_self ..⟩

theorem keeps_beforeFlip {before : Fs Bytes}
    (h : ∀ step, (run perform (pendingUpdate U root).run w).1 = .ok (some step) → Unharmed root step.release before) (hw : w.fs = before) :
    Intact root before (run perform (beforeFlip U root).run w).2.fs := by
  have hsame : (run perform (pendingUpdate U root).run w).2.fs = before := keeps_pendingUpdate (P := fun t => t = before) w hw
  have hheld : ∀ q, Vital root before q → Rooted root q := fun q hq => hq.rooted
  unfold beforeFlip
  cases hpending : (run perform (pendingUpdate U root).run w).1 with
  | error e =>
    rw [run_error hpending, hsame]
    exact .refl _ _
  | ok pending =>
    rw [run_ok hpending]
    cases pending with
    | none =>
      change Intact root before (run perform (pendingUpdate U root).run w).2.fs
      rw [hsame]
      exact .refl _ _
    | some step =>
      have hready := h step hpending
      have hfetched : Leaves (Fetching (Vital root before) (stagedAt root step.release.assetName) before) (fetchArchive U root step.release)
          (fun _ t => Fs.Agree (Vital root before) t before) fun t => Fs.Agree (Vital root before) t before :=
        ((keeps_fetchArchive hheld hready.archive).leaves fun _ h => h.1).mono (fun _ _ h => h.1) fun _ h => h
      have hdone : Leaves (Fetching (Vital root before) (stagedAt root step.release.assetName) before) (do
          let archive ← fetchArchive U root step.release
          installPayload U root step.release archive
          pure (some step) : Raising (Option Step)) (fun _ t => Fs.Agree (Vital root before) t before)
          fun t => Fs.Agree (Vital root before) t before :=
        hfetched.bind fun archive => ((keeps_installPayload hheld archive hready.target).leaves fun _ h => h).bind fun _ =>
          leaves_return fun _ h => h
      have hstart : Fetching (Vital root before) (stagedAt root step.release.assetName) before
          (run perform (pendingUpdate U root).run w).2.fs := by
        rw [hsame]
        exact ⟨.refl _ _, hready.unlinked⟩
      exact hdone.either _ hstart

theorem failsIntact (h : ∀ step, (run perform (pendingUpdate U root).run w).1 = .ok (some step) → Unharmed root step.release w.fs) :
    FailsIntact U root home ui mtime w := by
  intro e he
  rw [swapBundle_eq, run_error he]
  exact ⟨rfl, keeps_beforeFlip h rfl⟩

/-! ### The place of the new version -/

/-- What must not be lost is at the place of a version or below it just if it is that version's directory. -/
theorem vital_below_iff (hplain : PlainName v) :
    (∃ q, Vital root t q ∧ root ++ [versionsDir, v] <+: q) ↔ Mentioned root v t ∧ t.node (root ++ [versionsDir, v]) = some .dir := by
  constructor
  · rintro ⟨q, hq, hbelow⟩
    rcases hq with ⟨x, hx, rfl⟩ | ⟨u, -, hu, hdir, hq⟩
    · have hlength := hbelow.length_le
      simp at hlength
    · have hsame : root ++ [versionsDir, v] <+: root ++ [versionsDir, u] := List.prefix_of_prefix_length_le hbelow hq (by simp)
      obtain rfl : v = u := by simpa using (below_root_iff.mp hsame).2
      exact ⟨hu, hdir⟩
  · rintro ⟨hv, hdir⟩
    exact ⟨_, .inr ⟨v, hplain, hv, hdir, List.prefix_refl _⟩, List.prefix_refl _⟩

/-- What the payload leaves when it is not put in its place. -/
def PlacesIntact (U : Updater) (root : Place) (release : ReleaseInfo) (payload : Place) (t : Fs Bytes) : Prop :=
  ∀ w e, w.fs = t → (run perform (placePayload U root release payload).run w).1 = .error e →
    Intact root t (run perform (placePayload U root release payload).run w).2.fs

def ioError : Error := ⟨.other, "[Errno 5] Input/output error"⟩

/-- The first removal fails when all of the tree is gone. -/
def brokenRemoval (t : Fs Bytes) : World :=
  ⟨t, 0, fun n => if n = 0 then {} else { error := some ioError, gone := fun _ => true }, 0⟩

theorem run_brokenRemoval (hdir : t.node (versionDir root release.version) = some .dir) :
    run perform (placePayload U root release payload).run (brokenRemoval t) =
      (.error ioError, { (brokenRemoval t).tock.tock with fs := t.drop (fun _ => true) (versionDir root release.version) }) := by
  have hthere : t.there (versionDir root release.version) = true := by
    rw [Fs.there, Fs.stat_of_node (Fs.isLink_eq_false fun target => by rw [hdir]; simp), hdir]
    rfl
  have hlook : run perform look.run (brokenRemoval t) = (.ok t, (brokenRemoval t).tock) := run_look_ok rfl
  have hremove : (brokenRemoval t).tock.rmtree (versionDir root release.version) =
      (.error ioError, { (brokenRemoval t).tock.tock with fs := t.drop (fun _ => true) (versionDir root release.version) }) := by
    have hnone : rmtreeFails (versionDir root release.version) (brokenRemoval t).tock.fs = none := by
      change rmtreeFails _ t = none
      rw [rmtreeFails, hdir]
    rw [World.rmtree, hnone]
    rfl
  unfold placePayload
  rw [run_ok (congrArg Prod.fst hlook), hlook]
  simp only [hthere, if_true]
  rw [run_error (congrArg Prod.fst (show run perform (attempt (act (.rmtree (versionDir root release.version)))).run
    (brokenRemoval t).tock = _ from hremove))]
  exact congrArg (Prod.mk _) (congrArg Prod.snd hremove)

theorem placesIntact_iff (hplain : PlainName release.version) (hpayload : ∀ q, Vital root t q → ¬payload <+: q) :
    PlacesIntact U root release payload t ↔
      ¬(Mentioned root release.version t ∧ t.node (root ++ [versionsDir, release.version]) = some .dir) := by
  rw [← vital_below_iff hplain]
  constructor
  · rintro h ⟨q, hq, hbelow⟩
    obtain ⟨hv, hdir⟩ := (vital_below_iff hplain).mp ⟨q, hq, hbelow⟩
    have hfails : run perform (placePayload U root release payload).run (brokenRemoval t) = _ :=
      run_brokenRemoval ((hplain.versionDir root).symm ▸ hdir)
    have hintact := h (brokenRemoval t) _ rfl (congrArg Prod.fst hfails)
    rw [hfails] at hintact
    have hkept := hintact _ (.inr ⟨_, hplain, hv, hdir, List.prefix_refl _⟩)
    rw [hdir, hplain.versionDir root] at hkept
    change (t.drop (fun _ => true) (root ++ [versionsDir, release.version])).node _ = _ at hkept
    rw [Fs.node_drop_all (List.prefix_refl _)] at hkept
    cases hkept
  · intro h w e hw he
    have htarget : ∀ q, Vital root t q → ¬versionDir root release.version <+: q := by
      rw [hplain.versionDir root]
      exact fun q hq hbelow => h ⟨q, hq, hbelow⟩
    have hkeeps : Keeps (fun u => Fs.Agree (Vital root t) u t) (placePayload U root release payload).run :=
      keeps_placePayload hpayload htarget
    exact hkeeps w (hw ▸ .refl _ _)

end Atomic

/-- **An update that fails before the flip.** Where nothing that must not be lost is in a place that the update writes, it
is as it was; and the payload that is not put in its place leaves it so, for every failure, just if no pointer and not
the stamp names the release's version, or there is no directory of it. -/
theorem failure_atomic (U : Updater) (root home : Place) (ui : UiSwap root) (mtime : String → ℤ) :
    (∀ w, (∀ step, (run perform (pendingUpdate U root).run w).1 = .ok (some step) → Unharmed root step.release w.fs) →
      FailsIntact U root home ui mtime w) ∧
    ∀ release payload t, PlainName release.version → (∀ q, Vital root t q → ¬payload <+: q) →
      (PlacesIntact U root release payload t ↔
        ¬(Mentioned root release.version t ∧ t.node (root ++ [versionsDir, release.version]) = some .dir)) :=
  ⟨fun _ => failsIntact, fun _ _ _ => placesIntact_iff⟩

/-- An install that went back from 1.0.17 to 1.0.16. -/
def wentBack : Fs Bytes :=
  ((installed "1.0.16" "1.0.16").set ["locai", "versions", "1.0.17"] (some .dir)).set ["locai", previousLink]
    (some (.link (versionPath "1.0.17")))

/-- It is offered 1.0.17 again, whose self-check fails. -/
def offeredAgain : World := ⟨wentBack, 0, fun _ => { obliging with exit := some 1 }, 0⟩

theorem offeredAgain_fails : (run perform (beforeFlip hashing ["locai"]).run offeredAgain).1.isOk = false ∧
    (run perform (swapBundle hashing ["locai"] ["home"] (noUiSwap _) fun _ => 0).run offeredAgain).2.fs.node
      ["locai", "versions", "1.0.17"] = none := by decide +kernel

/-- The directory of the previous version is gone. -/
theorem previous_lost : ¬∀ (U : Updater) (root home : Place) (ui : UiSwap root) (mtime : String → ℤ) (w : World),
    FailsIntact U root home ui mtime w := by
  intro h
  obtain ⟨hfails, hgone⟩ := offeredAgain_fails
  have hprevious : readPointerVersion ["locai"] previous wentBack = .ok (some "1.0.17") := by decide +kernel
  have hdir : wentBack.node (["locai"] ++ [versionsDir, "1.0.17"]) = some .dir := by decide +kernel
  cases hrun : (run perform (beforeFlip hashing ["locai"]).run offeredAgain).1 with
  | ok step =>
    rw [hrun] at hfails
    cases hfails
  | error e =>
    have hintact := (h hashing ["locai"] ["home"] (noUiSwap _) (fun _ => 0) offeredAgain e hrun).2
    have hkept := hintact ["locai", "versions", "1.0.17"]
      (.inr ⟨"1.0.17", ⟨by decide, by decide, by decide, by decide⟩, .inr (.inl hprevious), hdir, List.prefix_refl _⟩)
    rw [hgone] at hkept
    rw [show offeredAgain.fs.node ["locai", "versions", "1.0.17"] = some .dir from hdir] at hkept
    cases hkept

end Install
end LocaiLink
