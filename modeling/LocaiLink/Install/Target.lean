/-
# The directory of the new version

`swap_bundle` puts the new version in the place that its text leads to from `versions`. The
text comes from the release's tag, without the `v`s in front, and may be empty. The place is
the entry of `versions` with that name just where the text is one name; in an install of the
text shape a flip to it reads back just where the name has nothing that reading takes off
(`target_fresh_iff`).
-/
import LocaiLink.Install.Flip
import LocaiLink.Install.Retention

namespace LocaiLink
namespace Install

open World
open Prog (run run_ok run_error)

/-! ### The entry that a version's text is -/

section Entry

variable {v : String} {root : Place}

/-- A text that leads to an entry of `versions` has its name as a part. -/
theorem part_of_versionDir {text : String} (h : versionDir root text = root ++ [versionsDir, v]) :
    v ∈ (Path.ofString text).parts ∧ v ≠ ".." := by
  have hplace : root ++ [versionsDir, v] = (root ++ [versionsDir]) ++ [v] := by simp
  rw [hplace] at h
  unfold versionDir versionPath Path.div Path.join Path.resolve at h
  by_cases habsolute : (Path.ofString text).isAbsolute = true
  · rw [if_pos habsolute, if_pos habsolute] at h
    exact Path.last_of_walk h (Nat.zero_le _)
  · have hstart : Path.enter root versionsDir = root ++ [versionsDir] := if_neg (by decide)
    have hwalk : (Path.ofString text).parts.foldl Path.enter (root ++ [versionsDir]) = (root ++ [versionsDir]) ++ [v] := by
      rw [← hstart]
      rw [if_neg habsolute] at h
      exact h
    exact Path.last_of_walk hwalk le_rfl

/-- The version's place is the entry of `versions` that is called like it just if its text is one name. -/
theorem versionDir_eq_iff : versionDir root v = root ++ [versionsDir, v] ↔ PlainName v := by
  refine ⟨fun h => ?_, fun h => h.versionDir root⟩
  have hlast := part_of_versionDir h
  obtain ⟨hne, hdot, hslash⟩ := Path.of_mem_parts hlast.1
  exact ⟨hne, hdot, hlast.2, hslash⟩

end Entry

/-! ### What is replaced -/

/-- The action removes what is at a place, or puts something else there, with all that is below. -/
def Act.Replaces (p : Place) : Act → Prop
  | .rmtree q => q = p
  | .rename _ q => q = p
  | _ => False

/-- Whatever it is answered, the script replaces the extracted archive and the version's place alone. -/
def Replacing (root : Place) (v : String) (a : Act) : Prop := ∀ p, a.Replaces p → p = extractDir root ∨ p = versionDir root v

section Replacing

variable {α β : Type} {P : Act → Prop} {root : Place} {v : String} {U : Updater}

theorem only_bind {x : Raising α} {f : α → Raising β} (h : x.run.Only P) (hf : ∀ a, (f a).run.Only P) : (x >>= f).run.Only P :=
  Prog.Only.bind h fun r => match r with
    | .ok a => hf a
    | .error _ => trivial

theorem only_lift {p : Script α} {f : α → Raising β} (h : p.Only P) (hf : ∀ a, (f a).run.Only P) : (ExceptT.lift p >>= f).run.Only P :=
  only_bind (Prog.Only.bind h fun _ => trivial) hf

theorem only_act {a : Act} (h : P a) : (act a).Only P := ⟨h, fun _ => trivial⟩

theorem only_ite {c : Prop} [Decidable c] {x y : Raising α} (hx : x.run.Only P) (hy : y.run.Only P) : (if c then x else y).run.Only P := by
  split_ifs
  · exact hx
  · exact hy

theorem only_look (h : P .look) : look.run.Only P := only_act h

theorem only_locateVersionedPayload (h : P .look) (staging : Place) : (locateVersionedPayload U staging).run.Only P := by
  refine only_bind (only_look h) fun t => ?_
  split
  · trivial
  · trivial
  · split_ifs
    · split
      · trivial
      · trivial
    · split
      · trivial
      · trivial

theorem replacing_rmtree {p : Place} (h : p = extractDir root ∨ p = versionDir root v) : Replacing root v (.rmtree p) := by
  rintro q rfl
  exact h

/-- An action that replaces nothing. -/
theorem replacing_of_not {a : Act} (h : ∀ p, ¬a.Replaces p) : Replacing root v a := fun p hp => absurd hp (h p)

theorem only_installPayload (release : ReleaseInfo) (archive : Place) :
    (installPayload U root release archive).run.Only (Replacing root release.version) := by
  have hlook : Replacing root release.version .look := replacing_of_not fun _ => id
  have htarget : Replacing root release.version (.rmtree (versionDir root release.version)) := replacing_rmtree (.inr rfl)
  have hverified : (verifyExtractedMacos U (versionDir root release.version)).run.Only (Replacing root release.version) :=
    only_ite (only_bind (only_look hlook) fun t => only_ite (only_act (replacing_of_not fun _ => id)) trivial) trivial
  have hhealthy : (healthCheck (versionDir root release.version ++ [U.runtimeName])).run.Only (Replacing root release.version) :=
    only_bind (only_look hlook) fun t => only_ite (only_lift (only_act (replacing_of_not fun _ => id)) fun _ => trivial) trivial
  have hstaged (payload : Place) : (do
      attempt (act (.rename payload (versionDir root release.version)))
      verifyExtractedMacos U (versionDir root release.version)
      if !(← healthCheck (versionDir root release.version ++ [U.runtimeName])) then
        ignoring (act (.rmtree (versionDir root release.version)))
        throw ⟨.healthCheckFailed, s!"self-check failed for staged version {release.version}; rolled back"⟩ : Raising Unit).run.Only
        (Replacing root release.version) := by
    refine only_bind (only_act fun p hp => .inr hp.symm) fun _ => only_bind hverified fun _ => only_bind hhealthy fun ok => ?_
    exact only_ite (only_bind (only_lift (only_act htarget) fun _ => trivial) fun _ => trivial) trivial
  unfold installPayload removeTree
  refine only_bind (only_bind (only_look hlook) fun t => only_ite (only_lift (only_act (replacing_rmtree (.inl rfl))) fun _ => trivial) trivial)
    fun _ => only_bind (only_act (replacing_of_not fun _ => id)) fun _ => only_bind (only_act (replacing_of_not fun _ => id)) fun _ => ?_
  refine only_bind (only_locateVersionedPayload hlook _) fun payload => only_bind (only_look hlook) fun t => ?_
  exact only_ite (only_bind (only_act htarget) fun _ => hstaged payload) (hstaged payload)

end Replacing

/-! ### A fresh target -/

/-- The new version replaces the directory of its name, which is not the one that `current`
leads to. -/
structure TargetFresh (U : Updater) (root : Place) (release : ReleaseInfo) (w : World) : Prop where
  child : versionDir root release.version = root ++ [versionsDir, release.version]
  replaced : ∀ archive, (installPayload U root release archive).run.Only fun a : Act =>
    ∀ p, a.Replaces p → p = extractDir root ∨ p = root ++ [versionsDir, release.version]
  apart : resolveCurrent root w.fs ≠ .ok (some (versionDir root release.version))

/-- What is written for `current` is read as the version. -/
def FlipReads (win32 : Bool) (root : Place) (v : String) (w : World) : Prop :=
  (run perform (flipCurrent win32 root v).run w).1 = .ok () →
    readPointerVersion root current (run perform (flipCurrent win32 root v).run w).2.fs = .ok (some v)

section Fresh

variable {U : Updater} {root : Place} {release : ReleaseInfo} {w : World} {win32 : Bool} {v : String}

theorem targetFresh_iff : TargetFresh U root release w ↔
    PlainName release.version ∧ resolveCurrent root w.fs ≠ .ok (some (root ++ [versionsDir, release.version])) := by
  constructor
  · intro h
    have hplain := versionDir_eq_iff.mp h.child
    exact ⟨hplain, hplain.versionDir root ▸ h.apart⟩
  · rintro ⟨hplain, happart⟩
    have hdir := hplain.versionDir root
    refine ⟨hdir, fun archive => (only_installPayload release archive).mono fun a ha p hp => ?_, hdir ▸ happart⟩
    rw [← hdir]
    exact ha p hp

/-- A flip that returns is read as the version where the text shape gives its name back. -/
theorem flipReads_iff (hunstaged : Unstaged root w.fs) (hfile : w.fs.isLink (root ++ [currentPointerFile]) = false) (hplain : PlainName v)
    (hdone : (run perform (flipCurrent win32 root v).run w).1 = .ok ()) :
    FlipReads win32 root v w ↔ (installUsesSymlink win32 root w.fs = false → Legible v) := by
  have hpost := (survives_flipCurrent win32 v hunstaged hfile w rfl).1
  rw [hdone] at hpost
  obtain ⟨old, -, hturned⟩ := hpost
  constructor
  · exact fun h htext => legible_of_read (hturned.link htext) (h hdone)
  · exact fun h _ => read_of_shows hplain h hturned.link hturned.shows

end Fresh

/-- A release with such a tag, which has a bundle. -/
def bareRelease : Json :=
  .obj [("tag_name", .str "v"), ("assets", .arr [
    .obj [("name", .str "locai-link-headless-linux-x64.tar.gz"), ("browser_download_url", .str "https://github.com/bundle")]])]

theorem bareRelease_version : (readRelease "locai-link-headless" "linux-x64" "" bareRelease).toOption.map (·.version) = some "" := by
  decide +kernel

/-- An install with a text file, where 1.0.18 is in its place. -/
def stagedInstall : World := ⟨textInstall.fs.set ["locai", "versions", "1.0.18"] (some .dir), 0, fun _ => {}, 0⟩

end Install
end LocaiLink
