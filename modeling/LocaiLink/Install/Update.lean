/-
# An update

`swap_bundle` takes an install to the latest release: it reads the manifest of the version
that is current, asks for the release, and where the two versions differ downloads, checks
and extracts the new one, makes it current, stamps the install for the launcher and removes
old versions. The swap of the UI apps, between the stamp and that, is a script of which only
what it leaves alone is given (`UiSwap`).

`check_update_available` is what asks whether an update is there.
-/
import Mathlib.Data.List.Sort
import Mathlib.Order.Defs.LinearOrder
import LocaiLink.Base.JsonText
import LocaiLink.Install.Checksums
import LocaiLink.Install.Download
import LocaiLink.Install.Release

namespace LocaiLink
namespace Install

open Json (dict getOr)

/-! ### The manifest -/

structure Manifest where
  manifestVersion : ℤ
  assetName : String
  version : String
  gitSha : String
  builtAt : String
  plugins : List Json
  apps : List (String × String)

/-- A place, as its path is written. -/
def placeText (p : Place) : String := (⟨1, p⟩ : Path).text

def valueError : Error := ⟨.other, "invalid literal for int()"⟩

/-- The digits of a number, between which single underscores may stand. -/
def digitsOf : List Char → Option (List Char)
  | [] => none
  | [c] => if Text.isDigit c then some [c] else none
  | c :: '_' :: l => if Text.isDigit c then (digitsOf l).map (c :: ·) else none
  | c :: l => if Text.isDigit c then (digitsOf l).map (c :: ·) else none

/-- `int(text)` -/
def intOfText (l : List Char) : Except Error ℤ :=
  let (negative, digits) := match Text.strip l with
    | '-' :: l => (true, l)
    | '+' :: l => (false, l)
    | l => (false, l)
  match digitsOf digits with
  | some digits => .ok (if negative then -(Text.decimal digits : ℤ) else Text.decimal digits)
  | none => .error valueError

/-- `int(value)` -/
def intOf : Json → Except Error ℤ
  | .bool b => .ok (if b then 1 else 0)
  | .int n => .ok n
  | .float x => .ok (x.value.num.tdiv x.value.den)
  | .str s => intOfText s.toList
  | _ => .error typeError

/-- `data[key]`, where a missing field is what the manifest is refused for. -/
def item (path : String) (d : Dict String Json) (key : String) : Except Error Json :=
  match d.get? key with
  | some v => .ok v
  | none => .error ⟨.manifestMalformed, s!"{path}: missing field '{key}'"⟩

/-- `{str(k): str(v) for k, v in (data.get("apps") or {}).items()}` -/
def appsOf (d : Dict String Json) : Except Error (List (String × String)) :=
  match dict (if (getOr d "apps").truthy then getOr d "apps" else .obj []) with
  | some apps => .ok (apps.entries.map fun e => (e.1, String.ofList (Text.str e.2)))
  | none => .error attributeError

/-- The fields of a manifest. -/
def Manifest.ofDict (path : String) (d : Dict String Json) : Except Error Manifest := do
  let manifestVersion ← intOf (← item path d "manifest_version")
  let assetName := String.ofList (Text.str (← item path d "asset_name"))
  let version := String.ofList (Text.str (← item path d "version"))
  let gitSha := String.ofList (Text.str ((d.get? "git_sha").getD (.str "")))
  let builtAt := String.ofList (Text.str ((d.get? "built_at").getD (.str "")))
  let plugins ← match ((d.get? "plugins").getD (.arr [])).iterate with
    | some l => .ok l
    | none => .error typeError
  let apps ← appsOf d
  pure { manifestVersion, assetName, version, gitSha, builtAt, plugins, apps }

def Manifest.ofJson (path : String) : Json → Except Error Manifest
  | .obj l => ofDict path (.ofList l)
  | _ => .error typeError

/-- `read_manifest` -/
def readManifest (root : Place) : Raising Manifest := do
  let t ← look
  match ← attempt (pure (resolveCurrent root t)) with
  | none => throw ⟨.installRootNotFound, s!"No current version under {placeText root}"⟩
  | some current =>
    let path := current ++ [manifestName]
    match ← attempt (pure (readText path t)) with
    | none => throw ⟨.manifestMalformed, s!"manifest.json missing at {placeText path}"⟩
    | some text =>
      match JsonText.loads text with
      | none => throw ⟨.manifestMalformed, s!"{placeText path}: not JSON"⟩
      | some data => attempt (pure (Manifest.ofJson (placeText path) data))

/-! ### Is there an update -/

/-- `packaging.version`: what a version's text is read as, where it is one, and the order
of versions. -/
structure Packaging where
  Version : Type
  order : LinearOrder Version
  parse : String → Option Version

instance (P : Packaging) : LinearOrder P.Version := P.order

def invalidVersion (text : String) : Error := ⟨.other, s!"Invalid version: '{text}'"⟩

/-- `Version(text)` -/
def Packaging.version (P : Packaging) (text : String) : Except Error P.Version :=
  match P.parse text with
  | some v => .ok v
  | none => .error (invalidVersion text)

/-- `_version_gt` -/
def Packaging.versionGt (P : Packaging) (a b : String) : Except Error Bool := do
  let x ← P.version a
  let y ← P.version b
  pure (decide (x > y))

def latestVersionPath : String := "/devices/agent/latest-version"

/-- `latest_version_from_control` -/
def latestVersionFromControl (baseUrl : String) : Raising String := do
  let url := String.ofList (baseUrl.toList.rdropWhile (· = '/')) ++ latestVersionPath
  let payload ← attempt (act (.getJson url))
  match dict (if payload.truthy then payload else .obj []) with
  | none => throw attributeError
  | some d =>
    let version := String.ofList (Text.str (if (getOr d "latest_version").truthy then getOr d "latest_version" else .str ""))
    if version = "" then throw ⟨.releaseNotFound, s!"latest-version response missing 'latest_version': {url}"⟩
    pure version

/-- What `check_update_available` compares the manifest's version with. -/
def latestVersion (s : Settings) (controlBaseUrl : String) : Raising String :=
  match if s.otaOverridesAllowed then s.override "LOCAI_LATEST_VERSION" else none with
  | some version => pure version
  | none => latestVersionFromControl controlBaseUrl

/-- The latest version, and whether it is newer. -/
def compareLatest (P : Packaging) (s : Settings) (root : Place) (controlBaseUrl : String) : Raising (Bool × Option String) := do
  let manifest ← readManifest root
  let latest ← latestVersion s controlBaseUrl
  let newer ← attempt (pure (P.versionGt latest manifest.version))
  pure (newer, some latest)

/-- `check_update_available`: what is raised is no update. -/
def checkUpdateAvailable (P : Packaging) (s : Settings) (root : Place) (controlBaseUrl : String) : Script (Bool × Option String) := do
  if !s.frozen then pure (false, none)
  else
    match ← (compareLatest P s root controlBaseUrl).run with
    | .ok r => pure r
    | .error _ => pure (false, none)

/-! ### Checks -/

/-- `get`, with the failure of a request as text. -/
def fetchText (url what : String) : Raising String := do
  match ← ExceptT.lift (act (.getText url)) with
  | .ok text => pure text
  | .error e => if e.kind = .request then throw ⟨.verifyFailed, s!"{what} from {url}: {e.message}"⟩ else throw e

/-- `_fetch_sha256` -/
def fetchSha256 (url : String) : Raising String := do
  let text ← fetchText url "Could not fetch SHA"
  let body := Text.strip text.toList
  if body = [] then throw ⟨.verifyFailed, s!"SHA file at {url} is empty"⟩
  match Text.words body with
  | [] => throw ⟨.verifyFailed, s!"SHA file at {url} is whitespace-only"⟩
  | token :: _ =>
    if isDigest token then pure (String.ofList token)
    else throw ⟨.verifyFailed, s!"SHA file at {url} did not parse as a hex digest"⟩

/-- What an update needs of its surroundings: how the host is set up, and `hashlib`. -/
structure Updater where
  settings : Settings
  sha256 : Bytes → String

def Updater.win32 (U : Updater) : Bool := U.settings.sysPlatform = "win32"

def Updater.runtimeName (U : Updater) : String := if U.win32 then runtimeBinary ++ ".exe" else runtimeBinary

/-- `_hash_sha256` -/
def hashSha256 (U : Updater) (p : Place) : Raising String := do
  match (← look).data p with
  | some d => pure (U.sha256 d)
  | none => throw (World.osError "[Errno 2] No such file or directory" p)

/-- `verify` -/
def verify (U : Updater) (p : Place) (expectedSha256 expectedSha256Url : Option String) : Raising Unit := do
  let expected ← match expectedSha256, expectedSha256Url with
    | some expected, _ => pure expected
    | none, some url => fetchSha256 url
    | none, none => throw ⟨.verifyFailed, "verify() requires expected_sha256 or expected_sha256_url"⟩
  let actual ← hashSha256 U p
  if Text.lower actual.toList ≠ Text.lower expected.toList then
    throw ⟨.verifyFailed, s!"SHA256 mismatch: expected {expected}, got {actual}"⟩

/-- The digest in the list of all checksums, if one is found there. -/
def expectedSha256 (release : ReleaseInfo) : Raising (Option String) :=
  match release.checksumsUrl with
  | none => pure none
  | some url => do
    let answer ← ExceptT.lift (act (.getText url))
    match answer with
    | .error e =>
      if e.kind = .request then pure none else throw e
    | .ok text =>
      match sha256FromChecksums (fun _ => .ok text) url release.assetName with
      | .ok digest => pure (some digest)
      | .error _ => pure none

/-- `verify_extracted_macos` -/
def verifyExtractedMacos (U : Updater) (extracted : Place) : Raising Unit := do
  if U.settings.sysPlatform = "darwin" then
    if (← look).there (extracted ++ [U.runtimeName]) then attempt (act (.codesign (extracted ++ [U.runtimeName])))

/-- `health_check` -/
def healthCheck (runtime : Place) : Raising Bool := do
  if (← look).isFile runtime then
    let exit ← ExceptT.lift (act (.selfCheck runtime))
    pure (exit = some 0)
  else pure false

/-! ### Extracting -/

/-- `shutil.rmtree(.., ignore_errors=True)`, where something is there. -/
def removeTree (p : Place) : Raising Unit := do
  if (← look).there p then ignoring (act (.rmtree p))

/-- The directories in a directory. -/
def subdirs (p : Place) (t : Fs Bytes) : List String := (t.children p).filter fun name => t.isDir (p ++ [name])

/-- `_locate_versioned_payload` -/
def locateVersionedPayload (U : Updater) (staging : Place) : Raising Place := do
  let t ← look
  match ((t.below staging).filter fun p => p.getLast? = some U.runtimeName && t.isFile p).map List.dropLast with
  | [runtime] => pure runtime
  | _ :: _ :: _ => throw ⟨.bundleUpdate, "multiple runtime binaries in archive"⟩
  | [] =>
    if t.isDir (staging ++ [versionsDir]) then
      match subdirs (staging ++ [versionsDir]) t with
      | [v] => pure (staging ++ [versionsDir, v])
      | _ => throw ⟨.bundleUpdate, "expected exactly one versions/<v>/ inside archive"⟩
    else
      match subdirs staging t with
      | [top] => pure (staging ++ [top])
      | _ => throw ⟨.bundleUpdate, "archive layout unrecognised: no runtime binary or recognizable payload dir found"⟩

/-! ### The versions that are kept -/

/-- The versions that the pointers name. -/
def pinned (root : Place) (t : Fs Bytes) : Except Error (List String) := do
  let current ← readPointerVersion root current t
  let previous ← readPointerVersion root previous t
  pure (([current, previous].filterMap id).filter (· ≠ "")).dedup

/-- The directories of `versions`, the latest first. -/
def candidates (root : Place) (mtime : String → ℤ) (t : Fs Bytes) : List String :=
  ((subdirs (root ++ [versionsDir]) t).filter fun name => !Text.endsWith name ".tmp").insertionSort fun a b => mtime b ≤ mtime a

/-- The names that are kept: the pinned ones, and the first candidates while there are
fewer than `keep`. -/
def keepers (keep : ℕ) : List String → List String → List String
  | kept, [] => kept
  | kept, name :: names => if keep ≤ kept.length then kept else keepers keep (kept.insert name) names

/-- The entries are removed as far as that goes; those that were are listed. -/
def removeAll (root : Place) : List String → Raising (List String)
  | [] => pure []
  | name :: names => do
    let ok := (← ExceptT.lift (act (.rmtree (root ++ [versionsDir, name])))).isOk
    let removed ← removeAll root names
    pure (if ok then name :: removed else removed)

/-- The candidates that are not kept, where these versions are pinned. -/
def unkept (root : Place) (mtime : String → ℤ) (keep : ℕ) (pins : List String) (t : Fs Bytes) : List String :=
  (candidates root mtime t).filter fun name => name ∉ keepers keep pins (candidates root mtime t)

/-- `gc_old_versions`, where the directories were last modified at these times. -/
def gcOldVersions (root : Place) (mtime : String → ℤ) (keep : ℕ) : Raising (List String) := do
  let t ← look
  if t.isDir (root ++ [versionsDir]) then
    let pins ← attempt (pure (pinned root t))
    removeAll root (unkept root mtime keep pins t)
  else pure []

/-! ### The stamp -/

/-- The two lines of the stamp. -/
def stampText (now : ℕ) (previousVersion : String) : String := toString now ++ "\n" ++ previousVersion ++ "\n"

/-- `_write_update_pending` -/
def writeUpdatePending (root : Place) (previousVersion : String) : Raising Unit := do
  let now ← ExceptT.lift (act .now)
  attempt (act (.write (root ++ [updatePendingStamp ++ ".tmp"]) (Bytes.encode (stampText now previousVersion))))
  attempt (act (.rename (root ++ [updatePendingStamp ++ ".tmp"]) (root ++ [updatePendingStamp])))

/-- The version that a stamp records: its second line. -/
def recordedVersion (text : List Char) : Option String :=
  match Text.lines text with
  | _ :: line :: _ => (some (String.ofList (Text.trim line))).filter (· ≠ "")
  | _ => none

/-- What the launcher reads of the stamp. -/
def pendingVersion (root : Place) (t : Fs Bytes) : Option String :=
  (readToString (root ++ [updatePendingStamp]) t).bind recordedVersion

/-- What an update has to do with the version before, and with the release. -/
structure Step where
  manifest : Manifest
  release : ReleaseInfo

/-- The first part of `swap_bundle`: what is to be done, none where the release is the
version that is installed. -/
def pendingUpdate (U : Updater) (root : Place) : Raising (Option Step) := do
  let manifest ← readManifest root
  let release ← latestReleaseFor U.settings manifest.assetName
  if release.version = manifest.version then pure none else pure (some ⟨manifest, release⟩)

/-- `staging / name` -/
def stagedAt (root : Place) (name : String) : Place := ((⟨0, [stagingDir]⟩ : Path).div name).resolve root

/-- The archive, downloaded and checked. -/
def fetchArchive (U : Updater) (root : Place) (release : ReleaseInfo) : Raising Place := do
  attempt (act (.mkdirs (root ++ [stagingDir])))
  let archive ← download release.downloadUrl (stagedAt root release.assetName) 3
  let expected ← expectedSha256 release
  if (expected.filter (· ≠ "")).isSome then verify U archive expected none
  else verify U archive none release.sha256Url
  pure archive

def extractDir (root : Place) : Place := root ++ [stagingDir, "extracted"]

/-- The new version in its place. -/
def installPayload (U : Updater) (root : Place) (release : ReleaseInfo) (archive : Place) : Raising Unit := do
  removeTree (extractDir root)
  attempt (act (.mkdirs (extractDir root)))
  attempt (act (.unpack archive (extractDir root)))
  let payload ← locateVersionedPayload U (extractDir root)
  let target := versionDir root release.version
  if (← look).there target then attempt (act (.rmtree target))
  attempt (act (.rename payload target))
  verifyExtractedMacos U target
  if !(← healthCheck (target ++ [U.runtimeName])) then
    ignoring (act (.rmtree target))
    throw ⟨.healthCheckFailed, s!"self-check failed for staged version {release.version}; rolled back"⟩

/-! ### Beside the runtime -/

/-- What the UI apps' swap writes in the install root. -/
def appNames : List String := ["Locai Link.app", ".Locai Link.app.new", ".Locai Link.app.old"]

/-- The swap of the UI apps, from the manifest that was current before: it raises nothing, and
touches nothing else of the install root. -/
structure UiSwap (root : Place) where
  script : Manifest → Script Unit
  keeps : ∀ manifest s, Fs.Agree (fun p => ∀ name ∈ appNames, ¬root ++ [name] <+: p)
    ((script manifest).run World.perform s).2.fs s.fs

/-- The copies of the standalone Setup Assistant. -/
def legacyTargets (U : Updater) (root home : Place) : List Place :=
  if U.settings.sysPlatform = "darwin" then
    [root ++ ["Setup Assistant.app"], ["Applications", "Locai Setup Assistant.app"]]
  else if Text.startsWith U.settings.sysPlatform "linux" then
    [root ++ ["setup-assistant"], home ++ [".local", "share", "applications", "locai-setup-assistant.desktop"]]
  else []

/-- `_rm` -/
def rm (p : Place) : Raising Unit := do
  let t ← look
  if t.isDir p && !t.isLink p then ignoring (act (.rmtree p))
  else if t.there p || t.isLink p then attempt (act (.unlink p))

def removeTargets : List Place → Raising Unit
  | [] => pure ()
  | p :: ps => do
    ignoring (rm p).run
    removeTargets ps

/-- `_remove_legacy_setup_assistant` -/
def removeLegacySetupAssistant (U : Updater) (root home : Place) : Raising Unit := removeTargets (legacyTargets U root home)

/-! ### The whole update -/

/-- What `swap_bundle` does once it goes on. -/
def carryOut (U : Updater) (root home : Place) (ui : UiSwap root) (mtime : String → ℤ) (step : Step) : Raising Unit := do
  let archive ← fetchArchive U root step.release
  installPayload U root step.release archive
  flipCurrent U.win32 root step.release.version
  writeUpdatePending root step.manifest.version
  ExceptT.lift (ui.script step.manifest)
  removeLegacySetupAssistant U root home
  let _ ← gcOldVersions root mtime 2
  removeTree (root ++ [stagingDir])

/-- `swap_bundle` -/
def swapBundle (U : Updater) (root home : Place) (ui : UiSwap root) (mtime : String → ℤ) : Raising Bool := do
  match ← pendingUpdate U root with
  | none => pure false
  | some step => do
    carryOut U root home ui mtime step
    pure true

/-- The release that an install is offered. -/
def offeredRelease (s : Settings) (root : Place) : Raising ReleaseInfo := do
  let manifest ← readManifest root
  latestReleaseFor s manifest.assetName

/-- `bundle_asset_available` -/
def bundleAssetAvailable (s : Settings) (root : Place) : Script Bool := do
  if !s.frozen then pure false
  else
    match ← (offeredRelease s root).run with
    | .ok _ => pure true
    | .error _ => pure false

/-- `_can_update`: what an update command is asked for. -/
def canUpdate (s : Settings) (root : Place) : Script Bool := do
  if s.frozen then bundleAssetAvailable s root else pure true

end Install
end LocaiLink
