/-
# The release an install is offered

The updater (`latest_release_for`) and the launcher's bootstrap (`resolve_asset`)
both take the latest release from its JSON: the version is the tag without the
`v` in front, and of the assets one is the bundle, with a list of checksums or a
digest of its own beside it. The updater looks for names that match a pattern, the
bootstrap for one name.
-/
import LocaiLink.Install.Disk

namespace LocaiLink
namespace Install

open Json (dict getOr)

/-! ### The host -/

/-- `{..}.get(key, key)` -/
def orItself (table : List (String × String)) (key : String) : String := (table.lookup key).getD key

/-- `_platform_tag` -/
def platformTag (sysPlatform machine : String) : String :=
  orItself [("linux", "linux"), ("darwin", "macos"), ("win32", "windows")] sysPlatform ++ "-" ++
    orItself [("x86_64", "x64"), ("amd64", "x64"), ("arm64", "arm64"), ("aarch64", "arm64")]
      (String.ofList (Text.lower machine.toList))

/-- What the launcher is built for. -/
inductive TargetOs
  | linux
  | macos
  | windows

inductive TargetArch
  | x64
  | arm64

def targetOs : TargetOs → String
  | .linux => "linux"
  | .macos => "macos"
  | .windows => "windows"

def targetArch : TargetArch → String
  | .x64 => "x64"
  | .arm64 => "arm64"

/-! ### The updater -/

structure ReleaseInfo where
  version : String
  tag : String
  assetName : String
  downloadUrl : String
  sha256Url : Option String
  checksumsUrl : Option String
  deriving DecidableEq

/-- `tag.lstrip("v")`, `trim_start_matches('v')` -/
def withoutV (tag : String) : String := String.ofList (tag.toList.dropWhile (· = 'v'))

def attributeError : Error := ⟨.other, "object has no attribute 'get'"⟩
def typeError : Error := ⟨.other, "unexpected type"⟩
def keyError (key : String) : Error := ⟨.other, s!"'{key}'"⟩

/-- An asset, with its name: `a.get("name") or ""`, as the patterns take it. -/
def readAsset (a : Json) : Except Error (Dict String Json × String) :=
  match a.dict with
  | none => .error attributeError
  | some d =>
    match if (getOr d "name").truthy then getOr d "name" else .str "" with
    | .str name => .ok (d, name)
    | _ => .error typeError

/-- The end of a pattern lets one line feed follow. -/
def matchesEnd (full name : String) : Bool := name = full || name = full ++ "\n"

/-- `bundle_re`, with what may follow an extension. -/
def bundleRe (stem platformTag version ending name : String) : Bool :=
  ["", "-v" ++ version].any fun suffix => [".tar.gz", ".zip"].any fun extension =>
    matchesEnd (stem ++ "-" ++ platformTag ++ suffix ++ extension ++ ending) name

/-- `_pick_assets`: the first bundle and the first digest. -/
def pickAssets {α : Type} (stem platformTag version : String) (assets : List (α × String)) : Option α × Option α :=
  assets.foldl (fun picked a =>
    if bundleRe stem platformTag version "" a.2 && picked.1.isNone then (some a.1, picked.2)
    else if bundleRe stem platformTag version ".sha256" a.2 && picked.2.isNone then (picked.1, some a.1)
    else picked) (none, none)

/-- `str(a[key])` -/
def strItem (d : Dict String Json) (key : String) : Except Error String :=
  match d.get? key with
  | some v => .ok (String.ofList (Text.str v))
  | none => .error (keyError key)

/-- `str(a[key]) if a else None` -/
def strItem? (d : Option (Dict String Json)) (key : String) : Except Error (Option String) :=
  match d with
  | some d => (strItem d key).map some
  | none => .ok none

/-- The assets of a payload. -/
def payloadAssets (d : Dict String Json) : Except Error (List (Dict String Json × String)) :=
  match if (getOr d "assets").truthy then (getOr d "assets").iterate else some [] with
  | some l => l.mapM readAsset
  | none => .error typeError

/-- `str(payload.get("tag_name") or "")` -/
def payloadTag (d : Dict String Json) : String :=
  String.ofList (Text.str (if (getOr d "tag_name").truthy then getOr d "tag_name" else .str ""))

/-- `latest_release_for`, from the payload on. -/
def readRelease (assetStem platformTag url : String) (payload : Json) : Except Error ReleaseInfo :=
  match payload.dict with
  | none => .error attributeError
  | some d => do
    let tag := payloadTag d
    if tag = "" then throw ⟨.releaseNotFound, s!"Release at {url} has no tag_name"⟩
    let version := withoutV tag
    let assets ← payloadAssets d
    match pickAssets assetStem platformTag version assets with
    | (none, _) =>
      throw ⟨.releaseNotFound, s!"No asset matching '{assetStem}-{platformTag}.(tar.gz|zip)' on release {tag}"⟩
    | (some asset, sha) =>
      let checksums := assets.find? fun a => Text.lower a.2.toList = "checksums.txt".toList
      pure {
        version := version
        tag := tag
        assetName := ← strItem asset "name"
        downloadUrl := ← strItem asset "browser_download_url"
        sha256Url := ← strItem? sha "browser_download_url"
        checksumsUrl := ← strItem? (checksums.map (·.1)) "browser_download_url" }

/-- What decides where releases are looked for. -/
structure Settings where
  sysPlatform : String
  machine : String
  /-- `running_frozen_bundle()` -/
  frozen : Bool
  environ : String → Option String

def defaultReleasesRepo : String := "locai-co-uk/locai-link"

/-- `os.environ.get(..)`, where an empty value is passed over. -/
def Settings.override (s : Settings) (name : String) : Option String := (s.environ name).filter (· ≠ "")

/-- `_ota_overrides_allowed` -/
def Settings.otaOverridesAllowed (s : Settings) : Bool := !s.frozen || (s.override "LOCAI_ALLOW_OTA_OVERRIDES").isSome

/-- The API's base and the repository. -/
def Settings.releases (s : Settings) : String × String :=
  if s.otaOverridesAllowed then
    ((s.override "LOCAI_RELEASES_API_BASE").getD "https://api.github.com",
      (s.override "LOCAI_RELEASES_REPO").getD defaultReleasesRepo)
  else ("https://api.github.com", defaultReleasesRepo)

def Settings.platformTag (s : Settings) : String := Install.platformTag s.sysPlatform s.machine

/-- `latest_release_for` -/
def latestReleaseFor (s : Settings) (assetStem : String) : Raising ReleaseInfo := do
  let (apiBase, repo) := s.releases
  if !s.otaOverridesAllowed && !Text.startsWith apiBase "https://" then
    throw ⟨.releaseNotFound, s!"refuse insecure release API base: '{apiBase}'"⟩
  let base := String.ofList (apiBase.toList.rdropWhile (· = '/'))
  let url := s!"{base}/repos/{repo}/releases/latest"
  match ← ExceptT.lift (act (.getJson url)) with
  | .ok payload => attempt (pure (readRelease assetStem s.platformTag url payload))
  | .error e =>
    if e.kind = .request then throw ⟨.releaseNotFound, s!"GitHub releases lookup failed: {e.message}"⟩
    else throw e

/-! ### The bootstrap -/

inductive BootstrapError
  | operation (message : String)
  | noInternet (message : String)
  deriving DecidableEq

structure GhAsset where
  name : String
  browserDownloadUrl : String
  size : Option ℕ
  deriving DecidableEq

structure GhRelease where
  tagName : String
  assets : List GhAsset
  deriving DecidableEq

/-- A field of an object, which must not be there twice. -/
def uniqueField (l : List (String × Json)) (key : String) : Option (Option Json) :=
  match l.filter (·.1 = key) with
  | [] => some none
  | [e] => some (some e.2)
  | _ => none

def asStr : Json → Option String
  | .str s => some s
  | _ => none

/-- An optional number of 64 bits. -/
def asSize : Json → Option (Option ℕ)
  | .null => some none
  | .int (.ofNat n) => if n < 2 ^ 64 then some (some n) else none
  | _ => none

/-- An asset is read from an object, or from an array of its fields. -/
def GhAsset.read : Json → Option GhAsset
  | .obj l => do
    let name ← (← uniqueField l "name").bind asStr
    let url ← (← uniqueField l "browser_download_url").bind asStr
    let size ← match ← uniqueField l "size" with
      | some v => asSize v
      | none => some none
    pure ⟨name, url, size⟩
  | .arr [.str name, .str url] => some ⟨name, url, none⟩
  | .arr [.str name, .str url, size] => (asSize size).map fun size => ⟨name, url, size⟩
  | _ => none

def readAssets : Json → Option (List GhAsset)
  | .arr l => l.mapM GhAsset.read
  | _ => none

def GhRelease.read : Json → Option GhRelease
  | .obj l => do
    let tagName ← (← uniqueField l "tag_name").bind asStr
    let assets ← match ← uniqueField l "assets" with
      | some v => readAssets v
      | none => some []
    pure ⟨tagName, assets⟩
  | .arr [.str tagName] => some ⟨tagName, []⟩
  | .arr [.str tagName, assets] => (readAssets assets).map fun assets => ⟨tagName, assets⟩
  | _ => none

inductive Shape
  | desktop
  | headless
  deriving DecidableEq

def Shape.text : Shape → String
  | .desktop => "desktop"
  | .headless => "headless"

/-- What `boot.json` says of the asset. -/
structure BootConfig where
  shape : Shape
  assetRepo : String
  assetUrl : Option String

/-- `asset_basename` -/
def BootConfig.assetBasename (c : BootConfig) (os : TargetOs) (arch : TargetArch) : String :=
  "locai-link-" ++ c.shape.text ++ "-" ++ targetOs os ++ "-" ++ targetArch arch

structure AssetTarget where
  version : String
  assetName : String
  downloadUrl : String
  checksumsUrl : Option String
  sha256Url : Option String
  expectedSize : Option ℕ
  deriving DecidableEq

/-- `eq_ignore_ascii_case` -/
def eqIgnoreAsciiCase (a b : String) : Bool := Text.lower a.toList = Text.lower b.toList

/-- `resolve_asset`, from the release on. -/
def resolveRelease (basename : String) (release : GhRelease) : Except BootstrapError AssetTarget :=
  let version := withoutV release.tagName
  let want := basename ++ "-v" ++ version ++ ".tar.gz"
  match release.assets.find? (·.name = want) with
  | none => .error (.operation s!"release {release.tagName} has no asset named {want}")
  | some asset =>
    let checksumsUrl := (release.assets.find? fun a => eqIgnoreAsciiCase a.name "checksums.txt").map (·.browserDownloadUrl)
    let shaName := want ++ ".sha256"
    let sha256Url := (release.assets.find? (·.name = shaName)).map (·.browserDownloadUrl)
    if checksumsUrl.isNone && sha256Url.isNone then
      .error (.operation s!"release {release.tagName} has neither checksums.txt nor sidecar {shaName}")
    else .ok ⟨version, asset.name, asset.browserDownloadUrl, checksumsUrl, sha256Url, asset.size⟩

/-- The part after the last `-v` of a name. -/
def afterLastV (l : List Char) : Option (List Char) :=
  match l with
  | [] => none
  | c :: l =>
    match afterLastV l with
    | some rest => some rest
    | none => if c = '-' ∧ l.head? = some 'v' then some l.tail else none

/-- `strip_suffix` -/
def stripSuffix (s ending : String) : Option String :=
  if Text.endsWith s ending then some (String.ofList (s.toList.take (s.toList.length - ending.toList.length))) else none

/-- `parse_version_from_asset_name` -/
def parseVersionFromAssetName (name : String) : Option String := do
  let stem ← (stripSuffix name ".tar.gz").or (stripSuffix name ".tgz")
  let after ← afterLastV stem.toList
  if after = [] then none else some (String.ofList after)

/-- `resolve_direct` -/
def resolveDirect (url : String) : Except BootstrapError AssetTarget :=
  let parts := Text.split '/' url.toList
  let assetName := String.ofList (parts.getLast?.getD [])
  match parseVersionFromAssetName assetName with
  | none => .error (.operation s!"could not parse -v<version>- out of asset filename: {assetName}")
  | some version =>
    let dir := if parts.length ≤ 1 then none else some (String.ofList (List.intercalate ['/'] parts.dropLast))
    .ok ⟨version, assetName, url, dir.map (· ++ "/checksums.txt"), some (url ++ ".sha256"), none⟩

/-- `resolve_asset`, with what the request for a URL gives. -/
def resolveAsset (os : TargetOs) (arch : TargetArch) (config : BootConfig) (get : String → Except BootstrapError Json) :
    Except BootstrapError AssetTarget :=
  match config.assetUrl with
  | some url => resolveDirect url
  | none => do
    let body ← get s!"https://api.github.com/repos/{config.assetRepo}/releases/latest"
    match GhRelease.read body with
    | none => .error (.operation "malformed releases response")
    | some release => resolveRelease (config.assetBasename os arch) release

end Install
end LocaiLink
