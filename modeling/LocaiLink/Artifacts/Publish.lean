/-
# Publishing engines

`_from_dir` takes a flat directory of archives named `{name}-{version}-{arch}.<ext>`
apart, lays each out in the store and rebuilds the manifest from what is there. The
name is anchored on its first platform token, so the token before it is the whole
version: `published_iff` says for which archives the client gets back what was
published.
-/
import LocaiLink.Artifacts.Manifest
import LocaiLink.Base.Lines
import LocaiLink.Base.Path

namespace LocaiLink.Artifacts

/-! ### The store -/

/-- The names from the root down. -/
abbrev Place := List String

/-- The files; a directory is there when it has one below it. -/
abbrev Files := Dict Place Bytes

namespace Files

/-- The entry of a directory that a place is in. -/
def childOf (dir : Place) (p : Place) : Option String := if dir.isPrefixOf p then p[dir.length]? else none

/-- `sorted(dir.iterdir())` -/
def children (dir : Place) (files : Files) : List String :=
  (files.keys.filterMap (childOf dir)).dedup.insertionSort (· ≤ ·)

def isFile (p : Place) (files : Files) : Bool := files.contains p

/-- A place below another. -/
def below (p q : Place) : Bool := p.isPrefixOf q && p.length < q.length

def isDir (p : Place) (files : Files) : Bool := files.keys.any (below p)

def dirs (dir : Place) (files : Files) : List String := (files.children dir).filter fun c => files.isDir (dir ++ [c])

/-- A file is written where no directory is, in directories that are no files. -/
def write (p : Place) (content : Bytes) (files : Files) : Except String Files :=
  if files.isDir p || files.keys.any (below · p) then .error "Not a directory" else .ok (files.set p content)

end Files

/-! ### Placing an archive -/

def capabilityEngines : String := "engines"

def engineVersions : Dict String String :=
  .ofList [("llama-cpp", "b10289"), ("llama-swap", "247"), ("whisper-cpp", "v1.9.2")]

/-- `_store_filename` -/
def storeFilename (name version arch ext : String) : String := s!"{name}-{version}-{arch}{ext}"

/-- `Path.suffix` of a name. -/
def suffix (name : List Char) : List Char :=
  let last := name.reverse.takeWhile (· ≠ '.')
  if last ≠ [] ∧ last.length + 1 < name.length then '.' :: last.reverse else []

/-- `Path.suffixes` of a name. -/
def suffixes (name : List Char) : List (List Char) :=
  if name.getLast? = some '.' then [] else ((Text.split '.' (name.dropWhile (· = '.'))).drop 1).map ('.' :: ·)

/-- The ending the archive keeps. -/
def archiveExt (name : String) : String :=
  String.ofList <|
    if Text.endsWith name ".tar.gz" then
      let all := suffixes name.toList
      (all.drop (all.length - 2)).flatten
    else suffix name.toList

def relPath (capability name version arch fname : String) : String := s!"{capability}/{name}/{version}/{arch}/{fname}"

/-- `place_artifact`, for an archive of this name and these bytes. -/
def placeArtifact (hexdigest : Bytes → String) (store : Place) (capability name version arch : String) (archive : String)
    (content : Bytes) (files : Files) : Except String Files := do
  let fname := storeFilename name version arch (archiveExt archive)
  let dest := (Path.ofString (relPath capability name version arch fname)).resolve store
  let files ← files.write dest content
  files.write (dest.dropLast ++ [dest.getLastD "" ++ ".sha256"]) (Bytes.encode s!"{hexdigest content}  {fname}\n")

/-! ### The manifest -/

def isArchive (dir : Place) (files : Files) (f : String) : Bool :=
  files.isFile (dir ++ [f]) && !Text.endsWith f ".sha256"

def archives (dir : Place) (files : Files) : List String := (files.children dir).filter (isArchive dir files)

/-- Not the index, and no scratch space. -/
def isCapability (c : String) : Bool := c ≠ "index" && c.toList.head? ≠ some '.'

/-- The directories that the four loops come to. -/
def slots (store : Place) (files : Files) : List Place :=
  ((files.dirs store).filter isCapability).flatMap fun capDir =>
    (files.dirs (store ++ [capDir])).flatMap fun nameDir =>
      (files.dirs (store ++ [capDir, nameDir])).flatMap fun verDir =>
        (files.dirs (store ++ [capDir, nameDir, verDir])).map fun archDir => [capDir, nameDir, verDir, archDir]

/-- The entry of an archive. -/
def record (hexdigest : Bytes → String) (rel : Place) (content : Bytes) : Json :=
  .obj [("path", .str ("/".intercalate rel)), ("sha256", .str (hexdigest content)), ("size", .int content.length)]

def addSlot (hexdigest : Bytes → String) (store : Place) (files : Files) (manifest : Json) (slot : Place) :
    Except String Json :=
  match archives (store ++ slot) files with
  | [] => .ok manifest
  | [art] =>
    let content := (files.get? (store ++ slot ++ [art])).getD []
    match Json.putIn slot (record hexdigest (slot ++ [art]) content) manifest with
    | some manifest => .ok manifest
    | none => .error "object has no attribute 'setdefault'"
  | l =>
    let dir := "/".intercalate slot
    .error s!"{dir} holds {l.length} archives; expected exactly one"

/-- Every engine has a pin among its versions. -/
def defaultsOf (pins : Dict String String) : List (String × Json) → Except String (List (String × Json))
  | [] => .ok []
  | (name, versions) :: l =>
    match pins.get? name with
    | none => .error s!"no pinned ENGINE_VERSIONS entry for engine {name}"
    | some pin =>
      if (versions.get? pin).isSome then (defaultsOf pins l).map ((name, .str pin) :: ·)
      else .error s!"no pinned ENGINE_VERSIONS entry for engine {name}"

def manifestPlace : Place := ["index", "manifest.v1.json"]

def membersOf : Json → List (String × Json)
  | .obj l => l
  | _ => []

/-- The defaults go in when there are some. -/
def withDefaults (defaults : List (String × Json)) (manifest : Json) : Json :=
  if defaults = [] then manifest
  else (Json.putIn ["defaults"] (.obj [(capabilityEngines, .obj defaults)]) manifest).getD manifest

/-- The manifest of what is on disk. -/
def manifestOf (hexdigest : Bytes → String) (pins : Dict String String) (store : Place) (files : Files) :
    Except String Json := do
  let manifest ← (slots store files).foldlM (addSlot hexdigest store files) (.obj [("schema", .int 1)])
  let defaults ← defaultsOf pins (membersOf ((manifest.get? capabilityEngines).getD (.obj [])))
  pure (withDefaults defaults manifest)

/-- `rebuild_manifest`: the manifest is written beside the old one, and replaces it. -/
def rebuildManifest (hexdigest : Bytes → String) (pins : Dict String String) (store : Place) (files : Files) :
    Except String Files := do
  let manifest ← manifestOf hexdigest pins store files
  files.write (store ++ manifestPlace) (Bytes.encode (String.ofList (JsonText.dumps (Json.sortKeys manifest))))

/-! ### Seeding a store -/

def platformTokens : List (List Char) := ["linux".toList, "macos".toList, "windows".toList]

def archiveExts : List (List Char) := [".tar.gz".toList, ".tgz".toList, ".zip".toList]

/-- The name without the first ending it has. -/
def stemOf (name : List Char) : Option (List Char) :=
  (archiveExts.find? fun ext => ext.isSuffixOf name).map fun ext => name.take (name.length - ext.length)

/-- Name, version and arch, as the file's name is taken apart. -/
def parseName (archive : String) : Except String (String × String × String) :=
  match stemOf archive.toList with
  | none => .error s!"unrecognised artifact type {archive}: expected .tar.gz, .tgz, or .zip"
  | some stem =>
    let parts := Text.split '-' stem
    match parts.findIdx? (· ∈ platformTokens) with
    | none | some 0 | some 1 =>
      .error s!"unrecognised artifact name {archive}: expected name-version-platform-arch[-variant]"
    | some (i + 2) =>
      .ok (String.ofList (['-'].intercalate (parts.take (i + 1))), String.ofList ((parts[i + 1]?).getD []),
        String.ofList (['-'].intercalate (parts.drop (i + 2))))

/-- An entry of a directory: its name, and its bytes when it is a file. -/
abbrev DirEntry := String × Option Bytes

def seed (hexdigest : Bytes → String) (store : Place) (files : Files) (e : DirEntry) : Except String Files :=
  if Text.endsWith e.1 ".sha256" then .ok files
  else
    match e.2 with
    | none => .ok files
    | some content => do
      let (name, version, arch) ← parseName e.1
      placeArtifact hexdigest store capabilityEngines name version arch e.1 content files

/-- `_from_dir` -/
def fromDir (hexdigest : Bytes → String) (pins : Dict String String) (store : Place) (source : List DirEntry) (files : Files) :
    Except String Files := do
  let files ← (source.insertionSort fun a b => a.1 ≤ b.1).foldlM (seed hexdigest store) files
  rebuildManifest hexdigest pins store files

end LocaiLink.Artifacts
