/-
# The engines that are fetched from the store

`ensure_engine` brings an engine to `dest_dir`: it downloads the archive that the
manifest names, checks its hash, extracts it into a staging directory, writes the hash
into a marker file and swaps the staging directory for `dest_dir` with two renames.
Any number of processes call it, under a lock between processes, and each of its file
operations may raise, or be the last one before its process dies.
-/
import LocaiLink.Artifacts.Manifest
import LocaiLink.Base.Dict
import LocaiLink.Base.Path
import LocaiLink.Base.Machine

namespace LocaiLink
namespace Engines

/-! ### Directories -/

/-- What a directory has under a name. A link names an entry of the directory. -/
inductive Node
  | file (content : Bytes)
  | link (target : String)
  deriving DecidableEq

abbrev Tree := Dict String Node

/-- Whether a last part of a path names an entry: not the directory, not its parent. -/
def named (n : String) : Bool := n ≠ "" && n ≠ ".."

/-- What a name leads to: an entry, which need not be there, or a directory. -/
inductive Target
  | entry (n : String)
  | dir
  | loop
  deriving DecidableEq

namespace Tree

def follow (t : Tree) : ℕ → String → Target
  | 0, _ => .loop
  | fuel + 1, n =>
    if named n then
      match t.get? n with
      | some (.link target) => follow t fuel target
      | _ => .entry n
    else .dir

/-- Where a name leads when up to forty links are followed. -/
def target (t : Tree) (n : String) : Target := t.follow 41 n

def exists' (t : Tree) (n : String) : Bool :=
  match t.target n with
  | .entry m => t.contains m
  | .dir => true
  | .loop => false

def read (t : Tree) (n : String) : Option Bytes :=
  match t.target n with
  | .entry m =>
    match t.get? m with
    | some (.file content) => some content
    | _ => none
  | _ => none

/-- A file that is opened for writing through its name, `none` when that is a directory. -/
def write (t : Tree) (n : String) (content : Bytes) : Option Tree :=
  match t.target n with
  | .entry m => some (t.set m (.file content))
  | _ => none

/-- `read_text` -/
def readText (t : Tree) (n : String) : Option String :=
  ((t.read n).bind Bytes.decode).map fun text => String.ofList (Text.universalNewlines text.toList)

/-- What is left of a directory of which only some entries stay. -/
def only (names : List String) (t : Tree) : Tree := Dict.ofList (t.entries.filter fun e => names.contains e.1)

end Tree

/-! ### Archives -/

inductive Content
  | file (content : Bytes)
  | symlink (linkname : String)
  | other

structure TarMember where
  name : String
  content : Content

/-- The last part of a path. -/
def base (path : String) : String := (Path.ofString path).name

/-- How archives are read, and the hash of a file: a text of hexadecimal digits. -/
structure Formats where
  tar : Bytes → Option (List TarMember)
  zip : Bytes → Option (List (String × Bytes))
  sha256 : Bytes → String
  hex : ∀ content, (sha256 content).toList.all Text.isHexDigit = true

/-! ### What is outside the code -/

/-- What a file operation or a request raises. -/
inductive Raised
  | http (code : ℕ)
  | transient
  | os
  | other (message : String)
  deriving DecidableEq

/-- The code goes no further: something is raised, or the process has died. -/
inductive Stop
  | raised (e : Raised)
  | died
  deriving DecidableEq

/-- How an operation goes: whether it stops the code, and then whether and how far it took
effect; what `rmtree` has to leave behind; what is downloaded. -/
structure Answer where
  stop : Option Stop := none
  effect : Bool := true
  left : Option (List String) := none
  bytes : Bytes := []
  manifest : Option Artifacts.Manifest := none

/-- The engine's directory, those beside it and the cached archives. `aside` is not on the
disk: `dest` was moved aside, and the process that moved it is alive and has still to move
the new one in. -/
structure Disk where
  dest : Option Tree
  old : Option Tree
  staging : Option Tree
  cache : Dict String Bytes
  aside : Bool
  oracle : ℕ → Answer
  tick : ℕ

def MARKER : String := ".artifact-sha256"

def partialName (archive : String) : String := archive ++ ".partial"

/-- A `rmtree` that ignores errors: the directory is gone, or some of it stays. -/
def rmtree (left : Option (List String)) (dir : Option Tree) : Option Tree :=
  dir.bind fun t => left.map fun names => t.only names

namespace Disk

def ask (s : Disk) : Answer := s.oracle s.tick

def tock (s : Disk) : Disk := { s with tick := s.tick + 1 }

/-- An operation that changes nothing. -/
def look {α : Type} (value : Except Raised α) (s : Disk) : Except Stop α × Disk :=
  (match s.ask.stop with
    | some e => .error e
    | none => value.mapError .raised, s.tock)

/-- A change that is made as a whole: when it raises there is none, when the process dies it
is made or not. `f` says what it cannot be made for. -/
def change (f : Disk → Option Disk) (s : Disk) : Except Stop Unit × Disk :=
  match s.ask.stop with
  | none =>
    match f s with
    | some s' => (.ok (), s'.tock)
    | none => (.error (.raised .os), s.tock)
  | some (.raised e) => (.error (.raised e), s.tock)
  | some .died => (.error .died, if s.ask.effect then ((f s).getD s).tock else s.tock)

/-- A content that is written: when that stops the code, something else may be written. -/
def store (f : Bytes → Disk → Option Disk) (content : Bytes) (s : Disk) : Except Stop Unit × Disk :=
  match s.ask.stop with
  | none =>
    match f content s with
    | some s' => (.ok (), s'.tock)
    | none => (.error (.raised .os), s.tock)
  | some e => (.error e, if s.ask.effect then ((f s.ask.bytes s).getD s).tock else s.tock)

end Disk

/-! ### The actions -/

inductive Act
  | fetchManifest
  -- the installed engine
  | isDir
  | markerExists
  | readMarker
  | mkdirParent
  | openLock
  -- the cached archives
  | mkdirCache
  | cached (archive : String)
  | digest (archive : String)
  | retrieve (archive : String)
  | replacePartial (archive : String)
  | size (archive : String)
  | unlinkCached (file : String)
  -- the staging directory
  | rmtreeStaging
  | mkdirStaging
  | getmembers (archive : String)
  | namelist (archive : String)
  | extractFile (n : String) (content : Bytes)
  | linkExists (n : String)
  | symlink (n target : String)
  | writeMarker (sha : String)
  -- the swap
  | rmtreeOld
  | destExists
  | moveAside
  | moveIn

@[reducible] def Act.Value : Act → Type
  | .fetchManifest => Artifacts.Manifest
  | .isDir | .markerExists | .cached _ | .linkExists _ | .destExists => Bool
  | .readMarker | .digest _ => String
  | .size _ => ℕ
  | .getmembers _ => List TarMember
  | .namelist _ => List (String × Bytes)
  | _ => Unit

@[reducible] def Act.Resp (a : Act) : Type := Except Stop a.Value

def engineSig : Sig := ⟨Act, Act.Resp, Unit⟩

instance : DecidableEq engineSig.Lock := inferInstanceAs (DecidableEq Unit)

namespace Disk


/-- A directory that a rename replaces: there is none, or an empty one. -/
def vacant : Option Tree → Bool
  | none => true
  | some t => t.entries.isEmpty

/-- `os.replace(dest, old)` -/
def toOld (s : Disk) : Option Disk :=
  if vacant s.old then s.dest.map fun t => { s with dest := none, old := some t } else none

/-- `os.replace(staging, dest)` -/
def toDest (s : Disk) : Option Disk :=
  if vacant s.dest then s.staging.map fun t => { s with dest := some t, staging := none } else none

def stage (t : Tree) (s : Disk) : Disk := { s with staging := some t }

def cacheAs (file : String) (content : Bytes) (s : Disk) : Disk := { s with cache := s.cache.set file content }

def uncache (file : String) (s : Disk) : Disk := { s with cache := s.cache.erase file }

/-- `os.replace(partial, dest)` -/
def takePartial (archive : String) (s : Disk) : Option Disk :=
  (s.cache.get? (partialName archive)).map fun b => (s.uncache (partialName archive)).cacheAs archive b

/-- A file of the staging directory is written. -/
def writeAs (n : String) (content : Bytes) (s : Disk) : Option Disk :=
  (s.staging.bind fun t => t.write n content).map fun t => s.stage t

/-- A link is made in the staging directory, where nothing has its name. -/
def linkAs (n target : String) (s : Disk) : Option Disk :=
  s.staging.bind fun t =>
    if named n && !t.contains n && target ≠ "" then some (s.stage (t.set n (.link target))) else none

/-- What each action does, and its answer. -/
def perform (F : Formats) : (a : Act) → Disk → a.Resp × Disk
  | .fetchManifest, s => s.look (s.ask.manifest.elim (.error (.other "ManifestError")) .ok)
  | .isDir, s => s.look (.ok s.dest.isSome)
  | .markerExists, s => s.look (.ok (s.dest.any fun t => t.exists' MARKER))
  | .readMarker, s => s.look ((s.dest.bind fun t => t.readText MARKER).elim (.error .os) .ok)
  | .mkdirParent, s => s.look (.ok ())
  | .openLock, s => s.look (.ok ())
  | .mkdirCache, s => s.look (.ok ())
  | .cached archive, s => s.look (.ok (!named archive || s.cache.contains archive))
  | .digest archive, s => s.look ((s.cache.get? archive).elim (.error .os) fun b => .ok (F.sha256 b))
  | .retrieve archive, s => s.store (fun b s => some (s.cacheAs (partialName archive) b)) s.ask.bytes
  | .replacePartial archive, s => s.change (takePartial archive)
  | .size archive, s => s.look ((s.cache.get? archive).elim (.error .os) fun b => .ok b.length)
  | .unlinkCached file, s => s.change fun s => some (s.uncache file)
  | .rmtreeStaging, s =>
    (if s.ask.stop = some .died then .error .died else .ok (),
      { s with staging := rmtree s.ask.left s.staging }.tock)
  | .mkdirStaging, s => s.change fun s => some (s.stage (s.staging.getD .empty))
  | .getmembers archive, s =>
    s.look (((s.cache.get? archive).bind F.tar).elim (.error (.other "ReadError")) .ok)
  | .namelist archive, s =>
    s.look (((s.cache.get? archive).bind F.zip).elim (.error (.other "BadZipFile")) .ok)
  | .extractFile n content, s => s.store (writeAs n) content
  | .linkExists n, s => s.look (.ok (s.staging.any fun t => t.exists' n))
  | .symlink n target, s => s.change (linkAs n target)
  | .writeMarker sha, s => s.store (writeAs MARKER) (Bytes.encode sha)
  | .rmtreeOld, s =>
    (if s.ask.stop = some .died then .error .died else .ok (), { s with old := rmtree s.ask.left s.old }.tock)
  | .destExists, s => s.look (.ok s.dest.isSome)
  | .moveAside, s =>
    let (r, s') := s.change toOld
    (r, { s' with aside := r.toBool })
  | .moveIn, s =>
    let (r, s') := s.change toDest
    (r, { s' with aside := false })

end Disk

/-! ### The code -/

/-- Code that raises, or whose process dies. -/
abbrev Raising (α : Type) := ExceptT Stop (Prog engineSig) α

def act (a : Act) : Raising a.Value := ExceptT.mk (Prog.call (σ := engineSig) a)

/-- Whether a value is this text. -/
def isText : Json → String → Bool
  | .str s, text => s = text
  | _, _ => false

def raise {α : Type} (message : String) : Raising α := throw (.raised (.other message))

/-- The attempts that are left to download an archive. -/
def attempts (archive : String) : ℕ → Raising Unit
  | 0 => pure ()
  | n + 1 =>
    tryCatch (do
      act (.retrieve archive)
      act (.replacePartial archive))
      fun
        | .raised (.http code) => do
          act (.unlinkCached (partialName archive))
          if code < 500 ∨ n = 0 then throw (.raised (.http code)) else attempts archive n
        | .raised .transient => do
          act (.unlinkCached (partialName archive))
          if n = 0 then throw (.raised .transient) else attempts archive n
        | e => throw e

/-- `_download_to` -/
def downloadTo (archive : String) : Raising Unit := do
  act .mkdirCache
  attempts archive 3

/-- Whether the archive is in the cache, with the hash that is wanted. -/
def isCached (variant : Artifacts.Variant) (archive : String) : Raising Bool := do
  if ← act (.cached archive) then return isText variant.sha256 (← act (.digest archive))
  return false

def checkSize (variant : Artifacts.Variant) (archive : String) : Raising Unit := do
  if !variant.size.eq .null then
    if !variant.size.eq (.int (← act (.size archive))) then
      act (.unlinkCached archive)
      raise "size mismatch"

def checkDigest (variant : Artifacts.Variant) (archive : String) : Raising Unit := do
  if !isText variant.sha256 (← act (.digest archive)) then
    act (.unlinkCached archive)
    raise "sha256 mismatch"

/-- `fetch_variant` -/
def fetchVariant (variant : Artifacts.Variant) : Raising String := do
  act .mkdirCache
  match variant.path with
  | .str path =>
    let archive := base path
    if ← isCached variant archive then return archive
    downloadTo archive
    checkSize variant archive
    checkDigest variant archive
    return archive
  | _ => raise "argument should be a str or an os.PathLike object"

/-- The files of a tar archive, flat. -/
def extractFiles : List TarMember → Raising Unit
  | [] => pure ()
  | m :: members => do
    match m.content with
    | .file content => act (.extractFile (base m.name) content)
    | _ => pure ()
    extractFiles members

/-- Its links, of which those that the file system refuses are left out. -/
def extractLinks : List TarMember → Raising Unit
  | [] => pure ()
  | m :: members => do
    match m.content with
    | .symlink linkname =>
      if !(← act (.linkExists (base m.name))) then
        tryCatch (act (.symlink (base m.name) (base linkname))) fun
          | .raised .os => pure ()
          | e => throw e
    | _ => pure ()
    extractLinks members

/-- The files of a zip archive, flat. -/
def extractMembers : List (String × Bytes) → Raising Unit
  | [] => pure ()
  | m :: members => do
    if !Text.endsWith m.1 "/" then act (.extractFile (base m.1) m.2)
    extractMembers members

/-- `_extract` -/
def extract (archive : String) : Raising Unit := do
  act .mkdirStaging
  let name := String.ofList (Text.lower archive.toList)
  if Text.endsWith name ".tar.gz" || Text.endsWith name ".tgz" then
    let members ← act (.getmembers archive)
    extractFiles members
    extractLinks members
  else if Text.endsWith name ".zip" then
    extractMembers (← act (.namelist archive))
  else raise "unknown archive type"

/-- `_atomic_swap` -/
def atomicSwap : Raising Unit := do
  act .rmtreeOld
  if ← act .destExists then act .moveAside
  act .moveIn
  act .rmtreeOld

/-- `_installed` -/
def installed (variant : Artifacts.Variant) : Raising Bool := do
  if ← act .isDir then
    if ← act .markerExists then
      return isText variant.sha256 (String.ofList (Text.strip (← act .readMarker).toList))
  return false

/-- A call of `ensure_engine`. -/
structure Call where
  name : String
  version : Option String
  manifest : Option Artifacts.Manifest
  arch : Option String
  candidates : List String

def writeMarker (sha : Json) : Raising Unit :=
  match sha with
  | .str sha => act (.writeMarker sha)
  | _ => raise "data must be str"

/-- What is done under the lock. -/
def install (variant : Artifacts.Variant) : Raising Unit := do
  if ← installed variant then return
  let archive ← fetchVariant variant
  act .rmtreeStaging
  extract archive
  writeMarker variant.sha256
  atomicSwap
  act (.unlinkCached archive)

def manifestOf (call : Call) : Raising Artifacts.Manifest :=
  match call.manifest with
  | some m => pure m
  | none => act .fetchManifest

/-- `ensure_engine` -/
def ensureEngine (call : Call) : Raising Unit := do
  let manifest ← manifestOf call
  match manifest.variant call.candidates "engines" call.name call.version call.arch with
  | .error _ => raise "no variant"
  | .ok variant =>
    if ← installed variant then return
    act .mkdirParent
    act .openLock
    ExceptT.mk (Prog.locked (σ := engineSig) () (install variant).run)

/-- The processes that call it. -/
def machine (F : Formats) : Machine engineSig Disk Call where
  sem a s := s.perform F a
  reentrant _ := false
  enter call s := some ((ensureEngine call).run >>= fun _ => pure (), s)

/-- No process is at it yet. -/
def load (s : Disk) : Sys engineSig Disk := ⟨s, fun _ => none, []⟩

end Engines
end LocaiLink
