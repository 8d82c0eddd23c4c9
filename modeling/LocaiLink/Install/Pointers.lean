/-
# The version pointers of an install root

`current` says which version runs and `previous` which one ran before: a link to
`versions/<v>`, or a text file with the version's name. The updater reads and
moves them with `_resolve_pointer`, `_read_pointer_version` and `flip_current`,
the launcher with `resolve_current_version` and `write_current_pointer` (one for
the bootstrap, one for the rollback), and the app reads `installed_version`.
-/
import LocaiLink.Install.Disk

namespace LocaiLink
namespace Install

/-! ### The layout -/

def versionsDir : String := "versions"
def stagingDir : String := "staging"
def currentLink : String := "current"
def previousLink : String := "previous"
def currentPointerFile : String := "CURRENT"
def previousPointerFile : String := "PREVIOUS"
def manifestName : String := "manifest.json"
def runtimeBinary : String := "locai-link-runtime"
def updatePendingStamp : String := ".update-pending"

/-- `versions/<v>`, from the install root. A version that is an absolute path stands
for itself. -/
def versionPath (v : String) : Path := (⟨0, [versionsDir]⟩ : Path).div v

def versionDir (root : Place) (v : String) : Place := (versionPath v).resolve root

/-- The name of one entry of a directory. -/
structure PlainName (v : String) : Prop where
  nonempty : v ≠ ""
  notDot : v ≠ "."
  notUp : v ≠ ".."
  single : '/' ∉ v.toList

theorem PlainName.path {v : String} (h : PlainName v) : Path.ofString v = ⟨0, [v]⟩ :=
  Path.ofString_single h.nonempty h.notDot h.single

theorem PlainName.versionPath {v : String} (h : PlainName v) : versionPath v = ⟨0, [versionsDir, v]⟩ := by
  rw [Install.versionPath, Path.div, Path.join, h.path]
  rfl

theorem PlainName.versionDir {v : String} (h : PlainName v) (root : Place) :
    versionDir root v = root ++ [versionsDir, v] := by
  rw [Install.versionDir, h.versionPath, Path.resolve]
  simp [Path.isAbsolute, Path.enter, versionsDir, h.notUp]

/-- One of the two pointers, with its link and its text file. -/
structure Pointer where
  link : String
  file : String
  deriving DecidableEq

def current : Pointer := ⟨currentLink, currentPointerFile⟩

def previous : Pointer := ⟨previousLink, previousPointerFile⟩

/-! ### The updater's readers -/

/-- `read_text`, none where there is no file. -/
def readText (p : Place) (t : Fs Bytes) : Except Error (Option (List Char)) :=
  if t.isFile p then
    match (t.data p).bind Bytes.decode with
    | some s => .ok (some (Text.universalNewlines s.toList))
    | none => .error ⟨.other, "'utf-8' codec can't decode"⟩
  else .ok none

/-- `_resolve_pointer`: the directory of the version. -/
def resolvePointer (root : Place) (ptr : Pointer) (t : Fs Bytes) : Except Error (Option Place) :=
  match (t.follow Fs.maxLinks (root ++ [ptr.link])).filter fun p => t.isDir p with
  | some p => .ok (some p)
  | none => do
    match ← readText (root ++ [ptr.file]) t with
    | some text =>
      let target := versionDir root (String.ofList (Text.strip text))
      pure (if t.isDir target then some target else none)
    | none => pure none

/-- `_read_pointer_version`. -/
def readPointerVersion (root : Place) (ptr : Pointer) (t : Fs Bytes) : Except Error (Option String) :=
  match t.node (root ++ [ptr.link]) with
  | some (.link target) => .ok (some target.name)
  | _ => do
    match ← readText (root ++ [ptr.file]) t with
    | some text =>
      let version := String.ofList (Text.strip text)
      pure (if version = "" then none else some version)
    | none => pure none

def resolveCurrent (root : Place) (t : Fs Bytes) : Except Error (Option Place) := resolvePointer root current t

/-! ### The updater's writer -/

/-- `_install_uses_symlink`. -/
def installUsesSymlink (win32 : Bool) (root : Place) (t : Fs Bytes) : Bool :=
  if t.isLink (root ++ [currentLink]) then true
  else if t.isFile (root ++ [currentPointerFile]) then false
  else !win32

/-- The name of a new temporary directory. -/
def tempName (root : Place) (t : Fs Bytes) : String :=
  ((List.range (t.support.length + 1)).map fun n => s!"tmp{n}").find? (fun name => (t.node (root ++ [name])).isNone) |>.getD
    "tmp"

/-- `with tempfile.TemporaryDirectory(..)`: the directory goes when the block is left,
also by what it raises. -/
def withTemp {α : Type} (root : Place) (body : Place → Raising α) : Raising α := do
  let td := root ++ [tempName root (← look)]
  attempt (act (.mkdirs td))
  let r ← ExceptT.lift (body td).run
  attempt (act (.rmtree td))
  match r with
  | .ok a => pure a
  | .error e => throw e

/-- A stray node of the other shape goes. -/
def unlinkIf (c : Fs Bytes → Bool) (p : Place) : Raising Unit := do
  if c (← look) then attempt (act (.unlink p))

/-- `_write_pointer`. -/
def writePointer (root : Place) (ptr : Pointer) (version : String) (useSymlink : Bool) : Raising Unit := do
  if useSymlink then
    withTemp root fun td => do
      let tmp := td ++ ["link.tmp"]
      attempt (act (.symlink (versionPath version) tmp))
      let staged := root ++ ["." ++ ptr.link ++ ".tmp"]
      unlinkIf (fun t => t.there staged || t.isLink staged) staged
      attempt (act (.rename tmp staged))
      attempt (act (.rename staged (root ++ [ptr.link])))
    unlinkIf (fun t => t.isFile (root ++ [ptr.file])) (root ++ [ptr.file])
  else
    let pointer := root ++ [ptr.file]
    let tmp := root ++ [ptr.file ++ ".tmp"]
    attempt (act (.write tmp (Bytes.encode (version ++ "\n"))))
    attempt (act (.rename tmp pointer))
    unlinkIf (fun t => t.isLink (root ++ [ptr.link])) (root ++ [ptr.link])

/-- `flip_current`: point `current` at a version, and `previous` at the one before. -/
def flipCurrent (win32 : Bool) (root : Place) (newVersion : String) : Raising Unit := do
  let t ← look
  if t.isDir (versionDir root newVersion) then
    let useSymlink := installUsesSymlink win32 root t
    let oldVersion ← attempt (pure (readPointerVersion root current t))
    writePointer root current newVersion useSymlink
    match oldVersion with
    | some old => if old ≠ "" ∧ old ≠ newVersion then writePointer root previous old useSymlink
    | none => pure ()
  else throw ⟨.bundleUpdate, s!"Cannot flip current to missing version: {((⟨1, root⟩ : Path).join (versionPath newVersion)).text}"⟩

/-! ### The launcher -/

/-- `Path::file_name`: none for a path that ends in `..`, or has no part. -/
def fileName (p : Path) : Option String := p.parts.getLast?.filter (· ≠ "..")

/-- `fs::read_to_string`, where an error is none. -/
def readToString (p : Place) (t : Fs Bytes) : Option (List Char) :=
  ((t.data p).bind Bytes.decode).map String.toList

def linkTarget (p : Place) (t : Fs Bytes) : Option Path :=
  match t.node p with
  | some (.link target) => some target
  | _ => none

/-- `resolve_current_version`. -/
def resolveCurrentVersion (root : Place) (t : Fs Bytes) : Option String :=
  match (linkTarget (root ++ [currentLink]) t).bind fileName with
  | some name => some name
  | none =>
    ((readToString (root ++ [currentPointerFile]) t).map fun s => String.ofList (Text.trim s)).filter (· ≠ "")

/-- `let _ = ..`: an error is passed over. -/
def ignoring (p : Script (Except Error Unit)) : Raising Unit := do
  let _ ← ExceptT.lift p

/-- `map_err`: what is raised, with a text in front. -/
def mapErr (what : String) (p : Script (Except Error Unit)) : Raising Unit := do
  match ← ExceptT.lift p with
  | .ok () => pure ()
  | .error e => throw ⟨.other, s!"{what}: {e.message}"⟩

/-- The launcher looks at a path, where an error is taken for nothing there. -/
def peek : Raising (Fs Bytes) := do
  match ← ExceptT.lift (act .look) with
  | .ok t => pure t
  | .error _ => pure .empty

/-- `remove_if_regular_file`. -/
def removeIfRegularFile (p : Place) : Raising Unit := do
  let t ← peek
  if (t.node p).isSome && !t.isLink p then ignoring (act (.unlink p))

/-- `remove_if_symlink`. -/
def removeIfSymlink (p : Place) : Raising Unit := do
  if (← peek).isLink p then ignoring (act (.unlink p))

/-- The text shape of the launcher's writers. -/
def writePointerFile (what : String) (root : Place) (version : String) : Raising Unit := do
  let pointer := root ++ [currentPointerFile]
  let tmp := root ++ [currentPointerFile ++ "." ++ what ++ ".tmp"]
  mapErr s!"write {what} pointer" (act (.write tmp (Bytes.encode (version ++ "\n"))))
  mapErr s!"rename {what} pointer" (act (.rename tmp pointer))
  removeIfSymlink (root ++ [currentLink])

/-- The link shape of the launcher's writers; the text shape where a link is not
permitted. -/
def writePointerLink (what : String) (root : Place) (version : String) : Raising Unit := do
  let tmp := root ++ ["." ++ currentLink ++ "." ++ what ++ ".tmp"]
  ignoring (act (.unlink tmp))
  match ← ExceptT.lift (act (.symlink (versionPath version) tmp)) with
  | .ok () =>
    mapErr s!"rename {what} symlink" (act (.rename tmp (root ++ [currentLink])))
    removeIfRegularFile (root ++ [currentPointerFile])
  | .error _ =>
    ignoring (act (.unlink tmp))
    writePointerFile what root version

/-- `write_current_pointer` of the bootstrap. -/
def writeBootstrapPointer (root : Place) (version : String) : Raising Unit := writePointerLink "bootstrap" root version

/-- `write_current_pointer` of the rollback keeps the shape of the install. -/
def writeRollbackPointer (root : Place) (version : String) : Raising Unit := do
  let t ← peek
  if t.isLink (root ++ [currentLink]) || !t.isFile (root ++ [currentPointerFile]) then
    writePointerLink "rollback" root version
  else writePointerFile "rollback" root version

/-! ### The app -/

/-- `resolve_current` of `shared/install.rs`: a link, or the text of a file of that
name. -/
def resolveSharedCurrent (p : Place) (t : Fs Bytes) : Option Path :=
  match linkTarget p t with
  | some target => some target
  | none =>
    ((readToString p t).map fun s => String.ofList (Text.trim s)).filter (· ≠ "") |>.map Path.ofString

/-- `InstalledVersion`. -/
structure InstalledVersion where
  version : String
  path : Place

/-- `installed_version`. -/
def installedVersion (root : Place) (t : Fs Bytes) : Option InstalledVersion := do
  let target ← resolveSharedCurrent (root ++ [currentLink]) t
  let resolved := (⟨1, root⟩ : Path).join target
  if t.there (target.resolve root) then
    let version ← fileName resolved
    pure ⟨version, target.resolve root⟩
  else none

end Install
end LocaiLink
