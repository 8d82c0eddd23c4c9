/-
# Unpacking a release in the launcher

`extract_tarball` removes what is in the way of `versions/<v>` and writes the entries
of the archive that are below `versions/<v>/`, one after the other, up to the first that
it rejects. How an entry is written is up to the archive library (`Unpack`), of which
only is known that it writes where it is told to.
-/
import LocaiLink.Base.Drive
import LocaiLink.Base.Prog

namespace LocaiLink
namespace Install
namespace Tarball

def VERSIONS_DIR : String := "versions"

def MAX_EXTRACTED_BYTES : ℕ := 8 * 1024 * 1024 * 1024

/-! ### Entries -/

inductive EntryType
  | regular | directory | symlink | hardLink | other
  deriving DecidableEq

structure Entry where
  entryType : EntryType
  path : String
  /-- The size in the header, if it can be read. -/
  size : Option ℕ
  data : Bytes
  deriving DecidableEq

def Entry.isLink (e : Entry) : Bool := e.entryType = .symlink || e.entryType = .hardLink

inductive Component
  | rootDir | curDir | parentDir
  | normal (name : String)
  deriving DecidableEq

def Component.asStr : Component → String
  | .rootDir => "/"
  | .curDir => "."
  | .parentDir => ".."
  | .normal name => name

def component (part : String) : Component := if part = ".." then .parentDir else .normal part

/-- `Path::components`: a dot counts only at the front. -/
def components (path : String) : List Component :=
  let parts := (Text.split '/' path.toList).map String.ofList
  (if path.toList.head? = some '/' then [.rootDir] else if parts.head? = some "." then [.curDir] else []) ++
    (parts.filter fun p => p ≠ "" ∧ p ≠ ".").map component

/-- A last part of a path. -/
structure FileName where
  text : String
  normal : text ≠ "" ∧ text ≠ "." ∧ text ≠ ".."

inductive Err
  | stale | parent
  | entries | entry
  | unsafeType (path : String)
  | unsafeComponent (path : String)
  | mkdir (e : Errno)
  | size
  | unpack
  | noEntries
  deriving DecidableEq

/-! ### What is outside the code -/

/-- How the library unpacks an entry to a path, at each of its calls: whether it succeeds, and the drive afterwards. -/
abbrev Unpack := ℕ → Entry → Place → List String → Drive → Bool × Drive

inductive Act
  | there (path : List String)
  | isDir (path : List String)
  | removeDirAll (name : String)
  | mkdir (path : List String)
  | unpack (e : Entry) (path : List String)

@[reducible] def Act.Resp : Act → Type
  | .there _ | .isDir _ | .removeDirAll _ | .unpack _ _ => Bool
  | .mkdir _ => Except Errno Unit

def sig : Sig := ⟨Act, Act.Resp, Empty⟩

abbrev Script := Prog sig

def act (a : Act) : Script a.Resp := Prog.call (σ := sig) a

/-- Whether a call fails for a reason of its own, and what a removal that fails has removed. -/
structure Answer where
  error : Option Errno := none
  gone : Place → Bool := fun _ => true

structure Env where
  drive : Drive
  oracle : ℕ → Answer
  tick : ℕ

namespace Env

def answer (e : Env) : Answer := e.oracle e.tick

def next (e : Env) (d : Drive) : Env := { e with drive := d, tick := e.tick + 1 }

/-- A directory goes with what is in it, or only some of it, and a link goes itself. -/
def removeDirAll (p : Place) (e : Env) : Bool × Env :=
  match e.drive.tree.node p with
  | some .dir =>
    match e.answer.error with
    | some _ => (false, e.next { e.drive with tree := e.drive.tree.drop e.answer.gone p, touched := p :: e.drive.touched })
    | none => (true, e.next { e.drive with tree := e.drive.tree.drop (fun _ => true) p, touched := p :: e.drive.touched })
  | some (.link _) =>
    match e.answer.error with
    | some _ => (false, e.next e.drive)
    | none => (true, e.next (e.drive.put p none))
  | _ => (false, e.next e.drive)

def mkdir (dir : Place) (path : List String) (e : Env) : Except Errno Unit × Env :=
  match e.answer.error with
  | some err => (.error err, e.next e.drive)
  | none => ((e.drive.mkdir dir path).1, e.next (e.drive.mkdir dir path).2)

/-- Paths are from the directory that the target is in. -/
def perform (unpack : Unpack) (dir : Place) : Prog.Sem sig Env
  | .there path, e => ((e.drive.stat dir true path).isSome, e.next e.drive)
  | .isDir path, e => (e.drive.isDir dir true path, e.next e.drive)
  | .removeDirAll name, e => e.removeDirAll (dir ++ [name])
  | .mkdir path, e => e.mkdir dir path
  | .unpack entry path, e =>
    ((unpack e.tick entry dir path e.drive).1, e.next (unpack e.tick entry dir path e.drive).2)

end Env

/-! ### The code -/

def makeDir (path : List String) : Script (Except Errno Unit) := do
  match ← act (.mkdir path) with
  | .ok () => pure (.ok ())
  | .error err => do
    if ← act (.isDir path) then pure (.ok ()) else pure (.error err)

/-- `fs::create_dir_all`, of the parts from the last to the first; what leads to the first is there. -/
def createDirAll : List String → Script (Except Errno Unit)
  | [] => makeDir []
  | name :: up => do
    match ← act (.mkdir (name :: up).reverse) with
    | .ok () => pure (.ok ())
    | .error .missing => do
      match ← createDirAll up with
      | .ok () => makeDir (name :: up).reverse
      | .error err => pure (.error err)
    | .error err => do
      if ← act (.isDir (name :: up).reverse) then pure (.ok ()) else pure (.error err)

/-- The parts of an entry's path below `versions/<name>`, `none` for an entry that is elsewhere. -/
def relParts (name : String) (e : Entry) : Option (List Component) :=
  match components e.path with
  | first :: versionDir :: rest => if first.asStr = VERSIONS_DIR ∧ versionDir.asStr = name then some rest else none
  | _ => none

def Component.isPlain : Component → Bool
  | .normal _ | .curDir => true
  | _ => false

/-- What is written of one entry: the bytes that are counted so far, `none` for an entry that is not written. -/
def extractEntry (name : String) (written : ℕ) (e : Entry) : Script (Except Err (Option ℕ)) :=
  if e.isLink then pure (.error (.unsafeType e.path))
  else
    match relParts name e with
    | none => pure (.ok none)
    | some rel =>
      if !rel.all Component.isPlain then pure (.error (.unsafeComponent e.path))
      else do
        let out := name :: rel.map Component.asStr
        match ← createDirAll out.dropLast.reverse with
        | .error err => pure (.error (.mkdir err))
        | .ok () =>
          let written := min (2 ^ 64 - 1) (written + e.size.getD 0)
          if written > MAX_EXTRACTED_BYTES then pure (.error .size)
          else do
            if ← act (.unpack e out) then pure (.ok (some written)) else pure (.error .unpack)

/-- The loop over the entries, each of which may turn out to be broken. -/
def extractEntries (name : String) : List (Option Entry) → Bool → ℕ → Script (Except Err Unit)
  | [], any, _ => pure (if any then .ok () else .error .noEntries)
  | none :: _, _, _ => pure (.error .entry)
  | some e :: es, any, written => do
    match ← extractEntry name written e with
    | .error err => pure (.error err)
    | .ok none => extractEntries name es any written
    | .ok (some written) => extractEntries name es true written

/-- What a failed bootstrap left behind is removed, if there is something. -/
def removeStale (name : String) : Script Bool := do
  if ← act (.there [name]) then act (.removeDirAll name) else pure true

def makeParent : Script (Except Err Unit) := do
  match ← createDirAll [] with
  | .ok () => pure (.ok ())
  | .error _ => pure (.error .parent)

/-- What comes before the loop. -/
def prepare (name : String) : Script (Except Err Unit) := do
  if ← removeStale name then makeParent else pure (.error .stale)

/-- `extract_tarball`, of an archive whose entries can be listed or not. -/
def extractTarball (target : FileName) (archive : Option (List (Option Entry))) : Script (Except Err Unit) := do
  match ← prepare target.text with
  | .error err => pure (.error err)
  | .ok () =>
    match archive with
    | none => pure (.error .entries)
    | some entries => extractEntries target.text entries false 0

end Tarball
end Install
end LocaiLink
