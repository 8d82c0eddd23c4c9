/-
# Extracting archives

`extract_archive` refuses an archive with an entry whose name, or whose link's target,
could lead out of the destination, and leaves the rest to `tarfile` and `zipfile`. What
these do with the entries is here as a program of system calls. Each call may also fail
for a reason outside of the archive.
-/
import LocaiLink.Base.Drive
import LocaiLink.Base.Prog

namespace LocaiLink
namespace Archive

/-! ### Exceptions and calls -/

inductive Err
  | fileExists
  /-- Any other `OSError`. -/
  | os
  | extract
  | filter
  | unsafeEntry (message : String)
  | unknownType (message : String)
  | other
  deriving DecidableEq

def Err.isOs : Err → Bool
  | .fileExists | .os => true
  | _ => false

def Err.ofErrno : Errno → Err
  | .taken => .fileExists
  | _ => .os

/-- The types of tar entries that are told apart; a file of an unknown type is a regular one. -/
inductive Kind
  | file | dir | special | symlink | hardlink
  deriving DecidableEq

structure Member where
  name : String
  kind : Kind
  linkname : String
  data : Bytes
  /-- Where the entry begins, which no other entry does. -/
  offset : ℕ
  deriving DecidableEq

def Member.isLink (m : Member) : Bool := m.kind = .symlink || m.kind = .hardlink

structure ZipEntry where
  name : String
  data : Bytes

/-- The system calls that change something, by paths from the destination. -/
inductive Change
  | mkdir (path : List String)
  | mknod (path : List String)
  | write (path : List String) (data : Bytes)
  | unlink (path : List String)
  | symlink (text : String) (path : List String)
  | link (src path : List String)
  | setAttrs (follow : Bool) (path : List String)

/-- Questions, changes, and what a filter finds of an entry. -/
inductive Call
  | there (path : List String)
  | linkThere (path : List String)
  | isDir (path : List String)
  | lstatIsDir (path : List String)
  | change (c : Change)
  | filter (m : Member)

@[reducible] def Call.Resp : Call → Type
  | .there _ | .linkThere _ | .isDir _ => Bool
  | .lstatIsDir _ => Except Err Bool
  | .change _ | .filter _ => Except Err Unit

def sig : Sig := ⟨Call, Call.Resp, Empty⟩

abbrev Raising := ExceptT Err (Prog sig)

def act (c : Call) : Prog sig c.Resp := Prog.call (σ := sig) c

def ask (c : Call) : Raising c.Resp := ExceptT.lift (act c)

def attempt {α : Type} (p : Prog sig (Except Err α)) : Raising α := ExceptT.mk p

def syscall (c : Change) : Raising Unit := attempt (act (.change c))

/-- How a call goes: whether it fails, how much of a file is copied before the archive
turns out to be broken, and whether a hard link is made to what a link leads to. -/
structure Answer where
  error : Option Err := none
  short : Option (ℕ × Err) := none
  follow : Bool := false

structure Env where
  drive : Drive
  oracle : ℕ → Answer
  tick : ℕ

namespace Env

def answer (e : Env) : Answer := e.oracle e.tick

def next (e : Env) (d : Drive) : Env := { e with drive := d, tick := e.tick + 1 }

/-- A text that no system call takes. -/
def hasNul (s : String) : Bool := s.toList.contains (Char.ofNat 0)

/-- A call that changes something, with the texts it is given. -/
def change (texts : List String) (f : Drive → Except Errno Unit × Drive) (e : Env) : Except Err Unit × Env :=
  match (if texts.any hasNul then some .other else none).or e.answer.error with
  | some err => (.error err, e.next e.drive)
  | none => ((f e.drive).1.mapError .ofErrno, e.next (f e.drive).2)

/-- A question, to which a text that no call takes has the answer no. -/
def query (texts : List String) (f : Drive → Bool) (e : Env) : Bool × Env :=
  (!texts.any hasNul && f e.drive, e.next e.drive)

/-- Whether a directory is there, and no link to one; what is missing is none. -/
def lstat (dir : Place) (path : List String) (e : Env) : Except Err Bool :=
  match (if path.any hasNul then some .other else none).or e.answer.error with
  | some err => .error err
  | none =>
    match e.drive.walk dir false path with
    | .ok _ | .error .missing => .ok (e.drive.isDir dir false path)
    | .error _ => .error .os

/-- A file that is copied whole, or up to where the archive is broken. -/
def write (dir : Place) (path : List String) (data : Bytes) (e : Env) : Except Err Unit × Env :=
  match e.answer.short with
  | none => e.change path (Drive.write dir path data)
  | some (n, err) =>
    let r := e.change path (Drive.write dir path (data.take n))
    (r.1.bind fun _ => .error err, r.2)

def performChange (dir : Place) (c : Change) (e : Env) : Except Err Unit × Env :=
  match c with
  | .mkdir path => e.change path (Drive.mkdir dir path)
  | .mknod path => e.change path (Drive.mknod dir path)
  | .write path data => e.write dir path data
  | .unlink path => e.change path (Drive.unlink dir path)
  | .symlink text path => e.change (text :: path) (Drive.symlink dir text path)
  | .link src path => e.change (src ++ path) (Drive.link dir e.answer.follow src path)
  | .setAttrs follow path => e.change path (Drive.setAttrs dir follow path)

def perform (dir : Place) : Prog.Sem sig Env
  | .there path, e => e.query path fun d => (d.stat dir true path).isSome
  | .linkThere path, e => e.query path fun d => (d.stat dir false path).isSome
  | .isDir path, e => e.query path (Drive.isDir dir true path)
  | .lstatIsDir path, e => (e.lstat dir path, e.next e.drive)
  | .change c, e => e.performChange dir c
  | .filter _, e => e.change [] fun d => (.ok (), d)

end Env

/-! ### What is refused -/

def isSlash (c : Char) : Bool := c = '/' || c = '\\'

/-- `\.\.([/\\]|$)`, where the end may be before a last line feed. -/
def startsUp : List Char → Bool
  | '.' :: '.' :: rest => rest = [] || rest = ['\n'] || rest.head?.any isSlash
  | _ => false

/-- The same behind a slash. -/
def turnsUp : List Char → Bool
  | [] => false
  | c :: l => (isSlash c && startsUp l) || turnsUp l

/-- `[A-Za-z]:` -/
def hasDrive : List Char → Bool
  | c :: ':' :: _ => c.isAlpha
  | _ => false

/-- `_UNSAFE_PATH_RE` -/
def unsafePath (name : String) : Bool :=
  name.toList.head?.any isSlash || hasDrive name.toList || startsUp name.toList || turnsUp name.toList

/-- `_refuse_unsafe` -/
def refuseUnsafe (name : String) : Raising Unit :=
  if unsafePath name then
    throw (.unsafeEntry ("Refusing unsafe archive entry: " ++ String.ofList (Text.reprStr name.toList)))
  else pure ()

/-! ### Paths -/

/-- The parts of a path, with empty ones. -/
def parts (text : String) : List String := (Text.split '/' text.toList).map String.ofList

/-- Where an entry goes: the slashes at the end of its name are stripped, and two of them are one. -/
def targetPath (name : String) : List String := (parts name).filter (· ≠ "")

/-- One part more of a path without detours. -/
def collapse (root : ℕ) (done : List String) (part : String) : List String :=
  if part ≠ ".." ∨ (root = 0 ∧ done = []) ∨ done.getLast? = some ".." then done ++ [part] else done.dropLast

/-- `os.path.normpath` -/
def normpath (text : String) : String :=
  let p := Path.ofString text
  ({ p with parts := p.parts.foldl (collapse p.root) [] } : Path).text

/-- `os.path.dirname` -/
def dirname (text : String) : String :=
  let head := (text.toList.reverse.dropWhile (· ≠ '/')).reverse
  let stripped := head.rdropWhile (· = '/')
  String.ofList (if stripped = [] then head else stripped)

/-- `os.makedirs`, of the parts from the last to the first. -/
def makedirs : List String → Raising Unit
  | [] => syscall (.mkdir [])
  | tail :: up => do
    if ← ask (.there up.reverse) then
      syscall (.mkdir (tail :: up).reverse)
    else
      tryCatch (makedirs up) fun e => if e = .fileExists then pure () else throw e
      if tail ≠ "." then syscall (.mkdir (tail :: up).reverse)

/-- The directories above an entry. -/
def makeUpperdirs (path : List String) : Raising Unit := do
  if !(← ask (.there path.dropLast)) then makedirs path.dropLast.reverse

/-! ### tarfile -/

/-- The filters of `extractall`. -/
inductive Filter
  | fullyTrusted | data
  deriving DecidableEq

/-- The entry as the data filter has it: no slash at the front, and the target of a link without detours. -/
def Member.filtered (m : Member) : Member where
  name := String.ofList (m.name.toList.dropWhile (· = '/'))
  kind := m.kind
  linkname := if m.isLink then normpath m.linkname else m.linkname
  data := m.data
  offset := m.offset

/-- The data filter raises, for what is outside by the links there are and for special
files, or changes the entry. -/
def Filter.apply (flt : Filter) (m : Member) : Raising Member :=
  match flt with
  | .fullyTrusted => pure m
  | .data => do
    attempt (act (.filter m))
    pure m.filtered

/-- `makedir` -/
def makedir (path : List String) : Raising Unit :=
  tryCatch (syscall (.mkdir path)) fun e => do
    if e = .fileExists then
      if !(← ask (.isDir path)) then throw e
    else throw e

/-- `chown`, `chmod` and `utime`, without the last two for a link. -/
def setAttrs (m : Member) (path : List String) : Raising Unit :=
  tryCatch (syscall (.setAttrs (m.kind ≠ .symlink) path)) fun e =>
    throw (if e.isOs then .extract else e)

/-- `_find_link_target`: the last entry of the name, of those before a hard link or of all. -/
def findLinkTarget (archive : List Member) (m : Member) : Option Member :=
  if m.kind = .symlink then
    archive.reverse.find? fun u =>
      normpath u.name = normpath ("/".intercalate ([dirname m.name, m.linkname].filter (· ≠ "")))
  else
    (archive.takeWhile fun u => u.offset ≠ m.offset).reverse.find? fun u => normpath u.name = normpath m.linkname

/-- The link itself; whether it was made. A hard link has a place to link to only when it is
an entry of its own, not when it stands in for another link. -/
def tryLink (m : Member) (linkTarget : Option (List String)) (path : List String) : Raising Bool :=
  if m.kind = .symlink then do
    if ← ask (.linkThere path) then syscall (.unlink path)
    syscall (.symlink m.linkname path)
    pure true
  else
    match linkTarget with
    -- the attribute is missing, which counts as a platform without links
    | none => throw .os
    | some src => do
      if ← ask (.there src) then
        syscall (.link src path)
        pure true
      else pure false

/-- `makelink_with_filter`; `again` extracts the entry that a link leads to in its place. -/
def makelink (again : Member → Raising Unit) (flt : Filter) (archive : List Member) (m : Member)
    (linkTarget : Option (List String)) (path : List String) : Raising Unit := do
  let made ← tryCatch (some <$> tryLink m linkTarget path) fun e => if e.isOs then pure none else throw e
  if made = some true then pure ()
  else
    match findLinkTarget archive m with
    | none => throw (if made = none then .extract else .other)
    | some unfiltered => do
      let filtered ← tryCatch (flt.apply unfiltered) fun e =>
        throw (if e.isOs ∨ e = .filter ∨ e = .extract then .filter else e)
      again filtered

/-- What `_extract_member` does for an entry. -/
def materialise (again : Member → Raising Unit) (flt : Filter) (archive : List Member) (m : Member)
    (linkTarget : Option (List String)) (path : List String) (attrs : Bool) : Raising Unit := do
  makeUpperdirs path
  match m.kind with
  | .file => syscall (.write path m.data)
  | .dir => makedir path
  | .special => syscall (.mknod path)
  | .symlink => makelink again flt archive m linkTarget path
  | .hardlink => makelink again flt archive m linkTarget path
  if attrs then setAttrs m path

/-- `_extract_member`, as deep as the interpreter's stack lets it call itself. -/
def extractMember (flt : Filter) (archive : List Member) :
    ℕ → Member → Option (List String) → List String → Bool → Raising Unit
  | 0, m, linkTarget, path, attrs => materialise (fun _ => throw .other) flt archive m linkTarget path attrs
  | depth + 1, m, linkTarget, path, attrs =>
    materialise (fun u => extractMember flt archive depth u none path true) flt archive m linkTarget path attrs

/-- One entry of `extractall`: what is extracted of it, if it is. An `ExtractError` is not raised. -/
def extractEntry (flt : Filter) (depth : ℕ) (archive : List Member) (m : Member) : Raising (Option Member) := do
  let filtered ← tryCatch (some <$> flt.apply m) fun e => if e = .extract then pure none else throw e
  match filtered with
  | none => pure none
  | some u =>
    let linkTarget := if u.kind = .hardlink then some (parts u.linkname) else none
    tryCatch (extractMember flt archive depth u linkTarget (targetPath u.name) (u.kind ≠ .dir)) fun e =>
      if e = .extract then pure () else throw e
    pure (some u)

/-- The entries in their order, and those of them that are directories. -/
def extractEntries (flt : Filter) (depth : ℕ) (archive : List Member) : List Member → Raising (List Member)
  | [] => pure []
  | m :: ms => do
    let u ← extractEntry flt depth archive m
    let dirs ← extractEntries flt depth archive ms
    pure (if u.any (·.kind = .dir) then m :: dirs else dirs)

/-- The owner, mode and times of one directory that was extracted. -/
def fixDirectory (flt : Filter) (m : Member) : Raising Unit := do
  let filtered ← tryCatch (some <$> flt.apply m) fun e =>
    if e.isOs ∨ e = .filter ∨ e = .extract then pure none else throw e
  match filtered with
  | none => pure ()
  | some u =>
    if ← attempt (act (.lstatIsDir (parts u.name))) then
      tryCatch (setAttrs u (parts u.name)) fun e => if e = .extract then pure () else throw e

def fixDirectories (flt : Filter) : List Member → Raising Unit
  | [] => pure ()
  | m :: ms => do
    fixDirectory flt m
    fixDirectories flt ms

/-- `TarFile.extractall` -/
def extractall (flt : Filter) (depth : ℕ) (archive : List Member) : Raising Unit := do
  let dirs ← extractEntries flt depth archive archive
  fixDirectories flt (dirs.mergeSort fun a b => decide (b.name ≤ a.name))

/-- What is refused of one entry. -/
def refuseMember (m : Member) : Raising Unit := do
  refuseUnsafe m.name
  if m.isLink then refuseUnsafe m.linkname

def refuseMembers : List Member → Raising Unit
  | [] => pure ()
  | m :: ms => do
    refuseMember m
    refuseMembers ms

/-- `_extract_tar`, of an archive that can be read or not. -/
def extractTar (flt : Filter) (depth : ℕ) (archive : Except Err (List Member)) : Raising Unit := do
  let members ← attempt (pure archive)
  refuseMembers members
  extractall flt depth members

/-! ### zipfile -/

/-- Where a zip entry goes. -/
def arcname (name : String) : List String := (parts name).filter fun p => p ≠ "" ∧ p ≠ "." ∧ p ≠ ".."

def ZipEntry.isDir (z : ZipEntry) : Bool := Text.endsWith z.name "/"

/-- `ZipFile._extract_member` -/
def extractZipEntry (z : ZipEntry) : Raising Unit := do
  let path := arcname z.name
  if path = [] ∧ !z.isDir then throw .other
  makeUpperdirs path
  if z.isDir then
    if !(← ask (.isDir path)) then syscall (.mkdir path)
  else syscall (.write path z.data)

def refuseNames : List String → Raising Unit
  | [] => pure ()
  | n :: ns => do
    refuseUnsafe n
    refuseNames ns

/-- The names in their order, each with the last entry that has it. -/
def extractNames (archive : List ZipEntry) : List String → Raising Unit
  | [] => pure ()
  | n :: ns => do
    match archive.reverse.find? (·.name = n) with
    | none => throw .other
    | some z => extractZipEntry z
    extractNames archive ns

/-- `_extract_zip` -/
def extractZip (archive : Except Err (List ZipEntry)) : Raising Unit := do
  let entries ← attempt (pure archive)
  refuseNames (entries.map (·.name))
  extractNames entries (entries.map (·.name))

/-! ### extract_archive -/

/-- An archive file: its name, and what reading it as a tar or as a zip gives. -/
structure Source where
  name : String
  tar : Except Err (List Member)
  zip : Except Err (List ZipEntry)

/-- `dest.mkdir`, where the directories that lead to the destination are there. -/
def mkdirDest : Raising Unit :=
  tryCatch (syscall (.mkdir [])) fun e => do
    if e.isOs then
      if !(← ask (.isDir [])) then throw e
    else throw e

/-- `extract_archive`, with the filter that the interpreter has. -/
def extractArchive (flt : Filter) (depth : ℕ) (archive : Source) : Raising Unit := do
  mkdirDest
  let name := archive.name.toLower
  if Text.endsWith name ".tar.gz" || Text.endsWith name ".tgz" then extractTar flt depth archive.tar
  else if Text.endsWith name ".zip" then extractZip archive.zip
  else throw (.unknownType ("Unknown archive type: " ++ archive.name))

end Archive
end LocaiLink
