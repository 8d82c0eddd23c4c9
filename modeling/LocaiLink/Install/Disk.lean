/-
# What an update and the launcher work on

`Act` lists the single file operations, requests and processes that the updater
and the launcher are made of, and `World.perform` says what each does and
answers. Any of them may fail for a reason outside of the code: the world's
oracle says which do, and what servers and processes answer. Statements are for
every oracle.
-/
import LocaiLink.Base.Fs
import LocaiLink.Base.Lines
import LocaiLink.Base.Prog

namespace LocaiLink
namespace Install

/-! ### Exceptions -/

/-- The classes of exceptions that a handler tells apart. -/
inductive ErrorKind
  | installRootNotFound | manifestMalformed | releaseNotFound | downloadFailed | verifyFailed | extractRefused
  | healthCheckFailed | bundleUpdate
  | request
  | other
  deriving DecidableEq

structure Error where
  kind : ErrorKind
  message : String
  deriving DecidableEq

/-- The subclasses of `BundleUpdateError`. -/
def ErrorKind.isBundleUpdate : ErrorKind → Bool
  | .request | .other => false
  | _ => true

/-! ### What is outside the code -/

abbrev Node := Fs.Node Bytes

/-- A streaming reply: its status, the announced length (or what reading it as a
number raises), the chunks that arrive and the error that ends them. -/
structure Reply where
  status : ℕ
  length : Except Error ℕ
  chunks : List Bytes
  error : Option Error

/-- An answer holds one for every action, of which the action's is read. -/
structure Answer where
  error : Option Error := none
  gone : Place → Bool := fun _ => true
  entries : Bytes → List (List String × Node) := fun _ => []
  json : Except Error Json := .error ⟨.request, ""⟩
  text : Except Error String := .error ⟨.request, ""⟩
  reply : Except Error Reply := .error ⟨.request, ""⟩
  exit : Option ℤ := some 0
  elapsed : ℕ := 0

structure World where
  fs : Fs Bytes
  clock : ℕ
  oracle : ℕ → Answer
  tick : ℕ

/-! ### The actions -/

inductive Act
  | look
  | mkdirs (p : Place)
  | write (p : Place) (data : Bytes)
  | append (p : Place) (chunk : Bytes)
  | unlink (p : Place)
  | rename (p q : Place)
  | symlink (target : Path) (p : Place)
  | rmtree (p : Place)
  | unpack (archive dest : Place)
  | getJson (url : String)
  | getText (url : String)
  | stream (url : String) (first : ℕ)
  | codesign (runtime : Place)
  | selfCheck (runtime : Place)
  | now

/-- What an action answers, or raises. -/
@[reducible] def Act.Resp : Act → Type
  | .look => Except Error (Fs Bytes)
  | .getJson _ => Except Error Json
  | .getText _ => Except Error String
  | .stream _ _ => Except Error Reply
  | .selfCheck _ => Option ℤ
  | .now => ℕ
  | _ => Except Error Unit

def sig : Sig := ⟨Act, Act.Resp, Empty⟩

/-- The code of the updater or the launcher. -/
abbrev Script := Prog sig

def act (a : Act) : Script a.Resp := Prog.call (σ := sig) a

/-- A script that may raise. -/
abbrev Raising := ExceptT Error Script

/-- An action that is raised where it fails. -/
def attempt {α : Type} (p : Script (Except Error α)) : Raising α := ExceptT.mk p

def look : Raising (Fs Bytes) := attempt (act .look)

namespace World

def ask (s : World) : Answer := s.oracle s.tick

def tock (s : World) : World := { s with tick := s.tick + 1 }

/-- The message of an operating system error about a place. -/
def osError (what : String) (p : Place) : Error := ⟨.other, what ++ ": '/" ++ "/".intercalate p ++ "'"⟩

/-- A change of the tree: it raises what the tree makes it raise, or what its
surroundings do, or it is made. -/
def change (fails : Option Error) (f : Fs Bytes → Fs Bytes) (s : World) : Except Error Unit × World :=
  match fails.or s.ask.error with
  | some e => (.error e, s.tock)
  | none => (.ok (), { s.tock with fs := f s.fs })

def refuse (c : Bool) (what : String) (p : Place) : Option Error := if c then some (osError what p) else none

def mkdirsFails (p : Place) (t : Fs Bytes) : Option Error :=
  refuse (p.inits.any fun q => (t.node q).isSome && !t.isDir q) "[Errno 17] File exists" p

/-- The missing directories on the way to a place, and itself. -/
def mkdirs (p : Place) (t : Fs Bytes) : Fs Bytes :=
  p.inits.foldl (fun t q => if (t.node q).isSome then t else t.set q (some .dir)) t

def parentFails (p : Place) (t : Fs Bytes) : Option Error :=
  refuse (!t.isDir p.dropLast) "[Errno 2] No such file or directory" p

/-- Opening for writing follows links, and is not for directories. -/
def openFails (p : Place) (t : Fs Bytes) : Option Error :=
  (parentFails p t).or (refuse (t.isDir p || (t.follow Fs.maxLinks p).isNone) "[Errno 21] Is a directory" p)

def opened (p : Place) (t : Fs Bytes) : Place := (t.follow Fs.maxLinks p).getD p

def unlinkFails (p : Place) (t : Fs Bytes) : Option Error :=
  match t.node p with
  | none => some (osError "[Errno 2] No such file or directory" p)
  | some .dir => some (osError "[Errno 1] Operation not permitted" p)
  | some _ => none

/-- A directory takes the place of nothing or of an empty directory, anything else
that of nothing or of no directory. -/
def renameFails (p q : Place) (t : Fs Bytes) : Option Error :=
  (refuse (t.node p).isNone "[Errno 2] No such file or directory" p).or <| (parentFails q t).or <|
    if p = q then none
    else if p <+: q then some (osError "[Errno 22] Invalid argument" q)
    else if t.node p = some .dir then
      match t.node q with
      | none => none
      | some .dir => refuse (t.below q ≠ []) "[Errno 39] Directory not empty" q
      | some _ => some (osError "[Errno 20] Not a directory" q)
    else refuse (t.node q = some .dir) "[Errno 21] Is a directory" q

def rename (p q : Place) (t : Fs Bytes) : Fs Bytes := if p = q then t else t.move p q

def symlinkFails (p : Place) (t : Fs Bytes) : Option Error :=
  (parentFails p t).or (refuse (t.node p).isSome "[Errno 17] File exists" p)

def rmtreeFails (p : Place) (t : Fs Bytes) : Option Error :=
  match t.node p with
  | none => some (osError "[Errno 2] No such file or directory" p)
  | some .dir => none
  | some _ => some (osError "[Errno 20] Not a directory" p)

/-- Removing a tree may fail when some of it is gone. -/
def rmtree (p : Place) (s : World) : Except Error Unit × World :=
  match rmtreeFails p s.fs with
  | some e => (.error e, s.tock)
  | none =>
    match s.ask.error with
    | some e => (.error e, { s.tock with fs := s.fs.drop s.ask.gone p })
    | none => (.ok (), { s.tock with fs := s.fs.drop (fun _ => true) p })

/-- The entries of an archive, below a directory. -/
def unpackInto (dest : Place) (entries : List (List String × Node)) (t : Fs Bytes) : Fs Bytes :=
  entries.foldl (fun t e => (mkdirs (dest ++ e.1.dropLast) t).set (dest ++ e.1) (some e.2)) t

def unpack (archive dest : Place) (s : World) : Except Error Unit × World :=
  match s.fs.data archive with
  | none => (.error (osError "[Errno 2] No such file or directory" archive), s.tock)
  | some d =>
    let s' := { s.tock with fs := unpackInto dest (s.ask.entries d) s.fs }
    match s.ask.error with
    | some e => (.error e, s')
    | none => (.ok (), s')

/-- What each action does, and its answer. -/
def perform : (a : Act) → World → a.Resp × World
  | .look, s => (match s.ask.error with | some e => .error e | none => .ok s.fs, s.tock)
  | .mkdirs p, s => s.change (mkdirsFails p s.fs) (mkdirs p)
  | .write p data, s => s.change (openFails p s.fs) fun t => t.set (opened p t) (some (.file data))
  | .append p chunk, s => s.change (openFails p s.fs) fun t =>
      t.set (opened p t) (some (.file ((t.data p).getD [] ++ chunk)))
  | .unlink p, s => s.change (unlinkFails p s.fs) fun t => t.set p none
  | .rename p q, s => s.change (renameFails p q s.fs) (rename p q)
  | .symlink target p, s => s.change (symlinkFails p s.fs) fun t => t.set p (some (.link target))
  | .rmtree p, s => s.rmtree p
  | .unpack archive dest, s => s.unpack archive dest
  | .getJson _, s => (s.ask.json, s.tock)
  | .getText _, s => (s.ask.text, s.tock)
  | .stream _ _, s => (s.ask.reply, s.tock)
  | .codesign _, s => (match s.ask.error with | some e => .error e | none => .ok (), s.tock)
  | .selfCheck _, s => (s.ask.exit, s.tock)
  | .now, s => (s.clock + s.ask.elapsed, { s.tock with clock := s.clock + s.ask.elapsed })

end World
end Install
end LocaiLink
