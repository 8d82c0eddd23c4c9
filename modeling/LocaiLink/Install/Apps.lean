/-
# The UI apps of an update

After the runtime was updated, `swap_changed_ui_apps` replaces the UI apps whose content
hash differs between the manifest of the installed version and that of the new one. Only
macOS has such an app. Each file operation may raise, and what goes wrong with an app is
logged and passed over. An update is a run of `swapBundle`, of which what comes before the
runtime's new version is current is one action here.
-/
import Mathlib.Data.List.MinMax
import LocaiLink.Base.Dict
import LocaiLink.Base.Lines
import LocaiLink.Base.Triple

namespace LocaiLink
namespace Install
namespace Apps

/-! ### Apps and releases -/

/-- An app is a file, or a directory with the files below it. -/
inductive App
  | file (content : Bytes)
  | bundle (files : List (List String × Bytes))
  deriving DecidableEq

/-- A directory that is copied over another one. -/
def overlay (old new : List (List String × Bytes)) : List (List String × Bytes) :=
  old.filter (fun e => (new.lookup e.1).isNone) ++ new

inductive Platform
  | darwin
  | win32
  | linux
  deriving DecidableEq

/-- `_ui_app_payload_name`, `none` for a key that it does not have. -/
def uiAppPayloadName (platform : Platform) (key : String) : Option String :=
  match platform with
  | .darwin => if key = "companion" then some "Locai Link.app" else none
  | .win32 => if key = "companion" then some "companion.exe" else none
  | .linux => if key = "companion" then some "companion" else none

/-- `_ui_app_destinations`: names in the install root. -/
def uiAppDestinations (platform : Platform) (_ : String) : List String :=
  match platform with
  | .darwin => ["Locai Link.app"]
  | .win32 => []
  | .linux => []

/-- What is read of a manifest. -/
structure Manifest where
  version : String
  apps : Dict String String

/-- What a release brings: its manifest, and what its archive is extracted to, in the
order of `rglob`. -/
structure Release where
  manifest : Manifest
  payload : List (List String × App)

/-- `_locate_in_payload`: the shallowest entry of a name, the first of several. -/
def locateInPayload (payload : List (List String × App)) (name : String) : Option App :=
  ((payload.filter fun e => e.1.getLast? = some name).argmin fun e => e.1.length).map Prod.snd

/-! ### The device -/

inductive Raised
  | os
  | other
  deriving DecidableEq

/-- What goes wrong with the apps of an update. What `rmtree` leaves behind is not logged. -/
inductive Trouble
  | failed (key : String) (dest : Option String)
  | aborted
  | leftover (name : String)
  deriving DecidableEq

/-- How an operation goes: what it raises, what a copy that fails leaves, and which files
`rmtree` does not remove. -/
structure Answer where
  error : Option Raised := none
  copied : Option App := none
  left : List (List String) := []

structure Device where
  current : Manifest
  extracted : List (List String × App)
  root : String → Option App
  log : List Trouble
  oracle : ℕ → Answer
  tick : ℕ

inductive Act
  | readManifest
  | stage (release : Release)
  | flip (release : Release)
  | writePending
  | locate (name : String)
  | verifySignature (app : App)
  | verifyAt (name : String)
  | deQuarantine (name : String)
  | mkdirs
  | rm (name : String)
  | ditto (src : App) (name : String)
  | copytree (src : App) (name : String)
  | copy2 (src : App) (base name : String)
  | replace (p q : String)
  | isThere (name : String)
  | restart (key : String)
  | cleanUp
  | note (e : Trouble)

@[reducible] def Act.Resp : Act → Type
  | .readManifest => Except Raised Manifest
  | .locate _ => Except Raised (Option App)
  | .isThere _ => Except Raised Bool
  | _ => Except Raised Unit

def sig : Sig := ⟨Act, Act.Resp, Empty⟩

namespace Device

def ask (d : Device) : Answer := d.oracle d.tick

def tock (d : Device) : Device := { d with tick := d.tick + 1 }

def put (name : String) (app : Option App) (d : Device) : Device := { d with root := Function.update d.root name app }

/-- An operation that raises or answers, and changes nothing. -/
def look {α : Type} (value : α) (d : Device) : Except Raised α × Device :=
  ((d.ask.error.elim (.ok value) .error), d.tock)

/-- A change that is made, or raised when `f` has none or for another reason. -/
def change (f : Option Device) (d : Device) : Except Raised Unit × Device :=
  match d.ask.error with
  | some e => (.error e, d.tock)
  | none => f.elim (.error .os, d.tock) fun d' => (.ok (), d'.tock)

/-- A copy, which may have come some way when it raises. -/
def copy (name : String) (result : Option App) (d : Device) : Except Raised Unit × Device :=
  match d.ask.error with
  | some e => (.error e, ((d.ask.copied.elim d) fun app => d.put name (some app)).tock)
  | none => result.elim (.error .other, d.tock) fun app => (.ok (), (d.put name (some app)).tock)

/-- `_rm`: the errors of `rmtree` are ignored. -/
def rm (name : String) (d : Device) : Except Raised Unit × Device :=
  match d.root name with
  | none => (.ok (), d.tock)
  | some (.file _) => d.change (some (d.put name none))
  | some (.bundle files) =>
    let rest := files.filter fun e => d.ask.left.contains e.1
    if rest = [] then (.ok (), (d.put name none).tock)
    else (.ok (), { d.put name (some (.bundle rest)) with log := d.log ++ [Trouble.leftover name] }.tock)

/-- What a copied directory becomes, where `merge` says whether it may be there already. -/
def merged (merge : Bool) : App → Option App → Option App
  | src, none => some src
  | .bundle new, some (.bundle old) => if merge then some (.bundle (overlay old new)) else none
  | _, _ => none

/-- What a file is copied to: a directory gets it under its own name. -/
def filed (base : String) : App → Option App → Option App
  | .file content, some (.bundle old) => some (.bundle (overlay old [([base], content)]))
  | .file content, _ => some (.file content)
  | _, _ => none

/-- Whether a rename may replace what is there. -/
def replaces : App → Option App → Bool
  | _, none => true
  | .file _, some (.file _) => true
  | .bundle _, some (.bundle []) => true
  | _, _ => false

def replaced (p q : String) (d : Device) : Option Device :=
  (d.root p).bind fun app => if replaces app (d.root q) then some ((d.put p none).put q (some app)) else none

def perform : (a : Act) → Device → a.Resp × Device
  | .readManifest, d => d.look d.current
  | .stage release, d => d.change (some { d with extracted := release.payload })
  | .flip release, d => d.change (some { d with current := release.manifest })
  | .writePending, d => d.look ()
  | .locate name, d => d.look (locateInPayload d.extracted name)
  | .verifySignature _, d => d.look ()
  | .verifyAt _, d => d.look ()
  | .deQuarantine _, d => d.look ()
  | .mkdirs, d => d.look ()
  | .rm name, d => d.rm name
  | .ditto src name, d => d.copy name (merged true src (d.root name))
  | .copytree src name, d => d.copy name (merged false src (d.root name))
  | .copy2 src base name, d => d.copy name (filed base src (d.root name))
  | .replace p q, d => d.change (d.replaced p q)
  | .isThere name, d => d.look (d.root name).isSome
  | .restart _, d => (.ok (), d.tock)
  | .cleanUp, d => d.look ()
  | .note e, d => (.ok (), { d with log := d.log ++ [e] })

end Device

/-! ### The code -/

abbrev Raising (α : Type) := ExceptT Raised (Prog sig) α

def raising {α : Type} (p : Prog sig (Except Raised α)) : Raising α := ExceptT.mk p

def act (a : Act) : Prog sig a.Resp := Prog.call (σ := sig) a

def note (e : Trouble) : Raising Unit := raising (act (.note e))

def tmpName (dest : String) : String := "." ++ dest ++ ".new"

def backupName (dest : String) : String := "." ++ dest ++ ".old"

/-- The copy of an app that is to replace the installed one. -/
def copyApp (platform : Platform) (name : String) (src : App) (tmp : String) : Raising Unit :=
  match src with
  | .bundle _ => if platform = .darwin then raising (act (.ditto src tmp)) else raising (act (.copytree src tmp))
  | .file _ => raising (act (.copy2 src name tmp))

/-- The swap of a directory that a rename does not replace. -/
def swapAside (dest : String) : Raising Unit := do
  raising (act (.rm (backupName dest)))
  if ← raising (act (.isThere dest)) then raising (act (.replace dest (backupName dest)))
  raising (act (.replace (tmpName dest) dest))
  raising (act (.rm (backupName dest)))

/-- `_install_app` -/
def installApp (platform : Platform) (name : String) (src : App) (dest : String) : Raising Unit := do
  raising (act .mkdirs)
  raising (act (.rm (tmpName dest)))
  copyApp platform name src (tmpName dest)
  tryCatch (raising (act (.replace (tmpName dest) dest))) fun
    | .os => swapAside dest
    | .other => throw .other

/-- `_harden_swapped_app` -/
def hardenSwappedApp (platform : Platform) (dest : String) : Raising Unit :=
  if platform = .darwin then do
    tryCatch (raising (act (.deQuarantine dest))) fun _ => pure ()
    raising (act (.verifyAt dest))
  else pure ()

/-- `_verify_app_signature` -/
def verifyAppSignature (platform : Platform) (src : App) : Raising Unit :=
  if platform = .darwin then raising (act (.verifySignature src)) else pure ()

/-- One destination of an app; whether it was updated. -/
def swapAt (platform : Platform) (key name : String) (src : App) (dest : String) : Raising Bool :=
  tryCatch (do
    installApp platform name src dest
    hardenSwappedApp platform dest
    pure true) fun _ => do
      note (.failed key (some dest))
      pure false

/-- All destinations of an app; whether any was updated. -/
def swapAll (platform : Platform) (key name : String) (src : App) : List String → Raising Bool
  | [] => pure false
  | dest :: dests => do
    let ok ← swapAt platform key name src dest
    let okRest ← swapAll platform key name src dests
    pure (ok || okRest)

/-- An app whose hash changed; whether it was swapped. -/
def swapApp (platform : Platform) (key : String) : Raising Bool :=
  match uiAppDestinations platform key with
  | [] => pure false
  | dests =>
    match uiAppPayloadName platform key with
    | none => throw .other
    | some name => do
      match ← raising (act (.locate name)) with
      | none => pure false
      | some src =>
        verifyAppSignature platform src
        swapAll platform key name src dests

/-- One app of the new manifest. -/
def swapEntry (platform : Platform) (oldApps : Dict String String) (key newHash : String) : Raising Bool :=
  if oldApps.get? key = some newHash then pure false
  else tryCatch (swapApp platform key) fun _ => do
    note (.failed key none)
    pure false

/-- The apps of the new manifest, in its order. -/
def swapEntries (platform : Platform) (oldApps : Dict String String) : List (String × String) → Raising (List String)
  | [] => pure []
  | e :: entries => do
    let ok ← swapEntry platform oldApps e.1 e.2
    let swapped ← swapEntries platform oldApps entries
    pure (if ok then e.1 :: swapped else swapped)

/-- `swap_changed_ui_apps` -/
def swapChangedUiApps (platform : Platform) (oldApps newApps : Dict String String) : Raising (List String) :=
  swapEntries platform oldApps newApps.entries

def restartAll : List String → Raising Unit
  | [] => pure ()
  | key :: keys => do
    raising (act (.restart key))
    restartAll keys

/-- What `swap_bundle` does with the apps. -/
def swapApps (platform : Platform) (oldApps : Dict String String) : Raising Unit :=
  tryCatch (do
    let manifest ← raising (act .readManifest)
    let swapped ← swapChangedUiApps platform oldApps manifest.apps
    restartAll swapped) fun _ => note .aborted

/-- `swap_bundle`, whose release is given. -/
def swapBundle (platform : Platform) (release : Release) : Raising Bool := do
  let manifest ← raising (act .readManifest)
  if release.manifest.version = manifest.version then return false
  raising (act (.stage release))
  raising (act (.flip release))
  raising (act .writePending)
  swapApps platform manifest.apps
  raising (act .cleanUp)
  return true

/-- A successful update, `none` when it is not. -/
def update (platform : Platform) (release : Release) (d : Device) : Option Device :=
  let (r, d') := (swapBundle platform release).run.run Device.perform d
  if r.toOption = some true then some d' else none

/-- A run of successful updates. -/
def updates (platform : Platform) (releases : List Release) (d : Device) : Option Device :=
  releases.foldlM (fun d release => update platform release d) d

end Apps
end Install
end LocaiLink
