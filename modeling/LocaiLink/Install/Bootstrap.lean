/-
# The bootstrap of the launcher

`bootstrap_from_boot` in its parts, what a script holds to wherever it is stopped, and the
pointer at the end of it: `current` is renamed into place, as a link or as a text, and up to
then nothing that is read has changed (`lands_writeBootstrapPointer`).
-/
import LocaiLink.Install.Gate
import LocaiLink.Install.Metadata
import LocaiLink.Install.Supervisor
import LocaiLink.Install.Tarball

namespace LocaiLink
namespace Install

open World
open Prog (run Passes Stays Guards Post)

/-! ### The code -/

/-- The machine that the launcher is built for, and what its libraries compute: a digest in
hexadecimal, the entries of an archive up to one that is broken, and whether a request could not
reach the network. -/
structure Launcher where
  os : TargetOs
  arch : TargetArch
  sha256 : Bytes → String
  entries : Bytes → List (Option Tarball.Entry)
  offline : Error → Bool

def bootJson : String := "boot.json"

/-- `BootstrapError::Operation` -/
def operation (message : String) : Error := ⟨.other, message⟩

/-- `BootstrapError::NoInternet` -/
def noInternet (message : String) : Error := ⟨.request, message⟩

def BootstrapError.raise : BootstrapError → Error
  | .operation message => Install.operation message
  | .noInternet message => Install.noInternet message

/-- `exit_code` -/
def exitCode (e : Error) : ℕ := if e.kind = .request then 3 else 2

def raised {α : Type} : Except BootstrapError α → Raising α
  | .ok a => pure a
  | .error e => throw e.raise

/-- `classify_ureq_err` -/
def Launcher.classify (L : Launcher) (e : Error) : Error := if L.offline e then noInternet e.message else operation e.message

/-- `http_get_string` -/
def Launcher.httpGetString (L : Launcher) (url : String) : Raising String := do
  match ← ExceptT.lift (act (.getText url)) with
  | .ok body => pure body
  | .error e => throw (L.classify e)

/-- `read_boot_config` -/
def readBootConfig (root : Place) : Raising BootConfig := do
  match readToString (root ++ [bootJson]) (← peek) with
  | none => throw (operation s!"read {placeText (root ++ [bootJson])}")
  | some body =>
    match (JsonText.loads body).bind BootFile.read with
    | none => throw (operation s!"parse {placeText (root ++ [bootJson])}")
    | some f => pure f.config

/-- `resolve_asset` -/
def Launcher.resolveAsset (L : Launcher) (config : BootConfig) : Raising AssetTarget := do
  match config.assetUrl with
  | some directUrl => raised (resolveDirect directUrl)
  | none =>
    let body ← L.httpGetString s!"https://api.github.com/repos/{config.assetRepo}/releases/latest"
    match (JsonText.loads body.toList).bind GhRelease.read with
    | none => throw (operation "malformed releases response")
    | some release => raised (resolveRelease (config.assetBasename L.os L.arch) release)

/-- `fs::remove_dir_all`: of a link, the link goes. -/
def removeDirAll (what : String) (p : Place) : Raising Unit := do
  if (← peek).isLink p then mapErr what (act (.unlink p)) else mapErr what (act (.rmtree p))

/-- `ensure_staging` -/
def ensureStaging (root : Place) : Raising Unit := do
  let staging := root ++ [stagingDir]
  if (← peek).there staging then removeDirAll "remove stale staging dir" staging
  mapErr "create staging dir" (act (.mkdirs staging))

/-- `Path::with_extension`, on a name: what is after the last dot goes, where that is not the first character. -/
def withExtension (name ext : String) : String :=
  let l := name.toList
  let tail := (l.reverse.takeWhile (· ≠ '.')).length
  String.ofList (if tail + 1 < l.length then l.take (l.length - tail - 1) else l) ++ "." ++ ext

/-- Where a download is on its way. -/
def tmpOf (dest : Place) : Place := dest.dropLast ++ [withExtension (dest.getLast?.getD "") "partial"]

/-- `download` -/
def Launcher.download (L : Launcher) (url : String) (dest : Place) : Raising Unit := do
  match ← ExceptT.lift (act (.stream url 0)) with
  | .error e => throw (L.classify e)
  | .ok resp =>
    if 400 ≤ resp.status then throw (operation s!"HTTP {resp.status} from {url}")
    mapErr s!"create {placeText (tmpOf dest)}" (act (.write (tmpOf dest) []))
    mapErr s!"write {placeText (tmpOf dest)}" (writeChunks (tmpOf dest) resp.chunks).run
    match resp.error with
    | some e => throw (operation s!"download stream: {e.message}")
    | none => mapErr s!"rename {placeText (tmpOf dest)} -> {placeText dest}" (act (.rename (tmpOf dest) dest))

/-- `parse_sidecar` -/
def parseSidecar (body : String) : Except BootstrapError String :=
  match (Text.wordsBy Text.isWhiteSpace body.toList).head? with
  | none => .error (.operation "empty sha256 sidecar")
  | some first =>
    if isDigest first then .ok (String.ofList (Text.lower first))
    else .error (.operation s!"sha256 sidecar is not a 64-char hex string: {String.ofList first}")

/-- The sidecar, where the list of checksums does not decide. -/
def Launcher.sidecarSha (L : Launcher) (asset : AssetTarget) : Raising String := do
  match asset.sha256Url with
  | some url => raised (parseSidecar (← L.httpGetString url))
  | none => throw (operation "no checksum source resolved for the asset")

/-- `resolve_expected_sha` -/
def Launcher.resolveExpectedSha (L : Launcher) (asset : AssetTarget) : Raising String := do
  match asset.checksumsUrl with
  | none => L.sidecarSha asset
  | some url =>
    match ← ExceptT.lift (L.httpGetString url).run with
    | .ok body =>
      match findChecksumEntry body asset.assetName with
      | some sha => pure sha
      | none =>
        if asset.sha256Url.isNone then throw (operation s!"no valid sha256 entry for {asset.assetName} in {url}")
        else L.sidecarSha asset
    | .error e => if e.kind = .request || asset.sha256Url.isNone then throw e else L.sidecarSha asset

/-- `verify_sha256` -/
def Launcher.verifySha256 (L : Launcher) (path : Place) (expectedHex : String) : Raising Unit := do
  match (← peek).data path with
  | none => throw (operation s!"open {placeText path}")
  | some d =>
    if (L.sha256 d).toList ≠ Text.lower expectedHex.toList then
      throw (operation ("sha256 mismatch on " ++ path.getLast?.getD "" ++ ": expected " ++ expectedHex ++ ", got " ++ L.sha256 d))

/-- What is in the way of a version goes, and there is a directory to put it in. -/
def clearTarget (root : Place) (version : String) : Raising Unit := do
  let target := versionDir root version
  if (← peek).there target then removeDirAll s!"remove stale {placeText target}" target
  mapErr s!"create {placeText target.dropLast}" (act (.mkdirs target.dropLast))

/-- `entry.unpack`: a directory is made where there is none, and what is in the way of a file goes. -/
def unpackEntry (e : Tarball.Entry) (out : Place) : Raising Unit := do
  if e.entryType = .directory then attempt (act (.mkdirs out))
  else
    if ((← look).node out).isSome then attempt (act (.unlink out))
    attempt (act (.write out e.data))

/-- One entry of the loop of `extract_tarball`: the bytes that are counted so far, `none` for an entry that is elsewhere. -/
def extractEntry (target : Place) (name : String) (written : ℕ) (e : Tarball.Entry) : Raising (Option ℕ) := do
  if e.isLink then throw (operation s!"tarball rejected: unsafe entry type at {e.path}")
  else
    match Tarball.relParts name e with
    | none => pure none
    | some rel =>
      if !rel.all Tarball.Component.isPlain then throw (operation s!"tarball rejected: unsafe path component in entry {e.path}")
      else
        let out := target ++ rel.map Tarball.Component.asStr
        mapErr s!"mkdir {placeText out.dropLast}" (act (.mkdirs out.dropLast))
        let total := min (2 ^ 64 - 1) (written + e.size.getD 0)
        if total > Tarball.MAX_EXTRACTED_BYTES then
          throw (operation s!"tarball rejected: extracted size exceeds {Tarball.MAX_EXTRACTED_BYTES} bytes")
        else
          mapErr s!"unpack {placeText out}" (unpackEntry e out).run
          pure (some total)

/-- The loop over the entries, each of which may turn out to be broken. -/
def extractEntries (target : Place) (name : String) : List (Option Tarball.Entry) → Bool → ℕ → Raising Unit
  | [], any, _ =>
    if any then pure () else throw (operation s!"tarball has no entries under versions/{name}/ — wrong asset?")
  | none :: _, _, _ => throw (operation "tarball entry")
  | some e :: es, any, written => do
    match ← extractEntry target name written e with
    | none => extractEntries target name es any written
    | some total => extractEntries target name es true total

/-- `extract_tarball` -/
def Launcher.extractTarball (L : Launcher) (root archive : Place) (version : String) : Raising Unit := do
  clearTarget root version
  match fileName (versionPath version) with
  | none => throw (operation s!"target has no file name: {placeText (versionDir root version)}")
  | some name =>
    match (← peek).data archive with
    | none => throw (operation s!"open {placeText archive}")
    | some d => extractEntries (versionDir root version) name (L.entries d) false 0

/-- The asset that `boot.json` asks for. -/
def Launcher.offered (L : Launcher) (root : Place) : Raising AssetTarget := do
  L.resolveAsset (← readBootConfig root)

/-- The archive of an asset, in the staging directory. -/
def Launcher.fetchAsset (L : Launcher) (root : Place) (asset : AssetTarget) : Raising Unit := do
  ensureStaging root
  L.download asset.downloadUrl (stagedAt root asset.assetName)

/-- An asset becomes the version that it is of. -/
def Launcher.install (L : Launcher) (root : Place) (asset : AssetTarget) : Raising String := do
  L.fetchAsset root asset
  let expectedSha ← L.resolveExpectedSha asset
  L.verifySha256 (stagedAt root asset.assetName) expectedSha
  L.extractTarball root (stagedAt root asset.assetName) asset.version
  pure asset.version

/-- What comes before the pointer. -/
def Launcher.place (L : Launcher) (root : Place) : Raising String := do
  L.install root (← L.offered root)

/-- What comes after. -/
def pointTo (root : Place) (version : String) : Raising String := do
  writeBootstrapPointer root version
  ignoring (removeDirAll "" (root ++ [stagingDir])).run
  pure version

/-- `bootstrap_from_boot` -/
def Launcher.bootstrapFromBoot (L : Launcher) (root : Place) : Raising String := do
  pointTo root (← L.place root)

/-! ### What scripts keep to the end and where they are stopped -/

/-- Wherever the script comes to, it has kept this of the tree. -/
abbrev Holds {α : Type} (P : Fs Bytes → Prop) (p : Script α) : Prop := Stays (σ := sig) perform (fun s => P s.fs) p

section Holds

variable {α β : Type} {P : Fs Bytes → Prop}

theorem holds_act {a : Act} (h : Keeps P (act a)) : Holds P (act a) := Prog.stays_call h

theorem Holds.bind {x : Raising α} {f : α → Raising β} (h : Holds P x.run) (hf : ∀ a, Holds P (f a).run) : Holds P (x >>= f).run :=
  Stays.raising h hf

theorem Holds.lift {p : Script α} {f : α → Raising β} (h : Holds P p) (hf : ∀ a, Holds P (f a).run) :
    Holds P (ExceptT.lift p >>= f).run := Stays.lift h hf

theorem holds_pure {a : α} : Holds P (pure a : Raising α).run := Prog.stays_pure (Except.ok a)

theorem holds_throw {e : Error} : Holds P (throw e : Raising α).run := Prog.stays_pure (Except.error e)

theorem Holds.ite {c : Prop} [Decidable c] {x y : Raising α} (hx : Holds P x.run) (hy : Holds P y.run) :
    Holds P (if c then x else y).run := by
  split_ifs
  · exact hx
  · exact hy

theorem holds_look : Holds P look.run := holds_act keeps_look

theorem holds_peek : Holds P peek.run :=
  Holds.lift (holds_act keeps_look) fun r => match r with
    | .ok _ => holds_pure
    | .error _ => holds_pure

theorem holds_mapErr {what : String} {p : Script (Except Error Unit)} (h : Holds P p) : Holds P (mapErr what p).run :=
  Holds.lift h fun r => match r with
    | .ok () => holds_pure
    | .error _ => holds_throw

theorem holds_raised (r : Except BootstrapError α) : Holds P (raised r).run := match r with
  | .ok _ => holds_pure
  | .error _ => holds_throw

end Holds

/-- From a tree in `P`: what the script leaves when it returns, when it raises, and where it is stopped. -/
abbrev Lands {α : Type} (P : Fs Bytes → Prop) (x : Raising α) (Q : α → Fs Bytes → Prop) (E C : Fs Bytes → Prop) : Prop :=
  Guards (σ := sig) perform (fun s => P s.fs) x.run (Post (fun a s => Q a s.fs) fun _ s => E s.fs) fun s => C s.fs

section Lands

variable {α β : Type} {P E C : Fs Bytes → Prop} {Q R : Fs Bytes → Prop} {x : Script (Except Error Unit)}

theorem Lands.bind {x : Raising α} {f : α → Raising β} {R : α → Fs Bytes → Prop} {T : β → Fs Bytes → Prop} (h : Lands P x R E C)
    (hf : ∀ a, Lands (R a) (f a) T E C) (hE : ∀ t, E t → C t) : Lands P (x >>= f) T E C :=
  Guards.raising h hf fun _ _ hs => hE _ hs

theorem lands_return {a : α} {Q : α → Fs Bytes → Prop} (h : ∀ t, P t → Q a t) (hC : ∀ t, P t → C t) : Lands P (pure a) Q E C :=
  Prog.guards_pure (fun _ hs => h _ hs) fun _ hs => hC _ hs

theorem Lands.pre {x : Raising α} {P' : Fs Bytes → Prop} {Q : α → Fs Bytes → Prop} (h : Lands P x Q E C) (hP : ∀ t, P' t → P t) :
    Lands P' x Q E C := Guards.pre h fun _ hs => hP _ hs

theorem Lands.post {x : Raising α} {Q Q' : α → Fs Bytes → Prop} {C' : Fs Bytes → Prop} (h : Lands P x Q E C)
    (hQ : ∀ a t, Q a t → Q' a t) (hC : ∀ t, C t → C' t) : Lands P x Q' E C' := by
  refine Guards.mono h (fun r _ hs => ?_) fun _ hs => hC _ hs
  cases r with
  | ok a => exact hQ a _ hs
  | error e => exact hs

theorem Lands.ite {c : Prop} [Decidable c] {x y : Raising α} {Q : α → Fs Bytes → Prop} (hx : c → Lands P x Q E C)
    (hy : ¬c → Lands P y Q E C) : Lands P (if c then x else y) Q E C := by
  split_ifs with h
  · exact hx h
  · exact hy h

/-- What a script lands in is what it is stopped in before and after its one action. -/
theorem Leaves.lands {p : Script (Except Error α)} {T : α → Fs Bytes → Prop} (hp : Single p) (h : Leaves P (attempt p) T E)
    (hP : ∀ t, P t → C t) (hT : ∀ b t, T b t → C t) (hE : ∀ t, E t → C t) : Lands P (attempt p) T E C := by
  refine fun s hs => ⟨h s hs, fun t ht => ?_⟩
  have hpost : Post (fun b s => T b s.fs) (fun _ s => E s.fs) (run perform p s).1 (run perform p s).2 := h s hs
  rcases hp s t ht with rfl | rfl
  · exact hP _ hs
  · cases hr : (run perform p s).1 with
    | ok b =>
      rw [hr] at hpost
      exact hT b _ hpost
    | error e =>
      rw [hr] at hpost
      exact hE _ hpost

end Lands

/-! ### The pointer -/

/-- What a writer of the pointer stages, as a link and as a text. -/
def stagedLinkName (what : String) : String := "." ++ currentLink ++ "." ++ what ++ ".tmp"

def stagedFileName (what : String) : String := currentPointerFile ++ "." ++ what ++ ".tmp"

/-- The names of the install root that are as they were up to the rename, and the one that stays. -/
def Unmoved (name : String) : Prop := name = currentLink ∨ name = currentPointerFile ∨ name = versionsDir

def Unwritten (what name : String) : Prop := Unmoved name ∨ name = stagedFileName what

instance : DecidablePred Unmoved := fun _ => inferInstanceAs (Decidable (_ ∨ _))

instance (what : String) : DecidablePred (Unwritten what) := fun _ => inferInstanceAs (Decidable (_ ∨ _))

/-- What is staged is none of these, and the link is not the text. -/
structure StagedApart (what : String) : Prop where
  file : ¬Unmoved (stagedFileName what)
  link : ¬Unwritten what (stagedLinkName what)

theorem stagedApart_bootstrap : StagedApart "bootstrap" := ⟨by decide, by decide⟩

theorem StagedApart.ne_unmoved {what name : String} (h : StagedApart what) (hname : Unmoved name) : stagedFileName what ≠ name :=
  fun he => h.file (he ▸ hname)

theorem StagedApart.ne_link {what name : String} (h : StagedApart what) (hname : Unmoved name) : stagedLinkName what ≠ name :=
  fun he => h.link (.inl (he ▸ hname))

/-- No pointer has been renamed yet. -/
def Awaiting (root : Place) (before t : Fs Bytes) : Prop := Fs.Agree (Where root Unmoved) t before

/-- The new version is current, with all that was there of it. -/
structure Current (root : Place) (v : String) (before t : Fs Bytes) : Prop where
  resolves : resolveCurrentVersion root t = some v
  plain : t.isLink (root ++ [currentPointerFile]) = false
  versions : Fs.Agree (Where root (· = versionsDir)) t before

/-- `current` is the link, and the text is what it was, or is not there. -/
structure Linked (root : Place) (v : String) (before t : Fs Bytes) : Prop where
  link : t.node (root ++ [currentLink]) = some (.link (versionPath v))
  file : t.node (root ++ [currentPointerFile]) = before.node (root ++ [currentPointerFile]) ∨ t.node (root ++ [currentPointerFile]) = none
  versions : Fs.Agree (Where root (· = versionsDir)) t before

/-- The text is the version, and `current` is what it was, or is not there. -/
structure Texted (root : Place) (v : String) (before t : Fs Bytes) : Prop where
  file : t.node (root ++ [currentPointerFile]) = some (.file (Bytes.encode (v ++ "\n")))
  link : t.node (root ++ [currentLink]) = before.node (root ++ [currentLink]) ∨ t.node (root ++ [currentLink]) = none
  versions : Fs.Agree (Where root (· = versionsDir)) t before

/-- A version that its pointer gives back. -/
structure Nameable (v : String) : Prop where
  plain : PlainName v
  trimmed : Text.trim v.toList = v.toList

section Pointer

variable {root : Place} {v : String} {before t u : Fs Bytes}

theorem resolveCurrentVersion_congr (hlink : u.node (root ++ [currentLink]) = t.node (root ++ [currentLink]))
    (hfile : u.node (root ++ [currentPointerFile]) = t.node (root ++ [currentPointerFile]))
    (hplain : t.isLink (root ++ [currentPointerFile]) = false) : resolveCurrentVersion root u = resolveCurrentVersion root t := by
  have hplain' : u.isLink (root ++ [currentPointerFile]) = false := (isLink_congr hfile).trans hplain
  have hdata : u.data (root ++ [currentPointerFile]) = t.data (root ++ [currentPointerFile]) := by
    rw [Fs.data, Fs.data, Fs.stat_of_node hplain, Fs.stat_of_node hplain', hfile]
  rw [resolveCurrentVersion, resolveCurrentVersion, linkTarget, linkTarget, readToString, readToString, hlink, hdata]

theorem Awaiting.resolves (h : Awaiting root before t) (hplain : before.isLink (root ++ [currentPointerFile]) = false) :
    resolveCurrentVersion root t = resolveCurrentVersion root before :=
  resolveCurrentVersion_congr (h _ (where_self (.inl rfl))) (h _ (where_self (.inr (.inl rfl)))) hplain

theorem Awaiting.versions (h : Awaiting root before t) : Fs.Agree (Where root (· = versionsDir)) t before :=
  h.mono fun _ => where_mono fun _ hname => .inr (.inr hname)

theorem fileName_versionPath (hv : PlainName v) : fileName (versionPath v) = some v := by
  rw [hv.versionPath]
  simp [fileName, hv.notUp]

theorem Linked.current (h : Linked root v before t) (hv : PlainName v) (hplain : before.isLink (root ++ [currentPointerFile]) = false) :
    Current root v before t := by
  have hfile : t.isLink (root ++ [currentPointerFile]) = false := by
    rcases h.file with hsame | hgone
    · exact (isLink_congr hsame).trans hplain
    · exact (data_of_none hgone).2.2.2
  refine ⟨?_, hfile, h.versions⟩
  rw [resolveCurrentVersion, linkTarget, h.link]
  show (match fileName (versionPath v) with
    | some name => some name
    | none => _) = some v
  rw [fileName_versionPath hv]

/-- Where the link names nothing, the text is read. -/
theorem Texted.resolves (h : Texted root v before t) (hv : Nameable v) (hlink : (linkTarget (root ++ [currentLink]) t).bind fileName = none) :
    resolveCurrentVersion root t = some v := by
  have htrim : Text.trim (v ++ "\n").toList = v.toList := by
    rw [String.toList_append]
    exact Text.stripBy_concat (by decide) hv.trimmed
  rw [resolveCurrentVersion, hlink, readToString, Fs.data_of_node h.file, Option.bind_some, Bytes.decode_encode, Option.map_some,
    Option.map_some, htrim, String.ofList_toList]
  simp [hv.plain.nonempty]

theorem resolveCurrentVersion_of_link {name : String} (h : (linkTarget (root ++ [currentLink]) t).bind fileName = some name) :
    resolveCurrentVersion root t = some name := by
  rw [resolveCurrentVersion]
  simp only [h]

theorem Texted.current (h : Texted root v before t) (hv : Nameable v) (hnone : resolveCurrentVersion root before = none) :
    Current root v before t := by
  have hplain : t.isLink (root ++ [currentPointerFile]) = false := by rw [Fs.isLink, h.file]
  refine ⟨h.resolves hv ?_, hplain, h.versions⟩
  rcases h.link with hsame | hgone
  · by_contra hname
    obtain ⟨name, hname⟩ := Option.ne_none_iff_exists'.mp hname
    rw [linkTarget, hsame, ← linkTarget] at hname
    rw [resolveCurrentVersion_of_link hname] at hnone
    cases hnone
  · rw [linkTarget, hgone]
    rfl

theorem Current.agree (h : Current root v before t) (hu : Fs.Agree (Where root Unmoved) u t) : Current root v before u :=
  ⟨(Awaiting.resolves hu h.plain).trans h.resolves, (isLink_congr (hu _ (where_self (.inr (.inl rfl))))).trans h.plain,
    (Awaiting.versions hu).trans h.versions⟩

/-- Or the pointer waits, or it is there. -/
def Either (root : Place) (v : String) (before t : Fs Bytes) : Prop := Awaiting root before t ∨ Current root v before t

/-- The pointer is written, in either shape. -/
def Pointing (root : Place) (v : String) (before t : Fs Bytes) : Prop := Linked root v before t ∨ Texted root v before t

end Pointer

section Rules

variable {P E C Q : Fs Bytes → Prop} {x : Script (Except Error Unit)} {fails : Fs Bytes → Option Error} {f : Fs Bytes → Fs Bytes}

theorem lands_change (hx : ∀ s, run perform x s = s.change (fails s.fs) f) (hsingle : Single x)
    (hok : ∀ t, P t → fails t = none → Q (f t)) (hE : ∀ t, P t → E t) (hQ : ∀ t, Q t → C t) (hC : ∀ t, E t → C t) :
    Lands P (attempt x) (fun _ => Q) E C :=
  (leaves_change hx hok hE).lands hsingle (fun t ht => hC t (hE t ht)) (fun _ => hQ) hC

theorem lands_mapErr {what : String} (h : Lands P (attempt x) (fun _ => Q) E C) (hQ : ∀ t, Q t → C t) (hE : ∀ t, E t → C t) :
    Lands P (mapErr what x) (fun _ => Q) E C :=
  Guards.lift h fun r => match r with
    | .ok () => Prog.guards_pure (fun _ hs => hs) fun _ hs => hQ _ hs
    | .error _ => Prog.guards_pure (fun _ hs => hs) fun _ hs => hE _ hs

theorem lands_ignoring (h : Lands P (attempt x) (fun _ => Q) Q C) (hQ : ∀ t, Q t → C t) : Lands P (ignoring x) (fun _ => Q) E C :=
  Guards.lift h fun r => match r with
    | .ok () => Prog.guards_pure (fun _ hs => hs) fun _ hs => hQ _ hs
    | .error _ => Prog.guards_pure (fun _ hs => hs) fun _ hs => hQ _ hs

theorem Holds.lands_ignoring {p : Script (Except Error Unit)} (h : Holds P p) (hC : ∀ t, P t → C t) :
    Lands P (ignoring p) (fun _ => P) E C :=
  Guards.lift (R := fun _ s => P s.fs) (fun _ hs => ⟨h.run hs, fun t ht => hC _ (h _ hs t ht)⟩)
    fun _ => lands_return (Q := fun _ => P) (fun _ ht => ht) hC

theorem lands_peek (hC : ∀ t, P t → C t) : Lands P peek (fun a t => P t ∧ (a = t ∨ a = .empty)) E C :=
  fun s hs => ⟨leaves_peek s hs, fun t ht => hC _ (holds_peek s hs t ht)⟩

end Rules

section Writers

variable {root : Place} {v what : String} {before : Fs Bytes}

/-- Before the rename, or after it. -/
def Between (root : Place) (v : String) (before t : Fs Bytes) : Prop := Awaiting root before t ∨ Pointing root v before t

theorem Awaiting.of_unwritten {t : Fs Bytes} (h : Fs.Agree (Where root (Unwritten what)) t before) : Awaiting root before t :=
  h.mono fun _ => where_mono fun _ hname => .inl hname

theorem awaiting_between (t : Fs Bytes) (h : Awaiting root before t) : Between root v before t := .inl h

theorem pointing_between (t : Fs Bytes) (h : Pointing root v before t) : Between root v before t := .inr h

theorem linked_between (t : Fs Bytes) (h : Linked root v before t) : Between root v before t := .inr (.inl h)

theorem texted_between (t : Fs Bytes) (h : Texted root v before t) : Between root v before t := .inr (.inr h)

theorem unwritten_between (t : Fs Bytes) (h : Fs.Agree (Where root (Unwritten what)) t before) : Between root v before t :=
  .inl (Awaiting.of_unwritten h)

/-! The text shape: the text is staged and renamed, and the link is dropped. -/

theorem lands_stageFile (hwhat : StagedApart what) (htemp : before.isLink (root ++ [stagedFileName what]) = false) :
    Lands (fun t => Fs.Agree (Where root (Unwritten what)) t before)
      (attempt (act (.write (root ++ [stagedFileName what]) (Bytes.encode (v ++ "\n")))))
      (fun _ t => Awaiting root before t ∧ t.node (root ++ [stagedFileName what]) = some (.file (Bytes.encode (v ++ "\n"))))
      (Awaiting root before) (Between root v before) := by
  refine (leaves_write (fun t ht => ?_) (fun t ht _ => ?_) fun t ht => Awaiting.of_unwritten ht).lands (fun _ _ h => Prog.passes_call h)
    unwritten_between (fun _ t ht => awaiting_between t ht.1) awaiting_between
  · exact (isLink_congr (ht _ (where_self (.inr rfl)))).trans htemp
  · exact ⟨(agree_set_where hwhat.file [] _ t).trans (Awaiting.of_unwritten ht), Fs.node_set_self ..⟩

theorem lands_renameFile (hwhat : StagedApart what) :
    Lands (fun t => Awaiting root before t ∧ t.node (root ++ [stagedFileName what]) = some (.file (Bytes.encode (v ++ "\n"))))
      (attempt (act (.rename (root ++ [stagedFileName what]) (root ++ [currentPointerFile])))) (fun _ => Texted root v before)
      (Awaiting root before) (Between root v before) := by
  refine lands_change (fun _ => rfl) (fun _ _ h => Prog.passes_call h) (fun t ht _ => ?_) (fun t ht => ht.1) texted_between awaiting_between
  have hother : stagedFileName what ≠ versionsDir := hwhat.ne_unmoved (.inr (.inr rfl))
  have hversions : Fs.Agree (Where root (· = versionsDir)) (World.rename (root ++ [stagedFileName what]) (root ++ [currentPointerFile]) t) t :=
    agree_rename_where (p := (· = versionsDir)) hother (by decide) t
  rw [World.rename, if_neg (ne_of_name (hwhat.ne_unmoved (.inr (.inl rfl))))] at hversions ⊢
  refine ⟨node_moved.trans ht.2, .inl ?_, hversions.trans ht.1.versions⟩
  exact (node_move_name (hwhat.ne_unmoved (.inl rfl)) (by decide)).trans (ht.1 _ (where_self (.inl rfl)))

theorem lands_dropLink : Lands (Texted root v before) (removeIfSymlink (root ++ [currentLink])) (fun _ => Texted root v before)
    (Awaiting root before) (Between root v before) := by
  refine (lands_peek texted_between).bind (fun a => Lands.ite (fun _ => lands_ignoring ?_ texted_between) fun _ => ?_) awaiting_between
  · refine lands_change (fun _ => rfl) (fun _ _ h => Prog.passes_call h) (fun t ht _ => ?_) (fun t ht => ht.1) texted_between texted_between
    refine ⟨(Fs.node_set_of_ne (ne_of_name (by decide)) none t).trans ht.1.file, .inr (Fs.node_set_self ..), ?_⟩
    exact (agree_set_where (by decide) [] none t).trans ht.1.versions
  · exact lands_return (fun t ht => ht.1) fun t ht => texted_between t ht.1

theorem lands_writePointerFile (hwhat : StagedApart what) (htemp : before.isLink (root ++ [stagedFileName what]) = false) :
    Lands (fun t => Fs.Agree (Where root (Unwritten what)) t before) (writePointerFile what root v) (fun _ => Texted root v before)
      (Awaiting root before) (Between root v before) := by
  refine (lands_mapErr (lands_stageFile hwhat htemp) (fun t ht => awaiting_between t ht.1) awaiting_between).bind (fun _ => ?_) awaiting_between
  exact (lands_mapErr (lands_renameFile hwhat) texted_between awaiting_between).bind (fun _ => lands_dropLink) awaiting_between

/-! The link shape: the same with a link, and the text is dropped. -/

theorem lands_unstageLink (hwhat : StagedApart what) :
    Lands (fun t => Fs.Agree (Where root (Unwritten what)) t before) (ignoring (act (.unlink (root ++ [stagedLinkName what]))))
      (fun _ t => Fs.Agree (Where root (Unwritten what)) t before) (Awaiting root before) (Between root v before) := by
  refine lands_ignoring (lands_change (fun _ => rfl) (fun _ _ h => Prog.passes_call h) (fun t ht _ => ?_) (fun _ ht => ht)
    unwritten_between unwritten_between) unwritten_between
  exact (agree_set_where hwhat.link [] none t).trans ht

theorem lands_stageLink (hwhat : StagedApart what) :
    Lands (fun t => Fs.Agree (Where root (Unwritten what)) t before)
      (attempt (act (.symlink (versionPath v) (root ++ [stagedLinkName what]))))
      (fun _ t => Fs.Agree (Where root (Unwritten what)) t before ∧ t.node (root ++ [stagedLinkName what]) = some (.link (versionPath v)))
      (fun t => Fs.Agree (Where root (Unwritten what)) t before) (Between root v before) := by
  refine lands_change (fun _ => rfl) (fun _ _ h => Prog.passes_call h) (fun t ht _ => ?_) (fun _ ht => ht)
    (fun t ht => unwritten_between t ht.1) unwritten_between
  exact ⟨(agree_set_where hwhat.link [] _ t).trans ht, Fs.node_set_self ..⟩

theorem lands_renameLink (hwhat : StagedApart what) :
    Lands (fun t => Fs.Agree (Where root (Unwritten what)) t before ∧ t.node (root ++ [stagedLinkName what]) = some (.link (versionPath v)))
      (attempt (act (.rename (root ++ [stagedLinkName what]) (root ++ [currentLink])))) (fun _ => Linked root v before)
      (Awaiting root before) (Between root v before) := by
  refine lands_change (fun _ => rfl) (fun _ _ h => Prog.passes_call h) (fun t ht _ => ?_) (fun t ht => Awaiting.of_unwritten ht.1)
    linked_between awaiting_between
  have hother : stagedLinkName what ≠ versionsDir := hwhat.ne_link (.inr (.inr rfl))
  have hversions : Fs.Agree (Where root (· = versionsDir)) (World.rename (root ++ [stagedLinkName what]) (root ++ [currentLink]) t) t :=
    agree_rename_where (p := (· = versionsDir)) hother (by decide) t
  rw [World.rename, if_neg (ne_of_name (hwhat.ne_link (.inl rfl)))] at hversions ⊢
  refine ⟨node_moved.trans ht.2, .inl ?_, hversions.trans (Awaiting.of_unwritten ht.1).versions⟩
  exact (node_move_name (hwhat.ne_link (.inr (.inl rfl))) (by decide)).trans (Awaiting.of_unwritten ht.1 _ (where_self (.inr (.inl rfl))))

theorem lands_dropFile : Lands (Linked root v before) (removeIfRegularFile (root ++ [currentPointerFile])) (fun _ => Linked root v before)
    (Awaiting root before) (Between root v before) := by
  refine (lands_peek linked_between).bind (fun a => Lands.ite (fun _ => lands_ignoring ?_ linked_between) fun _ => ?_) awaiting_between
  · refine lands_change (fun _ => rfl) (fun _ _ h => Prog.passes_call h) (fun t ht _ => ?_) (fun t ht => ht.1) linked_between linked_between
    exact ⟨(Fs.node_set_of_ne (ne_of_name (by decide)) none t).trans ht.1.link, .inr (Fs.node_set_self ..),
      (agree_set_where (by decide) [] none t).trans ht.1.versions⟩
  · exact lands_return (fun t ht => ht.1) fun t ht => linked_between t ht.1

/-- Where there are no links, the text is written. -/
theorem lands_writePointerLink (hwhat : StagedApart what) (htemp : before.isLink (root ++ [stagedFileName what]) = false) :
    Lands (fun t => Fs.Agree (Where root (Unwritten what)) t before) (writePointerLink what root v) (fun _ => Pointing root v before)
      (Awaiting root before) (Between root v before) := by
  have hrenamed (text : String) : Lands
      (fun t => Fs.Agree (Where root (Unwritten what)) t before ∧ t.node (root ++ [stagedLinkName what]) = some (.link (versionPath v)))
      (mapErr text (act (.rename (root ++ [stagedLinkName what]) (root ++ [currentLink])))) (fun _ => Linked root v before)
      (Awaiting root before) (Between root v before) := lands_mapErr (lands_renameLink hwhat) linked_between awaiting_between
  have hlink (text : String) := (hrenamed text).bind (fun _ => lands_dropFile) awaiting_between
  have hfile := (lands_unstageLink (v := v) hwhat).bind (fun _ => lands_writePointerFile hwhat htemp) awaiting_between
  unfold writePointerLink
  refine (lands_unstageLink hwhat).bind (fun _ => Guards.lift (lands_stageLink hwhat) fun r => ?_) awaiting_between
  cases r with
  | ok u => exact (hlink _).post (fun _ t ht => .inl ht) fun t ht => ht
  | error e => exact hfile.post (fun _ t ht => .inr ht) fun t ht => ht

/-- The pointer of the first version: it is current once it is written. -/
theorem lands_writeBootstrapPointer (hv : Nameable v) (hnone : resolveCurrentVersion root before = none)
    (hplain : before.isLink (root ++ [currentPointerFile]) = false) (htemp : before.isLink (root ++ [stagedFileName "bootstrap"]) = false) :
    Lands (fun t => t = before) (writeBootstrapPointer root v) (fun _ => Current root v before) (Awaiting root before)
      (Either root v before) := by
  have hcurrent : ∀ t, Pointing root v before t → Current root v before t := fun t ht =>
    ht.elim (fun h => h.current hv.plain hplain) fun h => h.current hv hnone
  have hlands : Lands (fun t => t = before) (writePointerLink "bootstrap" root v) (fun _ => Pointing root v before)
      (Awaiting root before) (Between root v before) :=
    (lands_writePointerLink stagedApart_bootstrap htemp).pre fun t ht => ht ▸ .refl _ _
  exact hlands.post (fun _ t ht => hcurrent t ht) fun t ht => ht.imp_right (hcurrent t)

end Writers

end Install
end LocaiLink
