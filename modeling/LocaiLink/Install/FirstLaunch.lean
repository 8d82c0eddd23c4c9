/-
# The first launch

Where no version is current, `bootstrap_from_boot` fetches the release that `boot.json`
asks for, checks its digest, extracts it into `versions/<v>` and has `current` point there.
Wherever it is stopped or fails no version is current, or the new one is, with all that was
extracted for it out of an archive with the digest that the release publishes
(`first_launch`). A failure to reach the network leaves all but the staging directory alone.
-/
import LocaiLink.Base.Walk
import LocaiLink.Install.Bootstrap

namespace LocaiLink
namespace Install

open World
open Prog (run run_ok run_bind_ok run_bind_error Passes Stays Guards Post)

/-! ### What is written before the pointer -/

/-- A place beside the staging directory, and not on the way to it. -/
def BesideStaging (root q : Place) : Prop := ¬root ++ [stagingDir] <+: q ∧ ¬q <+: root

/-- A place that is beside that of the new version, too. -/
def Elsewhere (root : Place) (v : String) (q : Place) : Prop :=
  BesideStaging root q ∧ ¬root ++ [versionsDir, v] <+: q ∧ ¬q <+: root ++ [versionsDir]

/-- Where the launcher writes. -/
def Filled (root q : Place) : Prop := root ++ [stagingDir] <+: q ∨ root ++ [versionsDir] <+: q

/-- What is spared is as it was, and no link is where the launcher writes. -/
structure Tidy (K : Place → Prop) (root : Place) (before t : Fs Bytes) : Prop where
  spared : Fs.Agree K t before
  noLink : ∀ q, Filled root q → t.isLink q = false

section Tidy

variable {K : Place → Prop} {root p q : Place} {v name : String} {before t : Fs Bytes}

theorem filled_staged (name : String) (l : List String) : Filled root ((root ++ [stagingDir, name]) ++ l) :=
  .inl ⟨name :: l, by simp⟩

theorem filled_version (l : List String) : Filled root ((root ++ [versionsDir, v]) ++ l) := .inr ⟨v :: l, by simp⟩

theorem BesideStaging.not_way (h : BesideStaging root q) : ¬q <+: root ++ [stagingDir] := by
  intro hq
  rcases List.prefix_concat_iff.mp hq with he | hq
  · exact h.1 (he ▸ List.prefix_refl _)
  · exact h.2 hq

theorem BesideStaging.not_staged (h : BesideStaging root q) : ¬root ++ [stagingDir, name] <+: q :=
  fun hq => h.1 (List.IsPrefix.trans ⟨[name], by simp⟩ hq)

theorem Elsewhere.not_way (h : Elsewhere root v q) (l : List String) : ¬q <+: (root ++ [versionsDir, v]) ++ l := by
  intro hq
  rcases List.prefix_or_prefix_of_prefix hq (List.prefix_append (root ++ [versionsDir, v]) l) with hq | hq
  · have hsplit : root ++ [versionsDir, v] = (root ++ [versionsDir]) ++ [v] := by simp
    rw [hsplit] at hq
    rcases List.prefix_concat_iff.mp hq with he | hq
    · exact h.2.1 (by rw [he, hsplit])
    · exact h.2.2 hq
  · exact h.2.1 hq

theorem Elsewhere.not_above (h : Elsewhere root v q) (l : List String) : ¬q <+: ((root ++ [versionsDir, v]) ++ l).dropLast :=
  fun hq => h.not_way l (hq.trans (List.dropLast_prefix _))

theorem isLink_of_fewer (h : t.isLink q = false) (gone : Place → Bool) (p : Place) : (t.drop gone p).isLink q = false := by
  by_cases hgone : p <+: q ∧ gone q = true
  · exact (data_of_none (if_pos hgone)).2.2.2
  · have hsame : (t.drop gone p).node q = t.node q := if_neg hgone
    exact (isLink_congr hsame).trans h

theorem isLink_of_set {n : Option Node} (hn : ∀ target, n ≠ some (.link target)) (h : t.isLink q = false) : (t.set p n).isLink q = false := by
  by_cases hq : q = p
  · rw [hq]
    refine Fs.isLink_eq_false fun target hnode => hn target ?_
    rwa [Fs.node_set_self] at hnode
  · rwa [isLink_set_of_ne hq]

theorem isLink_of_move (hp : ∀ l, t.isLink (p ++ l) = false) (h : t.isLink q = false) (r : Place) : (t.move p r).isLink q = false := by
  by_cases hr : r <+: q
  · obtain ⟨l, rfl⟩ := hr
    rw [Fs.isLink, Fs.node_move_target]
    exact hp l
  · by_cases hq : p <+: q
    · exact (data_of_none (Fs.node_move_source hq hr t)).2.2.2
    · exact (isLink_congr (Fs.node_move_of_not hq hr t)).trans h

theorem Tidy.mkdirs (hp : ∀ r, K r → ¬r <+: p) (h : Tidy K root before t) : Tidy K root before (mkdirs p t) :=
  ⟨spared_mkdirs hp h.spared, fun _ hq => isLink_mkdirs (h.noLink _ hq)⟩

theorem Tidy.drop (hp : ∀ r, K r → ¬p <+: r) (gone : Place → Bool) (h : Tidy K root before t) : Tidy K root before (t.drop gone p) :=
  ⟨spared_drop hp gone h.spared, fun _ hq => isLink_of_fewer (h.noLink _ hq) gone p⟩

theorem Tidy.set {n : Option Node} (hn : ∀ target, n ≠ some (.link target)) (hp : ∀ r, K r → ¬p <+: r) (h : Tidy K root before t) :
    Tidy K root before (t.set p n) := ⟨spared_set hp n h.spared, fun _ hq => isLink_of_set hn (h.noLink _ hq)⟩

theorem Tidy.rename (hp : ∀ r, K r → ¬p <+: r) (hq : ∀ r, K r → ¬q <+: r) (hin : ∀ l, Filled root (p ++ l)) (h : Tidy K root before t) :
    Tidy K root before (rename p q t) := by
  refine ⟨spared_rename hp hq h.spared, fun r hr => ?_⟩
  unfold World.rename
  split_ifs
  · exact h.noLink r hr
  · exact isLink_of_move (fun l => h.noLink _ (hin l)) (h.noLink r hr) q

end Tidy

section Staging

variable {K : Place → Prop} {root p : Place} {v name : String} {before : Fs Bytes} {L : Launcher} {asset : AssetTarget} {α : Type}

theorem holds_mkdirs (hp : ∀ r, K r → ¬r <+: p) : Holds (Tidy K root before) (act (.mkdirs p)) :=
  holds_act (keeps_mkdirs fun _ ht => ht.mkdirs hp)

theorem holds_unlink (hp : ∀ r, K r → ¬p <+: r) : Holds (Tidy K root before) (act (.unlink p)) :=
  holds_act (keeps_change (fun _ => rfl) fun _ ht _ => ht.set (fun _ h => by cases h) hp)

/-- A file is written where no link is. -/
theorem holds_write (hp : ∀ r, K r → ¬p <+: r) (hin : Filled root p) (d : Bytes) : Holds (Tidy K root before) (act (.write p d)) :=
  holds_act (keeps_truncate (fun _ ht => ht.noLink _ hin) (fun _ _ ht => ht.set (fun _ h => by cases h) hp) d)

theorem holds_removeDirAll (hp : ∀ r, K r → ¬p <+: r) (what : String) : Holds (Tidy K root before) (removeDirAll what p).run :=
  holds_peek.bind fun _ => Holds.ite (holds_mapErr (holds_unlink hp))
    (holds_mapErr (holds_act (keeps_rmtree fun _ gone ht => ht.drop hp gone)))

theorem holds_writeChunks (hp : ∀ r, K r → ¬p <+: r) (hin : Filled root p) : ∀ chunks : List Bytes,
    Holds (Tidy K root before) (writeChunks p chunks).run
  | [] => holds_pure
  | chunk :: chunks => by
    have hrest : Holds (Tidy K root before) (writeChunks p chunks).run := holds_writeChunks hp hin chunks
    unfold writeChunks
    refine Holds.ite (Holds.bind (x := attempt (act (.append p chunk))) ?_ fun _ => hrest) hrest
    refine holds_act (keeps_change (f := fun t => t.set (opened _ t) (some (.file ((t.data _).getD [] ++ chunk)))) (fun _ => rfl) fun t ht _ => ?_)
    rw [opened_of_not_link (ht.noLink _ hin)]
    exact ht.set (fun _ h => by cases h) hp

theorem holds_ensureStaging (hK : ∀ q, K q → BesideStaging root q) : Holds (Tidy K root before) (ensureStaging root).run := by
  have hmade : Holds (Tidy K root before) (mapErr "create staging dir" (act (.mkdirs (root ++ [stagingDir])))).run :=
    holds_mapErr (holds_mkdirs fun r hr => (hK r hr).not_way)
  exact holds_peek.bind fun _ => Holds.ite ((holds_removeDirAll (fun r hr => (hK r hr).1) _).bind fun _ => hmade) hmade

theorem tmpOf_staged : tmpOf (root ++ [stagingDir, name]) = root ++ [stagingDir, withExtension name "partial"] := by
  simp [tmpOf]

theorem holds_download (hK : ∀ q, K q → BesideStaging root q) (url : String) :
    Holds (Tidy K root before) (L.download url (root ++ [stagingDir, name])).run := by
  have hin {x : String} : Filled root (root ++ [stagingDir, x]) := by simpa using filled_staged x []
  have hspared {x : String} : ∀ r, K r → ¬root ++ [stagingDir, x] <+: r := fun r hr => (hK r hr).not_staged
  unfold Launcher.download
  refine Holds.lift (holds_act (keeps_quiet fun _ => rfl)) fun r => ?_
  cases r with
  | error e => exact holds_throw
  | ok resp =>
    rw [tmpOf_staged]
    refine Holds.ite holds_throw ?_
    refine (holds_mapErr (holds_write hspared hin [])).bind fun _ => ?_
    refine (holds_mapErr (holds_writeChunks hspared hin resp.chunks)).bind fun _ => ?_
    cases resp.error with
    | some e => exact holds_throw
    | none =>
      exact holds_mapErr (holds_act (keeps_change (fun _ => rfl) fun t ht _ => ht.rename hspared hspared fun l => filled_staged _ l))

theorem holds_httpGetString {P : Fs Bytes → Prop} (url : String) : Holds P (L.httpGetString url).run :=
  Holds.lift (holds_act (keeps_quiet fun _ => rfl)) fun r => match r with
    | .ok _ => holds_pure
    | .error _ => holds_throw

theorem holds_sidecarSha {P : Fs Bytes → Prop} : Holds P (L.sidecarSha asset).run := by
  unfold Launcher.sidecarSha
  cases asset.sha256Url with
  | some url => exact (holds_httpGetString url).bind fun _ => holds_raised _
  | none => exact holds_throw

theorem holds_resolveExpectedSha {P : Fs Bytes → Prop} : Holds P (L.resolveExpectedSha asset).run := by
  unfold Launcher.resolveExpectedSha
  cases asset.checksumsUrl with
  | none => exact holds_sidecarSha
  | some url =>
    refine Holds.lift (p := (L.httpGetString url).run) (holds_httpGetString url) fun r => ?_
    cases r with
    | error e => exact Holds.ite holds_throw holds_sidecarSha
    | ok body =>
      dsimp only
      cases findChecksumEntry body asset.assetName with
      | some sha => exact holds_pure
      | none => exact Holds.ite holds_throw holds_sidecarSha

theorem holds_verifySha256 {P : Fs Bytes → Prop} (digest : String) : Holds P (L.verifySha256 p digest).run := by
  refine holds_peek.bind fun t => ?_
  cases t.data p with
  | none => exact holds_throw
  | some d => exact Holds.ite holds_throw holds_pure

theorem holds_offered {P : Fs Bytes → Prop} : Holds P (L.offered root).run := by
  refine Holds.bind (holds_peek.bind fun t => ?_) fun config => ?_
  · cases readToString (root ++ [bootJson]) t with
    | none => exact holds_throw
    | some body =>
      dsimp only
      cases (JsonText.loads body).bind BootFile.read with
      | none => exact holds_throw
      | some f => exact holds_pure
  · unfold Launcher.resolveAsset
    cases config.assetUrl with
    | some url => exact holds_raised _
    | none =>
      refine (holds_httpGetString _).bind fun body => ?_
      cases (JsonText.loads body.toList).bind GhRelease.read with
      | none => exact holds_throw
      | some release => exact holds_raised _

end Staging

/-! ### The archive -/

section Extraction

variable {K : Place → Prop} {root archive : Place} {v name : String} {before : Fs Bytes} {L : Launcher} {asset : AssetTarget}

theorem holds_unpackEntry (e : Tarball.Entry) (l : List String) :
    Holds (Tidy (Elsewhere root v) root before) (unpackEntry e ((root ++ [versionsDir, v]) ++ l)).run := by
  have hspared : ∀ r, Elsewhere root v r → ¬(root ++ [versionsDir, v]) ++ l <+: r :=
    fun r hr hl => hr.2.1 ((List.prefix_append ..).trans hl)
  have hwrite : Holds (Tidy (Elsewhere root v) root before) (attempt (act (.write ((root ++ [versionsDir, v]) ++ l) e.data))).run :=
    holds_write hspared (filled_version l) e.data
  refine Holds.ite (holds_mkdirs fun r hr => hr.not_way l) (holds_look.bind fun t => Holds.ite ?_ hwrite)
  exact Holds.bind (x := attempt (act (.unlink _))) (holds_unlink hspared) fun _ => hwrite

theorem holds_extractEntry (written : ℕ) (e : Tarball.Entry) :
    Holds (Tidy (Elsewhere root v) root before) (extractEntry (root ++ [versionsDir, v]) name written e).run := by
  refine Holds.ite holds_throw ?_
  cases Tarball.relParts name e with
  | none => exact holds_pure
  | some rel =>
    refine Holds.ite holds_throw ?_
    refine (holds_mapErr (holds_mkdirs fun r hr => hr.not_above _)).bind fun _ => Holds.ite holds_throw ?_
    exact (holds_mapErr (holds_unpackEntry e _)).bind fun _ => holds_pure

theorem holds_extractEntries : ∀ (es : List (Option Tarball.Entry)) (any : Bool) (written : ℕ),
    Holds (Tidy (Elsewhere root v) root before) (extractEntries (root ++ [versionsDir, v]) name es any written).run
  | [], _, _ => Holds.ite holds_pure holds_throw
  | none :: _, _, _ => holds_throw
  | some e :: es, any, written => by
    refine (holds_extractEntry written e).bind fun r => ?_
    cases r with
    | none => exact holds_extractEntries es any written
    | some total => exact holds_extractEntries es true total

theorem dropLast_versionDir (hv : PlainName v) : (versionDir root v).dropLast = root ++ [versionsDir] := by
  rw [hv.versionDir]
  simp

theorem holds_clearTarget (hv : PlainName v) (hbelow : ∀ r, K r → ¬root ++ [versionsDir, v] <+: r)
    (hway : ∀ r, K r → ¬r <+: root ++ [versionsDir]) : Holds (Tidy K root before) (clearTarget root v).run := by
  have hmade : Holds (Tidy K root before)
      (mapErr s!"create {placeText (versionDir root v).dropLast}" (act (.mkdirs (versionDir root v).dropLast))).run := by
    rw [dropLast_versionDir hv]
    exact holds_mapErr (holds_mkdirs hway)
  refine holds_peek.bind fun _ => Holds.ite (Holds.bind ?_ fun _ => hmade) hmade
  rw [hv.versionDir]
  exact holds_removeDirAll hbelow _

theorem holds_extractTarball (hv : PlainName v) :
    Holds (Tidy (Elsewhere root v) root before) (L.extractTarball root archive v).run := by
  refine (holds_clearTarget hv (fun r hr => hr.2.1) fun r hr => hr.2.2).bind fun _ => ?_
  rw [fileName_versionPath hv]
  refine holds_peek.bind fun t => ?_
  cases t.data archive with
  | none => exact holds_throw
  | some d =>
    rw [hv.versionDir]
    exact holds_extractEntries _ _ _

/-- An asset whose names are single names. -/
structure Fits (asset : AssetTarget) : Prop where
  version : Nameable asset.version
  assetName : PlainName asset.assetName

theorem holds_fetchAsset (hK : ∀ q, K q → BesideStaging root q) (h : Fits asset) :
    Holds (Tidy K root before) (L.fetchAsset root asset).run := by
  refine (holds_ensureStaging hK).bind fun _ => ?_
  rw [h.assetName.stagedAt]
  exact holds_download hK _

theorem holds_install (h : Fits asset) : Holds (Tidy (Elsewhere root asset.version) root before) (L.install root asset).run :=
  (holds_fetchAsset (fun _ hq => hq.1) h).bind fun _ => holds_resolveExpectedSha.bind fun _ =>
    (holds_verifySha256 _).bind fun _ => (holds_extractTarball h.version.plain).bind fun _ => holds_pure

end Extraction

/-! ### What a version is made of -/

/-- The digest that a sidecar has. -/
def sidecarDigest : Except Error String → Option String
  | .ok body => (parseSidecar body).toOption
  | .error _ => none

/-- The digest that a list of checksums has of an asset. -/
def listedSha (assetName : String) : Except Error String → Option String
  | .ok body => findChecksumEntry body assetName
  | .error _ => none

/-- What the list of checksums is answered with at first, and the sidecar after that, where there is a list; or the
sidecar at once. -/
def publishedSha (asset : AssetTarget) (s : World) : Option String :=
  if asset.checksumsUrl.isSome then
    (listedSha asset.assetName s.ask.text).or (asset.sha256Url.bind fun _ => sidecarDigest s.tock.ask.text)
  else asset.sha256Url.bind fun _ => sidecarDigest s.ask.text

/-- What an entry makes of a tree, at its place. -/
def placeEntry (e : Tarball.Entry) (out : Place) (t : Fs Bytes) : Fs Bytes :=
  let made := mkdirs out.dropLast t
  if e.entryType = .directory then mkdirs out made
  else (if (made.node out).isSome then made.set out none else made).set out (some (.file e.data))

def putEntry (target : Place) (name : String) (t : Fs Bytes) (e : Tarball.Entry) : Fs Bytes :=
  match Tarball.relParts name e with
  | none => t
  | some rel => placeEntry e (target ++ rel.map Tarball.Component.asStr) t

/-- The bytes that an entry counts for. -/
def countedSize (name : String) (e : Tarball.Entry) : ℕ := if (Tarball.relParts name e).isSome then e.size.getD 0 else 0

/-- An entry that is no link, and that does not lead out of the version. -/
def Sound (name : String) (e : Tarball.Entry) : Prop :=
  e.isLink = false ∧ ∀ rel, Tarball.relParts name e = some rel → rel.all Tarball.Component.isPlain = true

section Runs

variable {L : Launcher} {asset : AssetTarget} {root p out target : Place} {s s' : World} {name digest url body : String} {d : Bytes}
  {fails : Option Error} {f : Fs Bytes → Fs Bytes} {x : Script (Except Error Unit)} {what : String} {e : Tarball.Entry}

theorem change_ok {w : World} (h : w.change fails f = (.ok (), s')) : s'.fs = f w.fs := by
  rcases change_cases w fails f with ⟨e, he⟩ | ⟨-, he⟩
  · rw [he] at h
    cases (Prod.mk.inj h).1
  · rw [he] at h
    rw [← (Prod.mk.inj h).2]

/-- Where a part of a script cannot raise, what comes after it has what it is answered. -/
theorem run_lift_bind {α β : Type} (p : Script α) (f : α → Raising β) (w : World) :
    run perform (ExceptT.lift p >>= f).run w = run perform (f (run perform p w).1).run (run perform p w).2 :=
  Prog.run_lift_bind (m := perform) p w

theorem mapErr_ok (h : run perform (mapErr what x).run s = (.ok (), s')) : run perform x s = (.ok (), s') := by
  unfold mapErr at h
  rw [run_lift_bind] at h
  cases hx : (run perform x s).1 with
  | ok u =>
    rw [hx] at h
    obtain ⟨-, rfl⟩ := Prod.mk.inj h
    exact Prod.ext hx rfl
  | error e =>
    rw [hx] at h
    exact (run_throw h).elim

theorem run_httpGetString : run perform (L.httpGetString url).run s = (s.ask.text.mapError L.classify, s.tock) := by
  unfold Launcher.httpGetString
  rw [run_lift_bind, show run perform (act (.getText url)) s = (s.ask.text, s.tock) from rfl]
  cases s.ask.text <;> rfl

theorem sidecarSha_ok (h : run perform (L.sidecarSha asset).run s = (.ok digest, s')) :
    s'.fs = s.fs ∧ (asset.sha256Url.bind fun _ => sidecarDigest s.ask.text) = some digest := by
  unfold Launcher.sidecarSha at h
  cases hurl : asset.sha256Url with
  | none =>
    rw [hurl] at h
    exact (run_throw h).elim
  | some url =>
    rw [hurl] at h
    obtain ⟨body, s₁, hget, h⟩ := run_bind_ok h
    rw [run_httpGetString] at hget
    obtain ⟨hbody, rfl⟩ := Prod.mk.inj hget
    cases htext : s.ask.text with
    | error e =>
      rw [htext] at hbody
      cases hbody
    | ok text =>
      rw [htext] at hbody
      obtain rfl : text = body := Except.ok.inj hbody
      rw [Option.bind_some, sidecarDigest]
      cases hparsed : parseSidecar text with
      | error e =>
        rw [hparsed] at h
        exact (run_throw h).elim
      | ok sha =>
        rw [hparsed] at h
        obtain ⟨hsha, rfl⟩ := Prod.mk.inj h
        exact ⟨rfl, congrArg some (Except.ok.inj hsha)⟩

theorem resolveExpectedSha_ok (h : run perform (L.resolveExpectedSha asset).run s = (.ok digest, s')) :
    s'.fs = s.fs ∧ publishedSha asset s = some digest := by
  unfold Launcher.resolveExpectedSha at h
  unfold publishedSha
  cases hurl : asset.checksumsUrl with
  | none =>
    rw [hurl] at h
    rw [if_neg (by simp)]
    exact sidecarSha_ok h
  | some url =>
    rw [hurl] at h
    rw [show (some url).isSome = true from rfl, if_pos rfl]
    dsimp only at h
    rw [run_lift_bind, run_httpGetString] at h
    cases htext : s.ask.text with
    | error e =>
      rw [htext] at h
      dsimp only [Except.mapError] at h
      split_ifs at h
      · exact (run_throw h).elim
      · obtain ⟨hfs, hsha⟩ := sidecarSha_ok h
        exact ⟨hfs, by rw [listedSha, Option.none_or]; exact hsha⟩
    | ok text =>
      rw [htext] at h
      dsimp only [Except.mapError] at h
      rw [listedSha]
      cases hfound : findChecksumEntry text asset.assetName with
      | some sha =>
        rw [hfound] at h
        obtain ⟨hsha, rfl⟩ := Prod.mk.inj h
        exact ⟨rfl, by rw [Option.some_or, Except.ok.inj hsha]⟩
      | none =>
        rw [hfound] at h
        dsimp only at h
        split_ifs at h
        · exact (run_throw h).elim
        · obtain ⟨hfs, hsha⟩ := sidecarSha_ok h
          exact ⟨hfs, by rw [Option.none_or]; exact hsha⟩

/-- What is seen of a file is there. -/
theorem data_of_seen (h : (seen s).data p = some d) : s.fs.data p = some d := by
  unfold seen at h
  split at h
  · exact h
  · cases h

theorem verifySha256_ok (h : run perform (L.verifySha256 p digest).run s = (.ok (), s')) :
    s'.fs = s.fs ∧ ∃ data, s.fs.data p = some data ∧ (L.sha256 data).toList = Text.lower digest.toList := by
  unfold Launcher.verifySha256 at h
  rw [run_peek_bind] at h
  cases hdata : (seen s).data p with
  | none =>
    rw [hdata] at h
    exact (run_throw h).elim
  | some data =>
    rw [hdata] at h
    dsimp only at h
    split_ifs at h with hsame
    · exact (run_throw h).elim
    · obtain ⟨-, rfl⟩ := Prod.mk.inj h
      exact ⟨rfl, data, data_of_seen hdata, not_ne_iff.mp hsame⟩

theorem unpackEntry_ok (h : run perform (unpackEntry e out).run s = (.ok (), s')) :
    s'.fs = if e.entryType = .directory then mkdirs out s.fs
      else (if (s.fs.node out).isSome then s.fs.set out none else s.fs).set out (some (.file e.data)) := by
  have hwrite {w w' : World} (hnone : w.fs.node out = none)
      (hw : run perform (attempt (act (.write out e.data))).run w = (.ok (), w')) : w'.fs = w.fs.set out (some (.file e.data)) := by
    have hchange : w'.fs = w.fs.set (opened out w.fs) (some (.file e.data)) := change_ok hw
    rwa [opened_of_not_link (data_of_none hnone).2.2.2] at hchange
  unfold unpackEntry at h
  by_cases hdir : e.entryType = .directory
  · rw [if_pos hdir] at h ⊢
    exact change_ok h
  rw [if_neg hdir] at h ⊢
  obtain ⟨t, s₁, hlook, h⟩ := run_bind_ok h
  obtain ⟨rfl, rfl⟩ := run_look hlook
  by_cases hthere : (s.fs.node out).isSome = true
  · rw [if_pos hthere] at h ⊢
    obtain ⟨u, s₂, hunlink, h⟩ := run_bind_ok h
    have hgone : s₂.fs = s.tock.fs.set out none := change_ok hunlink
    rw [show s.fs = s.tock.fs from rfl, ← hgone]
    refine hwrite ?_ h
    rw [hgone]
    exact Fs.node_set_self ..
  · rw [if_neg hthere] at h ⊢
    have hnone : s.tock.fs.node out = none := Option.not_isSome_iff_eq_none.mp hthere
    exact hwrite (w := s.tock) hnone h

/-- An entry that is written counts for its bytes, and the archive is not too large yet. -/
theorem extractEntry_ok {written : ℕ} {r : Option ℕ} (h : run perform (extractEntry target name written e).run s = (.ok r, s')) :
    Sound name e ∧ s'.fs = putEntry target name s.fs e ∧ r.isSome = (Tarball.relParts name e).isSome ∧
      ∀ total, r = some total → total = written + countedSize name e ∧ total ≤ Tarball.MAX_EXTRACTED_BYTES := by
  unfold extractEntry at h
  unfold putEntry Sound countedSize
  split_ifs at h with hlink
  · exact (run_throw h).elim
  have hplain : e.isLink = false := Bool.eq_false_iff.mpr hlink
  cases hrel : Tarball.relParts name e with
  | none =>
    rw [hrel] at h
    obtain ⟨hr, rfl⟩ := Prod.mk.inj h
    obtain rfl := Except.ok.inj hr
    exact ⟨⟨hplain, fun _ h => by cases h⟩, rfl, rfl, fun _ h => by cases h⟩
  | some rel =>
    rw [hrel] at h
    dsimp only at h
    split_ifs at h with hparts hsize
    · exact (run_throw h).elim
    · obtain ⟨u, s₁, -, hthrow⟩ := run_bind_ok h
      exact (run_throw hthrow).elim
    obtain ⟨u, s₁, hmkdir, h⟩ := run_bind_ok h
    have hmade : s₁.fs = mkdirs (target ++ rel.map Tarball.Component.asStr).dropLast s.fs := change_ok (mapErr_ok hmkdir)
    obtain ⟨u', s₂, hunpack, h⟩ := run_bind_ok h
    obtain ⟨hr, rfl⟩ := Prod.mk.inj h
    obtain rfl := Except.ok.inj hr
    refine ⟨⟨hplain, fun rel' h => ?_⟩, ?_, rfl, fun total ht => ?_⟩
    · rw [← Option.some.inj h]
      simpa using hparts
    · dsimp only
      rw [unpackEntry_ok (mapErr_ok hunpack), hmade, placeEntry]
    · rw [← Option.some.inj ht, Option.isSome_some, if_pos rfl]
      simp only [Tarball.MAX_EXTRACTED_BYTES] at hsize ⊢
      omega

/-- The loop has written every entry of the archive that is below the version. -/
structure Written (target : Place) (name : String) (any : Bool) (written : ℕ) (es : List Tarball.Entry) (t t' : Fs Bytes) : Prop where
  tree : t' = es.foldl (putEntry target name) t
  some : any = true ∨ ∃ e ∈ es, (Tarball.relParts name e).isSome = true
  sound : ∀ e ∈ es, Sound name e
  size : written ≤ Tarball.MAX_EXTRACTED_BYTES → written + (es.map (countedSize name)).sum ≤ Tarball.MAX_EXTRACTED_BYTES

theorem extractEntries_ok : ∀ {es : List (Option Tarball.Entry)} {any : Bool} {written : ℕ} {s : World},
    run perform (extractEntries target name es any written).run s = (.ok (), s') →
      ∃ l, es = l.map some ∧ Written target name any written l s.fs s'.fs
  | [], any, written, s, h => by
    unfold extractEntries at h
    split_ifs at h with hany
    · obtain ⟨-, rfl⟩ := Prod.mk.inj h
      exact ⟨[], rfl, rfl, .inl hany, by simp, by simp⟩
    · exact (run_throw h).elim
  | none :: es, _, _, _, h => (run_throw h).elim
  | some e :: es, any, written, s, h => by
    obtain ⟨r, s₁, hentry, h⟩ := run_bind_ok h
    obtain ⟨hsound, htree, hsome, htotal⟩ := extractEntry_ok hentry
    have hall {l : List Tarball.Entry} (hl : ∀ e ∈ l, Sound name e) : ∀ e' ∈ e :: l, Sound name e' := by
      intro e' he'
      rcases List.mem_cons.mp he' with rfl | he'
      · exact hsound
      · exact hl e' he'
    cases r with
    | none =>
      obtain ⟨l, rfl, hw⟩ := extractEntries_ok h
      have hcount : countedSize name e = 0 := by
        rw [countedSize, ← hsome]
        rfl
      refine ⟨e :: l, rfl, ?_, hw.some.imp_right fun ⟨e', he', hin⟩ => ⟨e', List.mem_cons_of_mem _ he', hin⟩, hall hw.sound, ?_⟩
      · rw [List.foldl_cons, ← htree]
        exact hw.tree
      · rw [List.map_cons, List.sum_cons, hcount, Nat.zero_add]
        exact hw.size
    | some total =>
      obtain ⟨l, rfl, hw⟩ := extractEntries_ok h
      obtain ⟨htotal, hmax⟩ := htotal total rfl
      refine ⟨e :: l, rfl, ?_, .inr ⟨e, List.mem_cons_self .., hsome ▸ rfl⟩, hall hw.sound, fun _ => ?_⟩
      · rw [List.foldl_cons, ← htree]
        exact hw.tree
      · have hrest := hw.size hmax
        rw [List.map_cons, List.sum_cons]
        omega

theorem removeDirAll_ok (h : run perform (removeDirAll what p).run s = (.ok (), s')) (hlink : s.fs.isLink p = false) :
    s'.fs = s.fs.drop (fun _ => true) p := by
  have hseen : (seen s).isLink p = false := by
    unfold seen
    split_ifs
    · exact hlink
    · rfl
  unfold removeDirAll at h
  rw [run_peek_bind, if_neg (by simp [hseen])] at h
  have hremoved : s.tock.rmtree p = (.ok (), s') := mapErr_ok h
  unfold World.rmtree at hremoved
  split at hremoved
  · cases (Prod.mk.inj hremoved).1
  · split at hremoved
    · cases (Prod.mk.inj hremoved).1
    · rw [← (Prod.mk.inj hremoved).2]
      rfl

/-- Where looking does not fail nothing is left at the target. -/
theorem clearTarget_ok {v : String} (h : run perform (clearTarget root v).run s = (.ok (), s')) (hv : PlainName v)
    (hlink : s.fs.isLink (root ++ [versionsDir, v]) = false)
    (hbelow : s.fs.node (root ++ [versionsDir, v]) = none → ∀ l, s.fs.node ((root ++ [versionsDir, v]) ++ l) = none)
    (hlooked : s.ask.error = none) (l : List String) : s'.fs.node ((root ++ [versionsDir, v]) ++ l) = none := by
  have hkept {w : World} {what : String} (hw : ∀ l, w.fs.node ((root ++ [versionsDir, v]) ++ l) = none)
      (hmkdir : run perform (mapErr what (act (.mkdirs (versionDir root v).dropLast))).run w = (.ok (), s')) :
      s'.fs.node ((root ++ [versionsDir, v]) ++ l) = none := by
    have hmade : s'.fs = mkdirs (versionDir root v).dropLast w.fs := change_ok (mapErr_ok hmkdir)
    have hagree : Fs.Agree (fun q => q = (root ++ [versionsDir, v]) ++ l) s'.fs w.fs := by
      rw [hmade, dropLast_versionDir hv]
      refine agree_mkdirs (fun q hq he => ?_) w.fs
      have hlength := hq.length_le
      rw [he] at hlength
      simp at hlength
    exact (hagree _ rfl).trans (hw l)
  unfold clearTarget at h
  rw [run_peek_bind, seen, if_pos hlooked, hv.versionDir] at h
  dsimp only at h
  split_ifs at h with hthere
  · obtain ⟨u, s₁, hremove, hmkdir⟩ := run_bind_ok h
    have hgone : s₁.fs = s.fs.drop (fun _ => true) (root ++ [versionsDir, v]) :=
      removeDirAll_ok (s := s.tock) hremove hlink
    rw [← hv.versionDir] at hmkdir
    refine hkept (fun l' => ?_) hmkdir
    rw [hgone]
    exact Fs.node_drop_all (List.prefix_append ..) _
  · rw [← hv.versionDir] at h
    refine hkept (w := s.tock) (hbelow ?_) h
    rw [Fs.there, Fs.stat_of_node hlink] at hthere
    exact Option.not_isSome_iff_eq_none.mp hthere

/-- `extract_tarball` -/
theorem extractTarball_ok {archive : Place} {v : String} (h : run perform (L.extractTarball root archive v).run s = (.ok (), s'))
    (hv : PlainName v) : ∃ cleared data es, run perform (clearTarget root v).run s = (.ok (), cleared) ∧
      cleared.fs.data archive = some data ∧ L.entries data = es.map some ∧
      Written (root ++ [versionsDir, v]) v false 0 es cleared.fs s'.fs := by
  obtain ⟨u, cleared, hclear, h⟩ := run_bind_ok h
  rw [fileName_versionPath hv, hv.versionDir] at h
  dsimp only at h
  rw [run_peek_bind] at h
  cases hdata : (seen cleared).data archive with
  | none =>
    rw [hdata] at h
    exact (run_throw h).elim
  | some data =>
    rw [hdata] at h
    obtain ⟨es, hes, hw⟩ := extractEntries_ok h
    exact ⟨cleared, data, es, hclear, data_of_seen hdata, hes, hw⟩

end Runs

/-! ### The first launch -/

/-- The version is out of an archive with the digest that its release publishes: every entry of the archive is sound, those
below `versions/<v>` are written one after the other, and nothing was there before, if that could be looked at. -/
def Verified (L : Launcher) (root : Place) (w : World) (v : String) (placed : Fs Bytes) : Prop :=
  ∃ asset offering fetched extracting data digest es cleared,
    run perform (L.offered root).run w = (.ok asset, offering) ∧ asset.version = v ∧
    run perform (L.fetchAsset root asset).run offering = (.ok (), fetched) ∧
    run perform (L.resolveExpectedSha asset >>= L.verifySha256 (stagedAt root asset.assetName)).run fetched = (.ok (), extracting) ∧
    publishedSha asset fetched = some digest ∧ fetched.fs.data (stagedAt root asset.assetName) = some data ∧
    (L.sha256 data).toList = Text.lower digest.toList ∧ L.entries data = es.map some ∧
    Written (root ++ [versionsDir, v]) v false 0 es cleared placed ∧
    (extracting.ask.error = none → ∀ l, cleared.node ((root ++ [versionsDir, v]) ++ l) = none)

/-- An install root where no version is current. -/
structure Unpointed (root : Place) (t : Fs Bytes) : Prop where
  unresolved : resolveCurrentVersion root t = none
  file : t.isLink (root ++ [currentPointerFile]) = false
  staged : t.isLink (root ++ [stagedFileName "bootstrap"]) = false

/-- No link is where the launcher writes, either. -/
structure Unlaunched (root : Place) (t : Fs Bytes) : Prop extends Unpointed root t where
  noLink : ∀ q, Filled root q → t.isLink q = false
  rooted : t.Rooted

section Placing

variable {L : Launcher} {root : Place} {w s s' : World} {asset : AssetTarget} {v : String} {t before : Fs Bytes}

theorem besideStaging_name {name : String} (h : name ≠ stagingDir) (l : List String) : BesideStaging root (root ++ name :: l) := by
  refine ⟨fun hp => h (below_root_iff.mp hp).1.symm, fun hp => ?_⟩
  have hlength := hp.length_le
  simp at hlength

theorem elsewhere_name {name : String} (h : name ≠ stagingDir) (hversions : name ≠ versionsDir) : Elsewhere root v (root ++ [name]) := by
  refine ⟨besideStaging_name h [], fun hp => hversions (below_root_iff.mp hp).1.symm, fun hp => hversions ?_⟩
  exact (below_root_iff.mp hp).1

theorem Unlaunched.tidy (h : Unlaunched root before) (K : Place → Prop) : Tidy K root before before := ⟨.refl K before, h.noLink⟩

/-- What the launcher spares of an install root without a version leaves it one. -/
theorem Unpointed.agree (h : Unpointed root before) (ht : Fs.Agree (Elsewhere root v) t before) : Unpointed root t := by
  have hlink : t.node (root ++ [currentLink]) = before.node (root ++ [currentLink]) := ht _ (elsewhere_name (by decide) (by decide))
  have hfile : t.node (root ++ [currentPointerFile]) = before.node (root ++ [currentPointerFile]) :=
    ht _ (elsewhere_name (by decide) (by decide))
  refine ⟨(resolveCurrentVersion_congr hlink hfile h.file).trans h.unresolved, (isLink_congr hfile).trans h.file, ?_⟩
  exact (isLink_congr (ht _ (elsewhere_name (by decide) (by decide)))).trans h.staged

theorem fs_offered {r : Except Error AssetTarget} (h : run perform (L.offered root).run w = (r, s)) : s.fs = w.fs := by
  have hholds : Holds (fun t => t = w.fs) (L.offered root).run := holds_offered
  have hend := hholds.run (s := w) rfl
  rwa [h] at hend

/-- What is cleared is not the archive. -/
theorem archive_cleared {fetched extracting cleared : World} {u : Except Error Unit} (hfits : Fits asset)
    (hclear : run perform (clearTarget root asset.version).run extracting = (u, cleared)) (hfs : extracting.fs = fetched.fs)
    (htidy : Tidy (BesideStaging root) root before fetched.fs) :
    cleared.fs.data (stagedAt root asset.assetName) = fetched.fs.data (stagedAt root asset.assetName) := by
  have hplace := hfits.assetName.stagedAt root
  have hholds : Holds (Tidy (fun q => q = stagedAt root asset.assetName) root extracting.fs) (clearTarget root asset.version).run := by
    refine holds_clearTarget hfits.version.plain (fun r hr hp => ?_) fun r hr hp => ?_
    · rw [hr, hplace] at hp
      exact absurd (below_root_iff.mp hp).1 (by decide)
    · rw [hr, hplace] at hp
      exact absurd (below_root_iff.mp hp).1 (by decide)
  have hkept := hholds.run (s := extracting) ⟨.refl _ _, hfs ▸ htidy.noLink⟩
  rw [hclear] at hkept
  have hfilled : Filled root (stagedAt root asset.assetName) := by
    rw [hplace]
    simpa using filled_staged asset.assetName []
  rw [Fs.data, Fs.data, Fs.stat_of_node (hkept.noLink _ hfilled), Fs.stat_of_node (htidy.noLink _ hfilled), hkept.spared _ rfl, hfs]

theorem install_ok (h : run perform (L.install root asset).run s = (.ok v, s')) (hfresh : Unlaunched root s.fs) (hfits : Fits asset)
    (hoffer : run perform (L.offered root).run w = (.ok asset, s)) : v = asset.version ∧ Verified L root w v s'.fs := by
  obtain ⟨u, fetched, hfetch, h⟩ := run_bind_ok h
  obtain ⟨expected, s₁, hexpected, h⟩ := run_bind_ok h
  obtain ⟨u', extracting, hverify, h⟩ := run_bind_ok h
  obtain ⟨u'', s₂, hextract, h⟩ := run_bind_ok h
  obtain ⟨hv, rfl⟩ := Prod.mk.inj h
  obtain rfl : asset.version = v := Except.ok.inj hv
  obtain ⟨hfs₁, hsha⟩ := resolveExpectedSha_ok hexpected
  obtain ⟨hfs₂, data, hdata, hsame⟩ := verifySha256_ok hverify
  have hplain := hfits.version.plain
  obtain ⟨cleared, data', es, hclear, hdata', hes, hwritten⟩ := extractTarball_ok hextract hplain
  -- the staging directory is filled, and that of the versions is as it was
  have htidy : Tidy (BesideStaging root) root s.fs fetched.fs := by
    have hholds : Holds (Tidy (BesideStaging root) root s.fs) (L.fetchAsset root asset).run := holds_fetchAsset (fun _ hq => hq) hfits
    have hend := hholds.run (s := s) (hfresh.tidy _)
    rwa [hfetch] at hend
  have hfs : extracting.fs = fetched.fs := hfs₂.trans hfs₁
  have hversions (l : List String) : extracting.fs.node ((root ++ [versionsDir, asset.version]) ++ l) =
      s.fs.node ((root ++ [versionsDir, asset.version]) ++ l) := by
    rw [hfs]
    refine htidy.spared _ ?_
    rw [List.append_assoc]
    exact besideStaging_name (by decide) _
  have harchive : cleared.fs.data (stagedAt root asset.assetName) = fetched.fs.data (stagedAt root asset.assetName) :=
    archive_cleared hfits hclear hfs htidy
  refine ⟨rfl, asset, s, fetched, extracting, data, expected, es, cleared.fs, hoffer, rfl, hfetch, ?_, hsha, hfs₁ ▸ hdata, hsame, ?_,
    hwritten, fun hlooked l => ?_⟩
  · rw [run_ok (congrArg Prod.fst hexpected), hexpected]
    exact hverify
  · rw [harchive, ← hfs₁, hdata] at hdata'
    rw [Option.some.inj hdata']
    exact hes
  · have hin (l : List String) : Filled root ((root ++ [versionsDir, asset.version]) ++ l) := filled_version l
    have hlink : extracting.fs.isLink (root ++ [versionsDir, asset.version]) = false := by
      rw [hfs]
      exact htidy.noLink _ (by simpa using hin [])
    refine clearTarget_ok hclear hplain hlink (fun hnone l => ?_) hlooked l
    have hnone' : s.fs.node (root ++ [versionsDir, asset.version]) = none := by
      have hsame := hversions []
      rw [List.append_nil] at hsame
      exact hsame.symm.trans hnone
    rw [hversions l]
    by_cases hl : l = []
    · rw [hl, List.append_nil]
      exact hnone'
    · exact hfresh.rooted.below (by simp [hnone']) (List.prefix_append ..) (by simpa using hl)

end Placing

section Errors

variable {α β : Type} {x : Raising α} {root p target : Place} {L : Launcher} {name v : String}

/-- What the script raises is no failure to reach the network. -/
abbrev Local (x : Raising α) : Prop :=
  Prog.Triple (σ := sig) perform (fun _ => True) x.run (Post (fun _ _ => True) fun e _ => e.kind = .other)

theorem Local.bind {f : α → Raising β} (h : Local x) (hf : ∀ a, Local (f a)) : Local (x >>= f) := Prog.Triple.raising h hf

theorem Local.ite {c : Prop} [Decidable c] {y : Raising α} (hx : Local x) (hy : Local y) : Local (if c then x else y) := by
  split_ifs
  · exact hx
  · exact hy

theorem local_pure {a : α} : Local (pure a : Raising α) := fun _ _ => trivial

theorem local_throw {message : String} : Local (throw (operation message) : Raising α) := fun _ _ => rfl

theorem local_lift {p : Script α} {f : α → Raising β} (hf : ∀ a, Local (f a)) : Local (ExceptT.lift p >>= f) := by
  intro s _
  rw [run_lift_bind]
  exact hf _ _ trivial

theorem local_peek : Local peek := local_lift fun r => match r with
  | .ok _ => local_pure
  | .error _ => local_pure

theorem local_mapErr {what : String} {p : Script (Except Error Unit)} : Local (mapErr what p) := local_lift fun r => match r with
  | .ok () => local_pure
  | .error _ => fun _ _ => rfl

theorem local_ignoring {p : Script (Except Error Unit)} : Local (ignoring p) := local_lift fun _ => local_pure

theorem local_removeDirAll {what : String} : Local (removeDirAll what p) :=
  local_peek.bind fun _ => Local.ite local_mapErr local_mapErr

theorem local_verifySha256 {digest : String} : Local (L.verifySha256 p digest) := by
  refine local_peek.bind fun t => ?_
  cases t.data p with
  | none => exact local_throw
  | some d => exact Local.ite local_throw local_pure

theorem local_extractEntry (written : ℕ) (e : Tarball.Entry) : Local (extractEntry target name written e) := by
  refine Local.ite local_throw ?_
  cases Tarball.relParts name e with
  | none => exact local_pure
  | some rel =>
    exact Local.ite local_throw (local_mapErr.bind fun _ => Local.ite local_throw (local_mapErr.bind fun _ => local_pure))

theorem local_extractEntries : ∀ (es : List (Option Tarball.Entry)) (any : Bool) (written : ℕ), Local (extractEntries target name es any written)
  | [], _, _ => Local.ite local_pure local_throw
  | none :: _, _, _ => local_throw
  | some e :: es, any, written => (local_extractEntry written e).bind fun r => match r with
    | none => local_extractEntries es any written
    | some total => local_extractEntries es true total

theorem local_extractTarball : Local (L.extractTarball root p v) := by
  have hclear : Local (clearTarget root v) :=
    local_peek.bind fun _ => Local.ite (local_removeDirAll.bind fun _ => local_mapErr) local_mapErr
  refine hclear.bind fun _ => ?_
  cases fileName (versionPath v) with
  | none => exact local_throw
  | some name =>
    refine local_peek.bind fun t => ?_
    cases t.data p with
    | none => exact local_throw
    | some d => exact local_extractEntries _ _ _

theorem local_pointTo : Local (pointTo root v) := by
  have hfile : Local (writePointerFile "bootstrap" root v) :=
    local_mapErr.bind fun _ => local_mapErr.bind fun _ => local_peek.bind fun _ => Local.ite local_ignoring local_pure
  have hpointer : Local (writeBootstrapPointer root v) := by
    refine local_ignoring.bind fun _ => local_lift fun r => ?_
    cases r with
    | ok u => exact local_mapErr.bind fun _ => local_peek.bind fun _ => Local.ite local_ignoring local_pure
    | error e => exact local_ignoring.bind fun _ => hfile
  exact hpointer.bind fun _ => local_ignoring.bind fun _ => local_pure

/-- Where the network cannot be reached nothing is extracted yet. -/
theorem install_unreached {asset : AssetTarget} (hfits : Fits asset) {before : Fs Bytes} :
    Prog.Triple (σ := sig) perform (fun s => Tidy (BesideStaging root) root before s.fs) (L.install root asset).run
      (Post (fun _ _ => True) fun e s => e.kind = .request → Fs.Agree (BesideStaging root) s.fs before) := by
  have hlocal {α : Type} {x : Raising α} (h : Local x) : Prog.Triple (σ := sig) perform (fun _ => True) x.run
      (Post (fun _ _ => True) fun e s => e.kind = .request → Fs.Agree (BesideStaging root) s.fs before) :=
    Prog.Triple.mono h fun r _ hs => match r with
      | .ok _ => trivial
      | .error _ => fun hkind => by rw [show _ = ErrorKind.other from hs] at hkind; cases hkind
  have hheld {α : Type} {x : Raising α} (h : Holds (Tidy (BesideStaging root) root before) x.run) :
      Prog.Triple (σ := sig) perform (fun s => Tidy (BesideStaging root) root before s.fs) x.run
        (Post (fun _ s => Tidy (BesideStaging root) root before s.fs) fun e s => e.kind = .request → Fs.Agree (BesideStaging root) s.fs before) := by
    intro s hs
    have hend := h.run hs
    cases (run perform x.run s).1 with
    | ok a => exact hend
    | error e => exact fun _ => hend.spared
  refine (hheld (holds_fetchAsset (fun _ hq => hq) hfits)).raising fun _ => (hheld holds_resolveExpectedSha).raising fun _ => ?_
  exact (hlocal (local_verifySha256.bind fun _ => local_extractTarball.bind fun _ => local_pure)).pre fun _ _ => trivial

end Errors

/-- What a first launch comes to. -/
structure FirstLaunch (L : Launcher) (root : Place) (w : World) : Prop where
  stopped : ∀ t, Passes (σ := sig) perform (L.bootstrapFromBoot root).run w t → resolveCurrentVersion root t.fs = none ∨
    ∃ v placed, run perform (L.place root).run w = (.ok v, placed) ∧ Verified L root w v placed.fs ∧ Current root v placed.fs t.fs
  returned : ∀ v t, run perform (L.bootstrapFromBoot root).run w = (.ok v, t) →
    ∃ placed, Verified L root w v placed ∧ Current root v placed t.fs
  raised : ∀ e t, run perform (L.bootstrapFromBoot root).run w = (.error e, t) → resolveCurrentVersion root t.fs = none
  offline : ∀ e t, run perform (L.bootstrapFromBoot root).run w = (.error e, t) → exitCode e = 3 → Fs.Agree (BesideStaging root) t.fs w.fs

section FirstLaunch

variable {L : Launcher} {root : Place} {w s t : World} {v : String}

/-- Where it is stopped before the pointer no version is current. -/
theorem passes_place (hfresh : Unlaunched root w.fs)
    (hfits : ∀ asset s, run perform (L.offered root).run w = (.ok asset, s) → Fits asset)
    (h : Passes (σ := sig) perform (L.place root).run w t) : ∃ v, Fs.Agree (Elsewhere root v) t.fs w.fs := by
  rcases Prog.passes_raising h with h | ⟨asset, s, hoffer, h⟩
  · have hholds : Holds (fun t => t = w.fs) (L.offered root).run := holds_offered
    rw [hholds w rfl t h]
    exact ⟨"", .refl _ _⟩
  · have hholds : Holds (Tidy (Elsewhere root asset.version) root w.fs) (L.install root asset).run := holds_install (hfits _ _ hoffer)
    have hstart : Tidy (Elsewhere root asset.version) root w.fs s.fs := by
      rw [fs_offered hoffer]
      exact hfresh.tidy _
    exact ⟨asset.version, (hholds s hstart t h).spared⟩

theorem place_ok (hfresh : Unlaunched root w.fs)
    (hfits : ∀ asset s, run perform (L.offered root).run w = (.ok asset, s) → Fits asset)
    (h : run perform (L.place root).run w = (.ok v, s)) : Nameable v ∧ Verified L root w v s.fs := by
  obtain ⟨asset, s₁, hoffer, h⟩ := run_bind_ok h
  obtain ⟨rfl, hverified⟩ := install_ok h (fs_offered hoffer ▸ hfresh) (hfits _ _ hoffer) hoffer
  exact ⟨(hfits _ _ hoffer).version, hverified⟩

/-- The staging directory goes at the end. -/
theorem holds_staging_removed {before : Fs Bytes} : Holds (Current root v before) (removeDirAll "" (root ++ [stagingDir])).run := by
  refine holds_peek.bind fun _ => Holds.ite (holds_mapErr (holds_act ?_)) (holds_mapErr (holds_act ?_))
  · exact keeps_change (fun _ => rfl) fun t ht _ => ht.agree (agree_set_where (by decide) [] none t)
  · exact keeps_rmtree fun t gone ht => ht.agree (agree_drop_where (by decide) gone t)

theorem lands_pointTo {before : Fs Bytes} (hv : Nameable v) (h : Unpointed root before) :
    Lands (fun t => t = before) (pointTo root v) (fun a t => a = v ∧ Current root v before t) (Awaiting root before)
      (Either root v before) := by
  refine (lands_writeBootstrapPointer hv h.unresolved h.file h.staged).bind (fun _ => ?_) fun _ ht => .inl ht
  refine (holds_staging_removed.lands_ignoring fun _ ht => .inr ht).bind (fun _ => ?_) fun _ ht => .inl ht
  exact lands_return (fun t ht => ⟨rfl, ht⟩) fun t ht => .inr ht

theorem placed (hfresh : Unlaunched root w.fs)
    (hfits : ∀ asset s, run perform (L.offered root).run w = (.ok asset, s) → Fits asset)
    (h : run perform (L.place root).run w = (.ok v, s)) : Nameable v ∧ Verified L root w v s.fs ∧ Unpointed root s.fs := by
  obtain ⟨hv, hverified⟩ := place_ok hfresh hfits h
  have hlast : Passes (σ := sig) perform (L.place root).run w s := by
    have hpasses := Prog.passes_last (m := perform) (L.place root).run w
    rwa [h] at hpasses
  obtain ⟨v', hagree⟩ := passes_place hfresh hfits hlast
  exact ⟨hv, hverified, hfresh.toUnpointed.agree hagree⟩

/-- Nothing is current while the version is put in its place. -/
theorem unresolved_place (hfresh : Unlaunched root w.fs)
    (hfits : ∀ asset s, run perform (L.offered root).run w = (.ok asset, s) → Fits asset)
    (h : Passes (σ := sig) perform (L.place root).run w t) : resolveCurrentVersion root t.fs = none := by
  obtain ⟨v, hagree⟩ := passes_place hfresh hfits h
  exact (hfresh.toUnpointed.agree hagree).unresolved

/-- What is not reached leaves only what is staged. -/
theorem unreached_bootstrap {e : Error} (hfresh : Unlaunched root w.fs)
    (hfits : ∀ asset s, run perform (L.offered root).run w = (.ok asset, s) → Fits asset)
    (h : run perform (L.bootstrapFromBoot root).run w = (.error e, t)) (hkind : e.kind = .request) :
    Fs.Agree (BesideStaging root) t.fs w.fs := by
  rcases run_bind_error h with hplace | ⟨v, placed, hplace, hpoint⟩
  · rcases run_bind_error hplace with hoffer | ⟨asset, s, hoffer, hinstall⟩
    · rw [fs_offered hoffer]
      exact .refl _ _
    · have hstart : Tidy (BesideStaging root) root w.fs s.fs := by
        rw [fs_offered hoffer]
        exact hfresh.tidy _
      have hend := install_unreached (L := L) (hfits _ _ hoffer) s hstart
      rw [hinstall] at hend
      exact hend hkind
  · -- the pointer is written without the network
    have hpoints : Local (pointTo root v) := local_pointTo
    have hend := hpoints placed trivial
    rw [hpoint] at hend
    have hother : e.kind = .other := hend
    rw [hkind] at hother
    cases hother

end FirstLaunch

def bootText : String :=
  "\x7b\"host_app\": \"desktop\", \"asset_repo\": \"o/r\", \"asset_url\": \"https://mirror/link-v1.2.tgz\"\x7d"

/-- A digest, with the archive that has it. -/
def mirroredSha : String := String.ofList (List.replicate 64 'a')

def mirrored : World where
  fs := (Fs.empty.set [] (some .dir)).set [bootJson] (some (.file (Bytes.encode bootText)))
  clock := 0
  oracle _ := { reply := .ok ⟨200, .ok 1, [[1]], none⟩, text := .ok (mirroredSha ++ "  link-v1.2.tgz\n") }
  tick := 0

def mirrorLauncher : Launcher where
  os := .linux
  arch := .x64
  sha256 _ := mirroredSha
  entries _ := [some ⟨.regular, "versions/1.2/locai-link-runtime", some 1, [7]⟩]
  offline _ := true

end Install
end LocaiLink
