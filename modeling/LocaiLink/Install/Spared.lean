/-
# What an update spares

Up to the flip `swap_bundle` writes in the staging directory and in the place of the new
version. What is in neither is kept, whatever fails (`keeps_fetchArchive`, `keeps_installPayload`);
so what an update relies on outlives everything that comes before the flip.
-/
import LocaiLink.Install.Readers
import LocaiLink.Install.Rules
import LocaiLink.Install.Update

namespace LocaiLink
namespace Install

open World
open Prog (run run_ok run_error Triple)

/-! ### Scripts that keep something -/

/-- Whatever the script comes to, it keeps this of the tree. -/
abbrev Keeps {α : Type} (P : Fs Bytes → Prop) (p : Script α) : Prop :=
  Triple (σ := sig) perform (fun s => P s.fs) p fun _ s => P s.fs

section Keeps

variable {α β : Type} {P : Fs Bytes → Prop}

theorem Keeps.bind {x : Raising α} {f : α → Raising β} (h : Keeps P x.run) (hf : ∀ a, Keeps P (f a).run) :
    Keeps P (x >>= f).run :=
  Triple.bind h fun r => match r with
    | .ok a => hf a
    | .error _ => fun _ hs => hs

theorem Keeps.lift {p : Script α} {f : α → Raising β} (h : Keeps P p) (hf : ∀ a, Keeps P (f a).run) :
    Keeps P (ExceptT.lift p >>= f).run :=
  Keeps.bind (Triple.bind h fun _ _ hs => hs) hf

theorem keeps_pure {a : α} : Keeps P (pure a : Raising α).run := fun _ hs => hs

theorem keeps_throw {e : Error} : Keeps P (throw e : Raising α).run := fun _ hs => hs

theorem keeps_value (r : Except Error α) : Keeps P (attempt (pure r)).run := fun _ hs => hs

theorem Keeps.ite {c : Prop} [Decidable c] {x y : Raising α} (hx : Keeps P x.run) (hy : Keeps P y.run) :
    Keeps P (if c then x else y).run := by
  split_ifs
  · exact hx
  · exact hy

/-- An action that asks for something. -/
theorem keeps_quiet {x : Script α} (h : ∀ s, (run perform x s).2.fs = s.fs) : Keeps P x := by
  intro s hs
  rw [h]
  exact hs

theorem keeps_look : Keeps P look.run := keeps_quiet fun _ => rfl

/-- A change is made, or it is raised and nothing is. -/
theorem keeps_change {x : Script (Except Error Unit)} {fails : Fs Bytes → Option Error} {f : Fs Bytes → Fs Bytes}
    (hx : ∀ s, run perform x s = s.change (fails s.fs) f) (h : ∀ t, P t → fails t = none → P (f t)) : Keeps P x := by
  intro s hs
  rw [hx]
  rcases change_cases s (fails s.fs) f with ⟨e, he⟩ | ⟨hnone, he⟩
  · rw [he]
    exact hs
  · rw [he]
    exact h _ hs hnone

theorem keeps_rmtree {p : Place} (h : ∀ t gone, P t → P (t.drop gone p)) : Keeps P (act (.rmtree p)) := by
  intro s hs
  change P (s.rmtree p).2.fs
  unfold World.rmtree
  split
  · exact hs
  · split
    · exact h _ _ hs
    · exact h _ _ hs

theorem keeps_ignoring {p : Script (Except Error Unit)} (h : Keeps P p) : Keeps P (ignoring p).run := Keeps.lift h fun _ => keeps_pure

theorem Keeps.leaves {x : Raising α} {E : Fs Bytes → Prop} (h : Keeps P x.run) (hE : ∀ t, P t → E t) :
    Leaves P x (fun _ => P) E := by
  refine Triple.mono h fun r s hs => ?_
  cases r with
  | ok a => exact hs
  | error e => exact hE _ hs

/-- What is left of the tree the same way, returned or raised. -/
theorem Leaves.either {x : Raising α} {E : Fs Bytes → Prop} (h : Leaves P x (fun _ => E) E) :
    Triple (σ := sig) perform (fun s => P s.fs) x.run fun _ s => E s.fs :=
  Triple.mono h fun r _ hs => match r with
    | .ok _ => hs
    | .error _ => hs

theorem keeps_unpack {archive dest : Place} (h : ∀ t entries, P t → P (unpackInto dest entries t)) :
    Keeps P (act (.unpack archive dest)) := by
  intro s hs
  change P (s.unpack archive dest).2.fs
  unfold World.unpack
  split
  · exact hs
  · dsimp only
    split
    · exact h _ _ hs
    · exact h _ _ hs

end Keeps

/-! ### The install root -/

/-- The names of the install root that the pointers and the stamp have, and what is staged for them. -/
def reliedNames : List String :=
  [currentLink, currentPointerFile, previousLink, previousPointerFile, currentPointerFile ++ ".tmp", previousPointerFile ++ ".tmp",
    updatePendingStamp, updatePendingStamp ++ ".tmp"]

/-- A name of the install root beside those. -/
abbrev Free (name : String) : Prop := name ∉ versionsDir :: reliedNames

theorem free_staging : Free stagingDir := by decide

/-- A place of the versions, the pointers or the stamp. -/
def Rooted (root q : Place) : Prop := ∃ x l, q = root ++ x :: l ∧ x ∈ versionsDir :: reliedNames

section Rooted

variable {root q : Place} {name : String} {l : List String}

theorem not_below_free (hfree : Free name) (h : Rooted root q) : ¬root ++ name :: l <+: q := fun hq => by
  obtain ⟨x, l', rfl, hx⟩ := h
  exact hfree ((below_root_iff.mp hq).1 ▸ hx)

theorem not_above_free (hfree : Free name) (h : Rooted root q) : ¬q <+: root ++ name :: l := fun hq => by
  obtain ⟨x, l', rfl, hx⟩ := h
  exact hfree ((below_root_iff.mp hq).1 ▸ hx)

end Rooted

/-! ### Places that are written -/

section Spared

variable {K : Place → Prop} {root p q : Place} {name : String} {l : List String} {before t : Fs Bytes}

theorem spared_mkdirs (hp : ∀ r, K r → ¬r <+: p) (h : Fs.Agree K t before) : Fs.Agree K (mkdirs p t) before :=
  (agree_mkdirs (fun r hr hK => hp r hK hr) t).trans h

theorem spared_set (hp : ∀ r, K r → ¬p <+: r) (n : Option Node) (h : Fs.Agree K t before) : Fs.Agree K (t.set p n) before :=
  (Fs.agree_set (fun hK => hp p hK (List.prefix_refl _)) n t).trans h

theorem spared_drop (hp : ∀ r, K r → ¬p <+: r) (gone : Place → Bool) (h : Fs.Agree K t before) : Fs.Agree K (t.drop gone p) before :=
  (Fs.agree_drop (fun r hr hK => hp r hK hr) gone t).trans h

/-- What is moved away is not spared, and nothing that is is below what it takes the place of. -/
theorem spared_rename (hp : ∀ r, K r → ¬p <+: r) (hq : ∀ r, K r → ¬q <+: r) (h : Fs.Agree K t before) :
    Fs.Agree K (rename p q t) before := by
  unfold World.rename
  split_ifs
  · exact h
  · exact (Fs.agree_move (fun r hr hK => hp r hK hr) (fun r hr hK => hq r hK hr) t).trans h

theorem spared_unpackInto {dest : Place} (hbelow : ∀ r, K r → ¬dest <+: r) (habove : ∀ r l, K r → ¬r <+: dest ++ l)
    (entries : List (List String × Node)) : ∀ t : Fs Bytes, Fs.Agree K t before → Fs.Agree K (unpackInto dest entries t) before := by
  unfold unpackInto
  induction entries with
  | nil => exact fun _ h => h
  | cons e entries ih =>
    refine fun t h => ih _ (spared_set (fun r hr hd => hbelow r hr ((List.prefix_append ..).trans hd)) _ ?_)
    exact spared_mkdirs (fun r hr => habove r _ hr) h

theorem keeps_mkdirs {P : Fs Bytes → Prop} {p : Place} (h : ∀ t, P t → P (mkdirs p t)) : Keeps P (act (.mkdirs p)) :=
  keeps_change (fun _ => rfl) fun t ht _ => h t ht

theorem keeps_removeTree (hp : ∀ r, K r → ¬p <+: r) : Keeps (fun t => Fs.Agree K t before) (removeTree p).run := by
  unfold removeTree
  refine keeps_look.bind fun t => Keeps.ite (keeps_ignoring ?_) keeps_pure
  exact keeps_rmtree fun t gone h => spared_drop hp gone h

end Spared

/-! ### The download -/

/-- A file that is downloaded there, by way of its partial file, is beside what is spared. -/
structure Aside (K : Place → Prop) (dest : Place) : Prop where
  named : dest ≠ []
  file : ∀ q, K q → ¬dest <+: q
  partialFile : ∀ q, K q → ¬partialOf dest <+: q
  way : ∀ q, K q → ¬q <+: dest.dropLast

section Download

variable {K : Place → Prop} {dest : Place} {before : Fs Bytes}

/-- Nothing that is spared has changed, and the partial file is no link. -/
def Fetching (K : Place → Prop) (dest : Place) (before t : Fs Bytes) : Prop :=
  Fs.Agree K t before ∧ t.isLink (partialOf dest) = false

theorem Fetching.set {t : Fs Bytes} (hdest : Aside K dest) (h : Fetching K dest before t) (d : Bytes) :
    Fetching K dest before (t.set (partialOf dest) (some (.file d))) :=
  ⟨spared_set hdest.partialFile _ h.1, by rw [Fs.isLink, Fs.node_set_self]⟩

theorem keeps_writeChunks (hdest : Aside K dest) : ∀ chunks : List Bytes,
    Keeps (Fetching K dest before) (writeChunks (partialOf dest) chunks).run
  | [] => keeps_pure
  | chunk :: chunks => by
    unfold writeChunks
    have hrest : Keeps (Fetching K dest before) (writeChunks (partialOf dest) chunks).run := keeps_writeChunks hdest chunks
    refine Keeps.ite (Keeps.bind ?_ fun _ => hrest) hrest
    refine keeps_change (f := fun t => t.set (opened _ t) (some (.file ((t.data _).getD [] ++ chunk)))) (fun _ => rfl) fun t ht _ => ?_
    rw [opened_of_not_link ht.2]
    exact ht.set hdest _

theorem keeps_receive (hdest : Aside K dest) (r : Reply) : Keeps (Fetching K dest before) (receive dest r).run := by
  unfold receive
  refine (keeps_writeChunks hdest r.chunks).bind fun _ => (keeps_value _).bind fun _ => ?_
  refine keeps_change (fun _ => rfl) fun t ht _ => ⟨spared_rename hdest.partialFile hdest.file ht.1, ?_⟩
  have hne : partialOf dest ≠ dest := partialOf_ne
  have hnot : ¬dest <+: partialOf dest := fun hp => hne (hp.eq_of_length (length_partialOf hdest.named).symm).symm
  rw [World.rename, if_neg hne, Fs.isLink, Fs.node_move_source (List.prefix_refl _) hnot]

theorem keeps_truncate {p : Place} {P : Fs Bytes → Prop} (hlink : ∀ t, P t → t.isLink p = false)
    (h : ∀ t d, P t → P (t.set p (some (.file d)))) (d : Bytes) : Keeps P (act (.write p d)) := by
  refine keeps_change (f := fun t => t.set (opened p t) (some (.file d))) (fun _ => rfl) fun t ht _ => ?_
  rw [opened_of_not_link (hlink t ht)]
  exact h t d ht

theorem keeps_downloadOnce (hdest : Aside K dest) (url : String) : Keeps (Fetching K dest before) (downloadOnce url dest).run := by
  unfold downloadOnce
  refine keeps_look.bind fun t => ?_
  refine Keeps.bind (x := attempt (act (.stream url _))) (keeps_quiet fun _ => rfl) fun r => ?_
  have hrest : Keeps (Fetching K dest before) (receive dest r).run := keeps_receive hdest r
  refine Keeps.ite keeps_throw ?_
  refine (keeps_value _).bind fun _ => Keeps.ite (Keeps.bind ?_ fun _ => hrest) hrest
  exact keeps_truncate (fun t ht => ht.2) (fun t d ht => ht.set hdest d) []

theorem keeps_downloadLoop (hdest : Aside K dest) (url : String) (maxRetries : ℕ) : ∀ (n : ℕ) (last : Option Error),
    Keeps (Fetching K dest before) (downloadLoop url dest maxRetries n last).run
  | 0, _ => keeps_throw
  | n + 1, _ => by
    refine Keeps.lift (keeps_downloadOnce hdest url) fun r => ?_
    cases r with
    | ok u => exact keeps_pure
    | error e => exact Keeps.ite (keeps_downloadLoop hdest url maxRetries n (some e)) keeps_throw

/-- A directory that is made is no link. -/
theorem isLink_mkdirs {p q : Place} {t : Fs Bytes} (h : t.isLink q = false) : (mkdirs p t).isLink q = false := by
  have hall (l : List Place) (u : Fs Bytes) (hu : u.isLink q = false) :
      (l.foldl (fun t q => if (t.node q).isSome then t else t.set q (some .dir)) u).isLink q = false := by
    induction l generalizing u with
    | nil => exact hu
    | cons r l ih =>
      refine ih _ ?_
      dsimp only
      split_ifs
      · exact hu
      · by_cases hq : q = r
        · rw [hq, Fs.isLink, Fs.node_set_self]
        · rw [isLink_set_of_ne hq]
          exact hu
  exact hall _ t h

theorem keeps_download (hdest : Aside K dest) (url : String) (n : ℕ) : Keeps (Fetching K dest before) (download url dest n).run := by
  unfold download
  refine Keeps.bind (keeps_mkdirs fun t ht => ?_) fun _ => keeps_downloadLoop hdest url n n none
  exact ⟨spared_mkdirs hdest.way ht.1, isLink_mkdirs ht.2⟩

end Download

/-! ### The new version in its place -/

section Payload

variable {K : Place → Prop} {root : Place} {before : Fs Bytes} {U : Updater} {release : ReleaseInfo}

theorem keeps_fetchText {P : Fs Bytes → Prop} (url what : String) : Keeps P (fetchText url what).run := by
  refine Keeps.lift (keeps_quiet fun _ => rfl) fun r => ?_
  cases r with
  | ok text => exact keeps_pure
  | error e => exact Keeps.ite keeps_throw keeps_throw

theorem keeps_fetchSha256 {P : Fs Bytes → Prop} (url : String) : Keeps P (fetchSha256 url).run := by
  refine (keeps_fetchText url _).bind fun text => Keeps.ite keeps_throw ?_
  cases Text.words (Text.strip text.toList) with
  | nil => exact keeps_throw
  | cons token rest => exact Keeps.ite keeps_pure keeps_throw

theorem keeps_expectedSha256 {P : Fs Bytes → Prop} : Keeps P (expectedSha256 release).run := by
  unfold expectedSha256
  cases release.checksumsUrl with
  | none => exact keeps_pure
  | some url =>
    refine Keeps.lift (keeps_quiet fun _ => rfl) fun r => ?_
    cases r with
    | error e => exact Keeps.ite keeps_pure keeps_throw
    | ok text =>
      dsimp only
      cases sha256FromChecksums (fun _ => .ok text) url release.assetName with
      | ok digest => exact keeps_pure
      | error e => exact keeps_pure

theorem keeps_hashSha256 {P : Fs Bytes → Prop} (p : Place) : Keeps P (hashSha256 U p).run := by
  refine keeps_look.bind fun t => ?_
  cases t.data p with
  | some d => exact keeps_pure
  | none => exact keeps_throw

theorem keeps_verify {P : Fs Bytes → Prop} {p : Place} {digest url : Option String} : Keeps P (verify U p digest url).run := by
  have hrest (expected : String) : Keeps P (do
      let actual ← hashSha256 U p
      if Text.lower actual.toList ≠ Text.lower expected.toList then
        throw ⟨.verifyFailed, s!"SHA256 mismatch: expected {expected}, got {actual}"⟩ : Raising Unit).run :=
    (keeps_hashSha256 p).bind fun actual => Keeps.ite keeps_throw keeps_pure
  unfold verify
  cases digest with
  | some expected => exact Keeps.bind keeps_pure hrest
  | none =>
    cases url with
    | some url => exact Keeps.bind (keeps_fetchSha256 url) hrest
    | none => exact Keeps.bind keeps_throw hrest

theorem keeps_fetchArchive (hK : ∀ q, K q → Rooted root q) (hdest : Aside K (stagedAt root release.assetName)) :
    Keeps (Fetching K (stagedAt root release.assetName) before) (fetchArchive U root release).run := by
  unfold fetchArchive
  have hstaging : ∀ q, K q → ¬q <+: root ++ stagingDir :: [] := fun q hq => not_above_free free_staging (hK q hq)
  refine Keeps.bind (keeps_mkdirs fun t ht => ⟨spared_mkdirs hstaging ht.1, isLink_mkdirs ht.2⟩) fun _ => ?_
  refine (keeps_download hdest _ 3).bind fun archive => keeps_expectedSha256.bind fun expected => ?_
  exact Keeps.ite (keeps_verify.bind fun _ => keeps_pure) (keeps_verify.bind fun _ => keeps_pure)

/-- What is found of a payload is where the archive was extracted to. -/
theorem leaves_locateVersionedPayload {P : Fs Bytes → Prop} (staging : Place) : Leaves P (locateVersionedPayload U staging)
    (fun payload t => P t ∧ staging <+: payload) P := by
  have hgo {p : Place} {t : Fs Bytes} (hp : staging <+: p) : Leaves (fun u => P u ∧ t = u) (pure p : Raising Place)
      (fun payload t => P t ∧ staging <+: payload) P := leaves_return fun u hu => ⟨hu.1, hp⟩
  have hstop {t : Fs Bytes} (e : Error) : Leaves (fun u => P u ∧ t = u) (throw e : Raising Place)
      (fun payload t => P t ∧ staging <+: payload) P := leaves_throw fun u hu => hu.1
  unfold locateVersionedPayload
  refine (leaves_look fun _ h => h).bind fun t => ?_
  cases hfound : ((t.below staging).filter fun p => p.getLast? = some U.runtimeName && t.isFile p).map List.dropLast with
  | cons runtime rest =>
    cases rest with
    | cons other rest => exact hstop _
    | nil =>
      refine hgo ?_
      have hmem : runtime ∈ ((t.below staging).filter fun p => p.getLast? = some U.runtimeName && t.isFile p).map List.dropLast :=
        hfound ▸ List.mem_cons_self ..
      obtain ⟨p, hp, rfl⟩ := List.mem_map.mp hmem
      obtain ⟨⟨l, rfl⟩, hne, -⟩ := Fs.mem_below.mp (List.mem_filter.mp hp).1
      have hl : l ≠ [] := fun hl => hne (by rw [hl, List.append_nil])
      rw [List.dropLast_append_of_ne_nil hl]
      exact List.prefix_append ..
  | nil =>
    dsimp only
    split_ifs
    · cases subdirs (staging ++ [versionsDir]) t with
      | nil => exact hstop _
      | cons d ds =>
        cases ds with
        | nil => exact hgo (by simp)
        | cons d' ds => exact hstop _
    · cases subdirs staging t with
      | nil => exact hstop _
      | cons d ds =>
        cases ds with
        | nil => exact hgo (List.prefix_append ..)
        | cons d' ds => exact hstop _

theorem keeps_healthCheck {P : Fs Bytes → Prop} {p : Place} : Keeps P (healthCheck p).run := by
  unfold healthCheck
  refine keeps_look.bind fun t => Keeps.ite ?_ keeps_pure
  exact Keeps.lift (keeps_quiet fun _ => rfl) fun _ => keeps_pure

theorem keeps_verifyExtractedMacos {P : Fs Bytes → Prop} {p : Place} : Keeps P (verifyExtractedMacos U p).run := by
  unfold verifyExtractedMacos
  refine Keeps.ite ?_ keeps_pure
  exact keeps_look.bind fun t => Keeps.ite (keeps_quiet fun _ => rfl) keeps_pure

/-- What `swap_bundle` does with the payload: it takes the place of the new version, and is checked there. -/
def placePayload (U : Updater) (root : Place) (release : ReleaseInfo) (payload : Place) : Raising Unit := do
  let target := versionDir root release.version
  if (← look).there target then attempt (act (.rmtree target))
  attempt (act (.rename payload target))
  verifyExtractedMacos U target
  if !(← healthCheck (target ++ [U.runtimeName])) then
    ignoring (act (.rmtree target))
    throw ⟨.healthCheckFailed, s!"self-check failed for staged version {release.version}; rolled back"⟩

/-- Nothing that is spared is at the new version's place or below it, or where the payload comes from. -/
theorem keeps_placePayload {payload : Place} (hpayload : ∀ q, K q → ¬payload <+: q)
    (htarget : ∀ q, K q → ¬versionDir root release.version <+: q) :
    Keeps (fun t => Fs.Agree K t before) (placePayload U root release payload).run := by
  have hdrop : Keeps (fun t => Fs.Agree K t before) (act (.rmtree (versionDir root release.version))) :=
    keeps_rmtree fun t gone h => spared_drop htarget gone h
  have hcheck : Keeps (fun t => Fs.Agree K t before) (do
      verifyExtractedMacos U (versionDir root release.version)
      if !(← healthCheck (versionDir root release.version ++ [U.runtimeName])) then
        ignoring (act (.rmtree (versionDir root release.version)))
        throw ⟨.healthCheckFailed, s!"self-check failed for staged version {release.version}; rolled back"⟩ : Raising Unit).run := by
    refine keeps_verifyExtractedMacos.bind fun _ => keeps_healthCheck.bind fun ok => Keeps.ite ?_ keeps_pure
    exact (keeps_ignoring hdrop).bind fun _ => keeps_throw
  have hmove : Keeps (fun t => Fs.Agree K t before)
      (attempt (act (.rename payload (versionDir root release.version)))).run :=
    keeps_change (fun _ => rfl) fun t h _ => spared_rename hpayload htarget h
  unfold placePayload
  have hrest := hmove.bind fun _ => hcheck
  exact keeps_look.bind fun t => Keeps.ite (Keeps.bind (x := attempt (act (.rmtree _))) hdrop fun _ => hrest) hrest

theorem installPayload_eq (archive : Place) : installPayload U root release archive = (do
    removeTree (extractDir root)
    attempt (act (.mkdirs (extractDir root)))
    attempt (act (.unpack archive (extractDir root)))
    let payload ← locateVersionedPayload U (extractDir root)
    placePayload U root release payload) := rfl

theorem keeps_installPayload (hK : ∀ q, K q → Rooted root q) (archive : Place)
    (htarget : ∀ q, K q → ¬versionDir root release.version <+: q) :
    Keeps (fun t => Fs.Agree K t before) (installPayload U root release archive).run := by
  have hbelow (q : Place) (hq : K q) : ¬extractDir root <+: q := not_below_free free_staging (hK q hq)
  have habove (q : Place) (l : List String) (hq : K q) : ¬q <+: extractDir root ++ l := by
    have hplace : extractDir root ++ l = root ++ stagingDir :: "extracted" :: l := by simp [extractDir]
    rw [hplace]
    exact not_above_free free_staging (hK q hq)
  have hmkdirs : Keeps (fun t => Fs.Agree K t before) (attempt (act (.mkdirs (extractDir root)))).run :=
    keeps_mkdirs fun t h => spared_mkdirs (fun q hq => by simpa using habove q [] hq) h
  have hunpack : Keeps (fun t => Fs.Agree K t before) (attempt (act (.unpack archive (extractDir root)))).run :=
    keeps_unpack fun t entries h => spared_unpackInto hbelow habove entries t h
  have hplace : Leaves (fun t => Fs.Agree K t before)
      (locateVersionedPayload U (extractDir root) >>= placePayload U root release) (fun _ t => Fs.Agree K t before)
      fun t => Fs.Agree K t before := by
    refine Leaves.bind (leaves_locateVersionedPayload _) fun payload => ?_
    refine Leaves.assuming (fun t ht => ht.2) fun hpayload => Leaves.pre (Keeps.leaves ?_ fun _ h => h) fun t ht => ht.1
    exact keeps_placePayload (fun q hq hp => hbelow q hq (hpayload.trans hp)) htarget
  rw [installPayload_eq]
  exact (keeps_removeTree hbelow).bind fun _ => hmkdirs.bind fun _ => hunpack.bind fun _ => hplace.either

theorem keeps_readManifest {P : Fs Bytes → Prop} : Keeps P (readManifest root).run := by
  unfold readManifest
  refine keeps_look.bind fun t => (keeps_value _).bind fun found => ?_
  cases found with
  | none => exact keeps_throw
  | some place =>
    refine (keeps_value _).bind fun text => ?_
    cases text with
    | none => exact keeps_throw
    | some text =>
      dsimp only
      cases JsonText.loads text with
      | none => exact keeps_throw
      | some data => exact keeps_value _

theorem keeps_latestReleaseFor {P : Fs Bytes → Prop} (s : Settings) (stem : String) : Keeps P (latestReleaseFor s stem).run := by
  unfold latestReleaseFor
  refine Keeps.ite keeps_throw (Keeps.lift (keeps_quiet fun _ => rfl) fun r => ?_)
  cases r with
  | ok payload => exact keeps_value _
  | error e => exact Keeps.ite keeps_throw keeps_throw

theorem keeps_pendingUpdate {P : Fs Bytes → Prop} : Keeps P (pendingUpdate U root).run := by
  unfold pendingUpdate
  exact keeps_readManifest.bind fun m => (keeps_latestReleaseFor _ _).bind fun release => Keeps.ite keeps_pure keeps_pure

end Payload

end Install
end LocaiLink
