/-
# What stands before a flip

An update flips `current` only after the archive that it extracts has the digest that the
release publishes for it, by the list of all checksums or else by the sidecar, and the
runtime in the new version's place has passed its self-check (`verification_gate`). That is
the version that `current` names then, where the pointer gives the version's name back.
-/
import LocaiLink.Install.Atomic
import LocaiLink.Install.Target

namespace LocaiLink
namespace Install

open World
open Prog (run run_ok run_error run_bind_ok)

/-! ### The digest that is published -/

/-- The digest of the first valid line for the asset. -/
def listedDigest (assetName : String) : Except Error String → Option String
  | .ok text => ((Text.splitlines text.toList).findSome? (sha256OnLine assetName)).map String.ofList
  | .error _ => none

/-- The first token of a sidecar. -/
def sidecarToken : Except Error String → Option String
  | .ok text => (Text.words (Text.strip text.toList)).head?.map String.ofList
  | .error _ => none

/-- What the list of checksums is answered with at first, and the sidecar after that, where there is a list; or the
sidecar at once. -/
def publishedDigest (release : ReleaseInfo) (s : World) : Option String :=
  if release.checksumsUrl.isSome then
    (listedDigest release.assetName s.ask.text).or (release.sha256Url.bind fun _ => sidecarToken s.tock.ask.text)
  else release.sha256Url.bind fun _ => sidecarToken s.ask.text

/-! ### The stages before the flip -/

def fetchBundle (root : Place) (release : ReleaseInfo) : Raising Place := do
  attempt (act (.mkdirs (root ++ [stagingDir])))
  download release.downloadUrl (stagedAt root release.assetName) 3

def checkArchive (U : Updater) (release : ReleaseInfo) (archive : Place) : Raising Unit := do
  let expected ← expectedSha256 release
  if (expected.filter (· ≠ "")).isSome then verify U archive expected none
  else verify U archive none release.sha256Url

def clearExtracted (root : Place) : Raising Unit := do
  removeTree (extractDir root)
  attempt (act (.mkdirs (extractDir root)))

/-- The archive is extracted, and its payload takes the place of the new version. -/
def stagePayload (U : Updater) (root : Place) (release : ReleaseInfo) (archive : Place) : Raising Unit := do
  attempt (act (.unpack archive (extractDir root)))
  let payload ← locateVersionedPayload U (extractDir root)
  let target := versionDir root release.version
  if (← look).there target then attempt (act (.rmtree target))
  attempt (act (.rename payload target))
  verifyExtractedMacos U target

/-- The runtime of a version. -/
def runtimeOf (U : Updater) (root : Place) (v : String) : Place := versionDir root v ++ [U.runtimeName]

/-- What a failed self-check comes to. -/
def refuseUnhealthy (root : Place) (release : ReleaseInfo) (healthy : Bool) : Raising Unit := do
  if !healthy then
    ignoring (act (.rmtree (versionDir root release.version)))
    throw ⟨.healthCheckFailed, s!"self-check failed for staged version {release.version}; rolled back"⟩

section Stages

variable {U : Updater} {root home : Place} {release : ReleaseInfo} {archive : Place} {ui : UiSwap root} {mtime : String → ℤ}

theorem fetchArchive_stages : fetchArchive U root release = (do
    let archive ← fetchBundle root release
    checkArchive U release archive
    pure archive) := by
  unfold fetchArchive fetchBundle checkArchive
  rw [bind_assoc]
  refine bind_congr fun _ => bind_congr fun archive => ?_
  rw [bind_assoc]
  refine bind_congr fun expected => ?_
  split_ifs <;> rfl

theorem installPayload_stages : installPayload U root release archive = (do
    clearExtracted root
    stagePayload U root release archive
    let healthy ← healthCheck (runtimeOf U root release.version)
    refuseUnhealthy root release healthy) := by
  unfold installPayload clearExtracted stagePayload
  rw [bind_assoc]
  refine bind_congr fun _ => bind_congr fun _ => ?_
  rw [bind_assoc]
  refine bind_congr fun _ => ?_
  rw [bind_assoc]
  refine bind_congr fun payload => ?_
  rw [bind_assoc]
  refine bind_congr fun t => ?_
  dsimp only
  split_ifs
  · rw [bind_assoc, bind_assoc]
    refine bind_congr fun _ => bind_congr fun _ => bind_congr fun _ => bind_congr fun healthy => ?_
    rfl
  · rw [bind_assoc]
    refine bind_congr fun _ => bind_congr fun _ => bind_congr fun healthy => ?_
    rfl

end Stages

/-! ### The digest -/

section Digest

variable {α : Type} {U : Updater} {release : ReleaseInfo} {archive p : Place} {s s' : World} {expected : Option String}
  {digest url : String} {t : Fs Bytes}

theorem run_look (h : run perform look.run s = (.ok t, s')) : t = s.fs ∧ s' = s.tock := by
  cases herror : s.ask.error with
  | none =>
    rw [run_look_ok herror] at h
    obtain ⟨ht, hs⟩ := Prod.mk.inj h
    exact ⟨(Except.ok.inj ht).symm, hs.symm⟩
  | some e =>
    rw [run_look_error herror] at h
    cases (Prod.mk.inj h).1

theorem run_throw {e : Error} {a : α} (h : run perform (throw e : Raising α).run s = (.ok a, s')) : False := by
  cases (Prod.mk.inj h).1

theorem listedDigest_ne {assetName : String} {answer : Except Error String} (h : listedDigest assetName answer = some digest) :
    digest ≠ "" := by
  cases answer with
  | error e => cases h
  | ok text =>
    obtain ⟨l, hl, rfl⟩ := Option.map_eq_some_iff.mp h
    obtain ⟨line, -, hline⟩ := List.exists_of_findSome?_eq_some hl
    unfold sha256OnLine at hline
    dsimp only at hline
    split_ifs at hline with hshort hfits
    obtain rfl := Option.some.inj hline
    have hlength := (Bool.and_eq_true _ _ ▸ hfits.2).1
    intro hempty
    have hnil := congrArg String.toList hempty
    rw [String.toList_ofList] at hnil
    rw [hnil] at hlength
    simp at hlength

theorem expectedSha256_ok (h : run perform (expectedSha256 release).run s = (.ok expected, s')) :
    s' = (if release.checksumsUrl.isSome then s.tock else s) ∧
      expected = if release.checksumsUrl.isSome then listedDigest release.assetName s.ask.text else none := by
  unfold expectedSha256 at h
  cases hurl : release.checksumsUrl with
  | none =>
    rw [hurl] at h
    obtain ⟨he, hs⟩ := Prod.mk.inj h
    exact ⟨hs.symm, (Except.ok.inj he).symm⟩
  | some url =>
    rw [hurl] at h
    obtain ⟨answer, s₁, hget, h⟩ := run_bind_ok h
    obtain ⟨ha, rfl⟩ := Prod.mk.inj hget
    obtain rfl : s.ask.text = answer := Except.ok.inj ha
    simp only [Option.isSome_some, if_true]
    cases htext : s.ask.text with
    | error e =>
      rw [htext] at h
      dsimp only at h
      split_ifs at h
      · obtain ⟨he, hs⟩ := Prod.mk.inj h
        exact ⟨hs.symm, (Except.ok.inj he).symm⟩
      · exact (run_throw h).elim
    | ok text =>
      rw [htext] at h
      dsimp only at h
      rw [listedDigest]
      cases hfound : (Text.splitlines text.toList).findSome? (sha256OnLine release.assetName) with
      | none =>
        simp only [sha256FromChecksums, hfound] at h
        obtain ⟨he, hs⟩ := Prod.mk.inj h
        exact ⟨hs.symm, (Except.ok.inj he).symm⟩
      | some l =>
        simp only [sha256FromChecksums, hfound] at h
        obtain ⟨he, hs⟩ := Prod.mk.inj h
        exact ⟨hs.symm, (Except.ok.inj he).symm⟩

theorem fetchSha256_ok (h : run perform (fetchSha256 url).run s = (.ok digest, s')) :
    s' = s.tock ∧ sidecarToken s.ask.text = some digest := by
  unfold fetchSha256 fetchText at h
  obtain ⟨text, s₁, hfetch, h⟩ := run_bind_ok h
  obtain ⟨answer, s₂, hget, hfetch⟩ := run_bind_ok hfetch
  obtain ⟨ha, rfl⟩ := Prod.mk.inj hget
  obtain rfl : s.ask.text = answer := Except.ok.inj ha
  cases htext : s.ask.text with
  | error e =>
    rw [htext] at hfetch
    dsimp only at hfetch
    split_ifs at hfetch
    · exact (run_throw hfetch).elim
    · exact (run_throw hfetch).elim
  | ok text' =>
    rw [htext] at hfetch
    obtain ⟨hs, rfl⟩ := Prod.mk.inj hfetch
    obtain rfl : text' = text := Except.ok.inj hs
    rw [sidecarToken]
    dsimp only at h
    split_ifs at h
    · exact (run_throw h).elim
    · cases hwords : Text.words (Text.strip text'.toList) with
      | nil =>
        rw [hwords] at h
        exact (run_throw h).elim
      | cons token rest =>
        rw [hwords] at h
        dsimp only at h
        split_ifs at h
        · obtain ⟨hd, rfl⟩ := Prod.mk.inj h
          exact ⟨rfl, congrArg some (Except.ok.inj hd)⟩
        · exact (run_throw h).elim

/-- The archive has the digest that it is compared with. -/
def HasDigest (U : Updater) (p : Place) (t : Fs Bytes) (digest : String) : Prop :=
  ∃ data, t.data p = some data ∧ Text.lower (U.sha256 data).toList = Text.lower digest.toList

theorem hashed_ok {expected : String} (h : run perform (do
      let actual ← hashSha256 U p
      if Text.lower actual.toList ≠ Text.lower expected.toList then
        throw ⟨.verifyFailed, s!"SHA256 mismatch: expected {expected}, got {actual}"⟩ : Raising Unit).run s = (.ok (), s')) :
    s'.fs = s.fs ∧ HasDigest U p s.fs expected := by
  obtain ⟨actual, s₁, hhash, h⟩ := run_bind_ok h
  unfold hashSha256 at hhash
  obtain ⟨t, s₂, hlook, hhash⟩ := run_bind_ok hhash
  obtain ⟨rfl, rfl⟩ := run_look hlook
  cases hdata : s.fs.data p with
  | none =>
    rw [hdata] at hhash
    exact (run_throw hhash).elim
  | some data =>
    rw [hdata] at hhash
    obtain ⟨ha, rfl⟩ := Prod.mk.inj hhash
    obtain rfl : U.sha256 data = actual := Except.ok.inj ha
    split_ifs at h with hsame
    · exact (run_throw h).elim
    · obtain ⟨-, rfl⟩ := Prod.mk.inj h
      exact ⟨rfl, data, hdata, not_ne_iff.mp hsame⟩

theorem checkArchive_ok (h : run perform (checkArchive U release archive).run s = (.ok (), s')) :
    s'.fs = s.fs ∧ ∃ digest, publishedDigest release s = some digest ∧ HasDigest U archive s.fs digest := by
  unfold checkArchive at h
  obtain ⟨expected, s₁, hexpected, h⟩ := run_bind_ok h
  obtain ⟨hs₁, hlisted⟩ := expectedSha256_ok hexpected
  have hfs : s₁.fs = s.fs := by
    rw [hs₁]
    split_ifs <;> rfl
  split_ifs at h with hgiven
  · -- the list has the digest
    obtain ⟨digest, hdigest⟩ := Option.isSome_iff_exists.mp hgiven
    obtain ⟨rfl, -⟩ := Option.filter_eq_some_iff.mp hdigest
    obtain ⟨hsame, hhas⟩ := hashed_ok h
    refine ⟨hsame.trans hfs, digest, ?_, hfs ▸ hhas⟩
    split_ifs at hlisted with hurl
    rw [publishedDigest, if_pos hurl, ← hlisted, Option.some_or]
  · -- the sidecar has it
    have hnone : expected = none := by
      cases expected with
      | none => rfl
      | some digest =>
        split_ifs at hlisted with hurl
        have hne := listedDigest_ne hlisted.symm
        rw [Option.filter_some, if_pos (by simpa using hne)] at hgiven
        exact absurd rfl hgiven
    unfold verify at h
    cases hsidecar : release.sha256Url with
    | none =>
      simp only [hsidecar] at h
      obtain ⟨digest, s₂, hthrow, -⟩ := run_bind_ok h
      exact (run_throw hthrow).elim
    | some url =>
      simp only [hsidecar] at h
      obtain ⟨digest, s₂, hfetch, h⟩ := run_bind_ok h
      obtain ⟨rfl, htoken⟩ := fetchSha256_ok hfetch
      obtain ⟨hsame, hhas⟩ := hashed_ok h
      refine ⟨hsame.trans hfs, digest, ?_, hfs ▸ hhas⟩
      rw [publishedDigest, hsidecar, Option.bind_some, Option.bind_some]
      by_cases hurl : release.checksumsUrl.isSome = true
      · rw [if_pos hurl] at hlisted hs₁ ⊢
        rw [← hlisted, hnone, Option.none_or, ← hs₁]
        exact htoken
      · rw [if_neg hurl] at hs₁ ⊢
        rw [← hs₁]
        exact htoken

end Digest

/-! ### What is extracted -/

/-- At every place there is what was there, or nothing, or a directory. -/
def Thinned (before t : Fs Bytes) : Prop := ∀ p, t.node p = before.node p ∨ t.node p = none ∨ t.node p = some .dir

section Thinned

variable {before t : Fs Bytes} {root p : Place} {s s' : World}

theorem Thinned.drop (h : Thinned before t) (gone : Place → Bool) (p : Place) : Thinned before (t.drop gone p) := by
  intro q
  change (if _ then none else _) = _ ∨ (if _ then none else _) = _ ∨ (if _ then none else _) = _
  split_ifs
  · exact .inr (.inl rfl)
  · exact h q

theorem Thinned.mkdirs (h : Thinned before t) (p : Place) : Thinned before (mkdirs p t) := by
  have hall (l : List Place) (u : Fs Bytes) (hu : Thinned before u) :
      Thinned before (l.foldl (fun t q => if (t.node q).isSome then t else t.set q (some .dir)) u) := by
    induction l generalizing u with
    | nil => exact hu
    | cons q l ih =>
      refine ih _ fun r => ?_
      dsimp only
      split_ifs
      · exact hu r
      · by_cases hr : r = q
        · rw [hr, Fs.node_set_self]
          exact .inr (.inr rfl)
        · rw [Fs.node_set_of_ne hr]
          exact hu r
  exact hall _ t h

/-- A file that is still read has the data that it had. -/
theorem Thinned.data (h : Thinned before t) {d : Bytes} (hd : t.data p = some d) : before.data p = some d := by
  have hsame {q : Place} {n : Node} (hq : t.node q = some n) (hn : n ≠ .dir) : before.node q = some n := by
    rcases h q with he | he | he
    · exact he ▸ hq
    · rw [he] at hq
      cases hq
    · rw [he] at hq
      exact absurd (Option.some.inj hq).symm hn
  have hfollow (fuel : ℕ) (q : Place) (hq : (t.follow fuel q).bind t.node = some (.file d)) :
      (before.follow fuel q).bind before.node = some (.file d) := by
    induction fuel generalizing q with
    | zero =>
      unfold Fs.follow at hq
      split at hq
      · cases hq
      · have hnode := hsame hq (by simp)
        rw [Fs.follow_of_node (by rw [Fs.isLink, hnode])]
        exact hnode
    | succ fuel ih =>
      unfold Fs.follow at hq
      split at hq
      · rename_i target hn
        rw [Fs.follow_link (hsame hn (by simp))]
        exact ih _ hq
      · have hnode := hsame hq (by simp)
        rw [Fs.follow_of_node (by rw [Fs.isLink, hnode])]
        exact hnode
  unfold Fs.data Fs.stat at hd ⊢
  split at hd
  · rename_i d' hd'
    rw [Option.some.inj hd] at hd'
    rw [hfollow _ _ hd']
  · cases hd

theorem keeps_clearExtracted : Keeps (Thinned before) (clearExtracted root).run := by
  unfold clearExtracted removeTree
  refine Keeps.bind (keeps_look.bind fun t => Keeps.ite (keeps_ignoring ?_) keeps_pure) fun _ => ?_
  · exact keeps_rmtree fun t gone h => h.drop gone _
  · exact keeps_mkdirs fun t h => h.mkdirs _

end Thinned

/-! ### The gate -/

section Gate

variable {U : Updater} {root home : Place} {ui : UiSwap root} {mtime : String → ℤ} {release : ReleaseInfo} {w s s' : World} {r : Place}

theorem healthCheck_ok {healthy : Bool} (h : run perform (healthCheck r).run s = (.ok healthy, s')) (hhealthy : healthy = true) :
    s.fs.isFile r = true ∧ s.tock.ask.exit = some 0 ∧ s' = s.tock.tock := by
  unfold healthCheck at h
  obtain ⟨t, s₁, hlook, h⟩ := run_bind_ok h
  obtain ⟨rfl, rfl⟩ := run_look hlook
  split_ifs at h with hfile
  · obtain ⟨exit, s₂, hcheck, h⟩ := run_bind_ok h
    obtain ⟨he, rfl⟩ := Prod.mk.inj hcheck
    obtain rfl : s.tock.ask.exit = exit := Except.ok.inj he
    obtain ⟨hb, rfl⟩ := Prod.mk.inj h
    rw [← Except.ok.inj hb, decide_eq_true_iff] at hhealthy
    exact ⟨hfile, hhealthy, rfl⟩
  · rw [← Except.ok.inj (Prod.mk.inj h).1] at hhealthy
    cases hhealthy

theorem refuseUnhealthy_ok {healthy : Bool} (h : run perform (refuseUnhealthy root release healthy).run s = (.ok (), s')) :
    healthy = true ∧ s' = s := by
  cases healthy with
  | true => exact ⟨rfl, (Prod.mk.inj h).2.symm⟩
  | false =>
    obtain ⟨u, s₁, -, hthrow⟩ := run_bind_ok h
    exact (run_throw hthrow).elim

/-- The stages of an update from where its bundle is fetched to where it flips: the archive is fetched and checked, the place to extract it
to is cleared, it is extracted, and its runtime is checked in the new version's place. What is extracted has the digest that the release
publishes, and the self-check exits with 0. -/
def Passed (U : Updater) (root : Place) (release : ReleaseInfo) (w flipping : World) : Prop :=
  ∃ archive fetched extracting checking digest,
    run perform (fetchBundle root release).run w = (.ok archive, fetched) ∧
    run perform (checkArchive U release archive >>= fun _ => clearExtracted root).run fetched = (.ok (), extracting) ∧
    publishedDigest release fetched = some digest ∧ HasDigest U archive extracting.fs digest ∧
    run perform (stagePayload U root release archive).run extracting = (.ok (), checking) ∧
    run perform (healthCheck (runtimeOf U root release.version)).run checking = (.ok true, flipping) ∧
    checking.fs.isFile (runtimeOf U root release.version) = true ∧ checking.tock.ask.exit = some 0

theorem passed_of_ok {archive : Place} {s₁ : World} (hfetch : run perform (fetchArchive U root release).run w = (.ok archive, s₁))
    (hinstall : run perform (installPayload U root release archive).run s₁ = (.ok (), s')) : Passed U root release w s' := by
  rw [fetchArchive_stages] at hfetch
  obtain ⟨archive', fetched, hbundle, hfetch⟩ := run_bind_ok hfetch
  obtain ⟨u, s₂, hcheck, hfetch⟩ := run_bind_ok hfetch
  obtain ⟨ha, rfl⟩ := Prod.mk.inj hfetch
  obtain rfl : archive' = archive := Except.ok.inj ha
  obtain ⟨hsame, digest, hdigest, data, hdata, hsha⟩ := checkArchive_ok hcheck
  rw [installPayload_stages] at hinstall
  obtain ⟨u', extracting, hclear, hinstall⟩ := run_bind_ok hinstall
  obtain ⟨u'', checking, hstage, hinstall⟩ := run_bind_ok hinstall
  obtain ⟨healthy, s₃, hhealth, hrefuse⟩ := run_bind_ok hinstall
  obtain ⟨hhealthy, rfl⟩ := refuseUnhealthy_ok hrefuse
  obtain ⟨hfile, hexit, -⟩ := healthCheck_ok hhealth hhealthy
  -- the archive is extracted, so it is still read, and only what is extracted was cleared away
  have hthin : Thinned s₂.fs extracting.fs := by
    have hkeeps : Keeps (Thinned s₂.fs) (clearExtracted root).run := keeps_clearExtracted
    have hend := hkeeps s₂ fun _ => .inl rfl
    rw [hclear] at hend
    exact hend
  obtain ⟨u₃, s₄, hunpack, -⟩ := run_bind_ok hstage
  have hread : ∃ d, extracting.fs.data archive' = some d := by
    change extracting.unpack archive' (extractDir root) = _ at hunpack
    unfold World.unpack at hunpack
    split at hunpack
    · cases (Prod.mk.inj hunpack).1
    · rename_i d hd
      exact ⟨d, hd⟩
  obtain ⟨d, hd⟩ := hread
  have hsame' : d = data := by
    have hold := hthin.data hd
    rw [hsame, hdata] at hold
    exact (Option.some.inj hold).symm
  refine ⟨archive', fetched, extracting, checking, digest, hbundle, ?_, hdigest, ⟨d, hd, hsame' ▸ hsha⟩, hstage, hhealthy ▸ hhealth, hfile, hexit⟩
  rw [run_ok (congrArg Prod.fst hcheck), hcheck]
  exact hclear

/-- An update that comes to its flip has passed the gate; one that does not changes nothing after that. -/
structure Gated (U : Updater) (root home : Place) (ui : UiSwap root) (mtime : String → ℤ) (w : World) : Prop where
  passed : ∀ step, (run perform (beforeFlip U root).run w).1 = .ok (some step) →
    ∃ fetching, run perform (pendingUpdate U root).run w = (.ok (some step), fetching) ∧
      Passed U root step.release fetching (run perform (beforeFlip U root).run w).2
  stops : (∀ step, (run perform (beforeFlip U root).run w).1 ≠ .ok (some step)) →
    (run perform (swapBundle U root home ui mtime).run w).2 = (run perform (beforeFlip U root).run w).2

theorem gated (U : Updater) (root home : Place) (ui : UiSwap root) (mtime : String → ℤ) (w : World) : Gated U root home ui mtime w := by
  constructor
  · intro step hstep
    have hrun : run perform (beforeFlip U root).run w = (.ok (some step), (run perform (beforeFlip U root).run w).2) := Prod.ext hstep rfl
    generalize (run perform (beforeFlip U root).run w).2 = flipping at hrun
    unfold beforeFlip at hrun
    obtain ⟨pending, fetching, hpending, hrun⟩ := run_bind_ok hrun
    cases pending with
    | none => cases Except.ok.inj (Prod.mk.inj hrun).1
    | some step' =>
      obtain ⟨archive, s₁, hfetch, hrun⟩ := run_bind_ok hrun
      obtain ⟨u, s₂, hinstall, hrun⟩ := run_bind_ok hrun
      obtain ⟨hsame, rfl⟩ := Prod.mk.inj hrun
      obtain rfl : step' = step := Option.some.inj (Except.ok.inj hsame)
      exact ⟨fetching, hpending, passed_of_ok hfetch hinstall⟩
  · intro hno
    rw [swapBundle_eq]
    cases hbefore : (run perform (beforeFlip U root).run w).1 with
    | error e => rw [run_error hbefore]
    | ok pending =>
      cases pending with
      | none =>
        rw [run_ok hbefore]
        rfl
      | some step => exact absurd hbefore (hno step)

end Gate

/-! ### The version that is named -/

section Named

variable {root : Place} {v : String} {win32 : Bool} {f : World}

theorem mem_universalNewlines {c : Char} (hc : c ≠ '\n') (l : List Char) (h : c ∈ Text.universalNewlines l) : c ∈ l := by
  fun_induction Text.universalNewlines l with
  | case1 l ih => exact List.mem_cons_of_mem _ (List.mem_cons_of_mem _ (ih ((List.mem_cons.mp h).resolve_left hc)))
  | case2 l hl ih => exact List.mem_cons_of_mem _ (ih ((List.mem_cons.mp h).resolve_left hc))
  | case3 d l hpair hd ih => exact (List.mem_cons.mp h).elim (fun he => he ▸ List.mem_cons_self ..) fun h => List.mem_cons_of_mem _ (ih h)
  | case4 => exact h

/-- A text that leads to the version's place, and has no slash, is the version. -/
theorem eq_of_versionDir {text : String} (hslash : '/' ∉ text.toList) (h : versionDir root text = root ++ [versionsDir, v]) : text = v := by
  obtain ⟨hmem, -⟩ := part_of_versionDir h
  by_cases hne : text = ""
  · subst hne
    exact absurd hmem (by simp [show (Path.ofString "").parts = [] by decide])
  by_cases hdot : text = "."
  · subst hdot
    exact absurd hmem (by simp [show (Path.ofString ".").parts = [] by decide])
  rw [Path.ofString_single hne hdot hslash] at hmem
  exact (List.mem_singleton.mp hmem).symm

/-- What is read of a text file leads to the version's place just if the version is legible. -/
theorem versionDir_read_iff (hplain : PlainName v) :
    versionDir root (String.ofList (Text.strip (Text.universalNewlines (v ++ "\n").toList))) = versionDir root v ↔ Legible v := by
  constructor
  · intro h
    rw [hplain.versionDir root] at h
    have hslash : '/' ∉ (String.ofList (Text.strip (Text.universalNewlines (v ++ "\n").toList))).toList := by
      rw [String.toList_ofList]
      intro hmem
      have hold := mem_universalNewlines (by decide) _ ((Text.stripBy_infix _ _).subset hmem)
      rw [String.toList_append, List.mem_append] at hold
      exact hold.elim hplain.single (by decide)
    have hsame := eq_of_versionDir hslash h
    have hlegible := legible_of_text (v ++ "\n").toList (by rw [hsame]; exact hplain.nonempty)
    rwa [hsame] at hlegible
  · intro h
    rw [h.read]

/-- What `current` is has changed. -/
def Flips (root : Place) (before t : Fs Bytes) : Prop :=
  ¬(t.node (root ++ [currentLink]) = before.node (root ++ [currentLink]) ∧
    t.node (root ++ [currentPointerFile]) = before.node (root ++ [currentPointerFile]))

/-- A flip that returns, or that is raised after `current` has changed. -/
def Flipped (win32 : Bool) (root : Place) (v : String) (f : World) : Prop :=
  (run perform (flipCurrent win32 root v).run f).1 = .ok () ∨ Flips root f.fs (run perform (flipCurrent win32 root v).run f).2.fs

theorem Flipped.isDir (h : Flipped win32 root v f) : f.fs.isDir (versionDir root v) = true := by
  by_contra hnot
  obtain ⟨e, he, hsame⟩ : ∃ e, (run perform (flipCurrent win32 root v).run f).1 = .error e ∧
      (run perform (flipCurrent win32 root v).run f).2.fs = f.fs := by
    unfold flipCurrent
    cases herror : f.ask.error with
    | some e =>
      have hlook := congrArg Prod.fst (run_look_error herror)
      rw [run_error hlook, run_look_error herror]
      exact ⟨e, rfl, rfl⟩
    | none =>
      have hlook := congrArg Prod.fst (run_look_ok herror)
      rw [run_ok hlook, run_look_ok herror, if_neg hnot]
      exact ⟨_, rfl, rfl⟩
  rcases h with hok | hflips
  · rw [he] at hok
    cases hok
  · rw [hsame] at hflips
    exact hflips ⟨rfl, rfl⟩

/-- From there `current` is the new version's. -/
theorem Flipped.shows (h : Flipped win32 root v f) (hunstaged : Unstaged root f.fs)
    (hfile : f.fs.isLink (root ++ [currentPointerFile]) = false) :
    Turning root v (installUsesSymlink win32 root f.fs) f.fs (run perform (flipCurrent win32 root v).run f).2.fs ∧
      Shows root current v (installUsesSymlink win32 root f.fs) (run perform (flipCurrent win32 root v).run f).2.fs := by
  have hpost := (survives_flipCurrent win32 v hunstaged hfile f rfl).1
  cases hdone : (run perform (flipCurrent win32 root v).run f).1 with
  | ok u =>
    rw [hdone] at hpost
    obtain ⟨old, -, hturned⟩ := hpost
    exact ⟨hturned.turning, hturned.shows⟩
  | error e =>
    rw [hdone] at hpost
    have hturning : Turning root v (installUsesSymlink win32 root f.fs) f.fs (run perform (flipCurrent win32 root v).run f).2.fs := hpost
    rcases h with hok | hflips
    · rw [hdone] at hok
      cases hok
    · rcases hturning.pointer with hsame | ⟨hshows, -⟩
      · exact absurd hsame hflips
      · exact ⟨hturning, hshows⟩

/-- A flip names the version's place just if the text shape gives its name back. -/
theorem flipNames_iff (hunstaged : Unstaged root f.fs) (hfile : f.fs.isLink (root ++ [currentPointerFile]) = false)
    (hlink : f.fs.node (root ++ [currentLink]) ≠ some .dir) (hplain : PlainName v)
    (htarget : f.fs.isLink (versionDir root v) = false) (hflipped : Flipped win32 root v f) :
    resolveCurrent root (run perform (flipCurrent win32 root v).run f).2.fs = .ok (some (versionDir root v)) ↔
      (installUsesSymlink win32 root f.fs = false → Legible v) := by
  obtain ⟨hturning, hshows⟩ := hflipped.shows hunstaged hfile
  have hdir : f.fs.node (versionDir root v) = some .dir := by
    have hisDir := hflipped.isDir
    rw [isDir_iff, Fs.stat_of_node htarget] at hisDir
    exact hisDir
  generalize (run perform (flipCurrent win32 root v).run f).2.fs = t at hturning hshows ⊢
  have hdir' : t.node (versionDir root v) = some .dir := by
    rw [hplain.versionDir root] at hdir ⊢
    exact (hturning.versions _ ⟨versionsDir, [v], rfl, rfl⟩).trans hdir
  have hisDir := Fs.isDir_of_node hdir'
  unfold Shows at hshows
  unfold resolveCurrent resolvePointer
  cases hshape : installUsesSymlink win32 root f.fs with
  | true =>
    rw [hshape, if_pos rfl] at hshows
    have hfollow : t.follow Fs.maxLinks (root ++ [current.link]) = some (versionDir root v) := by
      have hplace : (root ++ [current.link]).dropLast = root := List.dropLast_concat
      have hnotLink : t.isLink (versionDir root v) = false := by rw [Fs.isLink, hdir']
      rw [show Fs.maxLinks = 39 + 1 from rfl, Fs.follow_link hshows, hplace]
      exact Fs.follow_of_node hnotLink _
    rw [hfollow, Option.filter_some, if_pos hisDir]
    exact iff_of_true rfl fun hfalse => by cases hfalse
  | false =>
    rw [hshape, if_neg (by decide)] at hshows
    have hstands : t.node (root ++ [current.link]) = f.fs.node (root ++ [currentLink]) ∨ t.node (root ++ [current.link]) = none := by
      rcases hturning.pointer with ⟨hsame, -⟩ | ⟨-, hsame⟩
      · exact .inl hsame
      · exact hsame hshape
    have hnotLink : t.isLink (root ++ [current.link]) = false := by
      rcases hstands with hsame | hnone
      · exact (isLink_congr hsame).trans (isLink_of_text hshape)
      · exact (data_of_none hnone).2.2.2
    have hnode : t.node (root ++ [current.link]) ≠ some .dir := by
      rcases hstands with hsame | hnone
      · exact fun h => hlink (hsame.symm.trans h)
      · exact fun h => by cases hnone.symm.trans h
    have hnotDir : t.isDir (root ++ [current.link]) = false := by
      rw [Bool.eq_false_iff, ne_eq, isDir_iff, Fs.stat_of_node hnotLink]
      exact hnode
    have hfollow : (t.follow Fs.maxLinks (root ++ [current.link])).filter (fun p => t.isDir p) = none := by
      rw [Fs.follow_of_node hnotLink, Option.filter_some, if_neg (by simp [hnotDir])]
    have hread : versionDir root _ = versionDir root v ↔ Legible v := versionDir_read_iff hplain
    rw [hfollow, readText_file hshows, ← hread]
    change Except.ok (if t.isDir _ = true then some _ else none) = _ ↔ _
    constructor
    · intro h _
      have hsome := Except.ok.inj h
      split_ifs at hsome
      exact Option.some.inj hsome
    · intro h
      rw [h rfl, if_pos hisDir]

end Named

/-- **The gate of a flip.** In every run, whatever is answered: an update that comes to its flip has extracted an archive with the digest
that the release publishes, and the self-check of the runtime in the new version's place has exited with 0; any other stops before
the flip. And a flip that changes `current` has it name that place just if the pointer is a link or the version survives a text file. -/
theorem verification_gate (U : Updater) (root home : Place) (ui : UiSwap root) (mtime : String → ℤ) :
    (∀ w, Gated U root home ui mtime w) ∧
    ∀ (v : String) (f : World), Unstaged root f.fs → f.fs.isLink (root ++ [currentPointerFile]) = false →
      f.fs.node (root ++ [currentLink]) ≠ some .dir → PlainName v → f.fs.isLink (versionDir root v) = false →
      Flipped U.win32 root v f →
      (resolveCurrent root (run perform (flipCurrent U.win32 root v).run f).2.fs = .ok (some (versionDir root v)) ↔
        (installUsesSymlink U.win32 root f.fs = false → Legible v)) :=
  ⟨gated U root home ui mtime, fun _ _ => flipNames_iff⟩

/-! ### A tag with a space at its end -/

/-- What an update flips to: whether the flip returns, what `current` names then, and the place of the version. -/
def flipped (U : Updater) (root : Place) (w : World) : Option (Bool × Option Place × Place) :=
  (run perform (beforeFlip U root).run w).1.toOption.join.map fun step =>
    ((run perform (flipCurrent U.win32 root step.release.version).run (run perform (beforeFlip U root).run w).2).1.isOk,
      (resolveCurrent root (run perform (flipCurrent U.win32 root step.release.version).run
        (run perform (beforeFlip U root).run w).2).2.fs).toOption.join,
      versionDir root step.release.version)

def spacedRelease : Json :=
  .obj [("tag_name", .str "v1.0.17 "), ("assets", .arr [
    .obj [("name", .str "locai-link-headless-linux-x64.tar.gz"), ("browser_download_url", .str "https://github.com/bundle")],
    .obj [("name", .str "locai-link-headless-linux-x64.tar.gz.sha256"), ("browser_download_url", .str "https://github.com/sum")]])]

/-- An install with a text file, where a directory of 1.0.17 is left from before. -/
def textual : Fs Bytes :=
  (((installed "1.0.16" "1.0.16").set ["locai", currentLink] none).set ["locai", currentPointerFile]
    (some (.file (Bytes.encode "1.0.16\n")))).set ["locai", "versions", "1.0.17"] (some .dir)

def spaced : World := ⟨textual, 0, fun _ => { obliging with json := .ok spacedRelease }, 0⟩

theorem flipped_spaced : flipped hashing ["locai"] spaced =
    some (true, some ["locai", "versions", "1.0.17"], ["locai", "versions", "1.0.17 "]) := by decide +kernel

/-- `current` names a directory whose runtime was not checked. -/
theorem unchecked_named : ¬∀ (U : Updater) (root home : Place) (ui : UiSwap root) (mtime : String → ℤ) (w : World),
    Gated U root home ui mtime w ∧ ∀ ok named place, flipped U root w = some (ok, named, place) → ok = true → named = some place := by
  intro h
  have hnamed := (h hashing ["locai"] ["home"] (noUiSwap _) (fun _ => 0) spaced).2 _ _ _ flipped_spaced rfl
  revert hnamed
  decide

end Install
end LocaiLink
