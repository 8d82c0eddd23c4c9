/-
# The updater and the bootstrap on one release

Both read a published release alike (`read_published`, `readRelease_published`). The
updater takes the first bundle in the list, under either name and with either
extension; the bootstrap takes the one tarball with the version in its name. So
they take the same asset just where the first bundle is that tarball
(`resolve_agrees_iff`).
-/
import LocaiLink.Install.Release

namespace LocaiLink
namespace Install

open Json (dict getOr)

/-! ### A published release -/

/-- An asset as the API gives it: an object, no field twice, with other fields as well. -/
structure AssetJson (j : Json) (a : GhAsset) : Prop where
  fields : ∃ l, j = .obj l ∧ (l.map Prod.fst).Nodup ∧ l.lookup "name" = some (.str a.name) ∧
    l.lookup "browser_download_url" = some (.str a.browserDownloadUrl) ∧
    ∃ n : ℕ, n < 2 ^ 64 ∧ l.lookup "size" = some (.int n) ∧ a.size = some n

/-- A release as the API gives it. -/
structure ReleaseJson (j : Json) (r : GhRelease) : Prop where
  fields : ∃ l assets, j = .obj l ∧ (l.map Prod.fst).Nodup ∧ l.lookup "tag_name" = some (.str r.tagName) ∧
    l.lookup "assets" = some (.arr assets) ∧ List.Forall₂ AssetJson assets r.assets

section Fields

variable {l : List (String × Json)} {key : String} {v : Json}

theorem filter_of_nodup : ∀ {l : List (String × Json)}, (l.map Prod.fst).Nodup → l.lookup key = some v →
    l.filter (·.1 = key) = [(key, v)]
  | [], _, h => by cases h
  | (k, w) :: l, hn, h => by
    rw [List.map_cons, List.nodup_cons] at hn
    by_cases hk : k = key
    · subst hk
      rw [List.lookup_cons_self] at h
      obtain rfl := Option.some.inj h
      have hnone : l.filter (·.1 = k) = [] := by
        rw [List.filter_eq_nil_iff]
        intro e he heq
        refine hn.1 (List.mem_map.mpr ⟨e, he, ?_⟩)
        simpa using heq
      rw [List.filter_cons, hnone]
      simp
    · rw [Dict.lookup_cons_ne w l (Ne.symm hk)] at h
      rw [List.filter_cons, if_neg (by simpa using hk)]
      exact filter_of_nodup hn.2 h

theorem uniqueField_of_nodup (hn : (l.map Prod.fst).Nodup) (h : l.lookup key = some v) :
    uniqueField l key = some (some v) := by
  rw [uniqueField, filter_of_nodup hn h]

theorem get?_ofList_of_nodup (hn : (l.map Prod.fst).Nodup) (h : l.lookup key = some v) :
    (Dict.ofList l).get? key = some v := by
  have hofList : Dict.ofList l = ⟨l, hn⟩ := Dict.ofList_entries ⟨l, hn⟩
  rw [hofList]
  exact h

end Fields

theorem read_asset {j : Json} {a : GhAsset} (h : AssetJson j a) : GhAsset.read j = some a := by
  obtain ⟨l, rfl, hn, hname, hurl, n, hlt, hsize, ha⟩ := h.fields
  have hsize' : asSize (.int n) = some (some n) := by
    change (if n < 2 ^ 64 then _ else _) = _
    rw [if_pos hlt]
  simp only [GhAsset.read, uniqueField_of_nodup hn hname, uniqueField_of_nodup hn hurl, uniqueField_of_nodup hn hsize]
  simp [asStr, hsize', ← ha]

theorem read_assets : ∀ {l : List Json} {assets : List GhAsset}, List.Forall₂ AssetJson l assets →
    l.mapM GhAsset.read = some assets
  | _, _, .nil => rfl
  | _, _, .cons h hl => by
    rw [List.mapM_cons, read_asset h, read_assets hl]
    rfl

/-- The bootstrap reads a published release. -/
theorem read_published {j : Json} {r : GhRelease} (h : ReleaseJson j r) : GhRelease.read j = some r := by
  obtain ⟨l, assets, rfl, hn, htag, hassets, hall⟩ := h.fields
  simp only [GhRelease.read, uniqueField_of_nodup hn htag, uniqueField_of_nodup hn hassets]
  simp [asStr, readAssets, read_assets hall]

/-! ### The updater's reading -/

/-- What the updater goes on with of an asset. -/
structure Read (p : Dict String Json × String) (a : GhAsset) : Prop where
  pattern : p.2 = a.name
  name : p.1.get? "name" = some (.str a.name)
  url : p.1.get? "browser_download_url" = some (.str a.browserDownloadUrl)

theorem readAsset_published {j : Json} {a : GhAsset} (h : AssetJson j a) : ∃ p, readAsset j = .ok p ∧ Read p a := by
  obtain ⟨l, rfl, hn, hname, hurl, -⟩ := h.fields
  have hget := get?_ofList_of_nodup hn hname
  refine ⟨(.ofList l, a.name), ?_, rfl, hget, get?_ofList_of_nodup hn hurl⟩
  have hor : getOr (.ofList l) "name" = .str a.name := by rw [getOr, hget]; rfl
  by_cases hempty : a.name = ""
  · simp [readAsset, dict, hor, Json.truthy, hempty]
  · simp [readAsset, dict, hor, Json.truthy, hempty]

theorem readAssets_published : ∀ {l : List Json} {assets : List GhAsset}, List.Forall₂ AssetJson l assets →
    ∃ ps, l.mapM readAsset = .ok ps ∧ List.Forall₂ Read ps assets
  | _, _, .nil => ⟨[], rfl, .nil⟩
  | _, _, .cons h hl => by
    obtain ⟨p, hp, hread⟩ := readAsset_published h
    obtain ⟨ps, hps, hreads⟩ := readAssets_published hl
    refine ⟨p :: ps, ?_, .cons hread hreads⟩
    rw [List.mapM_cons, hp, hps]
    rfl

/-- The first asset whose name matches is the bundle that is picked. -/
theorem pickAssets_fst {α : Type} (stem tag version : String) (l : List (α × String)) :
    (pickAssets stem tag version l).1 = (l.find? fun a => bundleRe stem tag version "" a.2).map (·.1) := by
  have hfold (l : List (α × String)) (picked : Option α × Option α) :
      (l.foldl (fun picked a =>
        if bundleRe stem tag version "" a.2 && picked.1.isNone then (some a.1, picked.2)
        else if bundleRe stem tag version ".sha256" a.2 && picked.2.isNone then (picked.1, some a.1)
        else picked) picked).1 = picked.1.or ((l.find? fun a => bundleRe stem tag version "" a.2).map (·.1)) := by
    induction l generalizing picked with
    | nil => simp
    | cons a l ih =>
      rw [List.foldl_cons, ih, List.find?_cons]
      rcases picked with ⟨_ | b, q⟩
      · cases bundleRe stem tag version "" a.2 with
        | true => simp
        | false =>
          simp only [Bool.false_and, Bool.false_eq_true, if_false]
          split_ifs <;> rfl
      · simp only [Option.isNone_some, Bool.and_false, Bool.false_eq_true, if_false]
        split_ifs <;> rfl
  exact hfold l (none, none)

theorem find?_read {f : String → Bool} : ∀ {ps : List (Dict String Json × String)} {assets : List GhAsset},
    List.Forall₂ Read ps assets →
      (ps.find? (fun p => f p.2) = none ∧ assets.find? (fun a => f a.name) = none) ∨
        ∃ p a, ps.find? (fun p => f p.2) = some p ∧ assets.find? (fun a => f a.name) = some a ∧ Read p a
  | _, _, .nil => .inl ⟨rfl, rfl⟩
  | p :: ps, a :: assets, .cons h hl => by
    rw [List.find?_cons, List.find?_cons, h.pattern]
    cases f a.name with
    | true => exact .inr ⟨p, a, rfl, rfl, h⟩
    | false => exact find?_read hl

/-- The first asset that the updater takes for the bundle. -/
def firstBundle (stem ptag : String) (r : GhRelease) : Option GhAsset :=
  r.assets.find? fun a => bundleRe stem ptag (withoutV r.tagName) "" a.name

theorem payload_published {j : Json} {r : GhRelease} (h : ReleaseJson j r) :
    ∃ d ps, j.dict = some d ∧ payloadTag d = r.tagName ∧ payloadAssets d = .ok ps ∧ List.Forall₂ Read ps r.assets := by
  obtain ⟨l, assets, rfl, hn, htag, hassets, hall⟩ := h.fields
  obtain ⟨ps, hps, hreads⟩ := readAssets_published hall
  have hgetTag : getOr (.ofList l) "tag_name" = .str r.tagName := by
    rw [getOr, get?_ofList_of_nodup hn htag]
    rfl
  have hgetAssets : getOr (.ofList l) "assets" = .arr assets := by
    rw [getOr, get?_ofList_of_nodup hn hassets]
    rfl
  refine ⟨.ofList l, ps, rfl, ?_, ?_, hreads⟩
  · rw [payloadTag, hgetTag]
    by_cases hempty : r.tagName = ""
    · simp [Json.truthy, hempty, Text.str]
    · simp [Json.truthy, hempty, Text.str]
  · rw [payloadAssets, hgetAssets]
    cases assets with
    | nil => exact hps
    | cons a assets => exact hps

/-- Whatever the updater reads of a picked asset is there. -/
theorem strItem?_read {ps : List (Dict String Json × String)} {assets : List GhAsset} (h : List.Forall₂ Read ps assets)
    {p : Dict String Json × String} (hp : p ∈ ps) : ∃ u, strItem? (some p.1) "browser_download_url" = .ok (some u) := by
  obtain ⟨a, -, hread⟩ : ∃ a ∈ assets, Read p a := by
    induction h with
    | nil => cases hp
    | cons hr _ ih =>
      rcases List.mem_cons.mp hp with rfl | hp
      · exact ⟨_, List.mem_cons_self, hr⟩
      · obtain ⟨a, ha, hread⟩ := ih hp
        exact ⟨a, List.mem_cons_of_mem _ ha, hread⟩
  refine ⟨String.ofList (Text.str (.str a.browserDownloadUrl)), ?_⟩
  rw [strItem?, strItem, hread.url]
  rfl

theorem pickAssets_snd_mem {α : Type} (stem tag version : String) (l : List (α × String)) {a : α}
    (h : (pickAssets stem tag version l).2 = some a) : ∃ name, (a, name) ∈ l := by
  have hfold (l' : List (α × String)) (picked : Option α × Option α) (hl : ∀ x ∈ l', x ∈ l)
      (hpicked : ∀ a, picked.2 = some a → ∃ name, (a, name) ∈ l) :
      ∀ a, (l'.foldl (fun picked a =>
        if bundleRe stem tag version "" a.2 && picked.1.isNone then (some a.1, picked.2)
        else if bundleRe stem tag version ".sha256" a.2 && picked.2.isNone then (picked.1, some a.1)
        else picked) picked).2 = some a → ∃ name, (a, name) ∈ l := by
    induction l' generalizing picked with
    | nil => exact hpicked
    | cons x l' ih =>
      rw [List.foldl_cons]
      refine ih _ (fun y hy => hl y (List.mem_cons_of_mem _ hy)) ?_
      intro a ha
      split_ifs at ha with h1 h2
      · exact hpicked a ha
      · obtain rfl := Option.some.inj ha
        exact ⟨x.2, hl x List.mem_cons_self⟩
      · exact hpicked a ha
  exact hfold l (none, none) (fun _ hx => hx) (fun _ ha => by cases ha) a h

/-- The updater takes the first bundle of a published release with a tag. -/
theorem readRelease_published {j : Json} {r : GhRelease} (h : ReleaseJson j r) {stem ptag : String} (url : String)
    (htag : r.tagName ≠ "") {a : GhAsset} (ha : firstBundle stem ptag r = some a) :
    ∃ i, readRelease stem ptag url j = .ok i ∧ i.version = withoutV r.tagName ∧ i.assetName = a.name ∧
      i.downloadUrl = a.browserDownloadUrl := by
  obtain ⟨d, ps, hd, htag', hps, hreads⟩ := payload_published h
  rcases find?_read (f := fun n => bundleRe stem ptag (withoutV r.tagName) "" n) hreads with ⟨-, hnone⟩ | ⟨p, a', hp, ha', hread⟩
  · rw [firstBundle, hnone] at ha
    cases ha
  obtain rfl : a = a' := Option.some.inj (ha.symm.trans ha')
  have hfst : (pickAssets stem ptag (withoutV r.tagName) ps).1 = some p.1 := by rw [pickAssets_fst, hp]; rfl
  obtain ⟨sha, hsha⟩ : ∃ sha, strItem? (pickAssets stem ptag (withoutV r.tagName) ps).2 "browser_download_url" = .ok sha := by
    cases hs : (pickAssets stem ptag (withoutV r.tagName) ps).2 with
    | none => exact ⟨none, rfl⟩
    | some d' =>
      obtain ⟨name, hmem⟩ := pickAssets_snd_mem _ _ _ _ hs
      obtain ⟨u, hu⟩ := strItem?_read hreads hmem
      exact ⟨some u, hu⟩
  obtain ⟨sums, hsums⟩ : ∃ sums, strItem? ((ps.find? fun a => Text.lower a.2.toList = "checksums.txt".toList).map (·.1))
      "browser_download_url" = .ok sums := by
    cases hc : ps.find? fun a => Text.lower a.2.toList = "checksums.txt".toList with
    | none => exact ⟨none, rfl⟩
    | some c =>
      obtain ⟨u, hu⟩ := strItem?_read hreads (List.mem_of_find?_eq_some hc)
      exact ⟨some u, hu⟩
  have hpick : pickAssets stem ptag (withoutV r.tagName) ps =
      (some p.1, (pickAssets stem ptag (withoutV r.tagName) ps).2) := Prod.ext hfst rfl
  have hname : strItem p.1 "name" = .ok a.name := by
    rw [strItem, hread.name]
    simp [Text.str]
  have hurl : strItem p.1 "browser_download_url" = .ok a.browserDownloadUrl := by
    rw [strItem, hread.url]
    simp [Text.str]
  refine ⟨⟨withoutV r.tagName, r.tagName, a.name, a.browserDownloadUrl, sha, sums⟩, ?_, rfl, rfl, rfl⟩
  simp only [readRelease, hd, htag', if_neg htag, hps, bind, Except.bind, pure, Except.pure]
  rw [hpick]
  simp only [hname, hurl, hsha, hsums]

/-- Without a tag it takes none. -/
theorem readRelease_untagged {j : Json} {r : GhRelease} (h : ReleaseJson j r) (stem ptag url : String)
    (htag : r.tagName = "") : ∃ e, readRelease stem ptag url j = .error e := by
  obtain ⟨d, ps, hd, htag', -, -⟩ := payload_published h
  simp only [readRelease, hd, htag', htag]
  exact ⟨_, rfl⟩

/-! ### The host -/

/-- `sys.platform` where the launcher is built for the system. -/
def sysPlatform : TargetOs → String
  | .linux => "linux"
  | .macos => "darwin"
  | .windows => "win32"

/-- `platform.machine().lower()` where it is built for the processor. -/
def machineNames : TargetArch → List String
  | .x64 => ["x86_64", "amd64"]
  | .arm64 => ["arm64", "aarch64"]

/-- A machine that runs both programs. -/
structure Host where
  os : TargetOs
  arch : TargetArch
  machine : String
  named : String.ofList (Text.lower machine.toList) ∈ machineNames arch

/-- The tag the updater looks for. -/
def Host.tag (h : Host) : String := platformTag (sysPlatform h.os) h.machine

/-- Both name the host the same. -/
theorem Host.tag_eq (h : Host) : h.tag = targetOs h.os ++ "-" ++ targetArch h.arch := by
  obtain ⟨os, arch, machine, hm⟩ := h
  have hos : orItself [("linux", "linux"), ("darwin", "macos"), ("win32", "windows")] (sysPlatform os) = targetOs os := by
    cases os with
    | linux => rfl
    | macos => rfl
    | windows => rfl
  have harch : ∀ name ∈ machineNames arch,
      orItself [("x86_64", "x64"), ("amd64", "x64"), ("arm64", "arm64"), ("aarch64", "arm64")] name = targetArch arch := by
    cases arch with
    | x64 => decide
    | arm64 => decide
  rw [Host.tag, platformTag, hos, harch _ hm]

/-- The name of the bundles of a plugin set, as the manifest has it. -/
def BootConfig.assetStem (c : BootConfig) : String := "locai-link-" ++ c.shape.text

theorem assetBasename_eq (c : BootConfig) (h : Host) : c.assetBasename h.os h.arch = c.assetStem ++ "-" ++ h.tag := by
  rw [h.tag_eq, BootConfig.assetBasename, BootConfig.assetStem]
  simp only [String.append_assoc]

/-! ### The bundle -/

def stableName (stem ptag : String) : String := stem ++ "-" ++ ptag ++ ".tar.gz"

def versionedName (stem ptag version : String) : String := stem ++ "-" ++ ptag ++ "-v" ++ version ++ ".tar.gz"

/-- The one tarball of a release, under either name. -/
structure OnlyTarball (stem ptag : String) (r : GhRelease) (b : GhAsset) : Prop where
  only : r.assets.filter (fun a => a.name = stableName stem ptag ∨
    a.name = versionedName stem ptag (withoutV r.tagName)) = [b]

/-- There is something to check it against. -/
def Accompanied (r : GhRelease) (b : GhAsset) : Prop :=
  ∃ a ∈ r.assets, eqIgnoreAsciiCase a.name "checksums.txt" ∨ a.name = b.name ++ ".sha256"

section Bundle

variable {stem ptag : String} {r : GhRelease} {b : GhAsset}

theorem bundleRe_stable (stem ptag version : String) : bundleRe stem ptag version "" (stableName stem ptag) = true := by
  simp [bundleRe, matchesEnd, stableName]

theorem bundleRe_versioned (stem ptag version : String) :
    bundleRe stem ptag version "" (versionedName stem ptag version) = true := by
  simp [bundleRe, matchesEnd, versionedName, String.append_assoc]

theorem OnlyTarball.mem (h : OnlyTarball stem ptag r b) : b ∈ r.assets ∧
    (b.name = stableName stem ptag ∨ b.name = versionedName stem ptag (withoutV r.tagName)) := by
  have hb : b ∈ r.assets.filter fun a => decide (a.name = stableName stem ptag ∨
      a.name = versionedName stem ptag (withoutV r.tagName)) := by
    rw [h.only]
    exact List.mem_singleton_self b
  simpa using hb

theorem OnlyTarball.eq (h : OnlyTarball stem ptag r b) {a : GhAsset} (ha : a ∈ r.assets)
    (hname : a.name = versionedName stem ptag (withoutV r.tagName)) : a = b := by
  have hmem : a ∈ r.assets.filter fun a => decide (a.name = stableName stem ptag ∨
      a.name = versionedName stem ptag (withoutV r.tagName)) := by
    rw [List.mem_filter]
    exact ⟨ha, by simp [hname]⟩
  rw [h.only] at hmem
  exact List.mem_singleton.mp hmem

/-- There is a bundle for the updater. -/
theorem OnlyTarball.firstBundle (h : OnlyTarball stem ptag r b) : ∃ a, Install.firstBundle stem ptag r = some a := by
  obtain ⟨hb, hname⟩ := h.mem
  have hre : bundleRe stem ptag (withoutV r.tagName) "" b.name = true := by
    rcases hname with hname | hname
    · rw [hname]
      exact bundleRe_stable _ _ _
    · rw [hname]
      exact bundleRe_versioned _ _ _
  rcases hf : Install.firstBundle stem ptag r with _ | a
  · rw [Install.firstBundle, List.find?_eq_none] at hf
    exact absurd hre (hf b hb)
  · exact ⟨a, rfl⟩

/-- What the bootstrap takes has the version in its name. -/
theorem resolveRelease_name {basename : String} {t : AssetTarget} (h : resolveRelease basename r = .ok t) :
    t.assetName = basename ++ "-v" ++ withoutV r.tagName ++ ".tar.gz" := by
  unfold resolveRelease at h
  dsimp only at h
  split at h
  · cases h
  · rename_i a hfind
    split_ifs at h
    obtain rfl := Except.ok.inj h
    simpa using List.find?_some hfind

/-- It takes the first bundle where this is the tarball with the version in its name. -/
theorem resolveRelease_first (hb : OnlyTarball stem ptag r b) (hacc : Accompanied r b) {a : GhAsset}
    (ha : Install.firstBundle stem ptag r = some a) (hname : a.name = versionedName stem ptag (withoutV r.tagName)) :
    ∃ t, resolveRelease (stem ++ "-" ++ ptag) r = .ok t ∧ t.version = withoutV r.tagName ∧ t.assetName = a.name ∧
      t.downloadUrl = a.browserDownloadUrl := by
  have hmem : a ∈ r.assets := List.mem_of_find?_eq_some ha
  obtain rfl := hb.eq hmem hname
  have hfind : r.assets.find? (·.name = stem ++ "-" ++ ptag ++ "-v" ++ withoutV r.tagName ++ ".tar.gz") = some a := by
    rw [Install.firstBundle, List.find?_eq_some_iff_append] at ha
    rw [List.find?_eq_some_iff_append]
    obtain ⟨-, before, after, hsplit, hnone⟩ := ha
    refine ⟨by simpa [versionedName] using hname, before, after, hsplit, ?_⟩
    intro x hx
    -- an asset of that name before it would be a bundle before it
    have hx' := hnone x hx
    by_contra hsame
    have hxname : x.name = versionedName stem ptag (withoutV r.tagName) := by simpa [versionedName] using hsame
    rw [hxname, bundleRe_versioned] at hx'
    cases hx'
  obtain ⟨c, hc, hacc⟩ := hacc
  have hdigest : ¬(((r.assets.find? fun a => eqIgnoreAsciiCase a.name "checksums.txt").map (·.browserDownloadUrl)).isNone &&
      ((r.assets.find? (·.name = stem ++ "-" ++ ptag ++ "-v" ++ withoutV r.tagName ++ ".tar.gz" ++ ".sha256")).map
        (·.browserDownloadUrl)).isNone) = true := by
    intro hnone
    rw [Bool.and_eq_true, Option.isNone_map, Option.isNone_map, Option.isNone_iff_eq_none, Option.isNone_iff_eq_none,
      List.find?_eq_none, List.find?_eq_none] at hnone
    rcases hacc with hsums | hsidecar
    · exact hnone.1 c hc hsums
    · refine hnone.2 c hc ?_
      rw [hname] at hsidecar
      simpa [versionedName] using hsidecar
  simp only [resolveRelease, hfind, if_neg hdigest]
  exact ⟨_, rfl, rfl, rfl, rfl⟩

end Bundle

/-! ### Both on one release -/

/-- Where the updater takes an asset, the bootstrap takes the same. -/
def SameAsset (h : Host) (c : BootConfig) (url : String) (payload : Json) : Prop :=
  ∀ i, readRelease c.assetStem h.tag url payload = .ok i →
    ∃ t, resolveAsset h.os h.arch c (fun _ => .ok payload) = .ok t ∧ t.version = i.version ∧ t.assetName = i.assetName ∧
      t.downloadUrl = i.downloadUrl

section Both

variable {h : Host} {c : BootConfig} {payload : Json} {r : GhRelease} {b : GhAsset} {url : String}

theorem resolveAsset_published (hc : c.assetUrl = none) (hr : ReleaseJson payload r) :
    resolveAsset h.os h.arch c (fun _ => .ok payload) = resolveRelease (c.assetStem ++ "-" ++ h.tag) r := by
  rw [resolveAsset, hc]
  simp only [bind, Except.bind, read_published hr, assetBasename_eq]

/-- Then the first bundle has the version in its name. -/
theorem SameAsset.named (hsame : SameAsset h c url payload) (hc : c.assetUrl = none) (hr : ReleaseJson payload r)
    (htag : r.tagName ≠ "") {a : GhAsset} (ha : firstBundle c.assetStem h.tag r = some a) :
    a.name = versionedName c.assetStem h.tag (withoutV r.tagName) := by
  obtain ⟨i, hi, -, hname, -⟩ := readRelease_published hr url htag ha
  obtain ⟨t, ht, -, htname, -⟩ := hsame i hi
  rw [resolveAsset_published hc hr] at ht
  rw [← hname, ← htname, resolveRelease_name ht, versionedName]

/-- The bootstrap takes the asset of the updater just where the release has no tag, or
its tarball has the version in its name and is the first bundle of the list. -/
theorem resolve_agrees_iff (hc : c.assetUrl = none) (hr : ReleaseJson payload r)
    (hb : OnlyTarball c.assetStem h.tag r b) (hacc : Accompanied r b) : SameAsset h c url payload ↔ r.tagName = "" ∨
      (b.name = versionedName c.assetStem h.tag (withoutV r.tagName) ∧ firstBundle c.assetStem h.tag r = some b) := by
  constructor
  · intro hsame
    by_cases htag : r.tagName = ""
    · exact .inl htag
    · obtain ⟨a, ha⟩ := hb.firstBundle
      have hname := hsame.named hc hr htag ha
      obtain rfl := hb.eq (List.mem_of_find?_eq_some ha) hname
      exact .inr ⟨hname, ha⟩
  · intro hcond i hi
    have htag : r.tagName ≠ "" := by
      intro htag
      obtain ⟨e, he⟩ := readRelease_untagged hr c.assetStem h.tag url htag
      rw [he] at hi
      cases hi
    obtain ⟨hname, ha⟩ := hcond.resolve_left htag
    obtain ⟨i', hi', hversion, hasset, hurl⟩ := readRelease_published hr url htag ha
    obtain rfl : i' = i := Except.ok.inj (hi'.symm.trans hi)
    obtain ⟨t, ht, htversion, htname, hturl⟩ := resolveRelease_first hb hacc ha hname
    refine ⟨t, (resolveAsset_published hc hr).trans ht, ?_, ?_, ?_⟩
    · rw [htversion, hversion]
    · rw [htname, hasset]
    · rw [hturl, hurl]

end Both

/-! ### A release under the stable names -/

def linuxHost : Host := ⟨.linux, .x64, "x86_64", by decide⟩

def headlessConfig : BootConfig := ⟨.headless, "locai-co-uk/locai-link", none⟩

def assetJson (name : String) : Json :=
  .obj [("name", .str name), ("browser_download_url", .str ("https://github.com/" ++ name)), ("size", .int 1024)]

def releaseJson (tag : String) (names : List String) : Json :=
  .obj [("tag_name", .str tag), ("assets", .arr (names.map assetJson))]

def assetNamed (name : String) : GhAsset := ⟨name, "https://github.com/" ++ name, some 1024⟩

def release (tag : String) (names : List String) : GhRelease := ⟨tag, names.map assetNamed⟩

theorem releaseJson_published (tag : String) (names : List String) :
    ReleaseJson (releaseJson tag names) (release tag names) := by
  refine ⟨_, _, rfl, by simp, rfl, rfl, ?_⟩
  rw [List.forall₂_map_left_iff, release, List.forall₂_map_right_iff, List.forall₂_same]
  intro name _
  exact ⟨_, rfl, by simp, rfl, rfl, 1024, by decide, rfl, rfl⟩

def latestUrl : String := "https://api.github.com/repos/locai-co-uk/locai-link/releases/latest"

/-- The stable name with its checksums: the updater takes it and the bootstrap does not. -/
theorem stable_release_lost : ∃ r b, ReleaseJson
      (releaseJson "v1.0.17" ["locai-link-headless-linux-x64.tar.gz", "checksums.txt"]) r ∧
    OnlyTarball headlessConfig.assetStem linuxHost.tag r b ∧ Accompanied r b ∧
    ¬SameAsset linuxHost headlessConfig latestUrl
      (releaseJson "v1.0.17" ["locai-link-headless-linux-x64.tar.gz", "checksums.txt"]) := by
  have hr := releaseJson_published "v1.0.17" ["locai-link-headless-linux-x64.tar.gz", "checksums.txt"]
  refine ⟨_, assetNamed "locai-link-headless-linux-x64.tar.gz", hr, ⟨by decide +kernel⟩, ?_, fun hsame => ?_⟩
  · exact ⟨assetNamed "checksums.txt", List.mem_cons_of_mem _ List.mem_cons_self, .inl (by decide)⟩
  · have hname := hsame.named rfl hr (by decide)
      (a := assetNamed "locai-link-headless-linux-x64.tar.gz") (by decide +kernel)
    revert hname
    decide +kernel

/-- The name with the version, and a digest beside it. -/
theorem resolve_agrees_versioned : SameAsset linuxHost headlessConfig latestUrl (releaseJson "v1.0.17"
    ["locai-link-headless-linux-x64-v1.0.17.tar.gz", "locai-link-headless-linux-x64-v1.0.17.tar.gz.sha256"]) :=
  (resolve_agrees_iff (b := assetNamed "locai-link-headless-linux-x64-v1.0.17.tar.gz") rfl (releaseJson_published _ _)
    ⟨by decide +kernel⟩ ⟨_, List.mem_cons_of_mem _ List.mem_cons_self, .inr (by decide +kernel)⟩).mpr
      (.inr ⟨by decide +kernel, by decide +kernel⟩)

end Install
end LocaiLink
