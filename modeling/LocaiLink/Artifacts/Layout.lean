/-
# Names of archives

The name of an archive is taken apart and put together again on its way into the
store. `Anchored` archives come apart as they were named; whatever comes apart was
anchored. In the store an archive lies five levels down, and nothing else does.
-/
import LocaiLink.Artifacts.Publish
import LocaiLink.Base.Cuts

namespace LocaiLink.Artifacts

/-! ### Archives -/

def cpus : List (List Char) := ["x64".toList, "arm64".toList]

/-- `<linux|macos|windows>-<x64|arm64>[-variant]` -/
def IsArch (arch : String) : Prop :=
  ∃ platform ∈ platformTokens, ∃ cpu ∈ cpus, ∃ variant : List Char,
    arch.toList = platform ++ '-' :: (cpu ++ variant) ∧ (variant = [] ∨ variant.head? = some '-')

/-- An engine archive, as it is named and with its bytes. -/
structure Archive where
  name : String
  version : String
  arch : String
  ext : String
  content : Bytes
  name_ne : name ≠ ""
  version_ne : version ≠ ""
  name_single : '/' ∉ name.toList
  version_single : '/' ∉ version.toList
  arch_single : '/' ∉ arch.toList
  isArch : IsArch arch
  isExt : ext.toList ∈ archiveExts

namespace Archive

def triple (a : Archive) : String × String × String := (a.name, a.version, a.arch)

def fileName (a : Archive) : String := storeFilename a.name a.version a.arch a.ext

def entry (a : Archive) : DirEntry := (a.fileName, some a.content)

/-- The first platform token is the one of the arch, and neither the name nor the
version is a way to somewhere else. -/
structure Anchored (a : Archive) : Prop where
  version_hyphen : '-' ∉ a.version.toList
  version_token : a.version.toList ∉ platformTokens
  name_token : ∀ part ∈ Text.split '-' a.name.toList, part ∉ platformTokens
  name_dots : a.name ≠ "." ∧ a.name ≠ ".."
  version_dots : a.version ≠ "." ∧ a.version ≠ ".."

end Archive

/-! ### Taking a name apart -/

theorem archiveExt_unique {ext ext' : List Char} (h : ext ∈ archiveExts) (h' : ext' ∈ archiveExts) {name : List Char}
    (hs : ext <:+ name) (hs' : ext' <:+ name) : ext' = ext := by
  have hdecide : ∀ x ∈ archiveExts, ∀ y ∈ archiveExts, x.isSuffixOf y = true → x = y := by decide +kernel
  rcases List.suffix_or_suffix_of_suffix hs hs' with hsub | hsub
  · exact (hdecide ext h ext' h' (List.isSuffixOf_iff_suffix.mpr hsub)).symm
  · exact hdecide ext' h' ext h (List.isSuffixOf_iff_suffix.mpr hsub)

theorem stemOf_append {stem ext : List Char} (h : ext ∈ archiveExts) : stemOf (stem ++ ext) = some stem := by
  have hsuffix : ext <:+ stem ++ ext := List.suffix_append stem ext
  obtain ⟨ext', hfind⟩ : ∃ ext', (archiveExts.find? fun e => e.isSuffixOf (stem ++ ext)) = some ext' := by
    refine Option.isSome_iff_exists.mp (List.find?_isSome.mpr ⟨ext, h, ?_⟩)
    exact List.isSuffixOf_iff_suffix.mpr hsuffix
  have hmem := List.mem_of_find?_eq_some hfind
  have hfound : ext' <:+ stem ++ ext := List.isSuffixOf_iff_suffix.mp (by simpa using List.find?_some hfind)
  obtain rfl := archiveExt_unique h hmem hsuffix hfound
  rw [stemOf, hfind, Option.map_some, List.length_append, Nat.add_sub_cancel, List.take_left]

theorem fileName_toList (name version arch ext : String) : (storeFilename name version arch ext).toList =
    name.toList ++ '-' :: (version.toList ++ '-' :: arch.toList) ++ ext.toList := by
  show (name ++ "-" ++ version ++ "-" ++ arch ++ ext).toList = _
  simp [String.toList_append]

/-- The parts of a name: those of the engine's name, of the version and of the arch. -/
theorem split_stem (name version arch : List Char) : Text.split '-' (name ++ '-' :: (version ++ '-' :: arch)) =
    Text.split '-' name ++ (Text.split '-' version ++ Text.split '-' arch) := by
  simp only [Text.split_eq, List.splitOn_append_cons_self]

theorem head_split_arch {arch : String} (h : IsArch arch) : ∃ platform parts,
    Text.split '-' arch.toList = platform :: parts ∧ platform ∈ platformTokens := by
  obtain ⟨platform, hp, cpu, -, variant, harch, -⟩ := h
  have hno : '-' ∉ platform := (show ∀ p ∈ platformTokens, '-' ∉ p by decide +kernel) platform hp
  refine ⟨platform, Text.split '-' (cpu ++ variant), ?_, hp⟩
  rw [harch, Text.split_eq, Text.split_eq, List.splitOn_append_cons_self_of_not_mem hno]

theorem findIdx?_token {parts : List (List Char)} {platform : List Char} (h : ∀ part ∈ parts, part ∉ platformTokens)
    (hp : platform ∈ platformTokens) (rest : List (List Char)) :
    (parts ++ platform :: rest).findIdx? (· ∈ platformTokens) = some parts.length := by
  have hnone : parts.findIdx? (· ∈ platformTokens) = none := by simpa [List.findIdx?_eq_none_iff] using h
  rw [List.findIdx?_append, hnone, List.findIdx?_cons]
  simp [hp]

/-- An anchored name comes apart as it was put together. -/
theorem parseName_fileName (a : Archive) (h : a.Anchored) : parseName a.fileName = .ok (a.name, a.version, a.arch) := by
  obtain ⟨platform, rest, harch, hp⟩ := head_split_arch a.isArch
  obtain ⟨first, more, hname⟩ := List.exists_cons_of_ne_nil
    (show Text.split '-' a.name.toList ≠ [] by rw [Text.split_eq]; exact List.splitOn_ne_nil _ _)
  have hversion : Text.split '-' a.version.toList = [a.version.toList] := by
    rw [Text.split_eq, List.splitOn_eq_singleton h.version_hyphen]
  have hstem : stemOf a.fileName.toList = some (a.name.toList ++ '-' :: (a.version.toList ++ '-' :: a.arch.toList)) := by
    rw [Archive.fileName, fileName_toList, stemOf_append a.isExt]
  have hparts := split_stem a.name.toList a.version.toList a.arch.toList
  rw [hversion, hname, harch] at hparts
  have hbefore : ∀ part ∈ first :: more ++ [a.version.toList], part ∉ platformTokens := by
    intro part hpart
    rcases List.mem_append.mp hpart with hpart | hpart
    · exact h.name_token part (hname ▸ hpart)
    · exact List.mem_singleton.mp hpart ▸ h.version_token
  have hidx := findIdx?_token hbefore hp rest
  rw [List.append_assoc, List.singleton_append] at hidx
  have hlen : (first :: more ++ [a.version.toList]).length = more.length + 2 := by simp
  rw [hlen] at hidx
  have hjoin (parts : List Char) : ['-'].intercalate (Text.split '-' parts) = parts := by
    rw [Text.split_eq, List.intercalate_splitOn]
  have htake : (first :: more ++ ([a.version.toList] ++ platform :: rest)).take (more.length + 1) = first :: more :=
    List.take_left' rfl
  have hget : (first :: more ++ ([a.version.toList] ++ platform :: rest))[more.length + 1]? = some a.version.toList := by
    simp
  have hdrop : (first :: more ++ ([a.version.toList] ++ platform :: rest)).drop (more.length + 2) = platform :: rest := by
    rw [← List.append_assoc]
    exact List.drop_left' hlen
  rw [parseName, hstem]
  simp only [hparts, List.singleton_append, hidx]
  rw [List.singleton_append] at htake hget hdrop
  rw [htake, hget, hdrop, ← hname, ← harch, hjoin, hjoin]
  simp

theorem eq_of_stemOf {name stem : List Char} (h : stemOf name = some stem) : ∃ ext ∈ archiveExts, name = stem ++ ext := by
  obtain ⟨ext, hfind, rfl⟩ := Option.map_eq_some_iff.mp h
  obtain ⟨stem, rfl⟩ : ext <:+ name := List.isSuffixOf_iff_suffix.mp (by simpa using List.find?_some hfind)
  refine ⟨ext, List.mem_of_find?_eq_some hfind, ?_⟩
  rw [List.length_append, Nat.add_sub_cancel, List.take_left]

/-- What a name comes apart to: it was anchored there, and nothing is lost. -/
structure Parsed (file name version arch : String) : Prop where
  hyphen : '-' ∉ version.toList
  token : version.toList ∉ platformTokens
  name_token : ∀ part ∈ Text.split '-' name.toList, part ∉ platformTokens
  whole : ∃ ext ∈ archiveExts, file.toList = name.toList ++ '-' :: (version.toList ++ '-' :: arch.toList) ++ ext
  arch_dots : arch.toList ≠ [] ∧ arch.toList ≠ ['.'] ∧ arch.toList ≠ ['.', '.']

/-- A text by its parts: before one of them, that one, and after it. -/
theorem stem_of_parts {stem part : List Char} {front back : List (List Char)}
    (h : Text.split '-' stem = front ++ part :: back) (hfront : front ≠ []) (hback : back ≠ []) :
    Text.split '-' (['-'].intercalate front) = front ∧ Text.split '-' (['-'].intercalate back) = back ∧ '-' ∉ part ∧
      stem = ['-'].intercalate front ++ '-' :: (part ++ '-' :: ['-'].intercalate back) := by
  have hhyphen (x : List Char) (hx : x ∈ front ++ part :: back) : '-' ∉ x := by
    rw [← h, Text.split_eq, List.splitOn_eq_splitOnP] at hx
    exact fun hmem => by simpa using Text.of_mem_splitOnP hx '-' hmem
  have hf : Text.split '-' (['-'].intercalate front) = front := by
    rw [Text.split_eq, List.splitOn_intercalate '-' (fun x hx => hhyphen x (List.mem_append_left _ hx)) hfront]
  have hb : Text.split '-' (['-'].intercalate back) = back := by
    rw [Text.split_eq, List.splitOn_intercalate '-' (fun x hx => hhyphen x (by simp [hx])) hback]
  have hpart := hhyphen part (by simp)
  refine ⟨hf, hb, hpart, ?_⟩
  have hsplit := split_stem (['-'].intercalate front) part (['-'].intercalate back)
  have hone : Text.split '-' part = [part] := by rw [Text.split_eq, List.splitOn_eq_singleton hpart]
  rw [hf, hb, hone, List.singleton_append] at hsplit
  have hjoin := congrArg (['-'].intercalate ·) (hsplit.trans h.symm)
  simpa only [Text.split_eq, List.intercalate_splitOn] using hjoin.symm

/-- A text that begins with a platform is no dots. -/
theorem ne_dots_of_platform {x platform : List Char} {rest : List (List Char)} (h : Text.split '-' x = platform :: rest)
    (hp : platform ∈ platformTokens) : x ≠ [] ∧ x ≠ ['.'] ∧ x ≠ ['.', '.'] := by
  have hno (y : List Char) (hy : Text.split '-' y = [y]) (hy' : y ∉ platformTokens) : x ≠ y := by
    rintro rfl
    rw [hy] at h
    exact hy' ((List.cons.inj h).1 ▸ hp)
  exact ⟨hno _ rfl (by decide +kernel), hno _ rfl (by decide +kernel), hno _ rfl (by decide +kernel)⟩

theorem parsed {file name version arch : String} (h : parseName file = .ok (name, version, arch)) :
    Parsed file name version arch := by
  unfold parseName at h
  cases hstem : stemOf file.toList with
  | none => simp [hstem] at h
  | some stem =>
    simp only [hstem] at h
    split at h
    · cases h
    · cases h
    · cases h
    · rename_i i hidx
      obtain ⟨hlt, hat, hbefore⟩ := List.findIdx?_eq_some_iff_getElem.mp hidx
      obtain ⟨rfl, rfl, rfl⟩ : String.ofList (['-'].intercalate ((Text.split '-' stem).take (i + 1))) = name ∧
          String.ofList (((Text.split '-' stem)[i + 1]?).getD []) = version ∧
          String.ofList (['-'].intercalate ((Text.split '-' stem).drop (i + 2))) = arch := by simpa using h
      have htoken (j : ℕ) (hj : j < i + 2) : (Text.split '-' stem)[j] ∉ platformTokens := by simpa using hbefore j hj
      have hdrop : (Text.split '-' stem).drop (i + 2) = (Text.split '-' stem)[i + 2] :: (Text.split '-' stem).drop (i + 3) :=
        List.drop_eq_getElem_cons hlt
      have hparts : Text.split '-' stem =
          (Text.split '-' stem).take (i + 1) ++ (Text.split '-' stem)[i + 1] :: (Text.split '-' stem).drop (i + 2) := by
        rw [List.getElem_cons_drop, List.take_append_drop]
      obtain ⟨hname, harch, hhyphen, hwhole⟩ := stem_of_parts hparts (List.length_pos_iff.mp (by simp; omega))
        (hdrop ▸ List.cons_ne_nil _ _)
      obtain ⟨ext, hext, hfile⟩ := eq_of_stemOf hstem
      have hdots := ne_dots_of_platform (harch.trans hdrop) (by simpa using hat)
      rw [List.getElem?_eq_getElem (by omega), Option.getD_some]
      refine ⟨?_, ?_, fun part hpart => ?_, ⟨ext, hext, ?_⟩, ?_⟩
      · rwa [String.toList_ofList]
      · rw [String.toList_ofList]
        exact htoken (i + 1) (by omega)
      · rw [String.toList_ofList, hname] at hpart
        obtain ⟨j, hj, rfl⟩ := List.mem_take_iff_getElem.mp hpart
        exact htoken j (by omega)
      · rw [hfile, String.toList_ofList, String.toList_ofList, String.toList_ofList, ← hwhole]
      · rwa [String.toList_ofList]

/-! ### The ending -/

theorem takeWhile_reverse_ending {stem ending : List Char} (h : '.' ∉ ending) :
    (stem ++ '.' :: ending).reverse.takeWhile (· ≠ '.') = ending.reverse := by
  have hrev : (stem ++ '.' :: ending).reverse = ending.reverse ++ '.' :: stem.reverse := by simp
  have hall (c : Char) (hc : c ∈ ending.reverse) : decide (c ≠ '.') = true := by
    have hne : c ≠ '.' := by
      rintro rfl
      exact h (List.mem_reverse.mp hc)
    simpa using hne
  rw [hrev, List.takeWhile_append_of_pos hall]
  simp

theorem suffix_append {stem ending : List Char} (hstem : stem ≠ []) (h : '.' ∉ ending) (hne : ending ≠ []) :
    suffix (stem ++ '.' :: ending) = '.' :: ending := by
  have hpos : 0 < stem.length := List.length_pos_iff.mpr hstem
  rw [suffix, takeWhile_reverse_ending h, if_pos]
  · rw [List.reverse_reverse]
  · refine ⟨by simpa using hne, ?_⟩
    simp only [List.length_reverse, List.length_append, List.length_cons]
    omega

/-- The last two of the parts that the dots make. -/
theorem suffixes_append {stem a b : List Char} (hstem : ∃ c ∈ stem, c ≠ '.') (ha : '.' ∉ a) (hb : '.' ∉ b) (hne : b ≠ []) :
    ∃ l, suffixes (stem ++ '.' :: (a ++ '.' :: b)) = l ++ ['.' :: a, '.' :: b] := by
  have hlast : (stem ++ '.' :: (a ++ '.' :: b)).getLast? ≠ some '.' := by
    obtain ⟨init, last, rfl⟩ := (List.eq_nil_or_concat b).resolve_left hne
    have hno : last ≠ '.' := fun he => hb (by simp [he])
    have hconcat : stem ++ '.' :: (a ++ '.' :: init.concat last) = (stem ++ '.' :: (a ++ '.' :: init)) ++ [last] := by simp
    rw [hconcat, List.getLast?_concat]
    simpa using hno
  have hdrop : stem.dropWhile (· = '.') ≠ [] := fun hnil => by
    obtain ⟨c, hc, hdot⟩ := hstem
    simpa [hdot] using List.dropWhile_eq_nil_iff.mp hnil c hc
  have happend : (stem ++ '.' :: (a ++ '.' :: b)).dropWhile (· = '.') = stem.dropWhile (· = '.') ++ '.' :: (a ++ '.' :: b) := by
    rw [List.dropWhile_append, if_neg (by simpa using hdrop)]
  obtain ⟨p, ps, hp⟩ := List.exists_cons_of_ne_nil (List.splitOn_ne_nil '.' (stem.dropWhile (· = '.')))
  refine ⟨ps.map ('.' :: ·), ?_⟩
  rw [suffixes, if_neg hlast, happend, Text.split_eq, List.splitOn_append_cons_self, List.splitOn_append_cons_self, hp,
    List.splitOn_eq_singleton ha, List.splitOn_eq_singleton hb]
  simp

/-- The archive keeps its ending. -/
theorem archiveExt_fileName (a : Archive) : archiveExt a.fileName = a.ext := by
  have hname := fileName_toList a.name a.version a.arch a.ext
  generalize hstem : a.name.toList ++ '-' :: (a.version.toList ++ '-' :: a.arch.toList) = stem at hname
  have hhyphen : '-' ∈ stem := by simp [← hstem]
  have hne : stem ≠ [] := List.ne_nil_of_mem hhyphen
  have hfile : a.fileName.toList = stem ++ a.ext.toList := hname
  have hends (ext : List Char) (hext : ext ∈ archiveExts) : ext.isSuffixOf (stem ++ a.ext.toList) = true ↔ ext = a.ext.toList := by
    rw [List.isSuffixOf_iff_suffix]
    refine ⟨fun h => archiveExt_unique a.isExt hext (List.suffix_append _ _) h, ?_⟩
    rintro rfl
    exact List.suffix_append _ _
  have htar : Text.endsWith a.fileName ".tar.gz" = true ↔ ".tar.gz".toList = a.ext.toList := by
    rw [Text.endsWith, hfile]
    exact hends _ (by decide +kernel)
  have hext : a.ext = String.ofList a.ext.toList := String.ofList_toList.symm
  rw [archiveExt, hext, hfile]
  refine congrArg String.ofList ?_
  have hone (ending : List Char) (hdot : '.' ∉ ending) (hne' : ending ≠ []) (he : a.ext.toList = '.' :: ending)
      (hno : ¬Text.endsWith a.fileName ".tar.gz" = true) :
      (if Text.endsWith a.fileName ".tar.gz" = true then
        ((suffixes (stem ++ a.ext.toList)).drop ((suffixes (stem ++ a.ext.toList)).length - 2)).flatten
      else suffix (stem ++ a.ext.toList)) = a.ext.toList := by
    rw [if_neg hno, he, suffix_append hne hdot hne']
  have hmem := a.isExt
  simp only [archiveExts, List.mem_cons, List.not_mem_nil, or_false] at hmem
  rcases hmem with he | he | he
  · obtain ⟨l, hl⟩ := suffixes_append (a := "tar".toList) (b := "gz".toList) ⟨'-', hhyphen, by decide⟩ (by decide +kernel)
      (by decide +kernel) (by decide +kernel)
    have hsplit : stem ++ a.ext.toList = stem ++ '.' :: ("tar".toList ++ '.' :: "gz".toList) := by rw [he]; rfl
    rw [if_pos (htar.mpr he.symm), hsplit, hl, he]
    simp
  · exact hone "tgz".toList (by decide +kernel) (by decide +kernel) he fun h => absurd ((htar.mp h).trans he) (by decide +kernel)
  · exact hone "zip".toList (by decide +kernel) (by decide +kernel) he fun h => absurd ((htar.mp h).trans he) (by decide +kernel)

/-! ### Where an archive lies -/

/-- A part of a path that leads into a directory. -/
structure Plain (part : String) : Prop where
  ne : part ≠ ""
  dot : part ≠ "."
  up : part ≠ ".."

/-- Every part leads one level down, or the way is shorter. -/
theorem foldl_enter : ∀ (parts : List String) (at' : Place), (parts.foldl Path.enter at').length ≤ at'.length + parts.length ∧
    ((parts.foldl Path.enter at').length = at'.length + parts.length → ".." ∉ parts ∧ parts.foldl Path.enter at' = at' ++ parts)
  | [], at' => by simp
  | part :: parts, at' => by
    obtain ⟨hle, heq⟩ := foldl_enter parts (Path.enter at' part)
    rw [List.foldl_cons, List.length_cons]
    by_cases hup : part = ".."
    · have hlen : (Path.enter at' part).length ≤ at'.length := by simp [Path.enter, hup]
      exact ⟨by omega, fun h => by omega⟩
    · have henter : Path.enter at' part = at' ++ [part] := if_neg hup
      rw [henter, List.length_append, List.length_singleton] at hle heq
      rw [henter]
      refine ⟨by omega, fun h => ?_⟩
      obtain ⟨hno, hplace⟩ := heq (by omega)
      exact ⟨by simp [Ne.symm hup, hno], by rw [hplace, List.append_assoc, List.singleton_append]⟩

theorem foldl_enter_plain {parts : List String} (h : ".." ∉ parts) (at' : Place) : parts.foldl Path.enter at' = at' ++ parts := by
  induction parts generalizing at' with
  | nil => simp
  | cons part parts ih =>
    rw [List.mem_cons, not_or] at h
    have henter : Path.enter at' part = at' ++ [part] := if_neg (Ne.symm h.1)
    rw [List.foldl_cons, henter, ih h.2, List.append_assoc, List.singleton_append]

/-- The parts of a joined path. -/
theorem ofString_intercalate {first : String} {parts : List String} (hfirst : first ≠ "")
    (h : ∀ part ∈ first :: parts, '/' ∉ part.toList) :
    Path.ofString ("/".intercalate (first :: parts)) = ⟨0, (first :: parts).filter fun p => p ≠ "" ∧ p ≠ "."⟩ := by
  have hlist : ("/".intercalate (first :: parts)).toList = ['/'].intercalate ((first :: parts).map String.toList) :=
    String.toList_intercalate
  obtain ⟨c, cs, hc⟩ : ∃ c cs, first.toList = c :: cs :=
    List.exists_cons_of_ne_nil fun hnil => hfirst (String.toList_eq_nil_iff.mp hnil)
  have hslash : Path.leadingSlashes ("/".intercalate (first :: parts)).toList = 0 := by
    have hno : c ≠ '/' := fun he => h first List.mem_cons_self (by simp [hc, he])
    rw [hlist, List.map_cons, hc, List.intercalate_cons_cons_left]
    unfold Path.leadingSlashes
    split
    · simp_all
    · rfl
  rw [Path.ofString, hslash, hlist, Text.split_eq, List.splitOn_intercalate]
  · simp [Function.comp_def]
  · intro l hl
    obtain ⟨part, hpart, rfl⟩ := List.mem_map.mp hl
    exact h part hpart
  · simp

theorem relPath_eq (capability name version arch fname : String) :
    relPath capability name version arch fname = "/".intercalate [capability, name, version, arch, fname] := by
  show capability ++ "/" ++ name ++ "/" ++ version ++ "/" ++ arch ++ "/" ++ fname = _
  simp only [String.intercalate_cons_cons, String.intercalate_singleton, String.append_assoc]

/-- Where an archive is copied to. -/
def placeOf (store : Place) (name version arch fname : String) : Place :=
  (Path.ofString (relPath capabilityEngines name version arch fname)).resolve store

section
variable {name version arch fname : String} (hname : '/' ∉ name.toList) (hversion : '/' ∉ version.toList)
  (harch : '/' ∉ arch.toList) (hfname : '/' ∉ fname.toList)
include hname hversion harch hfname

theorem ofString_relPath : Path.ofString (relPath capabilityEngines name version arch fname) =
    ⟨0, [capabilityEngines, name, version, arch, fname].filter fun p => p ≠ "" ∧ p ≠ "."⟩ := by
  rw [relPath_eq]
  refine ofString_intercalate (by decide) fun part hpart => ?_
  simp only [List.mem_cons, List.not_mem_nil, or_false] at hpart
  rcases hpart with rfl | rfl | rfl | rfl | rfl
  · decide +kernel
  all_goals assumption

/-- With plain parts the archive lies five levels down. -/
theorem placeOf_plain (hn : Plain name) (hv : Plain version) (ha : Plain arch) (hf : Plain fname) (store : Place) :
    placeOf store name version arch fname = store ++ [capabilityEngines, name, version, arch, fname] := by
  rw [placeOf, ofString_relPath hname hversion harch hfname]
  have hfilter : ([capabilityEngines, name, version, arch, fname].filter fun p => p ≠ "" ∧ p ≠ ".") =
      [capabilityEngines, name, version, arch, fname] := by
    simp [hn.ne, hn.dot, hv.ne, hv.dot, ha.ne, ha.dot, hf.ne, hf.dot, capabilityEngines]
  rw [hfilter]
  refine foldl_enter_plain ?_ store
  simp [hn.up.symm, hv.up.symm, ha.up.symm, hf.up.symm, capabilityEngines]

/-- With others it lies higher. -/
theorem placeOf_length (store : Place) : (placeOf store name version arch fname).length ≤ store.length + 5 ∧
    ((placeOf store name version arch fname).length = store.length + 5 → Plain name ∧ Plain version ∧
      placeOf store name version arch fname = store ++ [capabilityEngines, name, version, arch, fname]) := by
  rw [placeOf, ofString_relPath hname hversion harch hfname]
  have hle := List.length_filter_le (fun p => decide (p ≠ "" ∧ p ≠ ".")) [capabilityEngines, name, version, arch, fname]
  obtain ⟨hlen, heq⟩ := foldl_enter ([capabilityEngines, name, version, arch, fname].filter fun p => p ≠ "" ∧ p ≠ ".") store
  have hshow : Path.resolve store ⟨0, [capabilityEngines, name, version, arch, fname].filter fun p => p ≠ "" ∧ p ≠ "."⟩ =
      ([capabilityEngines, name, version, arch, fname].filter fun p => p ≠ "" ∧ p ≠ ".").foldl Path.enter store := rfl
  rw [hshow]
  simp only [List.length_cons, List.length_nil] at hle
  refine ⟨by omega, fun h => ?_⟩
  obtain ⟨hup, hplace⟩ := heq (by omega)
  have hfull : ([capabilityEngines, name, version, arch, fname].filter fun p => p ≠ "" ∧ p ≠ ".") =
      [capabilityEngines, name, version, arch, fname] := by
    refine List.filter_sublist.eq_of_length ?_
    simp only [List.length_cons, List.length_nil]
    omega
  have hall := List.filter_eq_self.mp hfull
  rw [hfull] at hup hplace
  simp only [List.mem_cons, List.not_mem_nil, or_false, not_or] at hup
  have hplain (part : String) (hpart : part ∈ [capabilityEngines, name, version, arch, fname]) (hpart' : ".." ≠ part) : Plain part := by
    have hne := hall part hpart
    simp only [decide_eq_true_eq] at hne
    exact ⟨hne.1, hne.2, hpart'.symm⟩
  rw [hfull]
  exact ⟨hplain name (by simp) hup.2.1, hplain version (by simp) hup.2.2.1, hplace⟩

end

end LocaiLink.Artifacts
