/-
# What is published is found

`fromDir` over archives that are named as the docs say, and the client's lookups in
the manifest that it leaves. `published_iff`: every archive is found again with its
own bytes just if every name is `Anchored`.
-/
import Mathlib.Data.List.Dedup
import LocaiLink.Artifacts.Layout

namespace LocaiLink.Artifacts

/-! ### Writing files -/

namespace Files

theorem mem_keys_set {p q : Place} {c : Bytes} {files : Files} : q ∈ (files.set p c).keys ↔ q = p ∨ q ∈ files.keys := by
  rw [Dict.mem_keys, Dict.mem_keys, Dict.get?_set]
  split_ifs with h
  · simp [h]
  · simp [h]

theorem eq_of_write {p : Place} {c : Bytes} {files files' : Files} (h : files.write p c = .ok files') : files' = files.set p c := by
  unfold write at h
  split_ifs at h
  exact (Except.ok.inj h).symm

/-- Files of one depth are in nobody's way. -/
theorem write_ok {p : Place} {c : Bytes} {files : Files} (h : ∀ q ∈ files.keys, q.length = p.length) :
    files.write p c = .ok (files.set p c) := by
  have hdir : files.isDir p = false := by
    simp only [isDir, List.any_eq_false, below, Bool.and_eq_true, decide_eq_true_eq]
    rintro q hq ⟨-, hlt⟩
    exact absurd (h q hq) (by omega)
  have hfile : files.keys.any (below · p) = false := by
    simp only [List.any_eq_false, below, Bool.and_eq_true, decide_eq_true_eq]
    rintro q hq ⟨-, hlt⟩
    exact absurd (h q hq) (by omega)
  rw [write, hdir, hfile]
  rfl

theorem mem_children {dir : Place} {files : Files} {c : String} : c ∈ files.children dir ↔ ∃ p ∈ files.keys, dir ++ [c] <+: p := by
  have hchild (p : Place) : childOf dir p = some c ↔ dir ++ [c] <+: p := by
    unfold childOf
    constructor
    · intro h
      split_ifs at h with hpre
      obtain ⟨rest, rfl⟩ := List.isPrefixOf_iff_prefix.mp hpre
      rw [List.getElem?_append_right le_rfl, Nat.sub_self] at h
      cases rest with
      | nil => cases h
      | cons d rest =>
        obtain rfl : d = c := Option.some.inj h
        exact ⟨rest, by simp⟩
    · rintro ⟨rest, rfl⟩
      rw [if_pos (List.isPrefixOf_iff_prefix.mpr ⟨c :: rest, by simp⟩)]
      simp
  rw [children, List.mem_insertionSort, List.mem_dedup, List.mem_filterMap]
  exact exists_congr fun p => and_congr_right fun _ => hchild p

theorem nodup_children (dir : Place) (files : Files) : (files.children dir).Nodup :=
  (List.perm_insertionSort _ _).nodup_iff.mpr (List.nodup_dedup _)

/-- A directory has something below it. -/
theorem mem_dirs {dir : Place} {files : Files} {c : String} :
    c ∈ files.dirs dir ↔ ∃ p ∈ files.keys, dir ++ [c] <+: p ∧ dir.length + 1 < p.length := by
  have hdir : files.isDir (dir ++ [c]) = true ↔ ∃ p ∈ files.keys, dir ++ [c] <+: p ∧ dir.length + 1 < p.length := by
    simp [isDir, below]
  rw [dirs, List.mem_filter, hdir, mem_children]
  refine ⟨fun h => h.2, fun h => ⟨?_, h⟩⟩
  obtain ⟨p, hp, hpre, -⟩ := h
  exact ⟨p, hp, hpre⟩

end Files

/-- The slots are the directories at the fourth level that have something in them. -/
theorem mem_slots {store : Place} {files : Files} {slot : Place} : slot ∈ slots store files ↔
    ∃ c n v r, slot = [c, n, v, r] ∧ isCapability c = true ∧
      ∃ p ∈ files.keys, store ++ slot <+: p ∧ store.length + 4 < p.length := by
  unfold slots
  simp only [List.mem_flatMap, List.mem_map, List.mem_filter, Files.mem_dirs]
  constructor
  · rintro ⟨c, ⟨-, hc⟩, n, -, v, -, r, ⟨p, hp, hpre, hlen⟩, rfl⟩
    refine ⟨c, n, v, r, rfl, hc, p, hp, ?_, ?_⟩
    · simpa using hpre
    · simpa using hlen
  · rintro ⟨c, n, v, r, rfl, hc, p, hp, hpre, hlen⟩
    have hup {l m : List String} (h : l ++ m = [c, n, v, r]) : store ++ l <+: p :=
      (List.prefix_append (store ++ l) m).trans (by rw [List.append_assoc, h]; exact hpre)
    refine ⟨c, ⟨⟨p, hp, hup (m := [n, v, r]) rfl, by omega⟩, hc⟩, n, ⟨p, hp, ?_, ?_⟩, v, ⟨p, hp, ?_, ?_⟩, r, ⟨p, hp, ?_, ?_⟩, rfl⟩
    · simpa using hup (l := [c, n]) (m := [v, r]) rfl
    · simp only [List.length_append, List.length_cons, List.length_nil]
      omega
    · simpa using hup (l := [c, n, v]) (m := [r]) rfl
    · simp only [List.length_append, List.length_cons, List.length_nil]
      omega
    · simpa using hpre
    · simp only [List.length_append, List.length_cons, List.length_nil]
      omega

/-! ### What is found was anchored -/

/-- The rules of a fold that may fail: what each step keeps holds at the end. -/
theorem foldlM_keeps {α β ε : Type} {f : β → α → Except ε β} {P : β → Prop} : ∀ {l : List α} {b b' : β},
    (∀ a ∈ l, ∀ b b', P b → f b a = .ok b' → P b') → P b → l.foldlM f b = .ok b' → P b'
  | [], b, b', _, hb, h => by
    obtain rfl : b = b' := Except.ok.inj h
    exact hb
  | a :: l, b, b', hstep, hb, h => by
    rw [List.foldlM_cons] at h
    cases ha : f b a with
    | error e =>
      rw [ha] at h
      cases h
    | ok c =>
      rw [ha] at h
      exact foldlM_keeps (fun x hx => hstep x (List.mem_cons_of_mem a hx)) (hstep a List.mem_cons_self b c hb ha) h

theorem foldlM_ok {α β ε : Type} {f : β → α → Except ε β} {P : List α → β → Prop} : ∀ {l done : List α} {b : β},
    (∀ a ∈ l, ∀ done b, P done b → ∃ b', f b a = .ok b' ∧ P (a :: done) b') → P done b →
      ∃ b', l.foldlM f b = .ok b' ∧ P (l.reverse ++ done) b'
  | [], done, b, _, hb => ⟨b, rfl, hb⟩
  | a :: l, done, b, hstep, hb => by
    obtain ⟨c, hc, hP⟩ := hstep a List.mem_cons_self done b hb
    obtain ⟨b', hb', hend⟩ := foldlM_ok (fun x hx => hstep x (List.mem_cons_of_mem a hx)) hP
    refine ⟨b', ?_, ?_⟩
    · rw [List.foldlM_cons, hc]
      exact hb'
    · simpa using hend

namespace Archive

theorem fileName_single (a : Archive) : '/' ∉ a.fileName.toList := by
  have hext : '/' ∉ a.ext.toList := (show ∀ ext ∈ archiveExts, '/' ∉ ext by decide +kernel) _ a.isExt
  rw [fileName, fileName_toList]
  simp [a.name_single, a.version_single, a.arch_single, hext]

/-- An archive is no sum. -/
theorem fileName_not_sum (a : Archive) : Text.endsWith a.fileName ".sha256" = false := by
  have hno : ∀ ext ∈ archiveExts, ¬ext <:+ ".sha256".toList ∧ ¬".sha256".toList <:+ ext := by decide +kernel
  have hsuffix : a.ext.toList <:+ a.fileName.toList := by
    rw [fileName, fileName_toList]
    exact List.suffix_append _ _
  rw [Text.endsWith, Bool.eq_false_iff]
  intro hsum
  rcases List.suffix_or_suffix_of_suffix hsuffix (List.isSuffixOf_iff_suffix.mp hsum) with h | h
  · exact (hno _ a.isExt).1 h
  · exact (hno _ a.isExt).2 h

end Archive

/-- A place that is too high for a slot, or one that an archive's name was taken apart for. -/
def Stored (store : Place) (archives : List Archive) (q : Place) : Prop :=
  q.length ≤ store.length + 4 ∨ ∃ a ∈ archives, ∃ n v r f, Parsed a.fileName n v r ∧ Plain n ∧ Plain v ∧
    q = store ++ [capabilityEngines, n, v, r, f]

theorem stored_placeOf (store : Place) {archives : List Archive} {a : Archive} (ha : a ∈ archives) {n v r f : String}
    (hp : Parsed a.fileName n v r) (hf : '/' ∉ f.toList) (x : String) :
    Stored store archives (placeOf store n v r f) ∧
      Stored store archives ((placeOf store n v r f).dropLast ++ [x]) := by
  have hsingle := a.fileName_single
  obtain ⟨ext, -, hwhole⟩ := hp.whole
  rw [hwhole] at hsingle
  simp only [List.mem_append, List.mem_cons, not_or] at hsingle
  obtain ⟨hle, heq⟩ := placeOf_length hsingle.1.1 hsingle.1.2.2.1 hsingle.1.2.2.2.2 hf store
  by_cases hlen : (placeOf store n v r f).length = store.length + 5
  · obtain ⟨hn, hv, hplace⟩ := heq hlen
    refine ⟨.inr ⟨a, ha, n, v, r, f, hp, hn, hv, hplace⟩, .inr ⟨a, ha, n, v, r, x, hp, hn, hv, ?_⟩⟩
    rw [hplace]
    simp
  · refine ⟨.inl (by omega), .inl ?_⟩
    simp only [List.length_append, List.length_dropLast, List.length_singleton]
    omega

section
variable {hexdigest : Bytes → String} {pins : Dict String String} {store : Place}

/-- An archive is written at its place, and its sum beside it. -/
theorem placeArtifact_eq {name version arch archive : String} {content : Bytes} {files files' : Files}
    (h : placeArtifact hexdigest store capabilityEngines name version arch archive content files = .ok files') :
    ∃ sums x, files' = (files.set (placeOf store name version arch (storeFilename name version arch (archiveExt archive))) content).set
      ((placeOf store name version arch (storeFilename name version arch (archiveExt archive))).dropLast ++ [x]) sums := by
  unfold placeArtifact at h
  simp only [bind, Except.bind] at h
  cases hw : files.write (placeOf store name version arch (storeFilename name version arch (archiveExt archive))) content with
  | error e =>
    rw [placeOf] at hw
    rw [hw] at h
    cases h
  | ok files₁ =>
    have heq := Files.eq_of_write hw
    rw [placeOf] at hw
    rw [hw] at h
    exact ⟨_, _, heq ▸ Files.eq_of_write h⟩

theorem seed_stored {archives : List Archive} {a : Archive} (ha : a ∈ archives) {files files' : Files}
    (hfiles : ∀ q ∈ files.keys, Stored store archives q) (h : seed hexdigest store files a.entry = .ok files') :
    ∀ q ∈ files'.keys, Stored store archives q := by
  unfold seed Archive.entry at h
  simp only [a.fileName_not_sum, Bool.false_eq_true, if_false, bind, Except.bind] at h
  cases hp : parseName a.fileName with
  | error e =>
    rw [hp] at h
    cases h
  | ok p =>
    obtain ⟨n, v, r⟩ := p
    rw [hp] at h
    obtain ⟨sums, x, rfl⟩ := placeArtifact_eq h
    have hparsed := parsed hp
    have hsingle : '/' ∉ (storeFilename n v r (archiveExt a.fileName)).toList := by
      obtain ⟨ext, -, hwhole⟩ := hparsed.whole
      have hno := a.fileName_single
      rw [hwhole] at hno
      have hext : '/' ∉ a.ext.toList := (show ∀ ext ∈ archiveExts, '/' ∉ ext by decide +kernel) _ a.isExt
      rw [fileName_toList, archiveExt_fileName]
      simp_all
    obtain ⟨hplace, hsum⟩ := stored_placeOf store ha hparsed hsingle x
    intro q hq
    rcases Files.mem_keys_set.mp hq with heq | hq
    · exact heq.symm ▸ hsum
    rcases Files.mem_keys_set.mp hq with heq | hq
    · exact heq.symm ▸ hplace
    · exact hfiles q hq

/-- A slot that the loops come to belongs to an archive whose name came apart so. -/
theorem parsed_of_slot {archives : List Archive} {files : Files} (hfiles : ∀ q ∈ files.keys, Stored store archives q)
    {c n v r : String} (h : [c, n, v, r] ∈ slots store files) :
    ∃ a ∈ archives, Parsed a.fileName n v r ∧ Plain n ∧ Plain v := by
  obtain ⟨c', n', v', r', heq, -, q, hq, ⟨rest, hrest⟩, hlen⟩ := mem_slots.mp h
  rcases hfiles q hq with hle | ⟨a, ha, n₁, v₁, r₁, f, hparsed, hn, hv, rfl⟩
  · omega
  · have hsame : [c, n, v, r] ++ rest = [capabilityEngines, n₁, v₁, r₁, f] := by
      rw [List.append_assoc] at hrest
      exact List.append_cancel_left hrest
    simp only [List.cons_append, List.nil_append, List.cons.injEq] at hsame
    obtain ⟨-, rfl, rfl, rfl, -⟩ := hsame
    exact ⟨a, ha, hparsed, hn, hv⟩

/-! ### What the manifest says -/

/-- A slot without an archive adds nothing, one with an archive its record. -/
theorem addSlot_eq {files : Files} {M M' : Json} {slot : Place} (h : addSlot hexdigest store files M slot = .ok M') :
    M' = M ∨ ∃ art content, Json.putIn slot (record hexdigest (slot ++ [art]) content) M = some M' := by
  unfold addSlot at h
  split at h
  · exact .inl (Except.ok.inj h).symm
  · rename_i art _
    refine .inr ⟨art, (files.get? (store ++ slot ++ [art])).getD [], ?_⟩
    simp only at h
    split at h
    · rename_i manifest hput
      rw [hput, Except.ok.inj h]
    · cases h
  · cases h

theorem proper_record (rel : Place) (content : Bytes) : JsonText.Proper (record hexdigest rel content) :=
  ⟨by simp, trivial, trivial, trivial, trivial⟩

theorem length_of_slot {files : Files} {slot : Place} (h : slot ∈ slots store files) : slot.length = 4 := by
  obtain ⟨c, n, v, r, rfl, -⟩ := mem_slots.mp h
  rfl

/-- The manifest has an entry only for a slot. -/
structure Listed (slots : List Place) (M : Json) : Prop where
  proper : JsonText.Proper M
  back : ∀ s : Place, s.length = 4 → (Json.getIn s M).isSome → s ∈ slots

theorem listed_manifest {files : Files} {M : Json}
    (h : (slots store files).foldlM (addSlot hexdigest store files) (.obj [("schema", .int 1)]) = .ok M) :
    Listed (slots store files) M := by
  refine foldlM_keeps (fun slot hslot b b' hb hstep => ?_) ?_ h
  · rcases addSlot_eq hstep with rfl | ⟨art, content, hput⟩
    · exact hb
    · refine ⟨Json.proper_putIn (proper_record _ _) hb.proper hput, fun s hs hfound => ?_⟩
      by_cases hne : s = slot
      · exact hne ▸ hslot
      · rw [Json.getIn_putIn_of_ne (hs.trans (length_of_slot hslot).symm) hne hput] at hfound
        exact hb.back s hs hfound
  · refine ⟨⟨by simp, trivial, trivial⟩, fun s hs hfound => ?_⟩
    obtain ⟨c, n, s, rfl⟩ : ∃ c n s', s = c :: n :: s' := by
      match s, hs with
      | [c, n, v, r], _ => exact ⟨c, n, [v, r], rfl⟩
    have hnone : Json.getIn (c :: n :: s) (.obj [("schema", .int 1)]) = none := by
      simp only [Json.getIn, Json.get?, List.lookup_cons]
      split <;> rfl
    rw [hnone] at hfound
    cases hfound

theorem defaultsOf_keys {l ds : List (String × Json)} (h : defaultsOf pins l = .ok ds) :
    ds.map Prod.fst = l.map Prod.fst ∧ ∀ e ∈ ds, ∃ pin, pins.get? e.1 = some pin ∧ e.2 = .str pin := by
  induction l generalizing ds with
  | nil =>
    obtain rfl : [] = ds := Except.ok.inj h
    simp
  | cons e l ih =>
    unfold defaultsOf at h
    cases hpin : pins.get? e.1 with
    | none => simp [hpin] at h
    | some pin =>
      simp only [hpin] at h
      split_ifs at h with hhas
      cases hrest : defaultsOf pins l with
      | error e' =>
        rw [hrest] at h
        cases h
      | ok rest =>
        rw [hrest] at h
        obtain rfl : (e.1, Json.str pin) :: rest = ds := Except.ok.inj h
        obtain ⟨hkeys, hall⟩ := ih hrest
        refine ⟨by simp [hkeys], fun e' he' => ?_⟩
        rcases List.mem_cons.mp he' with rfl | he'
        · exact ⟨pin, hpin, rfl⟩
        · exact hall e' he'

/-- The defaults touch no entry. -/
theorem getIn_withDefaults (ds : List (String × Json)) (M : Json) {k : String} (hk : k ≠ "defaults") (ks : List String) :
    Json.getIn (k :: ks) (withDefaults ds M) = Json.getIn (k :: ks) M := by
  unfold withDefaults
  split_ifs
  · rfl
  · cases hput : Json.putIn ["defaults"] (.obj [(capabilityEngines, .obj ds)]) M with
    | none => rfl
    | some M' =>
      obtain ⟨l, child, rfl, -, rfl⟩ := Json.putIn_cons hput
      rw [Option.getD_some, Json.getIn, Json.getIn, Json.get?_setEntry, if_neg hk]

/-- The engines of a manifest. -/
def enginesOf (M : Json) : List (String × Json) := membersOf ((M.get? capabilityEngines).getD (.obj []))

theorem proper_enginesOf {M : Json} (h : JsonText.Proper M) : JsonText.Proper (.obj (enginesOf M)) := by
  have hempty : JsonText.Proper (.obj []) := ⟨List.nodup_nil, trivial⟩
  unfold enginesOf
  cases hg : M.get? capabilityEngines with
  | none => exact hempty
  | some j =>
    have hj := JsonText.proper_get? h hg
    cases j with
    | obj l => exact hj
    | _ => exact hempty

theorem proper_withDefaults {ds : List (String × Json)} {M : Json} (h : JsonText.Proper M)
    (hds : defaultsOf pins (enginesOf M) = .ok ds) : JsonText.Proper (withDefaults ds M) := by
  obtain ⟨hkeys, hall⟩ := defaultsOf_keys hds
  have hengines := proper_enginesOf h
  have hobj : JsonText.Proper (.obj ds) := by
    refine ⟨hkeys ▸ hengines.1, JsonText.properMembers_iff.mpr fun e he => ?_⟩
    obtain ⟨pin, -, hpin⟩ := hall e he
    rw [hpin]
    trivial
  unfold withDefaults
  split_ifs
  · exact h
  · cases hput : Json.putIn ["defaults"] (.obj [(capabilityEngines, .obj ds)]) M with
    | none => exact h
    | some M' =>
      have hdefaults : JsonText.Proper (.obj [(capabilityEngines, .obj ds)]) := ⟨by simp, hobj, trivial⟩
      exact Json.proper_putIn hdefaults h hput

/-- The stages of a publication. -/
structure Published (hexdigest : Bytes → String) (pins : Dict String String) (store : Place) (source : List DirEntry)
    (files : Files) (M : Json) (ds : List (String × Json)) : Prop where
  seeded : (source.insertionSort fun a b => a.1 ≤ b.1).foldlM (seed hexdigest store) .empty = .ok files
  listed : (slots store files).foldlM (addSlot hexdigest store files) (.obj [("schema", .int 1)]) = .ok M
  defaults : defaultsOf pins (enginesOf M) = .ok ds

theorem published_of_fromDir {source : List DirEntry} {files' : Files}
    (h : fromDir hexdigest pins store source .empty = .ok files') : ∃ files M ds,
      Published hexdigest pins store source files M ds ∧ files.write (store ++ manifestPlace)
        (Bytes.encode (String.ofList (JsonText.dumps (Json.sortKeys (withDefaults ds M))))) = .ok files' := by
  unfold fromDir at h
  cases hs : (source.insertionSort fun a b => a.1 ≤ b.1).foldlM (seed hexdigest store) .empty with
  | error e => simp [hs, bind, Except.bind] at h
  | ok files =>
    simp only [hs, bind, Except.bind, rebuildManifest, manifestOf] at h
    cases hm : (slots store files).foldlM (addSlot hexdigest store files) (.obj [("schema", .int 1)]) with
    | error e => simp [hm] at h
    | ok M =>
      simp only [hm] at h
      cases hd : defaultsOf pins (enginesOf M) with
      | error e =>
        rw [enginesOf] at hd
        simp [hd] at h
      | ok ds =>
        refine ⟨files, M, ds, ⟨hs, hm, hd⟩, ?_⟩
        rw [enginesOf] at hd
        simpa [hd, pure, Except.pure] using h

theorem fromDir_of_published {source : List DirEntry} {files : Files} {M : Json} {ds : List (String × Json)}
    (h : Published hexdigest pins store source files M ds) : fromDir hexdigest pins store source .empty =
      files.write (store ++ manifestPlace)
        (Bytes.encode (String.ofList (JsonText.dumps (Json.sortKeys (withDefaults ds M))))) := by
  have hd := h.defaults
  rw [enginesOf] at hd
  simp only [fromDir, h.seeded, bind, Except.bind, rebuildManifest, manifestOf, h.listed, hd, pure, Except.pure]

/-- What is written is read. -/
theorem ofBytes_encode {j : Json} (h : JsonText.Proper j) :
    Manifest.ofBytes (Bytes.encode (String.ofList (JsonText.dumps j))) = (Manifest.ofJson j).toOption := by
  rw [Manifest.ofBytes, Bytes.decode_encode]
  simp only [bind, Option.bind, String.toList_ofList, JsonText.loads_dumps h]

end

/-- An archive is found again: the client's record leads to a file with its bytes, and
has its sum and its size, and the version that its engine has by default is the pin. -/
def Found (hexdigest : Bytes → String) (pins : Dict String String) (store : Place) (candidates : List String) (files : Files)
    (m : Manifest) (a : Archive) : Prop :=
  (∃ path, m.variant candidates capabilityEngines a.name (some a.version) (some a.arch) =
      .ok ⟨.str path, .str (hexdigest a.content), .int a.content.length⟩ ∧
    files.get? ((Path.ofString path).resolve store) = some a.content) ∧
  ∃ pin, pins.get? a.name = some pin ∧ m.defaultVersion capabilityEngines a.name = .ok (.str pin)

/-- The archives of a directory are published, and each is found again. -/
def Inverse (hexdigest : Bytes → String) (pins : Dict String String) (store : Place) (candidates : List String)
    (archives : List Archive) : Prop :=
  ∃ files raw m, fromDir hexdigest pins store (archives.map Archive.entry) .empty = .ok files ∧
    files.get? (store ++ manifestPlace) = some raw ∧ Manifest.ofBytes raw = some m ∧
    ∀ a ∈ archives, Found hexdigest pins store candidates files m a

section
variable {hexdigest : Bytes → String} {pins : Dict String String} {store : Place} {candidates : List String}
  {archives : List Archive}

/-- The client looks for the entry of the arch that it asks for. -/
theorem variant_of_entry {m : Manifest} {name version arch : String} (hv : version ≠ "") (ha : arch ≠ "") :
    m.variant candidates capabilityEngines name (some version) (some arch) =
      m.firstVariant capabilityEngines name (.str version) [arch] := by
  have hversion : (some version).filter (· ≠ "") = some version := by simp [Option.filter, hv]
  have harch : (some arch).filter (· ≠ "") = some arch := by simp [Option.filter, ha]
  rw [Manifest.variant, hversion, harch]
  rfl

theorem arch_ne (a : Archive) : a.arch ≠ "" := by
  obtain ⟨platform, hp, cpu, -, variant, harch, -⟩ := a.isArch
  intro he
  rw [he] at harch
  simpa using congrArg List.length harch

/-- What is found again was anchored. -/
theorem anchored_of_inverse (h : Inverse hexdigest pins store candidates archives) : ∀ a ∈ archives, a.Anchored := by
  obtain ⟨files', raw, m, hfrom, hraw, hm, hfound⟩ := h
  obtain ⟨files, M, ds, hpub, hwrite⟩ := published_of_fromDir hfrom
  have hlisted := listed_manifest hpub.listed
  have hproper := proper_withDefaults hlisted.proper hpub.defaults
  -- the client reads what was written
  have hdata : m.data = Json.sortKeys (withDefaults ds M) := by
    rw [Files.eq_of_write hwrite, Dict.get?_set_self] at hraw
    rw [← Option.some.inj hraw, ofBytes_encode (Json.proper_sortKeys _ hproper), Manifest.ofJson] at hm
    split_ifs at hm
    · exact (Option.some.inj hm) ▸ rfl
    · cases hm
  have hkeys : ∀ q ∈ files.keys, Stored store archives q := by
    have hnone : ∀ q ∈ (Dict.empty : Files).keys, Stored store archives q := fun q hq => absurd hq List.not_mem_nil
    refine foldlM_keeps (P := fun t : Files => ∀ q ∈ t.keys, Stored store archives q) (fun e he b b' hb hstep => ?_) hnone
      hpub.seeded
    rw [List.mem_insertionSort] at he
    obtain ⟨a, ha, rfl⟩ := List.mem_map.mp he
    exact seed_stored ha hb hstep
  intro a ha
  obtain ⟨⟨path, hvariant, -⟩, -⟩ := hfound a ha
  rw [variant_of_entry a.version_ne (arch_ne a), Manifest.firstVariant] at hvariant
  have hentry : (Json.getIn [capabilityEngines, a.name, a.version, a.arch] M).isSome := by
    cases he : m.entry capabilityEngines a.name (.str a.version) a.arch with
    | none => simp [he, Manifest.firstVariant] at hvariant
    | some e =>
      rw [Manifest.entry, hdata, Json.getIn_sortKeys hproper, getIn_withDefaults ds M (by decide)] at he
      obtain ⟨j, hj, -⟩ := Option.map_eq_some_iff.mp he
      simp [hj]
  have hslot := hlisted.back [capabilityEngines, a.name, a.version, a.arch] rfl hentry
  obtain ⟨b, -, hparsed, hn, hv⟩ := parsed_of_slot hkeys hslot
  exact ⟨hparsed.hyphen, hparsed.token, hparsed.name_token, ⟨hn.dot, hn.up⟩, ⟨hv.dot, hv.up⟩⟩

end

/-! ### What was anchored is found -/

namespace Archive

def slot (a : Archive) : Place := [capabilityEngines, a.name, a.version, a.arch]

def place (store : Place) (a : Archive) : Place := store ++ (a.slot ++ [a.fileName])

/-- Where its sum is. -/
def sum (store : Place) (a : Archive) : Place := store ++ (a.slot ++ [a.fileName ++ ".sha256"])

def sumText (hexdigest : Bytes → String) (a : Archive) : Bytes :=
  Bytes.encode s!"{hexdigest a.content}  {a.fileName}\n"

theorem place_length (store : Place) (a : Archive) : (a.place store).length = store.length + 5 := by simp [place, slot]

theorem sum_length (store : Place) (a : Archive) : (a.sum store).length = store.length + 5 := by simp [sum, slot]

theorem triple_of_slot {a b : Archive} (h : a.slot = b.slot) : a.triple = b.triple := by
  simp only [slot, List.cons.injEq, true_and, and_true] at h
  simp [triple, h]

theorem slot_of_place {store : Place} {a : Archive} {s : Place} {f : String} (hs : s.length = 4)
    (h : a.place store = store ++ (s ++ [f])) : a.slot = s ∧ a.fileName = f := by
  have hcut := List.append_cancel_left h
  have hslot := List.append_inj hcut (by simp [slot, hs])
  exact ⟨hslot.1, by simpa using hslot.2⟩

theorem slot_of_sum {store : Place} {a : Archive} {s : Place} {f : String} (hs : s.length = 4)
    (h : a.sum store = store ++ (s ++ [f])) : a.slot = s ∧ a.fileName ++ ".sha256" = f := by
  have hcut := List.append_cancel_left h
  have hslot := List.append_inj hcut (by simp [slot, hs])
  exact ⟨hslot.1, by simpa using hslot.2⟩

theorem endsWith_sum (s : String) : Text.endsWith (s ++ ".sha256") ".sha256" = true := by
  rw [Text.endsWith, List.isSuffixOf_iff_suffix, String.toList_append]
  exact List.suffix_append _ _

theorem place_ne_sum (store : Place) (a b : Archive) : a.place store ≠ b.sum store := fun h => by
  have hname := (slot_of_place (s := b.slot) rfl h).2
  have hno := a.fileName_not_sum
  rw [hname, endsWith_sum] at hno
  cases hno

theorem Anchored.plain {a : Archive} (h : a.Anchored) : Plain a.name ∧ Plain a.version ∧ Plain a.arch ∧ Plain a.fileName := by
  obtain ⟨platform, rest, harch, hp⟩ := head_split_arch a.isArch
  obtain ⟨hempty, hdot, hup⟩ := ne_dots_of_platform harch hp
  have hhyphen : '-' ∈ a.fileName.toList := by
    rw [fileName, fileName_toList]
    simp
  have hno (x : String) (hx : '-' ∉ x.toList) : a.fileName ≠ x := by
    rintro rfl
    exact hx hhyphen
  refine ⟨⟨a.name_ne, h.name_dots.1, h.name_dots.2⟩, ⟨a.version_ne, h.version_dots.1, h.version_dots.2⟩,
    ⟨fun he => hempty ?_, fun he => hdot ?_, fun he => hup ?_⟩,
    ⟨hno "" (by decide +kernel), hno "." (by decide +kernel), hno ".." (by decide +kernel)⟩⟩
  all_goals
    rw [he]
    rfl

theorem Anchored.placeOf {a : Archive} (h : a.Anchored) (store : Place) :
    placeOf store a.name a.version a.arch a.fileName = a.place store := by
  obtain ⟨hn, hv, ha, hf⟩ := h.plain
  exact placeOf_plain a.name_single a.version_single a.arch_single a.fileName_single hn hv ha hf store

end Archive

section
variable {hexdigest : Bytes → String} {pins : Dict String String} {store : Place} {candidates : List String}
  {all : List Archive}

theorem seed_ok {a : Archive} (h : a.Anchored) {files : Files} (hfiles : ∀ q ∈ files.keys, q.length = store.length + 5) :
    seed hexdigest store files a.entry = .ok ((files.set (a.place store) a.content).set (a.sum store) (a.sumText hexdigest)) := by
  have hfname : storeFilename a.name a.version a.arch (archiveExt a.fileName) = a.fileName := by
    rw [archiveExt_fileName]
    rfl
  have hplace := h.placeOf store
  rw [placeOf] at hplace
  have hfirst : files.write (a.place store) a.content = .ok (files.set (a.place store) a.content) :=
    Files.write_ok fun q hq => (hfiles q hq).trans (a.place_length store).symm
  have hsum : (a.place store).dropLast ++ [(a.place store).getLastD "" ++ ".sha256"] = a.sum store := by
    simp [Archive.place, Archive.sum, ← List.append_assoc]
  have hsecond : Files.write (a.sum store) (a.sumText hexdigest) (files.set (a.place store) a.content) =
      .ok ((files.set (a.place store) a.content).set (a.sum store) (a.sumText hexdigest)) := by
    refine Files.write_ok fun q hq => ?_
    rw [a.sum_length store]
    rcases Files.mem_keys_set.mp hq with rfl | hq
    · exact a.place_length store
    · exact hfiles q hq
  unfold seed Archive.entry
  simp only [a.fileName_not_sum, Bool.false_eq_true, if_false, parseName_fileName a h, bind, Except.bind, placeArtifact,
    hfname, hplace, hfirst, hsum]
  exact hsecond

/-- What is in the store once these archives are. -/
structure Laid (store : Place) (done : List Archive) (files : Files) : Prop where
  get : ∀ a ∈ done, files.get? (a.place store) = some a.content
  keys : ∀ q, q ∈ files.keys ↔ ∃ a ∈ done, q = a.place store ∨ q = a.sum store

theorem Laid.length {done : List Archive} {files : Files} (h : Laid store done files) : ∀ q ∈ files.keys, q.length = store.length + 5 := by
  intro q hq
  obtain ⟨a, -, rfl | rfl⟩ := (h.keys q).mp hq
  · exact a.place_length store
  · exact a.sum_length store

/-- Archives of one slot are one. -/
def Unique (all : List Archive) : Prop := ∀ a ∈ all, ∀ b ∈ all, a.triple = b.triple → a = b

theorem Laid.add (hu : Unique all) {done : List Archive} {files : Files} (h : Laid store done files) (hsub : done ⊆ all)
    {a : Archive} (ha : a ∈ all) (c : Bytes) :
    Laid store (a :: done) ((files.set (a.place store) a.content).set (a.sum store) c) := by
  constructor
  · intro b hb
    rw [Dict.get?_set_of_ne _ _ (b.place_ne_sum store a)]
    by_cases hplace : b.place store = a.place store
    · have hslot := (Archive.slot_of_place (s := a.slot) rfl hplace).1
      have hball : b ∈ all := by
        rcases List.mem_cons.mp hb with rfl | hb
        · exact ha
        · exact hsub hb
      rw [hplace, Dict.get?_set_self, hu b hball a ha (Archive.triple_of_slot hslot)]
    · rw [Dict.get?_set_of_ne _ _ hplace]
      rcases List.mem_cons.mp hb with rfl | hb
      · exact absurd rfl hplace
      · exact h.get b hb
  · intro q
    rw [Files.mem_keys_set, Files.mem_keys_set, h.keys]
    simp only [List.mem_cons, or_and_right, exists_or, exists_eq_left]
    exact or_left_comm.trans or_assoc.symm

variable (hexdigest store) in
theorem laid_seeded (hall : ∀ a ∈ all, a.Anchored) (hu : Unique all) : ∃ files,
    ((all.map Archive.entry).insertionSort fun a b => a.1 ≤ b.1).foldlM (seed hexdigest store) .empty = .ok files ∧
      Laid store all files := by
  have hmap : (all.insertionSort fun a b => a.fileName ≤ b.fileName).map Archive.entry =
      (all.map Archive.entry).insertionSort fun a b => a.1 ≤ b.1 :=
    List.map_insertionSort _ _ _ _ fun a _ b _ => Iff.rfl
  have hempty : Laid store [] (Dict.empty : Files) :=
    ⟨fun a ha => absurd ha List.not_mem_nil, fun q => by simp [Dict.mem_keys]⟩
  obtain ⟨files, hfold, -, hlaid⟩ := foldlM_ok (f := fun files (a : Archive) => seed hexdigest store files a.entry)
    (P := fun done files => done ⊆ all ∧ Laid store done files) (l := all.insertionSort fun a b => a.fileName ≤ b.fileName)
    (fun a ha done files hP => by
      have ha := (List.mem_insertionSort _).mp ha
      exact ⟨_, seed_ok (hall a ha) hP.2.length, List.cons_subset.mpr ⟨ha, hP.1⟩, hP.2.add hu hP.1 ha _⟩)
    ⟨List.nil_subset _, hempty⟩
  refine ⟨files, ?_, ?_⟩
  · rw [← hmap, List.foldlM_map]
    exact hfold
  · have hmem (a : Archive) : a ∈ (all.insertionSort fun a b => a.fileName ≤ b.fileName).reverse ++ [] ↔ a ∈ all := by simp
    exact ⟨fun a ha => hlaid.get a ((hmem a).mpr ha), fun q => (hlaid.keys q).trans (exists_congr fun a => and_congr_left' (hmem a))⟩

/-- A slot of the store is an archive's. -/
theorem Laid.slot {files : Files} (h : Laid store all files) {s : Place} (hs : s ∈ slots store files) :
    ∃ a ∈ all, a.slot = s := by
  obtain ⟨c, n, v, r, rfl, -, q, hq, ⟨rest, hrest⟩, hlen⟩ := mem_slots.mp hs
  obtain ⟨a, ha, hplace⟩ := (h.keys q).mp hq
  refine ⟨a, ha, ?_⟩
  rw [← hrest, List.append_assoc] at hplace
  rcases hplace with hplace | hplace
  · exact (List.append_inj (List.append_cancel_left hplace) rfl).1.symm
  · exact (List.append_inj (List.append_cancel_left hplace) rfl).1.symm

theorem Laid.mem_slots {files : Files} (h : Laid store all files) {a : Archive} (ha : a ∈ all) :
    a.slot ∈ slots store files := by
  refine Artifacts.mem_slots.mpr ⟨_, _, _, _, rfl, by decide +kernel, a.place store, (h.keys _).mpr ⟨a, ha, .inl rfl⟩, ?_, ?_⟩
  · exact ⟨[a.fileName], by simp [Archive.place, Archive.slot]⟩
  · rw [a.place_length]
    omega

theorem eq_singleton {α : Type} {l : List α} {y : α} (hl : l.Nodup) (h : ∀ x, x ∈ l ↔ x = y) : l = [y] :=
  List.perm_singleton.mp ((List.perm_ext_iff_of_nodup hl (List.nodup_singleton y)).mpr fun x => by simpa using h x)

/-- An archive is alone in its slot. -/
theorem Laid.archives_slot (hu : Unique all) {files : Files} (h : Laid store all files) {a : Archive} (ha : a ∈ all) :
    archives (store ++ a.slot) files = [a.fileName] := by
  refine eq_singleton ((Files.nodup_children _ _).filter _) fun f => ?_
  have hfile : files.isFile (store ++ a.slot ++ [f]) = true ↔ f = a.fileName ∨ f = a.fileName ++ ".sha256" := by
    have hkeys : files.isFile (store ++ a.slot ++ [f]) = true ↔ store ++ (a.slot ++ [f]) ∈ files.keys := by
      rw [Dict.mem_keys, List.append_assoc]
      rfl
    rw [hkeys, h.keys]
    constructor
    · rintro ⟨b, hb, hplace | hplace⟩
      · obtain ⟨hslot, hname⟩ := Archive.slot_of_place (s := a.slot) rfl hplace.symm
        exact .inl (hname.symm.trans (congrArg Archive.fileName (hu b hb a ha (Archive.triple_of_slot hslot))))
      · obtain ⟨hslot, hname⟩ := Archive.slot_of_sum (s := a.slot) rfl hplace.symm
        exact .inr (hu b hb a ha (Archive.triple_of_slot hslot) ▸ hname.symm)
    · rintro (rfl | rfl)
      · exact ⟨a, ha, .inl rfl⟩
      · exact ⟨a, ha, .inr rfl⟩
  have hchild : f ∈ files.children (store ++ a.slot) ↔ ∃ p ∈ files.keys, store ++ a.slot ++ [f] <+: p := Files.mem_children
  have hsum : isArchive (store ++ a.slot) files f = true ↔ f = a.fileName := by
    rw [isArchive, Bool.and_eq_true, hfile, Bool.not_eq_true']
    constructor
    · rintro ⟨rfl | rfl, hno⟩
      · rfl
      · rw [Archive.endsWith_sum] at hno
        cases hno
    · rintro rfl
      exact ⟨.inl rfl, a.fileName_not_sum⟩
  rw [archives, List.mem_filter, hsum, hchild]
  refine ⟨fun hf => hf.2, ?_⟩
  rintro rfl
  exact ⟨⟨a.place store, (h.keys _).mpr ⟨a, ha, .inl rfl⟩, by rw [List.append_assoc]; exact List.prefix_rfl⟩, rfl⟩

/-! ### The manifest of the archives -/

def recordOf (hexdigest : Bytes → String) (a : Archive) : Json := record hexdigest (a.slot ++ [a.fileName]) a.content

/-- The manifest when these slots are in it. -/
structure Built (hexdigest : Bytes → String) (all : List Archive) (done : List Place) (M : Json) : Prop where
  members : ∃ l, M = .obj l
  nested : Json.Nested 3 ((M.get? capabilityEngines).getD (.obj []))
  schema : M.get? "schema" = some (.int 1)
  found : ∀ a ∈ all, a.slot ∈ done → Json.getIn a.slot M = some (recordOf hexdigest a)
  names : ∀ n, (((M.get? capabilityEngines).getD (.obj [])).get? n).isSome → ∃ a ∈ all, a.name = n

theorem Built.add (hu : Unique all) {files : Files} (hlaid : Laid store all files) {a : Archive} (ha : a ∈ all)
    {done : List Place} {M : Json} (h : Built hexdigest all done M) :
    ∃ M', addSlot hexdigest store files M a.slot = .ok M' ∧ Built hexdigest all (a.slot :: done) M' := by
  have hcontent : files.get? (store ++ a.slot ++ [a.fileName]) = some a.content := by
    have hget := hlaid.get a ha
    rwa [Archive.place, ← List.append_assoc] at hget
  obtain ⟨l, rfl⟩ := h.members
  obtain ⟨child, hchild, hnested⟩ : ∃ child, Json.putIn [a.name, a.version, a.arch] (recordOf hexdigest a)
      (((Json.obj l).get? capabilityEngines).getD (.obj [])) = some child ∧ Json.Nested 3 child :=
    Json.putIn_of_nested (recordOf hexdigest a) h.nested
  have hput : Json.putIn a.slot (recordOf hexdigest a) (.obj l) = some (.obj (Dict.setEntry capabilityEngines child l)) := by
    have hshow : Json.putIn a.slot (recordOf hexdigest a) (.obj l) =
        (Json.putIn [a.name, a.version, a.arch] (recordOf hexdigest a) ((l.lookup capabilityEngines).getD (.obj []))).map
          fun j => .obj (Dict.setEntry capabilityEngines j l) := rfl
    rw [hshow]
    exact congrArg (Option.map _) hchild
  refine ⟨.obj (Dict.setEntry capabilityEngines child l), ?_, ⟨_, rfl⟩, ?_, ?_, ?_, ?_⟩
  · rw [addSlot, hlaid.archives_slot hu ha]
    simp only [hcontent, Option.getD_some]
    rw [recordOf] at hput
    rw [hput]
  · rw [Json.get?_setEntry, if_pos rfl]
    exact hnested
  · rw [Json.get?_setEntry, if_neg (by decide)]
    exact h.schema
  · intro b hb hmem
    by_cases hslot : b.slot = a.slot
    · rw [hu b hb a ha (Archive.triple_of_slot hslot)]
      exact Json.getIn_putIn_self hput
    · rw [Json.getIn_putIn_of_ne (show b.slot.length = a.slot.length from rfl) hslot hput]
      exact h.found b hb ((List.mem_cons.mp hmem).resolve_left hslot)
  · intro n hn
    rw [Json.get?_setEntry, if_pos rfl, Option.getD_some] at hn
    obtain ⟨l', c, hl', -, hc⟩ := Json.putIn_cons hchild
    rw [hc, Json.get?_setEntry] at hn
    split_ifs at hn with hname
    · exact ⟨a, ha, hname.symm⟩
    · exact h.names n (by rw [hl']; exact hn)

variable (hexdigest) in
theorem built_listed (hu : Unique all) {files : Files} (hlaid : Laid store all files) : ∃ M,
    (slots store files).foldlM (addSlot hexdigest store files) (.obj [("schema", .int 1)]) = .ok M ∧
      Built hexdigest all (all.map Archive.slot) M := by
  have hbase : Built hexdigest all [] (.obj [("schema", .int 1)]) :=
    ⟨⟨_, rfl⟩, fun e he => absurd he List.not_mem_nil, rfl, fun a _ ha => absurd ha List.not_mem_nil, fun n hn => by cases hn⟩
  obtain ⟨M, hfold, hM⟩ := foldlM_ok (f := addSlot hexdigest store files) (P := Built hexdigest all)
    (fun s hs done M hM => by
      obtain ⟨a, ha, rfl⟩ := hlaid.slot hs
      exact hM.add hu hlaid ha) hbase
  refine ⟨M, hfold, hM.members, hM.nested, hM.schema, fun a ha _ => hM.found a ha ?_, hM.names⟩
  simpa using hlaid.mem_slots ha

/-- Every engine has its pin among its versions. -/
def Pinned (pins : Dict String String) (all : List Archive) : Prop :=
  ∀ a ∈ all, ∃ b ∈ all, b.name = a.name ∧ pins.get? a.name = some b.version

theorem defaultsOf_ok : ∀ {l : List (String × Json)},
    (∀ e ∈ l, ∃ pin, pins.get? e.1 = some pin ∧ (e.2.get? pin).isSome) → ∃ ds, defaultsOf pins l = .ok ds
  | [], _ => ⟨[], rfl⟩
  | e :: l, h => by
    obtain ⟨pin, hpin, hhas⟩ := h e List.mem_cons_self
    obtain ⟨ds, hds⟩ := defaultsOf_ok fun e' he' => h e' (List.mem_cons_of_mem e he')
    exact ⟨(e.1, .str pin) :: ds, by rw [defaultsOf, hpin]; simp only [hhas, if_true, hds]; rfl⟩

/-- The versions of an engine that has an archive. -/
theorem Built.versions {M : Json} (hM : Built hexdigest all (all.map Archive.slot) M) {a : Archive} (ha : a ∈ all) :
    ∃ versions, (enginesOf M).lookup a.name = some versions ∧ (versions.get? a.version).isSome := by
  have hfound := hM.found a ha (List.mem_map_of_mem ha)
  simp only [Archive.slot, Json.getIn] at hfound
  obtain ⟨engines, hengines, hfound⟩ := Option.bind_eq_some_iff.mp hfound
  obtain ⟨versions, hversions, hfound⟩ := Option.bind_eq_some_iff.mp hfound
  obtain ⟨archs, harchs, -⟩ := Option.bind_eq_some_iff.mp hfound
  refine ⟨versions, ?_, by rw [harchs]; rfl⟩
  rw [enginesOf, hengines, Option.getD_some]
  cases engines with
  | obj l => exact hversions
  | _ => cases hversions

theorem Built.defaults {M : Json} (hM : Built hexdigest all (all.map Archive.slot) M) (hproper : JsonText.Proper M)
    (hpins : Pinned pins all) : ∃ ds, defaultsOf pins (enginesOf M) = .ok ds := by
  refine defaultsOf_ok fun e he => ?_
  have hlookup := Dict.lookup_of_mem (proper_enginesOf hproper).1 he
  have hname : (((M.get? capabilityEngines).getD (.obj [])).get? e.1).isSome := by
    unfold enginesOf at hlookup
    cases hj : (M.get? capabilityEngines).getD (.obj []) with
    | obj l =>
      rw [hj] at hlookup
      exact Option.isSome_of_eq_some hlookup
    | _ =>
      rw [hj] at hlookup
      cases hlookup
  obtain ⟨a, ha, hengine⟩ := hM.names e.1 hname
  obtain ⟨b, hb, hbname, hpin⟩ := hpins a ha
  obtain ⟨versions, hversions, hhas⟩ := hM.versions hb
  rw [hbname, hengine, hlookup] at hversions
  exact ⟨b.version, hengine ▸ hpin, Option.some.inj hversions ▸ hhas⟩

/-- Nothing is in the way of the manifest. -/
theorem Laid.write_manifest {files : Files} (h : Laid store all files) (c : Bytes) :
    files.write (store ++ manifestPlace) c = .ok (files.set (store ++ manifestPlace) c) := by
  have hkey (q : Place) (hq : q ∈ files.keys) : ∃ l, q = store ++ capabilityEngines :: l ∧ l.length = 4 := by
    obtain ⟨a, -, rfl | rfl⟩ := (h.keys q).mp hq
    · exact ⟨[a.name, a.version, a.arch, a.fileName], rfl, rfl⟩
    · exact ⟨[a.name, a.version, a.arch, a.fileName ++ ".sha256"], rfl, rfl⟩
  have hdir : files.isDir (store ++ manifestPlace) = false := by
    simp only [Files.isDir, List.any_eq_false, Files.below, Bool.and_eq_true, not_and]
    intro q hq hpre
    obtain ⟨l, rfl, -⟩ := hkey q hq
    rw [List.isPrefixOf_iff_prefix, List.prefix_append_right_inj] at hpre
    exact absurd (List.cons_prefix_cons.mp hpre).1 (by decide +kernel)
  have hfile : files.keys.any (Files.below · (store ++ manifestPlace)) = false := by
    simp only [List.any_eq_false, Files.below, Bool.and_eq_true, not_and, decide_eq_true_eq]
    intro q hq _
    obtain ⟨l, rfl, hl⟩ := hkey q hq
    simp only [List.length_append, List.length_cons, hl, manifestPlace, List.length_nil]
    omega
  rw [Files.write, hdir, hfile]
  rfl

/-- The client makes the record of an entry its variant. -/
theorem variantOf_recordOf (hdigest : ∀ c, hexdigest c ≠ "") (a : Archive) :
    Manifest.variantOf (Json.sortKeys (recordOf hexdigest a)) =
      .ok ⟨.str (relPath capabilityEngines a.name a.version a.arch a.fileName), .str (hexdigest a.content),
        .int a.content.length⟩ := by
  have hproper : JsonText.Proper (recordOf hexdigest a) := proper_record _ _
  have hpath : "/".intercalate (a.slot ++ [a.fileName]) = relPath capabilityEngines a.name a.version a.arch a.fileName :=
    (relPath_eq _ _ _ _ _).symm
  have hget (k : String) : (Json.sortKeys (recordOf hexdigest a)).get? k = ((recordOf hexdigest a).get? k).map Json.sortKeys :=
    Json.get?_sortKeys hproper k
  have hne : relPath capabilityEngines a.name a.version a.arch a.fileName ≠ "" := by
    rw [relPath_eq]
    intro he
    have hlen := congrArg (fun s : String => s.toList.length) he
    simp [String.intercalate_cons_cons] at hlen
  have hentry : ∃ l, Json.sortKeys (recordOf hexdigest a) = .obj l := ⟨_, rfl⟩
  obtain ⟨l, hl⟩ := hentry
  have hlookup (k : String) : l.lookup k = ((recordOf hexdigest a).get? k).map Json.sortKeys := by
    rw [← hget k, hl]
    rfl
  have hp : l.lookup "path" = some (.str (relPath capabilityEngines a.name a.version a.arch a.fileName)) := by
    rw [hlookup, ← hpath]
    rfl
  have hs : l.lookup "sha256" = some (.str (hexdigest a.content)) := hlookup "sha256"
  have hz : l.lookup "size" = some (.int a.content.length) := hlookup "size"
  rw [hl, Manifest.variantOf]
  simp only [hp, hs, hz, Option.getD_some, Json.truthy]
  simp [hne, hdigest]

/-- The default of an engine that has an archive is its pin. -/
theorem getIn_defaults {M : Json} (hM : Built hexdigest all (all.map Archive.slot) M) {ds : List (String × Json)}
    (hds : defaultsOf pins (enginesOf M) = .ok ds) {a : Archive} (ha : a ∈ all) : ∃ pin, pins.get? a.name = some pin ∧
      Json.getIn ["defaults", capabilityEngines, a.name] (withDefaults ds M) = some (.str pin) := by
  obtain ⟨hkeys, hvalues⟩ := defaultsOf_keys hds
  obtain ⟨versions, hversions, -⟩ := hM.versions ha
  have hmem : a.name ∈ ds.map Prod.fst := hkeys ▸ List.mem_map_of_mem (Dict.mem_of_lookup hversions)
  obtain ⟨v, hv⟩ := Option.isSome_iff_exists.mp ((Dict.lookup_isSome a.name ds).mpr hmem)
  obtain ⟨pin, hpin, hval⟩ := hvalues _ (Dict.mem_of_lookup hv)
  obtain ⟨l, rfl⟩ := hM.members
  have hne : ds ≠ [] := fun hnil => by simp [hnil] at hmem
  refine ⟨pin, hpin, ?_⟩
  have hput : withDefaults ds (.obj l) = .obj (Dict.setEntry "defaults" (.obj [(capabilityEngines, .obj ds)]) l) := by
    rw [withDefaults, if_neg hne]
    rfl
  rw [hput, Json.getIn, Json.get?_setEntry, if_pos rfl]
  show (ds.lookup a.name).bind (Json.getIn []) = _
  rw [hv, ← hval]
  rfl

/-- An anchored archive is found in the manifest of all of them. -/
theorem found_of_built (hdigest : ∀ c, hexdigest c ≠ "") {files : Files} (hlaid : Laid store all files) {M : Json}
    (hM : Built hexdigest all (all.map Archive.slot) M) {ds : List (String × Json)} (hproper : JsonText.Proper (withDefaults ds M))
    (hds : defaultsOf pins (enginesOf M) = .ok ds) {m : Manifest} (hm : m.data = Json.sortKeys (withDefaults ds M)) (raw : Bytes)
    {a : Archive} (ha : a ∈ all) (hanchored : a.Anchored) :
    Found hexdigest pins store candidates (files.set (store ++ manifestPlace) raw) m a := by
  refine ⟨⟨relPath capabilityEngines a.name a.version a.arch a.fileName, ?_, ?_⟩, ?_⟩
  · have hentry : m.entry capabilityEngines a.name (.str a.version) a.arch = some (Json.sortKeys (recordOf hexdigest a)) := by
      have hfound := hM.found a ha (List.mem_map_of_mem ha)
      rw [Archive.slot] at hfound
      rw [Manifest.entry, hm, Json.getIn_sortKeys hproper, getIn_withDefaults ds M (by decide), hfound]
      rfl
    rw [variant_of_entry a.version_ne (arch_ne a), Manifest.firstVariant, hentry]
    exact variantOf_recordOf hdigest a
  · have hplace : (Path.ofString (relPath capabilityEngines a.name a.version a.arch a.fileName)).resolve store = a.place store :=
      hanchored.placeOf store
    have hne : a.place store ≠ store ++ manifestPlace := fun he => by
      have hlen := congrArg List.length he
      simp [Archive.place, Archive.slot, manifestPlace] at hlen
    rw [hplace, Dict.get?_set_of_ne _ _ hne]
    exact hlaid.get a ha
  · obtain ⟨pin, hpin, hdefault⟩ := getIn_defaults hM hds ha
    refine ⟨pin, hpin, ?_⟩
    rw [Manifest.defaultVersion, hm, Json.getIn_sortKeys hproper, hdefault]
    rfl

/-- What is anchored is found. -/
theorem inverse_of_anchored (hdigest : ∀ c, hexdigest c ≠ "") (hu : Unique all) (hpins : Pinned pins all)
    (hall : ∀ a ∈ all, a.Anchored) : Inverse hexdigest pins store candidates all := by
  obtain ⟨files, hseeded, hlaid⟩ := laid_seeded hexdigest store hall hu
  obtain ⟨M, hlisted, hM⟩ := built_listed hexdigest hu hlaid
  obtain ⟨ds, hds⟩ := hM.defaults (listed_manifest hlisted).proper hpins
  have hproper := proper_withDefaults (listed_manifest hlisted).proper hds
  have hschema : (((Json.sortKeys (withDefaults ds M)).get? "schema").getD .null).eq (.int 1) = true := by
    have hget : Json.getIn ["schema"] (withDefaults ds M) = some (.int 1) := by
      rw [getIn_withDefaults ds M (by decide), Json.getIn, hM.schema]
      rfl
    have hsorted : Json.getIn ["schema"] (Json.sortKeys (withDefaults ds M)) = some (.int 1) := by
      rw [Json.getIn_sortKeys hproper, hget]
      rfl
    obtain ⟨j, hj, hone⟩ := Option.bind_eq_some_iff.mp hsorted
    rw [hj, Option.some.inj hone]
    rfl
  let raw := Bytes.encode (String.ofList (JsonText.dumps (Json.sortKeys (withDefaults ds M))))
  refine ⟨files.set (store ++ manifestPlace) raw, raw, ⟨Json.sortKeys (withDefaults ds M), hschema⟩, ?_, Dict.get?_set_self _ _ _,
    ?_, fun a ha => found_of_built hdigest hlaid hM hproper hds rfl raw ha (hall a ha)⟩
  · rw [fromDir_of_published ⟨hseeded, hlisted, hds⟩]
    exact hlaid.write_manifest raw
  · rw [ofBytes_encode (Json.proper_sortKeys _ hproper), Manifest.ofJson, dif_pos hschema]
    rfl

/-- **Publishing and resolving are inverse, exactly.** Archives with their engines'
pins among them, each of its own name, version and arch, are all found again with
their own bytes just if each is anchored. -/
theorem published_iff (hexdigest : Bytes → String) (pins : Dict String String) (store : Place) (candidates : List String)
    (archives : List Archive) (hdigest : ∀ c, hexdigest c ≠ "") (hdistinct : (archives.map Archive.triple).Nodup)
    (hpins : Pinned pins archives) :
    Inverse hexdigest pins store candidates archives ↔ ∀ a ∈ archives, a.Anchored := by
  have hu : Unique archives := fun a ha b hb h => List.inj_on_of_nodup_map hdistinct ha hb h
  exact ⟨anchored_of_inverse, inverse_of_anchored hdigest hu hpins⟩

end

theorem isArch_linux : IsArch "linux-x64" :=
  ⟨"linux".toList, by decide +kernel, "x64".toList, by decide +kernel, [], by decide +kernel, .inl rfl⟩

/-- An archive of llama-cpp for Linux, of a version that is a plain name. -/
def llamaCpp (version : String) (hne : version ≠ "") (hsingle : '/' ∉ version.toList) : Archive where
  name := "llama-cpp"
  version := version
  arch := "linux-x64"
  ext := ".tar.gz"
  content := Bytes.encode "abc"
  name_ne := by decide
  version_ne := hne
  name_single := by decide +kernel
  version_single := hsingle
  arch_single := by decide +kernel
  isArch := isArch_linux
  isExt := by decide +kernel

def pinned : Archive := llamaCpp "b10289" (by decide) (by decide +kernel)

def candidate : Archive := llamaCpp "b10289-rc1" (by decide) (by decide +kernel)

/-- A version with a hyphen is taken apart in the wrong place: the pinned version of
llama-cpp and a release candidate of it are not published together. -/
theorem hyphenated_lost : ∃ archives : List Archive, (archives.map Archive.triple).Nodup ∧ Pinned engineVersions archives ∧
    ∀ hexdigest store candidates, ¬Inverse hexdigest engineVersions store candidates archives := by
  have hpin : engineVersions.get? "llama-cpp" = some "b10289" := by decide +kernel
  refine ⟨[pinned, candidate], by decide +kernel, fun a ha => ⟨pinned, List.mem_cons_self, ?_, ?_⟩, fun hexdigest store candidates h => ?_⟩
  · simp only [List.mem_cons, List.not_mem_nil, or_false] at ha
    rcases ha with rfl | rfl <;> rfl
  · simp only [List.mem_cons, List.not_mem_nil, or_false] at ha
    rcases ha with rfl | rfl <;> exact hpin
  · have hanchored := anchored_of_inverse h candidate (by simp)
    exact hanchored.version_hyphen (by decide +kernel)

/-- SHA-256 of the empty text and of `abc`. -/
def digestOf (content : Bytes) : String :=
  if content = [] then "e3b0c44298fc1c149afbf4c8996fb92427ae41e4649b934ca495991b7852b855"
  else "ba7816bf8f01cfea414140de5dae2223b00361a396177a9cb410ff61f20015ad"

theorem digestOf_ne (content : Bytes) : digestOf content ≠ "" := by
  unfold digestOf
  split_ifs <;> decide

/-- The pinned llama-cpp is found again. -/
theorem published_pinned : Inverse digestOf engineVersions ["store"] [] [pinned] := by
  have hpin : engineVersions.get? "llama-cpp" = some "b10289" := by decide +kernel
  refine (published_iff digestOf engineVersions ["store"] [] [pinned] digestOf_ne (by decide +kernel)
    (fun a ha => ⟨pinned, List.mem_cons_self, ?_, ?_⟩)).mpr fun a ha => ?_
  · rw [List.mem_singleton.mp ha]
  · rw [List.mem_singleton.mp ha]
    exact hpin
  · rw [List.mem_singleton.mp ha]
    exact ⟨by decide +kernel, by decide +kernel, by decide +kernel, by decide +kernel, by decide +kernel⟩

end LocaiLink.Artifacts
