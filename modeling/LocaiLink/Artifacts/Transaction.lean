/-
# An engine's directory is complete

`Complete` says what `dest_dir` is to hold with a hash in its marker: the extraction of
an archive with that hash, and nothing else. Whenever `dest_dir` has a marker it is
complete, and once it is complete it stays so, but between the two renames of a process
that is alive: this holds of all runs in which no process dies or fails between these,
nothing stays of an earlier staging directory, and no link of the archive stands where
the marker is written.
-/
import LocaiLink.Artifacts.Engines
import LocaiLink.Base.Cuts
import LocaiLink.Base.Protocol

namespace LocaiLink
namespace Engines

open Prog Machine

/-! ### Complete engines -/

namespace Tree

def put (n : String) (content : Bytes) (t : Tree) : Tree := if named n then t.set n (.file content) else t

def add (n target : String) (t : Tree) : Tree := if t.contains n then t else t.set n (.link target)

/-- The hash in the marker file. -/
def marker (t : Tree) : Option String :=
  (t.readText MARKER).map fun text => String.ofList (Text.strip text.toList)

end Tree

def addMember (t : Tree) (m : TarMember) : Tree :=
  match m.content with
  | .file content => t.put (base m.name) content
  | _ => t

def addEntry (t : Tree) (m : String × Bytes) : Tree := if Text.endsWith m.1 "/" then t else t.put (base m.1) m.2

/-- The links of an archive over its files: one that has no place, or that the file system
refuses, is left out. -/
inductive Linked : List TarMember → Tree → Tree → Prop
  | nil {t : Tree} : Linked [] t t
  | skip {m : TarMember} {members : List TarMember} {t u : Tree} (h : Linked members t u) : Linked (m :: members) t u
  | add {m : TarMember} {members : List TarMember} {t u : Tree} {linkname : String} (hm : m.content = .symlink linkname)
      (hfree : t.get? (base m.name) = none) (h : Linked members (t.set (base m.name) (.link (base linkname))) u) :
      Linked (m :: members) t u

inductive Contents
  | tar (members : List TarMember)
  | zip (members : List (String × Bytes))

/-- The directory is what an archive with these contents is extracted to. -/
def Contents.Unpacked : Contents → Tree → Prop
  | .tar members, t => Linked members (members.foldl addMember .empty) t
  | .zip members, t => t = members.foldl addEntry .empty

variable (F : Formats)

def Formats.Reads (content : Bytes) : Contents → Prop
  | .tar members => F.tar content = some members
  | .zip members => F.zip content = some members

/-- The extraction of an archive that has this hash, with the hash in its marker. -/
def Complete (sha : String) (t : Tree) : Prop :=
  ∃ content c u, F.sha256 content = sha ∧ F.Reads content c ∧ c.Unpacked u ∧
    t = u.set MARKER (.file (Bytes.encode sha))

/-- What a marker in `dest_dir` says is so. -/
def Marked (s : Disk) : Prop := ∀ t sha, s.dest = some t → t.marker = some sha → Complete F sha t

/-- A complete engine is in `dest_dir`. -/
def Installed (s : Disk) : Prop := ∃ t sha, s.dest = some t ∧ Complete F sha t

variable {F}

theorem ne_cr_of_hex {l : List Char} (h : l.all Text.isHexDigit = true) : '\r' ∉ l := by
  intro hmem
  have hcr := List.all_eq_true.mp h '\r' hmem
  revert hcr
  decide

theorem strip_of_hex {l : List Char} (h : l.all Text.isHexDigit = true) : Text.strip l = l := by
  have hspace : ∀ c ∈ l, ¬Text.isSpace c = true := by
    intro c hc hs
    have hhex := List.all_eq_true.mp h c hc
    simp only [Text.isHexDigit, Text.isDigit, Text.isSpace, Text.isWhiteSpace, Bool.or_eq_true, Bool.and_eq_true,
      decide_eq_true_eq, Char.le_def, UInt32.le_iff_toNat_le] at hhex hs
    simp only [Char.toNat] at hs
    have h0 : ('0' : Char).val.toNat = 48 := rfl
    have h9 : ('9' : Char).val.toNat = 57 := rfl
    have ha : ('a' : Char).val.toNat = 97 := rfl
    have hf : ('f' : Char).val.toNat = 102 := rfl
    have hA : ('A' : Char).val.toNat = 65 := rfl
    have hF : ('F' : Char).val.toNat = 70 := rfl
    omega
  have hdrop {m : List Char} (hm : ∀ c ∈ m, ¬Text.isSpace c = true) : m.dropWhile Text.isSpace = m := by
    cases m with
    | nil => rfl
    | cons c m => rw [List.dropWhile_cons_of_neg (hm c List.mem_cons_self)]
  rw [Text.strip, Text.stripBy, hdrop hspace, List.rdropWhile, hdrop, List.reverse_reverse]
  intro c hc
  exact hspace c (List.mem_reverse.mp hc)

/-- The marker of a complete engine is the hash of its archive. -/
theorem marker_of_complete {sha : String} {t : Tree} (h : Complete F sha t) : t.marker = some sha := by
  obtain ⟨content, c, u, hsha, -, -, rfl⟩ := h
  have hhex := F.hex content
  rw [hsha] at hhex
  have hget : Dict.get? (u.set MARKER (.file (Bytes.encode sha))) MARKER = some (.file (Bytes.encode sha)) :=
    Dict.get?_set_self ..
  have htarget : Tree.target (u.set MARKER (.file (Bytes.encode sha))) MARKER = .entry MARKER := by
    have hnamed : named MARKER = true := by decide
    rw [Tree.target, Tree.follow, if_pos hnamed, hget]
  have hread : Tree.read (u.set MARKER (.file (Bytes.encode sha))) MARKER = some (Bytes.encode sha) := by
    unfold Tree.read
    rw [htarget]
    simp only [hget]
  rw [Tree.marker, Tree.readText, hread, Option.bind_some, Bytes.decode_encode, Option.map_some, Option.map_some,
    String.toList_ofList, Text.universalNewlines_of_ne_cr (ne_cr_of_hex hhex), strip_of_hex hhex, String.ofList_toList]

/-! ### What a process has done -/

/-- How far a process is. Under the lock it knows, one after the other, the hash of the
cached archive, that the staging directory is new, what it has extracted, that this is
complete, and that the engine before it was moved aside. -/
inductive Stage
  | out
  | idle
  | hashed (archive sha : String)
  | clean (archive sha : String)
  | filling (sha : String) (c : Contents) (t : Tree)
  | staged (sha : String)
  | aside (sha : String)

namespace Stage

/-- It has moved no engine aside. -/
def Still (g : Stage) : Prop := ∀ sha, g ≠ .aside sha

/-- It may change the cached archives. -/
inductive Fetching : Stage → Prop
  | idle : Fetching .idle
  | hashed {archive sha : String} : Fetching (.hashed archive sha)

/-- What it may do next. -/
def Allows (g : Stage) : Act → Prop
  | .digest _ | .retrieve _ | .replacePartial _ | .unlinkCached _ => g.Fetching
  | .rmtreeStaging | .mkdirStaging => ∃ archive sha, g = .hashed archive sha
  | .getmembers archive | .namelist archive => ∃ sha, g = .clean archive sha
  | .extractFile _ _ => ∃ sha c t, g = .filling sha c t ∧ ∀ n target, t.get? n ≠ some (.link target)
  | .symlink _ _ => ∃ sha c t, g = .filling sha c t
  | .writeMarker sha => ∃ c t, g = .filling sha c t ∧ c.Unpacked t
  | .rmtreeOld => g.Still ∧ g ≠ .out
  | .moveAside => ∃ sha, g = .staged sha
  | .moveIn => ∃ sha, g = .staged sha ∨ g = .aside sha
  | _ => g.Still

theorem Fetching.still {g : Stage} (h : g.Fetching) : g.Still := by
  intro sha heq
  subst heq
  cases h

end Stage

def noteAct : (a : Act) → a.Resp → Stage → Stage
  | .digest archive, .ok sha, _ => .hashed archive sha
  | .retrieve _, _, _ => .idle
  | .replacePartial _, _, _ => .idle
  | .unlinkCached _, _, _ => .idle
  | .mkdirStaging, .ok _, .hashed archive sha => .clean archive sha
  | .mkdirStaging, .error _, _ => .idle
  | .getmembers _, .ok members, .clean _ sha => .filling sha (.tar members) .empty
  | .namelist _, .ok members, .clean _ sha => .filling sha (.zip members) .empty
  | .extractFile n content, .ok _, .filling sha c t => .filling sha c (t.put n content)
  | .extractFile _ _, .error _, _ => .idle
  | .symlink n target, .ok _, .filling sha c t => .filling sha c (t.add n target)
  | .symlink _ _, .error .died, _ => .idle
  | .writeMarker _, .ok _, .filling sha _ _ => .staged sha
  | .writeMarker _, .error _, _ => .idle
  | .moveAside, .ok _, .staged sha => .aside sha
  | .moveAside, .error _, _ => .idle
  | .moveIn, _, _ => .idle
  | _, _, g => g

def note (g : Stage) : Deed engineSig → Stage
  | .act a r => noteAct a r g
  | .lock _ => .idle
  | .unlock _ => .out

def terms : Terms engineSig Stage := ⟨fun g a => g.Allows a, fun g _ => g = .out, fun g _ => g.Still⟩

/-! ### What the code keeps to -/

section Code

variable {α : Type} {g : Stage}

/-- Code that ends in `Q`, and has moved no engine aside when it is stopped. -/
abbrev Keeps (Q : Stage → α → Prop) (g : Stage) (x : Raising α) : Prop :=
  Tries note terms Q (fun g _ => g.Still) g x

theorem keeps_act {a : Act} {Q : Stage → a.Value → Prop} (ha : g.Allows a) (hok : ∀ v, Q (noteAct a (.ok v) g) v)
    (herr : ∀ e, (noteAct a (.error e) g).Still) : Keeps Q g (act a) :=
  obeys_call (T := terms) ha fun r => match r with
    | .ok v => hok v
    | .error e => herr e

/-- What looks about changes nothing the process knows. -/
theorem keeps_look {a : Act} (ha : g.Allows a) (hg : g.Still) (hsame : ∀ r, noteAct a r g = g) :
    Keeps (fun g' _ => g' = g) g (act a) :=
  keeps_act ha (fun v => hsame (.ok v)) fun e => by
    rw [hsame]
    exact hg

theorem keeps_raise {Q : Stage → α → Prop} {message : String} (hg : g.Still) : Keeps Q g (raise message) :=
  tries_throw hg

theorem isText_eq {v : Json} {text : String} (h : isText v text = true) : v = .str text := by
  cases v with
  | str s =>
    have heq : s = text := of_decide_eq_true h
    rw [heq]
  | _ => cases h

theorem keeps_installed {variant : Artifacts.Variant} (hg : g.Still) :
    Keeps (fun g' _ => g' = g) g (installed variant) := by
  unfold installed
  refine (keeps_look (a := .isDir) hg hg fun _ => rfl).bind fun g₁ b h₁ => ?_
  subst h₁
  split_ifs
  · refine (keeps_look (a := .markerExists) hg hg fun _ => rfl).bind fun g₂ b₂ h₂ => ?_
    subst h₂
    split_ifs
    · refine (keeps_look (a := .readMarker) hg hg fun _ => rfl).bind fun g₃ text h₃ => ?_
      exact tries_pure h₃
    · exact tries_pure rfl
  · exact tries_pure rfl

theorem keeps_isCached {variant : Artifacts.Variant} {archive : String} (hg : g.Fetching) :
    Keeps (fun g' b => g'.Fetching ∧ (b = true → ∃ sha, g' = .hashed archive sha ∧ variant.sha256 = .str sha)) g
      (isCached variant archive) := by
  unfold isCached
  refine (keeps_look (a := .cached archive) hg.still hg.still fun _ => rfl).bind fun g₁ b h₁ => ?_
  subst h₁
  split_ifs
  · refine (keeps_act (a := .digest archive) (Q := fun g' sha => g' = .hashed archive sha) hg (fun _ => rfl)
      fun _ => hg.still).bind fun g₂ sha h₂ => ?_
    subst h₂
    exact tries_pure ⟨.hashed, fun h => ⟨sha, rfl, isText_eq h⟩⟩
  · exact tries_pure ⟨hg, fun h => by cases h⟩

theorem keeps_unlink {file : String} (hg : g.Fetching) : Keeps (fun g' _ => g'.Fetching) g (act (.unlinkCached file)) :=
  keeps_act (a := .unlinkCached file) hg (fun _ => .idle) fun _ => Stage.Fetching.idle.still

theorem keeps_attempts {archive : String} : ∀ {n : ℕ} {g : Stage}, g.Fetching →
    Keeps (fun g' _ => g'.Fetching) g (attempts archive n)
  | 0, _, hg => tries_pure hg
  | n + 1, g, hg => by
    have htry : Tries note terms (fun g' (_ : Unit) => g'.Fetching) (fun g' (_ : Stop) => g'.Fetching) g (do
        act (.retrieve archive)
        act (.replacePartial archive)) := by
      refine Tries.bind (Q := fun g' (_ : Unit) => g'.Fetching) ?_ fun g₁ _ h₁ => ?_
      · exact obeys_call (T := terms) (a := Act.retrieve archive) hg fun r => match r with
          | .ok _ => Stage.Fetching.idle
          | .error _ => Stage.Fetching.idle
      · exact obeys_call (T := terms) (a := Act.replacePartial archive) h₁ fun r => match r with
          | .ok _ => Stage.Fetching.idle
          | .error _ => Stage.Fetching.idle
    refine Tries.tryCatch htry fun g' e he => ?_
    split
    · refine (keeps_unlink he).bind fun g₂ _ h₂ => ?_
      split_ifs
      · exact tries_throw h₂.still
      · exact keeps_attempts h₂
    · refine (keeps_unlink he).bind fun g₂ _ h₂ => ?_
      split_ifs
      · exact tries_throw h₂.still
      · exact keeps_attempts h₂
    · exact tries_throw he.still

theorem keeps_checkSize {variant : Artifacts.Variant} {archive : String} (hg : g.Fetching) :
    Keeps (fun g' _ => g'.Fetching) g (checkSize variant archive) := by
  unfold checkSize
  split_ifs
  · refine (keeps_look (a := .size archive) hg.still hg.still fun _ => rfl).bind fun g₁ n h₁ => ?_
    subst h₁
    split_ifs
    · exact (keeps_unlink hg).bind fun g₂ _ h₂ => keeps_raise h₂.still
    · exact tries_pure hg
  · exact tries_pure hg

theorem keeps_checkDigest {variant : Artifacts.Variant} {archive : String} (hg : g.Fetching) :
    Keeps (fun g' _ => ∃ sha, g' = .hashed archive sha ∧ variant.sha256 = .str sha) g (checkDigest variant archive) := by
  unfold checkDigest
  refine (keeps_act (a := .digest archive) (Q := fun g' sha => g' = .hashed archive sha) hg (fun _ => rfl)
    fun _ => hg.still).bind fun g₁ sha h₁ => ?_
  subst h₁
  by_cases htext : isText variant.sha256 sha = true
  · rw [htext]
    exact tries_pure ⟨sha, rfl, isText_eq htext⟩
  · rw [Bool.not_eq_true] at htext
    rw [htext]
    exact (keeps_unlink .hashed).bind fun g₂ _ h₂ => keeps_raise h₂.still

/-- The archive that `fetch_variant` returns has the hash of the manifest. -/
theorem keeps_fetchVariant {variant : Artifacts.Variant} (hg : g.Fetching) :
    Keeps (fun g' archive => ∃ sha, g' = .hashed archive sha ∧ variant.sha256 = .str sha) g (fetchVariant variant) := by
  unfold fetchVariant
  refine (keeps_look (a := .mkdirCache) hg.still hg.still fun _ => rfl).bind fun g₁ _ h₁ => ?_
  subst h₁
  split
  · rename_i path _
    refine (keeps_isCached hg).bind fun g₂ b h₂ => ?_
    split_ifs with hb
    · exact tries_pure (h₂.2 hb)
    · have hdown : Keeps (fun g' _ => g'.Fetching) g₂ (downloadTo (base path)) :=
        (keeps_look (a := .mkdirCache) h₂.1.still h₂.1.still fun _ => rfl).bind fun g₃ _ h₃ =>
          keeps_attempts (h₃ ▸ h₂.1)
      refine hdown.bind fun g₃ _ h₃ => ?_
      refine (keeps_checkSize h₃).bind fun g₄ _ h₄ => ?_
      exact (keeps_checkDigest h₄).bind fun g₅ _ h₅ => tries_pure h₅
  · exact keeps_raise hg.still

/-- No entry is a link. -/
def Tree.Plain (t : Tree) : Prop := ∀ n target, t.get? n ≠ some (.link target)

theorem plain_put {t : Tree} (h : t.Plain) (n : String) (content : Bytes) : Tree.Plain (t.put n content) := by
  intro k target
  rw [Tree.put]
  split_ifs
  · rw [Dict.get?_set]
    split_ifs
    · simp
    · exact h k target
  · exact h k target

theorem still_filling {sha : String} {c : Contents} {t : Tree} : (Stage.filling sha c t).Still := fun _ => by simp

theorem keeps_extractFile {sha : String} {c : Contents} {t : Tree} (ht : t.Plain) (n : String) (content : Bytes) :
    Keeps (fun g' _ => g' = .filling sha c (t.put n content)) (.filling sha c t) (act (.extractFile n content)) :=
  keeps_act (a := .extractFile n content) ⟨sha, c, t, rfl, ht⟩ (fun _ => rfl) fun _ => Stage.Fetching.idle.still

theorem keeps_extractFiles {sha : String} {c : Contents} : ∀ {members : List TarMember} {t : Tree}, t.Plain →
    Keeps (fun g' _ => g' = .filling sha c (members.foldl addMember t)) (.filling sha c t) (extractFiles members)
  | [], _, _ => tries_pure rfl
  | m :: members, t, ht => by
    rw [extractFiles, List.foldl_cons, addMember]
    cases m.content with
    | file b =>
      refine (keeps_extractFile ht (base m.name) b).bind fun g₁ _ h₁ => ?_
      subst h₁
      exact keeps_extractFiles (plain_put ht _ _)
    | symlink linkname => exact keeps_extractFiles ht
    | other => exact keeps_extractFiles ht

theorem keeps_extractMembers {sha : String} {c : Contents} : ∀ {members : List (String × Bytes)} {t : Tree}, t.Plain →
    Keeps (fun g' _ => g' = .filling sha c (members.foldl addEntry t)) (.filling sha c t) (extractMembers members)
  | [], _, _ => tries_pure rfl
  | m :: members, t, ht => by
    rw [extractMembers, List.foldl_cons, addEntry]
    by_cases hdir : Text.endsWith m.1 "/" = true
    · rw [hdir]
      exact keeps_extractMembers ht
    · rw [Bool.not_eq_true] at hdir
      rw [hdir]
      refine (keeps_extractFile ht (base m.1) m.2).bind fun g₁ _ h₁ => ?_
      subst h₁
      exact keeps_extractMembers (plain_put ht _ _)

theorem linked_add {m : TarMember} {members : List TarMember} {t u : Tree} {linkname : String}
    (hm : m.content = .symlink linkname) (h : Linked members (t.add (base m.name) (base linkname)) u) :
    Linked (m :: members) t u := by
  rw [Tree.add] at h
  split_ifs at h with hthere
  · exact .skip h
  · refine .add hm ?_ h
    rw [Dict.contains, Bool.not_eq_true, Option.isSome_eq_false_iff, Option.isNone_iff_eq_none] at hthere
    exact hthere

theorem keeps_extractLinks {sha : String} {c : Contents} : ∀ {members : List TarMember} {t : Tree},
    Keeps (fun g' _ => ∃ u, g' = .filling sha c u ∧ Linked members t u) (.filling sha c t) (extractLinks members)
  | [], t => tries_pure ⟨t, rfl, .nil⟩
  | m :: members, t => by
    have hskip : Keeps (fun g' _ => ∃ u, g' = .filling sha c u ∧ Linked (m :: members) t u)
        (.filling sha c t) (extractLinks members) :=
      keeps_extractLinks.mono (fun _ _ h => h.imp fun u hu => ⟨hu.1, .skip hu.2⟩) fun _ _ h => h
    rw [extractLinks]
    cases hm : m.content with
    | file b => exact hskip
    | other => exact hskip
    | symlink linkname =>
      refine (keeps_look (a := .linkExists (base m.name)) still_filling still_filling fun _ => rfl).bind fun g₁ b h₁ => ?_
      subst h₁
      cases b with
      | true => exact hskip
      | false =>
        have hmay : Stage.Allows (.filling sha c t) (.symlink (base m.name) (base linkname)) := ⟨sha, c, t, rfl⟩
        have htry : Tries note terms
            (fun g' (_ : Unit) => g' = .filling sha c t ∨ g' = .filling sha c (t.add (base m.name) (base linkname)))
            (fun g' (e : Stop) => g'.Still ∧ (e ≠ .died → g' = .filling sha c t)) (.filling sha c t)
            (act (.symlink (base m.name) (base linkname))) :=
          obeys_call (T := terms) (a := Act.symlink (base m.name) (base linkname)) hmay fun r => match r with
            | .ok _ => Or.inr rfl
            | .error (.raised _) => And.intro still_filling fun _ => rfl
            | .error .died => And.intro Stage.Fetching.idle.still fun h => absurd rfl h
        refine Tries.bind (htry.tryCatch fun g₂ e h₂ => ?_) fun g₃ _ h₃ => ?_
        · split
          · exact tries_pure (.inl (h₂.2 (by simp)))
          · exact tries_throw h₂.1
        · rcases h₃ with rfl | rfl
          · exact hskip
          · exact keeps_extractLinks.mono (fun _ _ h => h.imp fun u hu => ⟨hu.1, linked_add hm hu.2⟩) fun _ _ h => h

theorem plain_empty : Tree.Plain .empty := fun _ _ => by simp

/-- What is extracted is the archive that was hashed. -/
theorem keeps_extract {archive sha : String} :
    Keeps (fun g' _ => ∃ c t, g' = .filling sha c t ∧ c.Unpacked t) (.hashed archive sha) (extract archive) := by
  have hstill : (Stage.clean archive sha).Still := fun _ => by simp
  unfold extract
  refine (keeps_act (a := .mkdirStaging) (Q := fun g' _ => g' = .clean archive sha) ⟨archive, sha, rfl⟩ (fun _ => rfl)
    fun _ => Stage.Fetching.idle.still).bind fun g₁ _ h₁ => ?_
  subst h₁
  dsimp only
  split_ifs
  · refine (keeps_act (a := .getmembers archive) (Q := fun g' members => g' = .filling sha (.tar members) .empty)
      ⟨sha, rfl⟩ (fun _ => rfl) fun _ => hstill).bind fun g₂ members h₂ => ?_
    subst h₂
    refine (keeps_extractFiles plain_empty).bind fun g₃ _ h₃ => ?_
    subst h₃
    exact keeps_extractLinks.mono (fun _ _ h => h.elim fun u hu => ⟨.tar members, u, hu.1, hu.2⟩) fun _ _ h => h
  · refine (keeps_act (a := .namelist archive) (Q := fun g' members => g' = .filling sha (.zip members) .empty)
      ⟨sha, rfl⟩ (fun _ => rfl) fun _ => hstill).bind fun g₂ members h₂ => ?_
    subst h₂
    exact (keeps_extractMembers plain_empty).mono (fun _ _ h => ⟨.zip members, _, h, rfl⟩) fun _ _ h => h
  · exact keeps_raise hstill

theorem keeps_atomicSwap {sha : String} : Keeps (fun g' _ => g' = .idle) (.staged sha) atomicSwap := by
  have hstill : (Stage.staged sha).Still := fun _ => by simp
  have hidle : (Stage.idle).Still := Stage.Fetching.idle.still
  have hin {g : Stage} (hg : ∃ sha, g = .staged sha ∨ g = .aside sha) : Keeps (fun g' _ => g' = .idle) g (do
      act .moveIn
      act .rmtreeOld) := by
    refine (keeps_act (a := .moveIn) (Q := fun g' _ => g' = .idle) hg (fun _ => rfl) fun _ => hidle).bind fun g₁ _ h₁ => ?_
    subst h₁
    exact keeps_look (a := .rmtreeOld) ⟨hidle, by simp⟩ hidle fun _ => rfl
  unfold atomicSwap
  refine (keeps_look (a := .rmtreeOld) ⟨hstill, by simp⟩ hstill fun _ => rfl).bind fun g₁ _ h₁ => ?_
  subst h₁
  refine (keeps_look (a := .destExists) hstill hstill fun _ => rfl).bind fun g₂ b h₂ => ?_
  subst h₂
  cases b with
  | true =>
    refine (keeps_act (a := .moveAside) (Q := fun g' _ => g' = .aside sha) ⟨sha, rfl⟩ (fun _ => rfl)
      fun _ => hidle).bind fun g₃ _ h₃ => ?_
    subst h₃
    exact hin ⟨sha, .inr rfl⟩
  | false => exact hin ⟨sha, .inl rfl⟩

theorem keeps_install {variant : Artifacts.Variant} : Keeps (fun g' _ => g'.Still) .idle (install variant) := by
  unfold install
  refine (keeps_installed Stage.Fetching.idle.still).bind fun g₁ b h₁ => ?_
  subst h₁
  split_ifs
  · exact tries_pure Stage.Fetching.idle.still
  · refine (keeps_fetchVariant .idle).bind fun g₂ archive h₂ => ?_
    obtain ⟨sha, rfl, hsha⟩ := h₂
    refine (keeps_look (a := .rmtreeStaging) ⟨archive, sha, rfl⟩ Stage.Fetching.hashed.still fun _ => rfl).bind
      fun g₃ _ h₃ => ?_
    subst h₃
    refine keeps_extract.bind fun g₄ _ h₄ => ?_
    obtain ⟨c, t, rfl, hunpacked⟩ := h₄
    have hwrite : Keeps (fun g' _ => g' = .staged sha) (.filling sha c t) (writeMarker variant.sha256) := by
      rw [hsha]
      exact keeps_act (a := .writeMarker sha) ⟨c, t, rfl, hunpacked⟩ (fun _ => rfl) fun _ => Stage.Fetching.idle.still
    refine hwrite.bind fun g₅ _ h₅ => ?_
    subst h₅
    refine keeps_atomicSwap.bind fun g₆ _ h₆ => ?_
    subst h₆
    exact (keeps_unlink .idle).mono (fun _ _ h => h.still) fun _ _ h => h

theorem keeps_ensureEngine (call : Call) : Keeps (fun g' _ => g'.Still) .out (ensureEngine call) := by
  have hout : (Stage.out).Still := fun _ => by simp
  have hmanifest : Keeps (fun g' _ => g' = .out) .out (manifestOf call) := by
    unfold manifestOf
    split
    · exact tries_pure rfl
    · exact keeps_look (a := .fetchManifest) hout hout fun _ => rfl
  unfold ensureEngine
  refine hmanifest.bind fun g₁ manifest h₁ => ?_
  subst h₁
  split
  · exact keeps_raise hout
  · rename_i variant _
    refine (keeps_installed hout).bind fun g₂ b h₂ => ?_
    subst h₂
    split_ifs
    · exact tries_pure hout
    · refine (keeps_look (a := .mkdirParent) hout hout fun _ => rfl).bind fun g₃ _ h₃ => ?_
      subst h₃
      refine (keeps_look (a := .openLock) hout hout fun _ => rfl).bind fun g₄ _ h₄ => ?_
      subst h₄
      exact keeps_install.locked (T := terms) rfl (fun _ _ h => ⟨h, hout⟩) fun _ _ h => ⟨h, hout⟩

end Code

end Engines
end LocaiLink
