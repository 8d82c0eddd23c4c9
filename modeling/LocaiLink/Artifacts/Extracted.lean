/-
# What an archive of an engine becomes

`_extract` lays an archive flat in the staging directory, its files first and then its
symlinks, each under the last part of its name. It asks a member for `isfile` and for
`issym`, and a hard link is neither. `extracted_iff` says which of the archives whose
members have different last parts lose nothing.
-/
import LocaiLink.Artifacts.Transaction
import LocaiLink.Base.Triple

namespace LocaiLink
namespace Engines

open Prog

/-! ### The members of an archive -/

inductive Kind
  | file (content : Bytes)
  | hardlink (linkname : String)
  | symlink (linkname : String)
  | other

structure Member where
  name : String
  kind : Kind

/-- What `isfile` and `issym` see of a member. -/
def Kind.seen : Kind → Content
  | .file content => .file content
  | .symlink linkname => .symlink linkname
  | .hardlink _ | .other => .other

def Member.seen (m : Member) : TarMember := ⟨m.name, m.kind.seen⟩

/-- The bytes that the archive has under a last part, and the symlinks that lead to them. A hard link has the
bytes of the member that it names. -/
inductive Leads (members : List Member) : ℕ → String → Bytes → Prop
  | file {name : String} {content : Bytes} (h : ⟨name, .file content⟩ ∈ members) : Leads members 0 (base name) content
  | hardlink {name linkname : String} {k : ℕ} {content : Bytes} (h : ⟨name, .hardlink linkname⟩ ∈ members)
      (hname : linkname ∈ members.map Member.name) (hleads : Leads members k (base linkname) content) :
      Leads members k (base name) content
  | symlink {name linkname : String} {k : ℕ} {content : Bytes} (h : ⟨name, .symlink linkname⟩ ∈ members)
      (hleads : Leads members k (base linkname) content) : Leads members (k + 1) (base name) content

/-- Whether the archive is read as a tar archive. -/
def IsTar (archive : String) : Prop :=
  (Text.endsWith (String.ofList (Text.lower archive.toList)) ".tar.gz" ||
    Text.endsWith (String.ofList (Text.lower archive.toList)) ".tgz") = true

/-! ### What is promised -/

section Promise

variable (F : Formats) (archive : String) (members : List Member) (s : Disk)

/-- A tar archive of such members is in the cache, nothing is in the staging directory, and no operation fails. -/
structure Given : Prop where
  isTar : IsTar archive
  archived : (s.cache.get? archive).bind F.tar = some (members.map Member.seen)
  bases : (members.map fun m => base m.name).Nodup
  vacant : Disk.vacant s.staging = true
  smooth : ∀ n, (s.oracle n).stop = none

/-- `_extract` alone. -/
def extracted : Except Stop Unit × Disk := run (σ := engineSig) (fun a s => s.perform F a) (extract archive).run s

/-- What it leaves in the staging directory. -/
def contents : Tree := (extracted F archive s).2.staging.getD .empty

/-- Every file and every hard link is there with its bytes, a symlink that names a member leads to the bytes of that
member, and nothing else on the disk is touched. -/
structure Extracted : Prop where
  returns : (extracted F archive s).1 = .ok ()
  files : ∀ m ∈ members, ∀ b, m.kind = .file b → (contents F archive s).get? (base m.name) = some (.file b)
  hardlinks : ∀ m ∈ members, ∀ linkname, m.kind = .hardlink linkname → ∀ k b, Leads members k (base m.name) b →
    (contents F archive s).get? (base m.name) = some (.file b)
  symlinks : ∀ m ∈ members, ∀ linkname, m.kind = .symlink linkname → ∀ k b, Leads members k (base linkname) b →
    (contents F archive s).read (base m.name) = some b
  inside : ∀ n, (contents F archive s).contains n = true → Path.Single n
  elsewhere : (extracted F archive s).2 =
    { s with staging := some (contents F archive s), tick := (extracted F archive s).2.tick }

/-- No hard link has bytes, and what has some has a name of its own and is at most forty symlinks away from them. -/
structure Whole : Prop where
  hardlinks : ∀ m ∈ members, ∀ linkname, m.kind = .hardlink linkname → ∀ k b, ¬Leads members k (base m.name) b
  named : ∀ k n b, Leads members k n b → named n = true
  near : ∀ k n b, Leads members k n b → k ≤ 40

end Promise

/-! ### One pass -/

namespace Tree

/-- A symlink is made where there is place for it. -/
def link (n target : String) (t : Tree) : Tree :=
  if named n && !t.contains n && target ≠ "" then t.set n (.link target) else t

end Tree

def addLink (t : Tree) (m : TarMember) : Tree :=
  match m.content with
  | .symlink linkname => if t.exists' (base m.name) then t else t.link (base m.name) (base linkname)
  | _ => t

/-- What is to be there under the last part of a member. -/
def TarMember.node (m : TarMember) : Option Node :=
  match m.content with
  | .file content => some (.file content)
  | .symlink linkname => if named (base m.name) && base linkname ≠ "" then some (.link (base linkname)) else none
  | .other => none

/-- Every file can be opened for writing. -/
def Openable (members : List TarMember) : Prop := ∀ m ∈ members, ∀ b, m.content = .file b → named (base m.name) = true

section Passes

variable {f : Tree → TarMember → Tree}

/-- A pass over the members leaves what is no last part of one. -/
theorem get?_pass (hf : ∀ t m n, n ≠ base m.name → (f t m).get? n = t.get? n) {n : String} :
    ∀ {members : List TarMember} {t : Tree}, n ∉ members.map (fun m => base m.name) → (members.foldl f t).get? n = t.get? n
  | [], _, _ => rfl
  | m :: members, t, hn => by
    rw [List.map_cons, List.mem_cons, not_or] at hn
    rw [List.foldl_cons, get?_pass hf hn.2]
    exact hf t m n hn.1

/-- And what it makes of a last part, it makes at that member. -/
theorem get?_pass_of_mem (hf : ∀ t m n, n ≠ base m.name → (f t m).get? n = t.get? n) {m : TarMember} :
    ∀ {members : List TarMember} {t : Tree}, (members.map fun m => base m.name).Nodup → m ∈ members →
      ∃ t', t'.get? (base m.name) = t.get? (base m.name) ∧ (members.foldl f t).get? (base m.name) = (f t' m).get? (base m.name)
  | m' :: members, t, hnodup, hm => by
    rw [List.map_cons, List.nodup_cons] at hnodup
    rcases List.mem_cons.mp hm with rfl | hm
    · exact ⟨t, rfl, by rw [List.foldl_cons, get?_pass hf hnodup.1]⟩
    · obtain ⟨t', hsame, hget⟩ := get?_pass_of_mem hf (t := f t m') hnodup.2 hm
      have hne : base m.name ≠ base m'.name := fun h => hnodup.1 (h ▸ List.mem_map_of_mem hm)
      exact ⟨t', hsame.trans (hf t m' _ hne), hget⟩

theorem get?_addMember (t : Tree) (m : TarMember) (n : String) (h : n ≠ base m.name) : (addMember t m).get? n = t.get? n := by
  unfold addMember
  split
  · rw [Tree.put]
    split_ifs
    · exact Dict.get?_set_of_ne _ _ h
    · rfl
  · rfl

theorem get?_addLink (t : Tree) (m : TarMember) (n : String) (h : n ≠ base m.name) : (addLink t m).get? n = t.get? n := by
  unfold addLink
  split
  · rw [Tree.link]
    split_ifs
    · rfl
    · exact Dict.get?_set_of_ne _ _ h
    · rfl
  · rfl

end Passes

/-- A last part that has no entry exists only where it names no entry. -/
theorem exists'_of_none {t : Tree} {n : String} (h : t.get? n = none) : t.exists' n = !named n := by
  unfold Tree.exists' Tree.target Tree.follow
  cases hnamed : named n with
  | false => rfl
  | true =>
    rw [if_pos rfl, h]
    simp [Dict.contains, h]

theorem read_of_file {t : Tree} {n : String} {b : Bytes} (hnamed : named n = true) (h : t.get? n = some (.file b)) :
    t.read n = some b := by
  have hfollow : t.target n = .entry n := by
    unfold Tree.target Tree.follow
    rw [if_pos hnamed, h]
  rw [Tree.read, hfollow]
  simp only [h]

theorem named_of_read {t : Tree} {n : String} {b : Bytes} (h : t.read n = some b) : named n = true := by
  by_contra hnamed
  have hfollow : t.target n = .dir := by
    unfold Tree.target Tree.follow
    rw [if_neg hnamed]
  rw [Tree.read, hfollow] at h
  cases h

theorem named_of_single {n : String} (h : Path.Single n) : named n = true := by
  simp [named, h.nonempty, h.dots]

/-- The directory after both passes. -/
def laid (members : List TarMember) : Tree := members.foldl addLink (members.foldl addMember .empty)

section Laid

variable {members : List TarMember} {m : TarMember}

theorem get?_laid (hnodup : (members.map fun m => base m.name).Nodup) (hopen : Openable members) (hm : m ∈ members) :
    (laid members).get? (base m.name) = m.node := by
  obtain ⟨t₁, h₁, hfiles⟩ := get?_pass_of_mem (t := .empty) get?_addMember hnodup hm
  obtain ⟨t₂, h₂, hlinks⟩ := get?_pass_of_mem (t := members.foldl addMember .empty) get?_addLink hnodup hm
  rw [hfiles] at h₂
  have hempty : t₁.get? (base m.name) = none := h₁.trans rfl
  rw [laid, hlinks]
  unfold addMember at h₂
  unfold addLink TarMember.node
  cases hcontent : m.content with
  | file b =>
    rw [hcontent] at h₂
    simp only at h₂ ⊢
    rw [h₂, Tree.put, if_pos (hopen m hm b hcontent), Dict.get?_set, if_pos rfl]
  | other =>
    rw [hcontent] at h₂
    exact h₂.trans hempty
  | symlink linkname =>
    rw [hcontent] at h₂
    have hnone : t₂.get? (base m.name) = none := h₂.trans hempty
    simp only
    rw [exists'_of_none hnone]
    cases hnamed : named (base m.name) with
    | false => simpa using hnone
    | true =>
      have hfree : t₂.contains (base m.name) = false := by simp [Dict.contains, hnone]
      by_cases htarget : base linkname = ""
      · simp [Tree.link, hnamed, htarget, hnone]
      · simp [Tree.link, hnamed, hfree, htarget]

/-- Every entry is that of a member, and has a name of its own. -/
theorem of_contains_laid (hnodup : (members.map fun m => base m.name).Nodup) (hopen : Openable members) {n : String}
    (h : (laid members).contains n = true) : ∃ m ∈ members, base m.name = n ∧ named n = true := by
  obtain ⟨node, hget⟩ := (Dict.contains_iff _ _).mp h
  by_cases hn : n ∈ members.map fun m => base m.name
  · obtain ⟨m, hm, rfl⟩ := List.mem_map.mp hn
    refine ⟨m, hm, rfl, ?_⟩
    rw [get?_laid hnodup hopen hm, TarMember.node] at hget
    cases hcontent : m.content with
    | file b => exact hopen m hm b hcontent
    | other =>
      rw [hcontent] at hget
      cases hget
    | symlink linkname =>
      rw [hcontent] at hget
      simp only at hget
      split_ifs at hget with hplace
      exact (Bool.and_eq_true_iff.mp hplace).1
  · rw [laid, get?_pass get?_addLink hn, get?_pass get?_addMember hn] at hget
    cases hget

/-- A last part that names an entry is a single part of a path. -/
theorem single_base {path : String} (h : named (base path) = true) : Path.Single (base path) := by
  obtain ⟨hne, hdots⟩ := Bool.and_eq_true_iff.mp h
  have hname : base path ≠ "" := of_decide_eq_true hne
  have hmem : base path ∈ (Path.ofString path).parts := by
    unfold base Path.name at hname ⊢
    cases hlast : (Path.ofString path).parts.getLast? with
    | none =>
      rw [hlast] at hname
      exact absurd rfl hname
    | some part => exact List.mem_of_getLast? hlast
  obtain ⟨-, hdot, hslash⟩ := Path.of_mem_parts hmem
  exact ⟨hname, hdot, of_decide_eq_true hdots, hslash⟩

end Laid

/-! ### Where the links lead -/

section Leads

variable {members : List Member} {u : Tree}

/-- What the staging directory has of each member. -/
def Holds (members : List Member) (u : Tree) : Prop := ∀ m ∈ members, u.get? (base m.name) = m.seen.node

/-- With no hard link in the way, forty links are followed to the bytes, and no more. -/
theorem follow_of_leads (hu : Holds members u)
    (hhard : ∀ m ∈ members, ∀ linkname, m.kind = .hardlink linkname → ∀ k b, ¬Leads members k (base m.name) b)
    (hnamed : ∀ k n b, Leads members k n b → named n = true) {k : ℕ} {n : String} {b : Bytes} (h : Leads members k n b) :
    ∀ fuel, (k < fuel → ∃ m, u.follow fuel n = .entry m ∧ u.get? m = some (.file b)) ∧
      (fuel ≤ k → u.follow fuel n = .loop) := by
  induction h with
  | file hm =>
    intro fuel
    have hname := hnamed _ _ _ (.file hm)
    have hget := hu _ hm
    cases fuel with
    | zero => exact ⟨fun hlt => absurd hlt (by omega), fun _ => rfl⟩
    | succ fuel =>
      refine ⟨fun _ => ⟨_, ?_, hget⟩, fun hle => absurd hle (by omega)⟩
      rw [Tree.follow, if_pos hname, hget]
      rfl
  | hardlink hm hname hleads ih => exact absurd (.hardlink hm hname hleads) (hhard _ hm _ rfl _ _)
  | @symlink name linkname k b hm hleads ih =>
    intro fuel
    have hname := hnamed _ _ _ (.symlink hm hleads)
    have htarget : base linkname ≠ "" := of_decide_eq_true (Bool.and_eq_true_iff.mp (hnamed _ _ _ hleads)).1
    have hget := hu _ hm
    cases fuel with
    | zero => exact ⟨fun hlt => absurd hlt (by omega), fun _ => rfl⟩
    | succ fuel =>
      have hnext : u.follow (fuel + 1) (base name) = u.follow fuel (base linkname) := by
        rw [Tree.follow, if_pos hname, hget]
        simp [TarMember.node, Member.seen, Kind.seen, hname, htarget]
      obtain ⟨hreach, hloop⟩ := ih fuel
      rw [hnext]
      exact ⟨fun hlt => hreach (by omega), fun hle => hloop (by omega)⟩

end Leads

/-! ### The run -/

section Run

variable {F : Formats} {s₀ : Disk} {t : Tree}

/-- The disk as it was, but for the staging directory. -/
def Filled (s₀ : Disk) (t : Tree) (s : Disk) : Prop := s = { s₀ with staging := some t, tick := s.tick }

theorem Filled.stop {s : Disk} (h : Filled s₀ t s) (hsmooth : ∀ n, (s₀.oracle n).stop = none) : s.ask.stop = none := by
  rw [Disk.ask, h]
  exact hsmooth _

theorem Filled.staging {s : Disk} (h : Filled s₀ t s) : s.staging = some t := by rw [h]

theorem Filled.tock {s : Disk} (h : Filled s₀ t s) : Filled s₀ t s.tock := by
  rw [h]
  rfl

theorem Filled.stage {s : Disk} (h : Filled s₀ t s) (u : Tree) : Filled s₀ u (s.stage u) := by
  rw [h]
  rfl

/-- An operation that changes nothing. -/
theorem look_smooth {α : Type} {s : Disk} (h : s.ask.stop = none) (v : α) : s.look (.ok v) = (.ok v, s.tock) := by
  rw [Disk.look, h]
  rfl

/-- A directory without links is written through no link. -/
theorem write_of_plain (ht : t.Plain) (n : String) (b : Bytes) :
    t.write n b = if named n then some (t.set n (.file b)) else none := by
  unfold Tree.write Tree.target Tree.follow
  split_ifs with hnamed
  · cases hget : t.get? n with
    | none => rfl
    | some node =>
      cases node with
      | file content => rfl
      | link target => exact absurd hget (ht n target)
  · rfl

abbrev sem (F : Formats) : Sem engineSig Disk := fun a s => s.perform F a

/-- The first pass ends if every file can be opened. -/
theorem triple_extractFiles (hsmooth : ∀ n, (s₀.oracle n).stop = none) : ∀ {members : List TarMember} {t : Tree}, t.Plain →
    Triple (sem F) (Filled s₀ t) (extractFiles members).run
      (Post (fun _ s => Filled s₀ (members.foldl addMember t) s ∧ Openable members) fun _ _ => ¬Openable members)
  | [], _, _ => triple_return fun s hs => ⟨hs, fun _ hm => by cases hm⟩
  | m :: members, t, ht => by
    have hskip (h : ∀ b, m.content ≠ .file b) : Openable (m :: members) ↔ Openable members := by
      simp [Openable, h]
    rw [extractFiles, List.foldl_cons, addMember]
    cases hcontent : m.content with
    | symlink linkname =>
      rw [hskip (by simp [hcontent])]
      exact triple_extractFiles hsmooth ht
    | other =>
      rw [hskip (by simp [hcontent])]
      exact triple_extractFiles hsmooth ht
    | file b =>
      have hopen : Openable (m :: members) ↔ named (base m.name) = true ∧ Openable members := by
        simp [Openable, hcontent]
      rw [hopen]
      refine Triple.raising (R := fun _ s => Filled s₀ (t.put (base m.name) b) s ∧ named (base m.name) = true)
        (triple_call fun s hs => ?_) fun _ => ?_
      · show Post _ _ (Disk.store (Disk.writeAs (base m.name)) b s).1 (Disk.store (Disk.writeAs (base m.name)) b s).2
        rw [Disk.store, hs.stop hsmooth, Disk.writeAs, hs.staging, Option.bind_some, write_of_plain ht, Tree.put]
        by_cases hnamed : named (base m.name) = true
        · rw [if_pos hnamed, if_pos hnamed]
          exact ⟨(hs.stage _).tock, hnamed⟩
        · rw [if_neg hnamed, if_neg hnamed]
          exact fun hboth : named (base m.name) = true ∧ Openable members => hnamed hboth.1
      · refine Triple.assuming (c := named (base m.name) = true) (fun s hs => hs.2) fun hnamed => ?_
        refine Triple.pre (P := Filled s₀ (t.put (base m.name) b)) ?_ fun s hs => hs.1
        refine (triple_extractFiles hsmooth (plain_put ht _ _)).mono fun r s hr => ?_
        cases r with
        | ok a => exact ⟨hr.1, hnamed, hr.2⟩
        | error e => exact fun h => hr h.2

/-- The second pass ends. -/
theorem triple_extractLinks (hsmooth : ∀ n, (s₀.oracle n).stop = none) : ∀ {members : List TarMember} {t : Tree},
    Triple (sem F) (Filled s₀ t) (extractLinks members).run
      (Post (fun _ s => Filled s₀ (members.foldl addLink t) s) fun _ _ => False)
  | [], _ => triple_return fun s hs => hs
  | m :: members, t => by
    rw [extractLinks, List.foldl_cons, addLink]
    cases hcontent : m.content with
    | file b => exact triple_extractLinks hsmooth
    | other => exact triple_extractLinks hsmooth
    | symlink linkname =>
      refine Triple.raising (R := fun there s => Filled s₀ t s ∧ there = t.exists' (base m.name))
        (triple_call fun s hs => ?_) fun there => ?_
      · show Post _ _ (s.look (.ok (s.staging.any fun t => t.exists' (base m.name)))).1
          (s.look (.ok (s.staging.any fun t => t.exists' (base m.name)))).2
        rw [look_smooth (hs.stop hsmooth), hs.staging]
        exact ⟨hs.tock, rfl⟩
      · refine Triple.assuming (c := there = t.exists' (base m.name)) (fun s hs => hs.2) fun hthere => ?_
        refine Triple.pre (P := Filled s₀ t) ?_ fun s hs => hs.1
        subst hthere
        cases hthere : t.exists' (base m.name) with
        | true => exact triple_extractLinks hsmooth
        | false =>
          refine Triple.raising (R := fun _ => Filled s₀ (t.link (base m.name) (base linkname)))
            (Triple.tryCatch (E := fun e s => e = .raised .os ∧ Filled s₀ (t.link (base m.name) (base linkname)) s)
              (triple_call fun s hs => ?_) fun e => ?_) fun _ => triple_extractLinks hsmooth
          · show Post _ _ (s.change (Disk.linkAs (base m.name) (base linkname))).1
              (s.change (Disk.linkAs (base m.name) (base linkname))).2
            rw [Disk.change, hs.stop hsmooth, Disk.linkAs, hs.staging, Option.bind_some, Tree.link]
            by_cases hplace : (named (base m.name) && !t.contains (base m.name) && base linkname ≠ "") = true
            · rw [if_pos hplace, if_pos hplace]
              exact (hs.stage _).tock
            · rw [if_neg hplace, if_neg hplace]
              exact ⟨rfl, hs.tock⟩
          · refine Triple.assuming (fun s hs => hs.1) fun he => ?_
            subst he
            exact triple_return fun s hs => hs.2

/-- Both passes, over the staging directory that there was none of. -/
theorem triple_extract {archive : String} {members : List TarMember} {s : Disk} (htar : IsTar archive)
    (harchived : (s.cache.get? archive).bind F.tar = some members) (hvacant : Disk.vacant s.staging = true)
    (hsmooth : ∀ n, (s.oracle n).stop = none) :
    Triple (sem F) (· = s) (extract archive).run
      (Post (fun _ s' => Filled s (laid members) s' ∧ Openable members) fun _ _ => ¬Openable members) := by
  have hempty : s.staging.getD .empty = .empty := by
    cases hstaging : s.staging with
    | none => rfl
    | some t =>
      rw [hstaging] at hvacant
      exact Dict.ext_entries (List.isEmpty_iff.mp hvacant)
  unfold extract
  refine Triple.raising (R := fun _ => Filled s .empty) (triple_call fun s' hs => ?_) fun _ => ?_
  · subst hs
    show Post _ _ (s'.change fun s => some (s.stage (s.staging.getD .empty))).1
      (s'.change fun s => some (s.stage (s.staging.getD .empty))).2
    rw [Disk.change, show s'.ask.stop = none from hsmooth _, hempty]
    rfl
  · dsimp only
    rw [if_pos (show (_ || _) = true from htar)]
    refine Triple.raising (R := fun seen s' => Filled s .empty s' ∧ seen = members) (triple_call fun s' hs => ?_) fun seen => ?_
    · show Post _ _ (s'.look (((s'.cache.get? archive).bind F.tar).elim (.error (.other "ReadError")) .ok)).1
        (s'.look (((s'.cache.get? archive).bind F.tar).elim (.error (.other "ReadError")) .ok)).2
      have hcache : s'.cache = s.cache := by rw [hs]
      rw [hcache, harchived, Option.elim, look_smooth (hs.stop hsmooth)]
      exact ⟨hs.tock, rfl⟩
    · refine Triple.assuming (fun s hs => hs.2) fun hseen => ?_
      subst hseen
      refine Triple.raising ((triple_extractFiles hsmooth plain_empty).pre fun s hs => hs.1) fun _ => ?_
      refine Triple.assuming (fun s hs => hs.2) fun hopen => ?_
      refine ((triple_extractLinks hsmooth).pre fun s hs => hs.1).mono fun r s' hr => ?_
      cases r with
      | ok a => exact ⟨hr, hopen⟩
      | error e => exact hr.elim

end Run

/-! ### Which archives come out whole -/

section Main

variable {F : Formats} {archive : String} {members : List Member} {s : Disk}

theorem seen_names (members : List Member) : (members.map Member.seen).map (fun m => base m.name) = members.map fun m => base m.name := by
  rw [List.map_map]
  rfl

/-- What a run of `_extract` comes to. -/
theorem post_extracted (h : Given F archive members s) :
    Post (fun _ s' => Filled s (laid (members.map Member.seen)) s' ∧ Openable (members.map Member.seen))
      (fun _ _ => ¬Openable (members.map Member.seen)) (extracted F archive s).1 (extracted F archive s).2 :=
  triple_extract h.isTar h.archived h.vacant h.smooth s rfl

theorem openable_seen : Openable (members.map Member.seen) ↔ ∀ m ∈ members, ∀ b, m.kind = .file b → named (base m.name) = true := by
  constructor
  · intro h m hm b hkind
    exact h m.seen (List.mem_map_of_mem hm) b (by rw [Member.seen, hkind]; rfl)
  · intro h m' hm' b hcontent
    obtain ⟨m, hm, rfl⟩ := List.mem_map.mp hm'
    refine h m hm b ?_
    rw [Member.seen] at hcontent
    cases hkind : m.kind with
    | file content =>
      rw [hkind] at hcontent
      exact congrArg Kind.file (Content.file.inj hcontent)
    | hardlink linkname =>
      rw [hkind] at hcontent
      cases hcontent
    | symlink linkname =>
      rw [hkind] at hcontent
      cases hcontent
    | other =>
      rw [hkind] at hcontent
      cases hcontent

/-- When the files can be opened, what is laid is what is left. -/
theorem extracted_of_openable (h : Given F archive members s) (hopen : Openable (members.map Member.seen)) :
    (extracted F archive s).1 = .ok () ∧ contents F archive s = laid (members.map Member.seen) ∧
      Filled s (laid (members.map Member.seen)) (extracted F archive s).2 := by
  have hpost := post_extracted h
  cases hr : (extracted F archive s).1 with
  | error e =>
    rw [hr] at hpost
    exact absurd hopen hpost
  | ok a =>
    rw [hr] at hpost
    exact ⟨rfl, by rw [contents, hpost.1.staging]; rfl, hpost.1⟩

theorem openable_of_returns (h : Given F archive members s) (hreturns : (extracted F archive s).1 = .ok ()) :
    Openable (members.map Member.seen) := by
  have hpost := post_extracted h
  rw [hreturns] at hpost
  exact hpost.2

/-- A hard link is not there. -/
theorem not_of_hardlink {m : Member} {linkname : String} (hkind : m.kind = .hardlink linkname) : m.seen.node = none := by
  rw [Member.seen, hkind]
  rfl

theorem holds_laid (h : Given F archive members s) (hopen : Openable (members.map Member.seen)) :
    Holds members (laid (members.map Member.seen)) := by
  intro m hm
  have hbases : ((members.map Member.seen).map fun m => base m.name).Nodup := by
    rw [seen_names]
    exact h.bases
  exact get?_laid (m := m.seen) hbases hopen (List.mem_map_of_mem hm)

/-- **Which archives of different last parts come out whole**: those in which no hard link has bytes, and what has some
has a name of its own and no more than forty symlinks before them. -/
theorem extracted_iff (h : Given F archive members s) : Extracted F archive members s ↔ Whole members := by
  have hbases : ((members.map Member.seen).map fun m => base m.name).Nodup := by
    rw [seen_names]
    exact h.bases
  constructor
  · intro he
    have hopen := openable_of_returns h he.returns
    obtain ⟨-, hcontents, -⟩ := extracted_of_openable h hopen
    have hholds := holds_laid h hopen
    rw [← hcontents] at hholds
    have hhard : ∀ m ∈ members, ∀ linkname, m.kind = .hardlink linkname → ∀ k b, ¬Leads members k (base m.name) b := by
      intro m hm linkname hkind k b hleads
      have hget := he.hardlinks m hm linkname hkind k b hleads
      rw [hholds m hm, not_of_hardlink hkind] at hget
      cases hget
    have hread : ∀ k n b, Leads members k n b → (contents F archive s).read n = some b := by
      intro k n b hleads
      cases hleads with
      | @file name content hm =>
        have hget := he.files _ hm b rfl
        have hsingle := he.inside _ ((Dict.contains_iff _ _).mpr ⟨_, hget⟩)
        exact read_of_file (named_of_single hsingle) hget
      | hardlink hm hname hleads => exact absurd (.hardlink hm hname hleads) (hhard _ hm _ rfl _ _)
      | symlink hm hleads => exact he.symlinks _ hm _ rfl _ _ hleads
    have hnamed : ∀ k n b, Leads members k n b → named n = true := fun k n b hleads => named_of_read (hread k n b hleads)
    refine ⟨hhard, hnamed, fun k n b hleads => ?_⟩
    by_contra hfar
    have hloop := (follow_of_leads hholds hhard hnamed hleads 41).2 (by omega)
    have hnone : (contents F archive s).read n = none := by
      rw [Tree.read, Tree.target, hloop]
    exact absurd ((hread k n b hleads).symm.trans hnone) (by simp)
  · intro hw
    have hopen : Openable (members.map Member.seen) := openable_seen.mpr fun m hm b hkind => by
      obtain ⟨name, kind⟩ := m
      obtain rfl := hkind
      exact hw.named 0 _ b (.file hm)
    obtain ⟨hreturns, hcontents, hfilled⟩ := extracted_of_openable h hopen
    have hholds := holds_laid h hopen
    have hread : ∀ k n b, Leads members k n b → (laid (members.map Member.seen)).read n = some b := by
      intro k n b hleads
      obtain ⟨m, hfollow, hget⟩ := (follow_of_leads hholds hw.hardlinks hw.named hleads 41).1 (by have := hw.near k n b hleads; omega)
      rw [Tree.read, Tree.target, hfollow]
      simp only [hget]
    refine ⟨hreturns, ?_, ?_, ?_, ?_, ?_⟩
    · intro m hm b hkind
      rw [hcontents, hholds m hm, Member.seen, hkind]
      rfl
    · intro m hm linkname hkind k b hleads
      exact absurd hleads (hw.hardlinks m hm linkname hkind k b)
    · intro m hm linkname hkind k b hleads
      obtain ⟨name, kind⟩ := m
      obtain rfl := hkind
      rw [hcontents]
      exact hread (k + 1) _ b (.symlink hm hleads)
    · intro n hn
      rw [hcontents] at hn
      obtain ⟨m, -, rfl, hnamed⟩ := of_contains_laid hbases hopen hn
      exact single_base hnamed
    · rw [hcontents]
      exact hfilled

end Main

/-! ### Two archives -/

/-- Reads every archive as one of these members. -/
def holding (members : List Member) : Formats := ⟨fun _ => some (members.map Member.seen), fun _ => none, fun _ => "", by simp⟩

/-- A disk with an archive in the cache, on which no operation fails. -/
def cached : Disk := ⟨none, none, none, Dict.empty.set "llama.tar.gz" [], false, fun _ => {}, 0⟩

theorem given_cached {members : List Member} (h : (members.map fun m => base m.name).Nodup) :
    Given (holding members) "llama.tar.gz" members cached where
  isTar := by
    unfold IsTar
    decide +kernel
  archived := rfl
  bases := h
  vacant := rfl
  smooth _ := rfl

/-- A server with a library under its versioned names. -/
def versioned : List Member :=
  [⟨"bin/llama-server", .file [0x7f]⟩, ⟨"lib/libllama.so", .symlink "libllama.so.0"⟩,
    ⟨"lib/libllama.so.0", .symlink "libllama.so.0.1"⟩, ⟨"lib/libllama.so.0.1", .file [0x45]⟩]

theorem whole_versioned : Whole versioned := by
  have hnohard : ∀ m ∈ versioned, ∀ linkname, m.kind ≠ .hardlink linkname := by simp [versioned]
  have hnames : ∀ m ∈ versioned, named (base m.name) = true := by decide +kernel
  let rank (n : String) : ℕ := if n = "libllama.so" then 2 else if n = "libllama.so.0" then 1 else 0
  have hrank : rank (base "libllama.so.0") < rank (base "lib/libllama.so") ∧
      rank (base "libllama.so.0.1") < rank (base "lib/libllama.so.0") := by decide +kernel
  have hle {k : ℕ} {n : String} {b : Bytes} (h : Leads versioned k n b) : k ≤ rank n := by
    induction h with
    | file hm => exact Nat.zero_le _
    | hardlink hm hname hleads ih => exact absurd rfl (hnohard _ hm _)
    | @symlink name linkname k b hm hleads ih =>
      have hlt : rank (base linkname) < rank (base name) := by
        simp only [versioned, List.mem_cons, Member.mk.injEq, reduceCtorEq, and_false, Kind.symlink.injEq, List.not_mem_nil,
          or_false, false_or] at hm
        rcases hm with ⟨rfl, rfl⟩ | ⟨rfl, rfl⟩
        · exact hrank.1
        · exact hrank.2
      omega
  refine ⟨fun m hm linkname hkind => absurd hkind (hnohard m hm linkname), fun k n b h => ?_, fun k n b h => ?_⟩
  · have hmem : ∃ m ∈ versioned, base m.name = n := by
      cases h with
      | file hm => exact ⟨_, hm, rfl⟩
      | hardlink hm => exact ⟨_, hm, rfl⟩
      | symlink hm => exact ⟨_, hm, rfl⟩
    obtain ⟨m, hm, rfl⟩ := hmem
    exact hnames m hm
  · have htwo : rank n ≤ 2 := by
      show (if n = "libllama.so" then 2 else if n = "libllama.so.0" then 1 else 0) ≤ 2
      split_ifs <;> omega
    have := hle h
    omega

theorem extracted_versioned : Extracted (holding versioned) "llama.tar.gz" versioned cached :=
  (extracted_iff (given_cached (by decide +kernel))).mpr whole_versioned

/-- A server that is there under a second name. -/
def twice : List Member := [⟨"bin/llama-server", .file [0x7f]⟩, ⟨"bin/llama-server-cuda", .hardlink "bin/llama-server"⟩]

/-- The second name of the server is lost. -/
theorem hardlink_lost : ¬∀ F archive members s, Given F archive members s → Extracted F archive members s := by
  intro h
  have hgiven : Given (holding twice) "llama.tar.gz" twice cached := given_cached (by decide +kernel)
  have hw : Whole twice := (extracted_iff hgiven).mp (h _ _ _ _ hgiven)
  have hfile : Leads twice 0 (base "bin/llama-server") [0x7f] := .file (by simp [twice])
  have hlink : (⟨"bin/llama-server-cuda", .hardlink "bin/llama-server"⟩ : Member) ∈ twice := by simp [twice]
  exact hw.hardlinks _ hlink _ rfl 0 [0x7f] (.hardlink hlink (by simp [twice]) hfile)

end Engines
end LocaiLink
