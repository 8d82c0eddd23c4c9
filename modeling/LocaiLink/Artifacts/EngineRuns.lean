/-
# Runs of `ensure_engine`

What the processes know of the disk, in every state they can come to: only the one that
has the lock knows something, and changes something. The engine's directory is complete
from its first installation on, but between two renames (`engine_transactional`). A
process that dies there leaves no engine (`engine_lost`).
-/
import LocaiLink.Artifacts.Transaction

namespace LocaiLink
namespace Engines

open Prog Machine

/-! ### What the actions do -/

namespace Disk

/-- How a change can end. -/
inductive Changed (f : Disk → Option Disk) (s : Disk) : Except Stop Unit × Disk → Prop
  | done {s' : Disk} (hstop : s.ask.stop = none) (hf : f s = some s') : Changed f s (.ok (), s'.tock)
  | raised {e : Raised} (hstop : s.ask.stop ≠ some .died) (hf : s.ask.stop = none → f s = none) :
      Changed f s (.error (.raised e), s.tock)
  | diedAfter {s' : Disk} (hstop : s.ask.stop = some .died) (heffect : s.ask.effect = true) (hf : f s = some s') :
      Changed f s (.error .died, s'.tock)
  | diedBefore (hstop : s.ask.stop = some .died) (hf : s.ask.effect = true → f s = none) :
      Changed f s (.error .died, s.tock)

theorem changed (f : Disk → Option Disk) (s : Disk) : Changed f s (s.change f) := by
  unfold change
  split
  · rename_i hstop
    split
    · rename_i s' hf
      exact .done hstop hf
    · rename_i hf
      exact .raised (by simp [hstop]) fun _ => hf
  · rename_i e hstop
    exact .raised (by simp [hstop]) fun h => by simp [hstop] at h
  · rename_i hstop
    cases hf : f s with
    | none =>
      rw [Option.getD_none, ite_self]
      exact .diedBefore hstop fun _ => hf
    | some s' =>
      rw [Option.getD_some]
      split_ifs with heffect
      · exact .diedAfter hstop heffect hf
      · exact .diedBefore hstop fun h => absurd h heffect

/-- How the writing of a content can end. -/
inductive Stored (f : Bytes → Disk → Option Disk) (content : Bytes) (s : Disk) : Except Stop Unit × Disk → Prop
  | done {s' : Disk} (hf : f content s = some s') : Stored f content s (.ok (), s'.tock)
  | nothing {e : Stop} : Stored f content s (.error e, s.tock)
  | part {e : Stop} {b : Bytes} {s' : Disk} (hf : f b s = some s') : Stored f content s (.error e, s'.tock)

theorem stored (f : Bytes → Disk → Option Disk) (content : Bytes) (s : Disk) : Stored f content s (s.store f content) := by
  unfold store
  split
  · split
    · rename_i s' hf
      exact .done hf
    · exact .nothing
  · cases hf : f s.ask.bytes s with
    | none =>
      rw [Option.getD_none, ite_self]
      exact .nothing
    | some s' =>
      rw [Option.getD_some]
      split_ifs
      · exact .part hf
      · exact .nothing

theorem look_ok {α : Type} {value : Except Raised α} {s : Disk} {x : α} (h : (s.look value).1 = .ok x) :
    value = .ok x := by
  unfold look at h
  dsimp only at h
  split at h
  · cases h
  · cases value with
    | error e => cases h
    | ok v =>
      have heq : v = x := Except.ok.inj h
      rw [heq]

end Disk

/-- Where an archive is told from what stands in the cache. -/
theorem of_elim {α : Type} {o : Option α} {e : Raised} {x : α} (h : (o.elim (.error e) .ok : Except Raised α) = .ok x) :
    o = some x := by
  cases o with
  | none => cases h
  | some y =>
    have heq : y = x := Except.ok.inj h
    rw [heq]

/-! ### What the processes know -/

variable {F : Formats} {P : Prop}

/-- The cached archive has this hash. -/
def HasDigest (F : Formats) (s : Disk) (archive sha : String) : Prop :=
  ∃ content, s.cache.get? archive = some content ∧ F.sha256 content = sha

/-- The extracted contents are those of an archive with this hash. -/
def From (F : Formats) (sha : String) (c : Contents) : Prop := ∃ content, F.sha256 content = sha ∧ F.Reads content c

def Knows (F : Formats) (s : Disk) : Stage → Prop
  | .out | .idle => True
  | .hashed archive sha => HasDigest F s archive sha
  | .clean archive sha => HasDigest F s archive sha ∧ s.staging = some .empty
  | .filling sha c t => From F sha c ∧ s.staging = some t
  | .staged sha | .aside sha => ∃ t, s.staging = some t ∧ Complete F sha t

/-- The lock's holder knows what it knows, and the engine is complete, if it once was: `P`
says so. -/
structure Sound (F : Formats) (P : Prop) (s : Disk) (held : Unit → Option (ℕ × ℕ)) (n : Notes Stage Unit) : Prop where
  holding : ∀ i g, n.each[i]? = some g → g ≠ .out → Holding (σ := engineSig) held () i
  knows : ∀ g ∈ n.each, Knows F s g
  marked : Marked F s
  aside : s.aside = true → s.dest = none ∧ ∃ (i : ℕ) (sha : String), n.each[i]? = some (Stage.aside sha)
  kept : P → Installed F s ∨ s.aside = true

/-- The two states have the same engine, archives and staging directory. -/
structure Alike (s s' : Disk) : Prop where
  dest : s'.dest = s.dest
  staging : s'.staging = s.staging
  cache : s'.cache = s.cache
  aside : s'.aside = s.aside

theorem alike_tock (s : Disk) : Alike s s.tock := ⟨rfl, rfl, rfl, rfl⟩

section Steps

variable {s s' : Disk} {held held' : Unit → Option (ℕ × ℕ)} {n : Notes Stage Unit} {i : ℕ} {g g' : Stage}

theorem Knows.alike (h : Alike s s') (hk : Knows F s g) : Knows F s' g := by
  cases g with
  | out => trivial
  | idle => trivial
  | hashed archive sha =>
    unfold Knows HasDigest at *
    rwa [h.cache]
  | clean archive sha =>
    unfold Knows HasDigest at *
    rwa [h.cache, h.staging]
  | filling sha c t =>
    unfold Knows at *
    rwa [h.staging]
  | staged sha =>
    unfold Knows at *
    rwa [h.staging]
  | aside sha =>
    unfold Knows at *
    rwa [h.staging]

theorem Marked.same (hdest : s'.dest = s.dest) (h : Marked F s) : Marked F s' := by
  unfold Marked
  rwa [hdest]

theorem Installed.same (hdest : s'.dest = s.dest) (h : Installed F s) : Installed F s' := by
  unfold Installed
  rwa [hdest]

/-- While a process is at it, the others are not. -/
theorem Sound.others (h : Sound F P s held n) (hg : n.each[i]? = some g) (hne : g ≠ .out) {j : ℕ} {g₁ : Stage}
    (hj : n.each[j]? = some g₁) (hij : j ≠ i) : g₁ = .out := by
  by_contra hout
  exact hij ((h.holding j g₁ hj hout).unique (h.holding i g hg hne))

theorem Sound.not_aside (h : Sound F P s held n) (hg : n.each[i]? = some g) (hne : g ≠ .out) (hstill : g.Still) :
    s.aside = false := by
  by_contra haside
  rw [Bool.not_eq_false] at haside
  obtain ⟨-, j, sha, hj⟩ := h.aside haside
  by_cases hij : j = i
  · subst hij
    exact hstill sha (Option.some.inj (hg.symm.trans hj))
  · have hout := h.others hg hne hj hij
    cases hout

/-- A step that leaves what the processes know of as it is. -/
theorem Sound.note (h : Sound F P s held n) (hg : n.each[i]? = some g) (hsame : Alike s s') (hstill : g.Still)
    (hout : g' ≠ .out → g ≠ .out) (hk : Knows F s' g') : Sound F P s' held ⟨n.each.set i g', ()⟩ := by
  refine ⟨?_, ?_, h.marked.same hsame.dest, ?_, ?_⟩
  · intro j g₁ hj hne
    rcases getElem?_set_cases hj with ⟨rfl, rfl⟩ | ⟨-, hj⟩
    · exact h.holding j g hg (hout hne)
    · exact h.holding j g₁ hj hne
  · intro g₁ hg₁
    rcases List.mem_or_eq_of_mem_set hg₁ with hold | rfl
    · exact (h.knows g₁ hold).alike hsame
    · exact hk
  · intro haside
    rw [hsame.aside] at haside
    obtain ⟨hdest, j, sha, hj⟩ := h.aside haside
    refine ⟨hsame.dest.trans hdest, j, sha, ?_⟩
    have hij : i ≠ j := by
      rintro rfl
      exact hstill sha (Option.some.inj (hg.symm.trans hj))
    change (n.each.set i g')[j]? = some (Stage.aside sha)
    rw [List.getElem?_set_ne hij]
    exact hj
  · intro hP
    rw [hsame.aside]
    exact (h.kept hP).imp_left fun hi => hi.same hsame.dest

/-- A step of the process that has the lock. -/
theorem Sound.alone (h : Sound F P s held n) (hg : n.each[i]? = some g) (hne : g ≠ .out) (hk : Knows F s' g')
    (hmarked : Marked F s') (haside : s'.aside = true → s'.dest = none ∧ ∃ sha, g' = Stage.aside sha)
    (hkept : P → Installed F s' ∨ s'.aside = true) : Sound F P s' held ⟨n.each.set i g', ()⟩ := by
  have hlt : i < n.each.length := (List.getElem?_eq_some_iff.mp hg).1
  refine ⟨?_, ?_, hmarked, ?_, hkept⟩
  · intro j g₁ hj hne₁
    rcases getElem?_set_cases hj with ⟨rfl, rfl⟩ | ⟨-, hj⟩
    · exact h.holding j g hg hne
    · exact h.holding j g₁ hj hne₁
  · intro g₁ hg₁
    obtain ⟨j, hj⟩ := List.mem_iff_getElem?.mp hg₁
    rcases getElem?_set_cases hj with ⟨rfl, rfl⟩ | ⟨hij, hj⟩
    · exact hk
    · rw [h.others hg hne hj hij]
      trivial
  · intro ha
    obtain ⟨hdest, sha, rfl⟩ := haside ha
    exact ⟨hdest, i, sha, List.getElem?_set_self hlt⟩

/-- A step of the process that has the lock, which leaves the engine alone. -/
theorem Sound.work (h : Sound F P s held n) (hg : n.each[i]? = some g) (hne : g ≠ .out) (hstill : g.Still)
    (hdest : s'.dest = s.dest) (haside : s'.aside = s.aside) (hk : Knows F s' g') :
    Sound F P s' held ⟨n.each.set i g', ()⟩ := by
  have hnot := h.not_aside hg hne hstill
  refine h.alone hg hne hk (h.marked.same hdest) ?_ fun hP => ?_
  · intro ha
    rw [haside, hnot] at ha
    cases ha
  · rw [haside]
    exact (h.kept hP).imp_left fun hi => hi.same hdest

/-! ### Where a run goes well -/

/-- The entry that a name leads to. -/
def Target.leadsTo : Target → Option String
  | .entry n => some n
  | _ => none

/-- Nothing stays of an earlier staging directory, the marker is written to no other entry,
and no process dies or fails between its two renames. -/
def Clean (a : Act) (s : Disk) : Prop :=
  match a with
  | .mkdirStaging => ∀ t ∈ s.staging, t.entries = []
  | .writeMarker _ => ∀ t ∈ s.staging, ∀ n ∈ (t.target MARKER).leadsTo, n = MARKER
  | .moveAside => s.ask.stop = some .died → s.ask.effect = true → s.toOld.isNone
  | .moveIn => s.aside = true → s.ask.stop = none ∨ (s.ask.stop = some .died ∧ s.ask.effect = true)
  | _ => True

instance (a : Act) (s : Disk) : Decidable (Clean a s) := by
  cases a with
  | mkdirStaging => exact inferInstanceAs (Decidable (∀ t ∈ s.staging, t.entries = []))
  | writeMarker =>
    exact inferInstanceAs (Decidable (∀ t ∈ s.staging, ∀ n ∈ (t.target MARKER).leadsTo, n = MARKER))
  | moveAside =>
    exact inferInstanceAs (Decidable (s.ask.stop = some .died → s.ask.effect = true → s.toOld.isNone))
  | moveIn =>
    exact inferInstanceAs (Decidable (s.aside = true → s.ask.stop = none ∨ (s.ask.stop = some .died ∧ s.ask.effect = true)))
  | _ => exact inferInstanceAs (Decidable True)

theorem HasDigest.from {archive sha : String} {c : Contents} (h : HasDigest F s archive sha)
    (hc : ∀ content, s.cache.get? archive = some content → F.Reads content c) : From F sha c := by
  obtain ⟨content, hget, hsha⟩ := h
  exact ⟨content, hsha, hc content hget⟩

/-- In a directory without links a file is written where its name says. -/
theorem write_plain {t t' : Tree} (ht : t.Plain) {n' : String} {b : Bytes} (h : t.write n' b = some t') :
    t' = t.put n' b := by
  unfold Tree.write Tree.target Tree.follow at h
  rw [Tree.put]
  split_ifs at h ⊢ with hnamed
  · cases hget : t.get? n' with
    | none =>
      rw [hget] at h
      exact (Option.some.inj h).symm
    | some node =>
      cases node with
      | file content =>
        rw [hget] at h
        exact (Option.some.inj h).symm
      | link target => exact absurd hget (ht n' target)

/-- What writing a file of the staging directory comes to. -/
theorem of_writeAs {t : Tree} (hstaging : s.staging = some t) {name : String} {b : Bytes} (h : s.writeAs name b = some s') :
    ∃ t', t.write name b = some t' ∧ s' = s.stage t' := by
  rw [Disk.writeAs, hstaging, Option.bind_some, Option.map_eq_some_iff] at h
  obtain ⟨t', ht', rfl⟩ := h
  exact ⟨t', ht', rfl⟩

theorem Sound.extractFile (h : Sound F P s held n) (hg : n.each[i]? = some g) {name : String} {content : Bytes}
    (hmay : g.Allows (.extractFile name content)) {r : Except Stop Unit × Disk}
    (hr : Disk.Stored (Disk.writeAs name) content s r) :
    Sound F P r.2 held ⟨n.each.set i (noteAct (.extractFile name content) r.1 g), ()⟩ := by
  obtain ⟨sha, c, t, rfl, hplain⟩ := hmay
  obtain ⟨hfrom, hstaging⟩ := h.knows _ (List.mem_of_getElem? hg)
  cases hr with
  | done hf =>
    obtain ⟨t', ht', rfl⟩ := of_writeAs hstaging hf
    obtain rfl := write_plain hplain ht'
    exact h.work hg (by simp) still_filling rfl rfl ⟨hfrom, rfl⟩
  | nothing => exact h.work hg (by simp) still_filling rfl rfl trivial
  | part hf =>
    obtain ⟨t', -, rfl⟩ := of_writeAs hstaging hf
    exact h.work hg (by simp) still_filling rfl rfl trivial

theorem Sound.symlink (h : Sound F P s held n) (hg : n.each[i]? = some g) {name target : String}
    (hmay : g.Allows (.symlink name target)) {r : Except Stop Unit × Disk}
    (hr : Disk.Changed (Disk.linkAs name target) s r) :
    Sound F P r.2 held ⟨n.each.set i (noteAct (.symlink name target) r.1 g), ()⟩ := by
  obtain ⟨sha, c, t, rfl⟩ := hmay
  obtain ⟨hfrom, hstaging⟩ := h.knows _ (List.mem_of_getElem? hg)
  have hf {s' : Disk} (hs' : s.linkAs name target = some s') : s' = s.stage (t.add name target) := by
    rw [Disk.linkAs, hstaging, Option.bind_some] at hs'
    obtain ⟨hfree, hs'⟩ := Option.ite_none_right_eq_some.mp hs'
    simp only [Bool.and_eq_true, Bool.not_eq_true'] at hfree
    rw [Tree.add, hfree.1.2]
    exact (Option.some.inj hs').symm
  cases hr with
  | done hstop hs' =>
    obtain rfl := hf hs'
    exact h.work hg (by simp) still_filling rfl rfl ⟨hfrom, rfl⟩
  | raised => exact h.work hg (by simp) still_filling rfl rfl ⟨hfrom, hstaging⟩
  | diedAfter hstop heffect hs' =>
    obtain rfl := hf hs'
    exact h.work hg (by simp) still_filling rfl rfl trivial
  | diedBefore => exact h.work hg (by simp) still_filling rfl rfl trivial

theorem Sound.writeMarker (h : Sound F P s held n) (hg : n.each[i]? = some g) {sha : String}
    (hmay : g.Allows (.writeMarker sha)) (hclean : Clean (.writeMarker sha) s) {r : Except Stop Unit × Disk}
    (hr : Disk.Stored (Disk.writeAs MARKER) (Bytes.encode sha) s r) :
    Sound F P r.2 held ⟨n.each.set i (noteAct (.writeMarker sha) r.1 g), ()⟩ := by
  obtain ⟨c, t, rfl, hunpacked⟩ := hmay
  obtain ⟨⟨content, hsha, hreads⟩, hstaging⟩ := h.knows _ (List.mem_of_getElem? hg)
  cases hr with
  | done hf =>
    obtain ⟨t', ht', rfl⟩ := of_writeAs hstaging hf
    have hwritten : t' = t.set MARKER (.file (Bytes.encode sha)) := by
      unfold Tree.write at ht'
      split at ht'
      · rename_i m hm
        have hmarker : m = MARKER := hclean t hstaging m (by rw [hm]; rfl)
        rw [hmarker] at ht'
        exact (Option.some.inj ht').symm
      · cases ht'
    exact h.work hg (by simp) still_filling rfl rfl ⟨t', rfl, content, c, t, hsha, hreads, hunpacked, hwritten⟩
  | nothing => exact h.work hg (by simp) still_filling rfl rfl trivial
  | part hf =>
    obtain ⟨t', -, rfl⟩ := of_writeAs hstaging hf
    exact h.work hg (by simp) still_filling rfl rfl trivial

theorem Sound.mkdirStaging (h : Sound F P s held n) (hg : n.each[i]? = some g) (hmay : g.Allows .mkdirStaging)
    (hclean : Clean .mkdirStaging s) {r : Except Stop Unit × Disk}
    (hr : Disk.Changed (fun s => some (s.stage (s.staging.getD .empty))) s r) :
    Sound F P r.2 held ⟨n.each.set i (noteAct .mkdirStaging r.1 g), ()⟩ := by
  obtain ⟨archive, sha, rfl⟩ := hmay
  have hdigest : HasDigest F s archive sha := h.knows _ (List.mem_of_getElem? hg)
  have hstill : (Stage.hashed archive sha).Still := Stage.Fetching.hashed.still
  have hnew : s.staging.getD .empty = .empty := by
    cases hstaging : s.staging with
    | none => rfl
    | some t => exact Dict.ext_entries (hclean t hstaging)
  cases hr with
  | done hstop hs' =>
    obtain rfl := Option.some.inj hs'
    exact h.work hg (by simp) hstill rfl rfl ⟨hdigest, congrArg some hnew⟩
  | raised => exact h.work hg (by simp) hstill rfl rfl trivial
  | diedAfter hstop heffect hs' =>
    obtain rfl := Option.some.inj hs'
    exact h.work hg (by simp) hstill rfl rfl trivial
  | diedBefore => exact h.work hg (by simp) hstill rfl rfl trivial

/-- A complete engine is no empty directory. -/
theorem Complete.not_vacant {sha : String} {t : Tree} (h : Complete F sha t) : Disk.vacant (some t) = false := by
  obtain ⟨content, c, u, -, -, -, rfl⟩ := h
  have hget : Dict.get? (u.set MARKER (.file (Bytes.encode sha))) MARKER = some (.file (Bytes.encode sha)) :=
    Dict.get?_set_self ..
  rw [Disk.vacant, List.isEmpty_eq_false_iff]
  intro hnil
  rw [Dict.get?, hnil] at hget
  cases hget

theorem Sound.moveAside (h : Sound F P s held n) (hg : n.each[i]? = some g) (hmay : g.Allows .moveAside)
    (hclean : Clean .moveAside s) {r : Except Stop Unit × Disk} (hr : Disk.Changed Disk.toOld s r) :
    Sound F P { r.2 with aside := r.1.toBool } held ⟨n.each.set i (noteAct .moveAside r.1 g), ()⟩ := by
  obtain ⟨sha, rfl⟩ := hmay
  have hne : Stage.staged sha ≠ .out := by simp
  have hstaged : ∃ t, s.staging = some t ∧ Complete F sha t := h.knows _ (List.mem_of_getElem? hg)
  have hnot : s.aside = false := h.not_aside hg hne fun _ => by simp
  have hunmoved : P → Installed F s := fun hP => (h.kept hP).resolve_right (by simp [hnot])
  cases hr with
  | @done s' hstop hs' =>
    rw [Disk.toOld] at hs'
    obtain ⟨-, hs'⟩ := Option.ite_none_right_eq_some.mp hs'
    obtain ⟨t, -, rfl⟩ := Option.map_eq_some_iff.mp hs'
    refine h.alone hg hne hstaged (fun t sha ht => ?_) (fun _ => ⟨rfl, sha, rfl⟩) fun _ => .inr rfl
    cases ht
  | raised => exact h.alone hg hne trivial h.marked (fun ha => by cases ha) fun hP => .inl (hunmoved hP)
  | diedAfter hstop heffect hs' =>
    rw [Option.isNone_iff_eq_none.mp (hclean hstop heffect)] at hs'
    cases hs'
  | diedBefore => exact h.alone hg hne trivial h.marked (fun ha => by cases ha) fun hP => .inl (hunmoved hP)

theorem Sound.moveIn (h : Sound F P s held n) (hg : n.each[i]? = some g) (hmay : g.Allows .moveIn)
    (hclean : Clean .moveIn s) {r : Except Stop Unit × Disk} (hr : Disk.Changed Disk.toDest s r) :
    Sound F P { r.2 with aside := false } held ⟨n.each.set i (noteAct .moveIn r.1 g), ()⟩ := by
  obtain ⟨sha, hmay⟩ := hmay
  have hne : g ≠ .out := by rcases hmay with rfl | rfl <;> simp
  have hstaged : ∃ t, s.staging = some t ∧ Complete F sha t := by
    have hknows := h.knows _ (List.mem_of_getElem? hg)
    rcases hmay with rfl | rfl
    · exact hknows
    · exact hknows
  obtain ⟨t, hstaging, hcomplete⟩ := hstaged
  have hmoved {s' : Disk} (hs' : s.toDest = some s') : s'.dest = some t := by
    rw [Disk.toDest] at hs'
    obtain ⟨-, hs'⟩ := Option.ite_none_right_eq_some.mp hs'
    obtain ⟨t', ht', rfl⟩ := Option.map_eq_some_iff.mp hs'
    exact ht'.symm.trans hstaging
  have hnew {s' : Disk} (hs' : s'.dest = some t) : Marked F s' := by
    intro t' sha' ht' hmarker
    obtain rfl := Option.some.inj (hs'.symm.trans ht')
    rw [marker_of_complete hcomplete] at hmarker
    exact Option.some.inj hmarker ▸ hcomplete
  have hfails (hdest : s.toDest = none) : P → Installed F s := by
    intro hP
    rcases h.kept hP with hi | ha
    · exact hi
    · rw [Disk.toDest, (h.aside ha).1, hstaging] at hdest
      cases hdest
  cases hr with
  | @done s' hstop hs' =>
    have hdest : s'.dest = some t := hmoved hs'
    exact h.alone hg hne trivial ((hnew hdest).same rfl) (fun ha => by cases ha) fun _ => .inl ⟨t, sha, hdest, hcomplete⟩
  | raised hstop hs' =>
    refine h.alone hg hne trivial h.marked (fun ha => by cases ha) fun hP => .inl ?_
    rcases h.kept hP with hi | ha
    · exact hi
    · rcases hclean ha with hnone | hdied
      · exact hfails (hs' hnone) hP
      · exact absurd hdied.1 hstop
  | @diedAfter s' hstop heffect hs' =>
    have hdest : s'.dest = some t := hmoved hs'
    exact h.alone hg hne trivial ((hnew hdest).same rfl) (fun ha => by cases ha) fun _ => .inl ⟨t, sha, hdest, hcomplete⟩
  | diedBefore hstop hs' =>
    refine h.alone hg hne trivial h.marked (fun ha => by cases ha) fun hP => .inl ?_
    rcases h.kept hP with hi | ha
    · exact hi
    · rcases hclean ha with hnone | hdied
      · rw [hstop] at hnone
        cases hnone
      · exact hfails (hs' hdied.2) hP

/-- The archive that is read is the one that was hashed. -/
theorem Sound.opened (h : Sound F P s held n) (hg : n.each[i]? = some g) {archive sha : String} (hgs : g = .clean archive sha)
    (hsame : Alike s s') {c : Contents} (hreads : ∀ content, s.cache.get? archive = some content → F.Reads content c) :
    Sound F P s' held ⟨n.each.set i (.filling sha c .empty), ()⟩ := by
  subst hgs
  have hknows : HasDigest F s archive sha ∧ s.staging = some .empty := h.knows _ (List.mem_of_getElem? hg)
  exact h.work hg (by simp) (fun _ => by simp) hsame.dest hsame.aside
    ⟨hknows.1.from hreads, hsame.staging.trans hknows.2⟩

/-- Every action of the code keeps what is known. -/
theorem Sound.act (h : Sound F P s held n) (hg : n.each[i]? = some g) {a : Act} (hmay : g.Allows a) (hclean : Clean a s) :
    Sound F P (s.perform F a).2 held ⟨n.each.set i (noteAct a (s.perform F a).1 g), ()⟩ := by
  have hknows := h.knows g (List.mem_of_getElem? hg)
  have hlook (hstill : g.Still) : Sound F P s.tock held ⟨n.each.set i g, ()⟩ :=
    h.note hg (alike_tock s) hstill id (hknows.alike (alike_tock s))
  have hfetch (hmay : g.Fetching) {s' : Disk} (hdest : s'.dest = s.dest) (haside : s'.aside = s.aside) :
      Sound F P s' held ⟨n.each.set i .idle, ()⟩ :=
    h.work hg (by rintro rfl; cases hmay) hmay.still hdest haside trivial
  cases a with
  | fetchManifest => exact hlook hmay
  | isDir => exact hlook hmay
  | markerExists => exact hlook hmay
  | readMarker => exact hlook hmay
  | mkdirParent => exact hlook hmay
  | openLock => exact hlook hmay
  | mkdirCache => exact hlook hmay
  | cached archive => exact hlook hmay
  | size archive => exact hlook hmay
  | linkExists name => exact hlook hmay
  | destExists => exact hlook hmay
  | digest archive =>
    have hstill : g.Still := Stage.Fetching.still hmay
    change Sound F P s.tock held _
    cases hr : (s.perform F (.digest archive)).1 with
    | error e => exact hlook hstill
    | ok sha =>
      obtain ⟨content, hget, hsha⟩ : ∃ content, s.cache.get? archive = some content ∧ F.sha256 content = sha := by
        have hok := Disk.look_ok hr
        cases hget : s.cache.get? archive with
        | none =>
          rw [hget] at hok
          cases hok
        | some content =>
          rw [hget] at hok
          exact ⟨content, rfl, Except.ok.inj hok⟩
      refine h.note hg (alike_tock s) hstill (fun _ => ?_) ⟨content, hget, hsha⟩
      rintro rfl
      cases hmay
  | retrieve archive =>
    have hr := Disk.stored (fun b s => some (s.cacheAs (partialName archive) b)) s.ask.bytes s
    change Sound F P (s.store _ _).2 held ⟨n.each.set i .idle, ()⟩
    cases hr' : s.store (fun b s => some (s.cacheAs (partialName archive) b)) s.ask.bytes with
    | mk r s' =>
      rw [hr'] at hr
      cases hr with
      | done hf => exact Option.some.inj hf ▸ hfetch hmay rfl rfl
      | nothing => exact hfetch hmay rfl rfl
      | part hf => exact Option.some.inj hf ▸ hfetch hmay rfl rfl
  | replacePartial archive =>
    have hf {s' : Disk} (hs' : s.takePartial archive = some s') : s'.dest = s.dest ∧ s'.aside = s.aside := by
      obtain ⟨b, -, rfl⟩ := Option.map_eq_some_iff.mp hs'
      exact ⟨rfl, rfl⟩
    have hr := Disk.changed (Disk.takePartial archive) s
    change Sound F P (s.change _).2 held ⟨n.each.set i .idle, ()⟩
    cases hr' : s.change (Disk.takePartial archive) with
    | mk r s' =>
      rw [hr'] at hr
      cases hr with
      | done _ hs' => exact hfetch hmay (hf hs').1 (hf hs').2
      | raised => exact hfetch hmay rfl rfl
      | diedAfter _ _ hs' => exact hfetch hmay (hf hs').1 (hf hs').2
      | diedBefore => exact hfetch hmay rfl rfl
  | unlinkCached file =>
    have hr := Disk.changed (fun s => some (s.uncache file)) s
    change Sound F P (s.change _).2 held ⟨n.each.set i .idle, ()⟩
    cases hr' : s.change (fun s => some (s.uncache file)) with
    | mk r s' =>
      rw [hr'] at hr
      cases hr with
      | done _ hs' => exact Option.some.inj hs' ▸ hfetch hmay rfl rfl
      | raised => exact hfetch hmay rfl rfl
      | diedAfter _ _ hs' => exact Option.some.inj hs' ▸ hfetch hmay rfl rfl
      | diedBefore => exact hfetch hmay rfl rfl
  | rmtreeStaging =>
    obtain ⟨archive, sha, rfl⟩ := hmay
    exact h.work hg (by simp) Stage.Fetching.hashed.still rfl rfl hknows
  | rmtreeOld =>
    exact h.note hg ⟨rfl, rfl, rfl, rfl⟩ hmay.1 id (hknows.alike ⟨rfl, rfl, rfl, rfl⟩)
  | getmembers archive =>
    obtain ⟨sha, rfl⟩ := hmay
    change Sound F P s.tock held _
    cases hr : (s.perform F (.getmembers archive)).1 with
    | error e => exact hlook fun _ => by simp
    | ok members =>
      refine h.opened hg rfl (alike_tock s) (c := .tar members) fun content hget => ?_
      have hok := of_elim (Disk.look_ok hr)
      rw [hget] at hok
      exact hok
  | namelist archive =>
    obtain ⟨sha, rfl⟩ := hmay
    change Sound F P s.tock held _
    cases hr : (s.perform F (.namelist archive)).1 with
    | error e => exact hlook fun _ => by simp
    | ok members =>
      refine h.opened hg rfl (alike_tock s) (c := .zip members) fun content hget => ?_
      have hok := of_elim (Disk.look_ok hr)
      rw [hget] at hok
      exact hok
  | mkdirStaging => exact h.mkdirStaging hg hmay hclean (Disk.changed _ s)
  | extractFile name content => exact h.extractFile hg hmay (Disk.stored _ content s)
  | symlink name target => exact h.symlink hg hmay (Disk.changed _ s)
  | writeMarker sha => exact h.writeMarker hg hmay hclean (Disk.stored _ _ s)
  | moveAside => exact h.moveAside hg hmay hclean (Disk.changed _ s)
  | moveIn => exact h.moveIn hg hmay hclean (Disk.changed _ s)

theorem Sound.lock (h : Sound F P s held n) (hg : n.each[i]? = some g) (hout : g = .out)
    (hl : (machine F).acquire held () i = some held') : Sound F P s held' ⟨n.each.set i .idle, ()⟩ := by
  subst hout
  refine ⟨?_, ?_, h.marked, ?_, h.kept⟩
  · intro j g₁ hj hne
    rcases getElem?_set_cases hj with ⟨rfl, rfl⟩ | ⟨-, hj⟩
    · exact holding_acquire hl
    · exact (h.holding j g₁ hj hne).acquire hl
  · intro g₁ hg₁
    rcases List.mem_or_eq_of_mem_set hg₁ with hold | rfl
    · exact h.knows g₁ hold
    · trivial
  · intro ha
    obtain ⟨hdest, j, sha, hj⟩ := h.aside ha
    exact ⟨hdest, j, sha, (getElem?_set_iff hg (by simp) (by simp)).mpr hj⟩

theorem Sound.unlock (h : Sound F P s held n) (hg : n.each[i]? = some g) (hstill : g.Still)
    (hl : release (σ := engineSig) held () i = some held') : Sound F P s held' ⟨n.each.set i .out, ()⟩ := by
  refine ⟨?_, ?_, h.marked, ?_, h.kept⟩
  · intro j g₁ hj hne
    rcases getElem?_set_cases hj with ⟨rfl, rfl⟩ | ⟨hij, hj⟩
    · exact absurd rfl hne
    · exact (h.holding j g₁ hj hne).release hl fun _ => hij
  · intro g₁ hg₁
    rcases List.mem_or_eq_of_mem_set hg₁ with hold | rfl
    · exact h.knows g₁ hold
    · trivial
  · intro ha
    obtain ⟨hdest, j, sha, hj⟩ := h.aside ha
    exact ⟨hdest, j, sha, (getElem?_set_iff hg (fun heq => hstill sha heq.symm) (by simp)).mpr hj⟩

theorem Sound.enter (h : Sound F P s held n) : Sound F P s held ⟨n.each ++ [.out], ()⟩ := by
  refine ⟨?_, ?_, h.marked, ?_, h.kept⟩
  · intro j g₁ hj hne
    rcases getElem?_concat_cases hj with hj | ⟨-, rfl⟩
    · exact h.holding j g₁ hj hne
    · exact absurd rfl hne
  · intro g₁ hg₁
    rcases List.mem_append.mp hg₁ with hold | hnew
    · exact h.knows g₁ hold
    · rw [List.mem_singleton.mp hnew]
      trivial
  · intro ha
    obtain ⟨hdest, j, sha, hj⟩ := h.aside ha
    exact ⟨hdest, j, sha, getElem?_concat_of hj⟩

end Steps

/-! ### Runs -/

/-- A process that has moved the engine aside is to move the new one in. -/
theorem Stage.Allows.of_aside {sha : String} {a : Act} (h : (Stage.aside sha).Allows a) : a = .moveIn := by
  cases a with
  | moveIn => rfl
  | digest | retrieve | replacePartial | unlinkCached => cases h
  | rmtreeOld => exact absurd rfl (h.1 sha)
  | rmtreeStaging | mkdirStaging | extractFile | symlink | getmembers | namelist | writeMarker | moveAside =>
    simp [Stage.Allows] at h
  | _ => exact absurd rfl (h sha)

/-- A process that is alive has moved the engine aside, and is to move the new one in next. -/
def Between (c : Sys engineSig Disk) : Prop := c.shared.aside = true ∧ ∃ (i : ℕ) (k : _), c.threads[i]? = some (.act .moveIn k)

def born (_ : Call) (_ : Disk) : Stage := .out

def unmarked (h : Unit) (_ : Stage) (_ : Act) : Unit := h

/-- What is known stays known along a run that goes well. -/
theorem exec_sound {es : List (Ev Call)} {c d : Sys engineSig Disk} {n : Notes Stage Unit}
    (hb : Pledged note terms Stage.Still c n.each) (h : Sound F P c.shared c.held n)
    (hm : (machine F).Meets Clean c es) (he : (machine F).exec c es = some d) :
    ∃ n', Pledged note terms Stage.Still d n'.each ∧ Sound F P d.shared d.held n' := by
  have hnoted : (machine F).MeetsNoted note born unmarked (fun s _ _ a => Clean a s) c n es :=
    meetsNoted_of_meets (M := machine F) (G := Stage) (H := Unit) (D := Clean) (fun _ _ _ _ h => h) hm
  refine ⟨_, exec_pledged (I := Sound F P) (Q := Stage.Still) ?_ ?_ ?_ ?_ hb h hnoted he⟩
  · intro s held n i g a h hg hmay hclean
    exact h.act hg hmay hclean
  · intro s held held' n i g l h hg hout hl
    exact h.lock hg hout hl
  · intro s held held' n i g l h hg hstill hl
    exact h.unlock hg hstill hl
  · intro s held n call p s' h hx
    obtain ⟨rfl, rfl⟩ := Prod.mk.inj (Option.some.inj hx)
    refine ⟨?_, h.enter⟩
    refine Obeys.bind (keeps_ensureEngine call) fun g r hr => obeys_pure ?_
    cases r with
    | ok _ => exact hr
    | error _ => exact hr

/-- **The installation is a transaction.** In a run that goes well what a marker says is so,
and once an engine is installed one is, but between the renames of a live swap. -/
theorem engine_transactional (F : Formats) {s : Disk} (hmarked : Marked F s) (haside : s.aside = false)
    {es fs : List (Ev Call)} {b c : Sys engineSig Disk} (hb : (machine F).exec (load s) es = some b)
    (hc : (machine F).exec b fs = some c) (hes : (machine F).Meets Clean (load s) es)
    (hfs : (machine F).Meets Clean b fs) :
    Marked F c.shared ∧ (Installed F b.shared → Installed F c.shared ∨ Between c) := by
  have hstart : Sound F False (load s).shared (load s).held ⟨[], ()⟩ := by
    refine ⟨fun i g hi => ?_, fun g hg => ?_, hmarked, fun ha => ?_, False.elim⟩
    · cases hi
    · cases hg
    · rw [load, haside] at ha
      cases ha
  have hnone : Pledged note terms Stage.Still (load s) [] := .nil
  obtain ⟨n, hpledged, hsound⟩ := exec_sound (n := ⟨[], ()⟩) hnone hstart hes hb
  have hfirst : Sound F (Installed F b.shared) b.shared b.held n :=
    ⟨hsound.holding, hsound.knows, hsound.marked, hsound.aside, .inl⟩
  obtain ⟨n', hpledged', hsound'⟩ := exec_sound hpledged hfirst hfs hc
  refine ⟨hsound'.marked, fun hi => (hsound'.kept hi).imp_right fun ha => ⟨ha, ?_⟩⟩
  obtain ⟨-, i, sha, hn⟩ := hsound'.aside ha
  obtain ⟨p, hp, hobeys⟩ := hpledged'.code hn
  cases hobeys with
  | ret hstill => exact absurd rfl (hstill sha)
  | @act _ a k hmay hk =>
    obtain rfl := hmay.of_aside
    exact ⟨i, k, hp⟩
  | lock hout => cases hout
  | unlock hstill => exact absurd rfl (hstill sha)

/-! ### A process dies between the renames -/

/-- An archive without entries. -/
def emptyZip : Bytes := [80, 75, 5, 6, 0, 0, 0, 0, 0, 0, 0, 0, 0, 0, 0, 0, 0, 0, 0, 0, 0, 0]

/-- An archive of one file. -/
def oneFile : Bytes :=
  [80, 75, 3, 4, 20, 0, 0, 0, 0, 0, 0, 0, 33, 0, 183, 239, 220, 131, 1, 0, 0, 0, 1, 0, 0, 0, 1, 0, 0, 0, 101, 49,
    80, 75, 1, 2, 20, 3, 20, 0, 0, 0, 0, 0, 0, 0, 33, 0, 183, 239, 220, 131, 1, 0, 0, 0, 1, 0, 0, 0, 1, 0, 0, 0, 0,
    0, 0, 0, 0, 0, 0, 0, 128, 1, 0, 0, 0, 0, 101, 80, 75, 5, 6, 0, 0, 0, 0, 1, 0, 1, 0, 47, 0, 0, 0, 32, 0, 0, 0, 0,
    0]

def emptySha : String := "8739c76e681f900923b900c9df0ef75cf421d39cabb54650c4b9ad19b6a76d85"

def oneSha : String := "141d4d67b70c8e055a51181c8f49885001d12f318d931de4107bc4b22890dfdd"

/-- The two archives as they are read and hashed. -/
def zips : Formats where
  tar _ := none
  zip b := if b = emptyZip then some [] else if b = oneFile then some [("e", [49])] else none
  sha256 b := if b = emptyZip then emptySha else if b = oneFile then oneSha else ""
  hex b := by
    split_ifs
    · decide +kernel
    · decide +kernel
    · rfl

def storeManifest : Artifacts.Manifest where
  data := .obj [("schema", .int 1), ("engines", .obj [("llama-cpp", .obj [("b2", .obj [("linux-x64", .obj
    [("path", .str "engines/llama-cpp/b2/linux-x64/llama-cpp-b2-linux-x64.zip"), ("sha256", .str oneSha),
      ("size", .int 101)])])])])]
  schema := by decide

/-- The second version is asked for. -/
def second : Call := ⟨"llama-cpp", some "b2", some storeManifest, none, ["linux-x64"]⟩

def firstTree : Tree := Dict.set .empty MARKER (.file (Bytes.encode emptySha))

/-- The first version is there. -/
def withFirst (oracle : ℕ → Answer) : Disk := ⟨some firstTree, none, none, .empty, false, oracle, 0⟩

theorem complete_first : Complete zips emptySha firstTree :=
  ⟨emptyZip, .zip [], .empty, rfl, rfl, rfl, rfl⟩

theorem installed_first (oracle : ℕ → Answer) : Installed zips (withFirst oracle) :=
  ⟨firstTree, emptySha, rfl, complete_first⟩

theorem marked_first (oracle : ℕ → Answer) : Marked zips (withFirst oracle) := by
  intro t sha ht hmarker
  obtain rfl := Option.some.inj ht
  rw [marker_of_complete complete_first] at hmarker
  exact Option.some.inj hmarker ▸ complete_first

/-- Nothing fails. -/
def calm (_ : ℕ) : Answer := { bytes := oneFile }

/-- The process dies when the engine before is moved aside and the new one is not in. -/
def dies (t : ℕ) : Answer := if t = 23 then { stop := some .died, effect := false } else calm t

/-- The engine is lost, and no process is at it any more. -/
theorem engine_lost : ∃ F s es c, Marked F s ∧ s.aside = false ∧ Installed F s ∧
    (machine F).exec (load s) es = some c ∧ ¬(Installed F c.shared ∨ Between c) := by
  have hrun : ((machine zips).exec (load (withFirst dies)) (.enter second :: List.replicate 26 (.step 0))).any (fun c =>
      c.shared.dest.isNone && !c.shared.aside) = true := by
    decide +kernel
  obtain ⟨c, hc, hlost⟩ := (Option.any_eq_true _ _).mp hrun
  rw [Bool.and_eq_true, Option.isNone_iff_eq_none, Bool.not_eq_true'] at hlost
  refine ⟨zips, _, _, c, marked_first dies, rfl, installed_first dies, hc, ?_⟩
  rintro (⟨t, sha, ht, -⟩ | hbetween)
  · rw [hlost.1] at ht
    cases ht
  · have haside : c.shared.aside = true := hbetween.1
    rw [hlost.2] at haside
    cases haside

/-- The second version replaces the first. -/
theorem engine_replaced : ∃ c, (machine zips).exec (load (withFirst calm))
    (.enter second :: List.replicate 28 (.step 0)) = some c ∧ (Installed zips c.shared ∨ Between c) := by
  have hrun : ((machine zips).exec (load (withFirst calm)) (.enter second :: List.replicate 28 (.step 0))).isSome = true := by
    decide +kernel
  have hclean : (machine zips).checks (fun (a : Act) s => decide (Clean a s)) (load (withFirst calm))
      (.enter second :: List.replicate 28 (.step 0)) = true := by
    decide +kernel
  have hstart : (machine zips).exec (load (withFirst calm)) [] = some (load (withFirst calm)) := rfl
  have hnothing : (machine zips).Meets Clean (load (withFirst calm)) [] := trivial
  obtain ⟨c, hc⟩ := Option.isSome_iff_exists.mp hrun
  exact ⟨c, hc, (engine_transactional zips (marked_first calm) rfl hstart hc hnothing
    (meets_of_checks (fun (a : Act) s h => of_decide_eq_true h) hclean)).2 (installed_first calm)⟩

end Engines
end LocaiLink
