/-
# An app that is replaced

`_install_app` puts the copy of an app in the place of the installed one, with one rename
where that goes, or by moving the old one aside first; `_harden_swapped_app` checks the
signature again after that. `atomic_iff` says when a destination of `swap_changed_ui_apps`
holds the old app or a complete and checked new one, whatever fails: not where the old app
was moved aside and the new one does not follow, and not where the second check fails, since
nothing puts the old one back.
-/
import LocaiLink.Base.Ghost
import LocaiLink.Install.Converge

namespace LocaiLink
namespace Install
namespace Apps

open Prog Device

/-! ### What is done -/

/-- Whether an action goes well: a rename is made, nothing is left of what is removed, and for the
others that nothing outside of the code makes them raise. -/
def went : Act → Device → Bool
  | .rm name, d => ((d.rm name).2.root name).isNone
  | .replace p q, d => (d.change (d.replaced p q)).1.isOk
  | _, d => d.ask.error.isNone

abbrev Event := Act × Bool

/-- The device, with what was done and whether it went. -/
abbrev Logged := Device × List Event

def step : Sem sig Logged := logged (σ := sig) perform fun a d => (a, went a d)

/-- Every file of an app is in another. -/
def App.Complete : App → App → Prop
  | .file content, app => app = .file content
  | .bundle files, .bundle others => ∀ p, (files.lookup p).isSome = true → others.lookup p = files.lookup p
  | .bundle _, .file _ => False

def App.isFile : App → Bool
  | .file _ => true
  | .bundle _ => false

section Events

variable (dest : String) (l : List Event)

/-- The new app was renamed to its place. -/
def Installed : Prop := (.replace (tmpName dest) dest, true) ∈ l

/-- The old app was moved aside. -/
def MovedAside : Prop := (.replace dest (backupName dest), true) ∈ l

/-- The app in its place did not pass the check. -/
def Rejected : Prop := (.verifyAt dest, false) ∈ l

def Checked : Prop := (.verifyAt dest, true) ∈ l

/-- Something was left of an older copy. -/
def Stale : Prop := (.rm (tmpName dest), false) ∈ l

end Events

/-! ### Rules -/

section Rules

variable {α β : Type} {x : Raising α}

/-- From `P` the code returns in `Q`, or raises in `E`. -/
abbrev Does (P : Logged → Prop) (x : Raising α) (Q : α → Logged → Prop) (E : Logged → Prop) : Prop :=
  Triple step P x.run (Post Q fun _ => E)

variable {P E : Logged → Prop} {Q : α → Logged → Prop}

theorem Does.bind {f : α → Raising β} {T : β → Logged → Prop} (h : Does P x Q E) (hf : ∀ a, Does (Q a) (f a) T E) :
    Does P (x >>= f) T E := Triple.raising h hf

theorem Does.mono {Q' : α → Logged → Prop} {E' : Logged → Prop} (h : Does P x Q E) (hQ : ∀ a s, Q a s → Q' a s)
    (hE : ∀ s, E s → E' s) : Does P x Q' E' :=
  Triple.mono h fun r s hr => match r with
    | .ok a => hQ a s hr
    | .error _ => hE s hr

theorem Does.pre {P' : Logged → Prop} (h : Does P x Q E) (hP : ∀ s, P' s → P s) : Does P' x Q E := Triple.pre h hP

/-- An action that may raise and changes nothing. -/
theorem does_look {p : Prog sig (Except Raised α)} {a : Act} {v : Device → α}
    (hp : ∀ d l, run step p (d, l) = ((d.look (v d)).1, (d.look (v d)).2, l ++ [(a, d.ask.error.isNone)]))
    (hok : ∀ d l, P (d, l) → Q (v d) (d.tock, l ++ [(a, true)])) (hE : ∀ d l, P (d, l) → E (d.tock, l ++ [(a, false)])) :
    Does P (raising p) Q E := by
  rintro ⟨d, l⟩ hs
  change Post _ _ (run step p (d, l)).1 (run step p (d, l)).2
  rw [hp, Device.look]
  cases d.ask.error with
  | none => exact hok d l hs
  | some e => exact hE d l hs

/-- A rename that is made, or raised. -/
theorem does_replace {p q : String} {Q : Logged → Prop}
    (hok : ∀ d app l, P (d, l) → d.root p = some app →
      Q (((d.put p none).put q (some app)).tock, l ++ [(.replace p q, true)]))
    (hE : ∀ d l, P (d, l) → E (d.tock, l ++ [(.replace p q, false)])) :
    Does P (raising (act (.replace p q))) (fun _ => Q) E := by
  rintro ⟨d, l⟩ hs
  change Post _ _ (d.change (d.replaced p q)).1 ((d.change (d.replaced p q)).2, l ++ [(.replace p q, (d.change (d.replaced p q)).1.isOk)])
  rw [Device.change]
  cases d.ask.error with
  | some e => exact hE d l hs
  | none =>
    cases hf : d.replaced p q with
    | none => exact hE d l hs
    | some d' =>
      unfold Device.replaced at hf
      cases happ : d.root p with
      | none =>
        rw [happ] at hf
        cases hf
      | some app =>
        rw [happ, Option.bind_some] at hf
        split_ifs at hf
        obtain rfl := Option.some.inj hf
        exact hok d app l hs happ

/-- What is left of an app that is removed, unless it is raised. -/
theorem does_rm {name : String} {Q : Logged → Prop}
    (hnone : ∀ d l, P (d, l) → Q ((d.put name none).tock, l ++ [(.rm name, true)]))
    (hsame : ∀ d l, P (d, l) → d.root name = none → Q (d.tock, l ++ [(.rm name, true)]))
    (hleft : ∀ d l rest log, P (d, l) → Q ({ d.put name (some (.bundle rest)) with log := log }.tock, l ++ [(.rm name, false)]))
    (hE : ∀ d l, P (d, l) → E (d.tock, l ++ [(.rm name, false)])) :
    Does P (raising (act (.rm name))) (fun _ => Q) E := by
  rintro ⟨d, l⟩ hs
  change Post _ _ (d.rm name).1 ((d.rm name).2, l ++ [(.rm name, ((d.rm name).2.root name).isNone)])
  have hput (app : Option App) : (d.put name app).root name = app := Function.update_self ..
  cases hroot : d.root name with
  | none =>
    have hrm : d.rm name = (.ok (), d.tock) := by rw [Device.rm, hroot]
    have hleftover : d.tock.root name = none := hroot
    rw [hrm, hleftover]
    exact hsame d l hs hroot
  | some app =>
    cases app with
    | file content =>
      have hrm : d.rm name = d.change (some (d.put name none)) := by rw [Device.rm, hroot]
      rw [hrm, Device.change]
      cases d.ask.error with
      | some e =>
        have hleftover : d.tock.root name = some (.file content) := hroot
        rw [hleftover]
        exact hE d l hs
      | none =>
        have hleftover : (d.put name none).tock.root name = none := hput none
        rw [Option.elim_some, hleftover]
        exact hnone d l hs
    | bundle files =>
      by_cases hrest : (files.filter fun e => d.ask.left.contains e.1) = []
      · have hrm : d.rm name = (.ok (), (d.put name none).tock) := by
          rw [Device.rm, hroot]
          exact if_pos hrest
        have hleftover : (d.put name none).tock.root name = none := hput none
        rw [hrm, hleftover]
        exact hnone d l hs
      · have hrm : d.rm name = (.ok (), { d.put name (some (.bundle (files.filter fun e => d.ask.left.contains e.1))) with
            log := d.log ++ [Trouble.leftover name] }.tock) := by
          rw [Device.rm, hroot]
          exact if_neg hrest
        have hleftover : ({ d.put name (some (.bundle (files.filter fun e => d.ask.left.contains e.1))) with
            log := d.log ++ [Trouble.leftover name] }.tock).root name = some (.bundle (files.filter fun e => d.ask.left.contains e.1)) :=
          hput _
        rw [hrm, hleftover]
        exact hleft d l _ _ hs

/-- A copy, which leaves something of its own where it raises. -/
theorem does_copy {p : Prog sig (Except Raised Unit)} {a : Act} {name : String} {f : Option App → Option App} {Q : Logged → Prop}
    (hp : ∀ d l, run step p (d, l) =
      ((d.copy name (f (d.root name))).1, (d.copy name (f (d.root name))).2, l ++ [(a, d.ask.error.isNone)]))
    (hok : ∀ d l app, P (d, l) → f (d.root name) = some app → Q ((d.put name (some app)).tock, l ++ [(a, true)]))
    (hE : ∀ d l b app, P (d, l) → E ((d.put name app).tock, l ++ [(a, b)])) : Does P (raising p) (fun _ => Q) E := by
  rintro ⟨d, l⟩ hs
  change Post _ _ (run step p (d, l)).1 (run step p (d, l)).2
  have hsame : d.put name (d.root name) = d := by
    unfold Device.put
    rw [Function.update_eq_self]
  rw [hp, Device.copy]
  cases d.ask.error with
  | some e =>
    cases hcopied : d.ask.copied with
    | none =>
      have hraised := hE d l false (d.root name) hs
      rw [hsame] at hraised
      exact hraised
    | some app => exact hE d l false (some app) hs
  | none =>
    cases hf : f (d.root name) with
    | none =>
      have hraised := hE d l true (d.root name) hs
      rw [hsame] at hraised
      exact hraised
    | some app => exact hok d l app hs hf

theorem does_note {e : Trouble} {Q : Logged → Prop}
    (h : ∀ d l b, P (d, l) → Q ({ d with log := d.log ++ [e] }, l ++ [(.note e, b)])) : Does P (note e) (fun _ => Q) E :=
  fun s hs => h s.1 s.2 _ hs

end Rules

/-! ### One destination -/

/-- What is at the destination, and what was done there. -/
structure Facts (dest : String) (app : Option App) (installed aside rejected : Bool) (s : Logged) : Prop where
  root : s.1.root dest = app
  installed : Installed dest s.2 ↔ installed = true
  aside : MovedAside dest s.2 ↔ aside = true
  rejected : Rejected dest s.2 ↔ rejected = true

/-- Of the copy of an app that passed the check: it is complete but where a file was copied into a
directory that was left of an older copy. -/
structure Whole (src : App) (dest : String) (copied : App) (l : List Event) : Prop where
  complete : src.Complete copied ↔ ¬(src.isFile = true ∧ Stale dest l)
  verified : (.verifySignature src, true) ∈ l

section Steps

variable {dest : String} {x : Option App} {src copied : App} {installed aside rejected : Bool} {d d' : Device} {l : List Event}
  {e : Event}

/-- An event that says nothing of the destination. -/
structure Aloof (dest : String) (e : Event) : Prop where
  installed : e ≠ (.replace (tmpName dest) dest, true)
  aside : e ≠ (.replace dest (backupName dest), true)
  rejected : e ≠ (.verifyAt dest, false)

/-- The actions that neither remove, rename nor check anything in its place. -/
def Neutral : Act → Prop
  | .replace _ _ | .verifyAt _ | .rm _ => False
  | _ => True

theorem Neutral.aloof {a : Act} {b : Bool} (h : Neutral a) : Aloof dest (a, b) := by
  refine ⟨?_, ?_, ?_⟩
  all_goals
    rintro ⟨⟩
    exact h

theorem Neutral.ne_rm {a : Act} {b : Bool} (h : Neutral a) : ((a, b) : Event) ≠ (.rm (tmpName dest), false) := by
  rintro ⟨⟩
  exact h

theorem mem_concat_of_ne {f : Event} (h : e ≠ f) : f ∈ l ++ [e] ↔ f ∈ l := by
  simp [h.symm]

theorem Facts.quiet (h : Facts dest x installed aside rejected (d, l)) (he : Aloof dest e) (hroot : d'.root dest = d.root dest) :
    Facts dest x installed aside rejected (d', l ++ [e]) :=
  ⟨hroot.trans h.root, (mem_concat_of_ne he.installed).trans h.installed, (mem_concat_of_ne he.aside).trans h.aside,
    (mem_concat_of_ne he.rejected).trans h.rejected⟩

theorem Whole.later (h : Whole src dest copied l) (he : e ≠ (.rm (tmpName dest), false)) : Whole src dest copied (l ++ [e]) :=
  ⟨by rw [h.complete, Stale, Stale, mem_concat_of_ne he], List.mem_append_left _ h.verified⟩

/-- Before the new app is copied. -/
structure Setting (dest : String) (x : Option App) (src : App) (s : Logged) : Prop where
  facts : Facts dest x false false false s
  fresh : ¬Stale dest s.2
  verified : (.verifySignature src, true) ∈ s.2

/-- When the new app is copied, beside what is there. -/
def Copied (dest : String) (x : Option App) (src : App) (aside : Bool) (s : Logged) : Prop :=
  Facts dest x false aside false s ∧ ∃ copied, s.1.root (tmpName dest) = some copied ∧ Whole src dest copied s.2

/-- The new app is in its place. -/
def Placed (dest : String) (src : App) (rejected : Bool) (s : Logged) : Prop :=
  ∃ copied aside, Facts dest (some copied) true aside rejected s ∧ Whole src dest copied s.2

/-- The old app is there, or it was moved aside and nothing is there, or the new one is. -/
def Failed (dest : String) (x : Option App) (src : App) (s : Logged) : Prop :=
  Facts dest x false false false s ∨ (x ≠ none ∧ Facts dest none false true false s) ∨ Placed dest src false s

theorem put_ne {name other : String} (h : other ≠ name) (app : Option App) : (d.put name app).root other = d.root other :=
  Function.update_of_ne h ..

theorem put_self {name : String} (app : Option App) : (d.put name app).root name = app := Function.update_self ..

/-- What a copy over what is there makes of a directory. -/
theorem complete_overlay {new old : List (List String × Bytes)} : (App.bundle new).Complete (.bundle (overlay old new)) := by
  intro p hp
  have hold : (old.filter fun e => (new.lookup e.1).isNone).lookup p = none := by
    rw [List.lookup_eq_none_iff]
    intro e he
    have hnone := (List.mem_filter.mp he).2
    rw [bne_iff_ne]
    rintro rfl
    rw [Option.isNone_iff_eq_none] at hnone
    rw [hnone] at hp
    cases hp
  rw [overlay, List.lookup_append, hold, Option.none_or]

theorem complete_self (src : App) : src.Complete src := by
  cases src with
  | file content => rfl
  | bundle files => exact fun p _ => rfl

/-- What removing an older copy leaves. -/
structure Cleared (dest : String) (x : Option App) (src : App) (s : Logged) : Prop where
  facts : Facts dest x false false false s
  verified : (.verifySignature src, true) ∈ s.2
  copy : (s.1.root (tmpName dest) = none ∧ ¬Stale dest s.2) ∨
    ∃ rest, s.1.root (tmpName dest) = some (.bundle rest) ∧ Stale dest s.2

theorem aloof_rm {name : String} {b : Bool} : Aloof dest (.rm name, b) := ⟨nofun, nofun, nofun⟩

theorem does_clear : Does (Setting dest x src) (raising (act (.rm (tmpName dest)))) (fun _ => Cleared dest x src)
    (Facts dest x false false false) := by
  have hroot (d : Device) (app : Option App) : (d.put (tmpName dest) app).root dest = d.root dest := put_ne tmp_ne_dest.symm app
  have hfresh {l : List Event} (h : ¬Stale dest l) : ¬Stale dest (l ++ [(.rm (tmpName dest), true)]) := by
    unfold Stale at h ⊢
    simp [h]
  refine does_rm (fun d l h => ?_) (fun d l h hnone => ?_) (fun d l rest log h => ?_) fun d l h => h.facts.quiet aloof_rm rfl
  · exact ⟨h.facts.quiet aloof_rm (hroot d none), List.mem_append_left _ h.verified, .inl ⟨put_self none, hfresh h.fresh⟩⟩
  · exact ⟨h.facts.quiet aloof_rm rfl, List.mem_append_left _ h.verified, .inl ⟨hnone, hfresh h.fresh⟩⟩
  · refine ⟨h.facts.quiet aloof_rm (hroot d _), List.mem_append_left _ h.verified, .inr ⟨rest, put_self _, ?_⟩⟩
    exact List.mem_append_right _ (List.mem_singleton_self _)

/-- Whatever was copied, the copy tells whether a file was copied into a directory. -/
theorem Cleared.whole (h : Cleared dest x src (d, l)) (name : String) (he : e ≠ (.rm (tmpName dest), false))
    (hcopied : (if src.isFile then filed name src else merged true src) (d.root (tmpName dest)) = some copied) :
    Whole src dest copied (l ++ [e]) := by
  refine Whole.later ⟨?_, h.verified⟩ he
  rcases h.copy with ⟨hnone, hfresh⟩ | ⟨rest, hrest, hstale⟩
  · change d.root (tmpName dest) = none at hnone
    have hsame : copied = src := by
      rw [hnone] at hcopied
      cases src <;> exact (Option.some.inj hcopied).symm
    exact iff_of_true (hsame ▸ complete_self src) fun hc => hfresh hc.2
  · change d.root (tmpName dest) = some (.bundle rest) at hrest
    rw [hrest] at hcopied
    cases src with
    | file content =>
      obtain rfl : App.bundle (overlay rest [([name], content)]) = copied := Option.some.inj hcopied
      exact iff_of_false nofun fun hc => hc ⟨rfl, hstale⟩
    | bundle files =>
      obtain rfl : App.bundle (overlay rest files) = copied := Option.some.inj hcopied
      exact iff_of_true complete_overlay nofun

theorem does_copyApp {name : String} : Does (Cleared dest x src) (copyApp .darwin name src (tmpName dest))
    (fun _ => Copied dest x src false) (Facts dest x false false false) := by
  have hroot (d : Device) (app : Option App) : (d.put (tmpName dest) app).root dest = d.root dest := put_ne tmp_ne_dest.symm app
  unfold copyApp
  cases src with
  | file content =>
    refine does_copy (f := filed name (.file content)) (a := .copy2 (.file content) name (tmpName dest)) (fun _ _ => rfl)
      (fun d l app h happ => ?_) fun d l b app h => h.facts.quiet (Neutral.aloof trivial) (hroot d app)
    exact ⟨h.facts.quiet (Neutral.aloof trivial) (hroot d _), app, put_self _, h.whole name nofun happ⟩
  | bundle files =>
    refine does_copy (f := merged true (.bundle files)) (a := .ditto (.bundle files) (tmpName dest)) (fun _ _ => rfl)
      (fun d l app h happ => ?_) fun d l b app h => h.facts.quiet (Neutral.aloof trivial) (hroot d app)
    exact ⟨h.facts.quiet (Neutral.aloof trivial) (hroot d _), app, put_self _, h.whole name nofun happ⟩

theorem Copied.quiet (h : Copied dest x src false (d, l)) (he : Aloof dest e) (hrm : e ≠ (.rm (tmpName dest), false))
    (hroot : d'.root dest = d.root dest) (htmp : d'.root (tmpName dest) = d.root (tmpName dest)) :
    Copied dest x src false (d', l ++ [e]) := by
  obtain ⟨hfacts, copied, hcopied, hwhole⟩ := h
  exact ⟨hfacts.quiet he hroot, copied, htmp.trans hcopied, hwhole.later hrm⟩

theorem Placed.quiet (h : Placed dest src rejected (d, l)) (he : Aloof dest e) (hrm : e ≠ (.rm (tmpName dest), false))
    (hroot : d'.root dest = d.root dest) : Placed dest src rejected (d', l ++ [e]) := by
  obtain ⟨copied, aside, hfacts, hwhole⟩ := h
  exact ⟨copied, aside, hfacts.quiet he hroot, hwhole.later hrm⟩

theorem replace_ne_verifyAt {p q : String} {b : Bool} : ((.replace p q, b) : Event) ≠ (.verifyAt dest, false) := nofun

theorem moveIn_ne_aside {b : Bool} : ((.replace (tmpName dest) dest, b) : Event) ≠ (.replace dest (backupName dest), true) := by
  intro he
  have hacts : Act.replace (tmpName dest) dest = .replace dest (backupName dest) := congrArg Prod.fst he
  rw [Act.replace.injEq] at hacts
  exact tmp_ne_dest hacts.1

theorem aside_ne_moveIn {b : Bool} : ((.replace dest (backupName dest), b) : Event) ≠ (.replace (tmpName dest) dest, true) := by
  intro he
  have hacts : Act.replace dest (backupName dest) = .replace (tmpName dest) dest := congrArg Prod.fst he
  rw [Act.replace.injEq] at hacts
  exact tmp_ne_dest hacts.1.symm

theorem aloof_moveIn : Aloof dest (.replace (tmpName dest) dest, false) := ⟨by simp, moveIn_ne_aside, nofun⟩

theorem aloof_aside : Aloof dest (.replace dest (backupName dest), false) := ⟨aside_ne_moveIn, by simp, nofun⟩

/-- The copy takes the place of the app, or that is raised and the app is as it was. -/
theorem does_moveIn {aside : Bool} {E : Logged → Prop} (hE : ∀ s, Copied dest x src aside s → E s) :
    Does (Copied dest x src aside) (raising (act (.replace (tmpName dest) dest))) (fun _ => Placed dest src false) E := by
  refine does_replace (fun d app l h happ => ?_) fun d l h => hE _ ?_
  · obtain ⟨hfacts, copied, hcopied, hwhole⟩ := h
    obtain rfl : copied = app := Option.some.inj (hcopied.symm.trans happ)
    have haside := (mem_concat_of_ne (l := l) (moveIn_ne_aside (b := true))).trans hfacts.aside
    have hrejected : Rejected dest (l ++ [(.replace (tmpName dest) dest, true)]) ↔ false = true :=
      (mem_concat_of_ne replace_ne_verifyAt).trans hfacts.rejected
    refine ⟨copied, aside, ⟨put_self _, ?_, haside, hrejected⟩, hwhole.later nofun⟩
    exact iff_of_true (List.mem_append_right _ (List.mem_singleton_self _)) rfl
  · obtain ⟨hfacts, copied, hcopied, hwhole⟩ := h
    exact ⟨hfacts.quiet aloof_moveIn rfl, copied, hcopied, hwhole.later nofun⟩

/-- An older backup goes. -/
theorem does_rmBackup {P E : Logged → Prop} (hP : ∀ d d' l b, P (d, l) → d'.root dest = d.root dest →
    d'.root (tmpName dest) = d.root (tmpName dest) → P (d', l ++ [(.rm (backupName dest), b)])) (hE : ∀ s, P s → E s) :
    Does P (raising (act (.rm (backupName dest)))) (fun _ => P) E := by
  have hroot (d : Device) (app : Option App) : (d.put (backupName dest) app).root dest = d.root dest :=
    put_ne backup_ne_dest.symm app
  have htmp (d : Device) (app : Option App) : (d.put (backupName dest) app).root (tmpName dest) = d.root (tmpName dest) :=
    put_ne tmp_ne_backup app
  refine does_rm (fun d l h => ?_) (fun d l h _ => ?_) (fun d l rest log h => ?_) fun d l h => hE _ ?_
  · exact hP d _ l true h (hroot d none) (htmp d none)
  · exact hP d _ l true h rfl rfl
  · exact hP d _ l false h (hroot d _) (htmp d _)
  · exact hP d _ l false h rfl rfl

/-- What is left of the swap when the old app is out of the way. -/
theorem does_moveInEnd {y : Option App} {aside : Bool} (hE : ∀ s, Copied dest y src aside s → Failed dest x src s) :
    Does (Copied dest y src aside) (do
      raising (act (.replace (tmpName dest) dest))
      raising (act (.rm (backupName dest)))) (fun _ => Placed dest src false) (Failed dest x src) := by
  have hrm {b : Bool} : ((.rm (backupName dest), b) : Event) ≠ (.rm (tmpName dest), false) := by
    simp [tmp_ne_backup.symm]
  refine (does_moveIn hE).bind fun _ => does_rmBackup (fun d d' l b h hroot _ => h.quiet aloof_rm hrm hroot) fun s h => ?_
  exact .inr (.inr h)

theorem does_swapAside : Does (Copied dest x src false) (swapAside dest) (fun _ => Placed dest src false) (Failed dest x src) := by
  have hrm {b : Bool} : ((.rm (backupName dest), b) : Event) ≠ (.rm (tmpName dest), false) := by
    simp [tmp_ne_backup.symm]
  have hkept (s : Logged) (h : Copied dest x src false s) : Failed dest x src s := .inl h.1
  -- Nothing was there before, or what was there is moved aside.
  have haside : Does (fun s => x.isSome = true ∧ Copied dest x src false s) (raising (act (.replace dest (backupName dest))))
      (fun _ s => Copied dest none src true s ∧ x ≠ none) (Failed dest x src) := by
    refine does_replace (fun d app l h _ => ?_) fun d l h => .inl (h.2.1.quiet aloof_aside rfl)
    obtain ⟨hsome, hfacts, copied, hcopied, hwhole⟩ := h
    have hinstalled := (mem_concat_of_ne (l := l) (aside_ne_moveIn (b := true))).trans hfacts.installed
    have hrejected : Rejected dest (l ++ [(.replace dest (backupName dest), true)]) ↔ false = true :=
      (mem_concat_of_ne replace_ne_verifyAt).trans hfacts.rejected
    refine ⟨⟨⟨?_, hinstalled, ?_, hrejected⟩, copied, ?_, hwhole.later nofun⟩, Option.isSome_iff_ne_none.mp hsome⟩
    · change ((d.put dest none).put (backupName dest) (some app)).root dest = none
      rw [put_ne backup_ne_dest.symm, put_self]
    · exact iff_of_true (List.mem_append_right _ (List.mem_singleton_self _)) rfl
    · change ((d.put dest none).put (backupName dest) (some app)).root (tmpName dest) = some copied
      rw [put_ne tmp_ne_backup, put_ne tmp_ne_dest, hcopied]
  unfold swapAside
  refine Does.bind (does_rmBackup (fun d d' l b h hroot htmp => h.quiet aloof_rm hrm hroot htmp) hkept) fun _ => ?_
  refine Does.bind (Q := fun there s => there = x.isSome ∧ Copied dest x src false s) ?_ fun there => ?_
  · refine does_look (v := fun d => (d.root dest).isSome) (fun _ _ => rfl) (fun d l h => ⟨?_, ?_⟩) fun d l h => hkept _ ?_
    · exact congrArg Option.isSome h.1.root
    · exact h.quiet (Neutral.aloof trivial) (Neutral.ne_rm trivial) rfl rfl
    · exact h.quiet (Neutral.aloof trivial) (Neutral.ne_rm trivial) rfl rfl
  · cases there with
    | false => exact (does_moveInEnd hkept).pre fun s h => h.2
    | true =>
      refine Does.bind (haside.pre fun s h => ⟨h.1.symm, h.2⟩) fun _ => ?_
      by_cases hx : x = none
      · exact fun s h => absurd hx h.2
      · exact (does_moveInEnd fun s h => .inr (.inl ⟨hx, h.1⟩)).pre fun s h => h.1

theorem Setting.quiet (h : Setting dest x src (d, l)) (he : Aloof dest e) (hrm : e ≠ (.rm (tmpName dest), false))
    (hroot : d'.root dest = d.root dest) : Setting dest x src (d', l ++ [e]) := by
  refine ⟨h.facts.quiet he hroot, ?_, List.mem_append_left _ h.verified⟩
  rw [Stale, mem_concat_of_ne hrm]
  exact h.fresh

/-- `_install_app` -/
theorem does_installApp {name : String} : Does (Setting dest x src) (installApp .darwin name src dest)
    (fun _ => Placed dest src false) (Failed dest x src) := by
  have hkept (s : Logged) (h : Facts dest x false false false s) : Failed dest x src s := .inl h
  unfold installApp
  refine Does.bind (Q := fun _ => Setting dest x src) ?_ fun _ => ?_
  · refine does_look (v := fun _ => ()) (fun _ _ => rfl) (fun d l h => ?_) fun d l h => hkept _ ?_
    · exact h.quiet (Neutral.aloof trivial) (Neutral.ne_rm trivial) rfl
    · exact h.facts.quiet (Neutral.aloof trivial) rfl
  · refine (does_clear.mono (fun _ _ h => h) hkept).bind fun _ => (does_copyApp.mono (fun _ _ h => h) hkept).bind fun _ => ?_
    refine Triple.tryCatch (does_moveIn fun s h => h) fun e => ?_
    cases e with
    | os => exact does_swapAside
    | other => exact triple_throw fun s h => hkept s h.1

/-- `_harden_swapped_app`: the app stays whatever the check says. -/
theorem does_harden : Does (Placed dest src false) (hardenSwappedApp .darwin dest)
    (fun _ s => Placed dest src false s ∧ Checked dest s.2) (Placed dest src true) := by
  have hquarantine {b : Bool} : Aloof dest (.deQuarantine dest, b) := (Neutral.aloof trivial)
  have hverify : Aloof dest (.verifyAt dest, true) := ⟨nofun, nofun, by simp⟩
  unfold hardenSwappedApp
  rw [if_pos rfl]
  refine Does.bind (Q := fun _ => Placed dest src false) ?_ fun _ => ?_
  · refine Triple.tryCatch (E := fun _ => Placed dest src false) ?_ fun e => triple_return fun s h => h
    exact does_look (v := fun _ => ()) (fun _ _ => rfl) (fun d l h => h.quiet hquarantine (Neutral.ne_rm trivial) rfl) fun d l h =>
      h.quiet hquarantine (Neutral.ne_rm trivial) rfl
  · refine does_look (v := fun _ => ()) (fun _ _ => rfl) (fun d l h => ⟨h.quiet hverify nofun rfl, ?_⟩) fun d l h => ?_
    · exact List.mem_append_right _ (List.mem_singleton_self _)
    · obtain ⟨copied, aside, hfacts, hwhole⟩ := h
      have hinstalled : Installed dest (l ++ [(.verifyAt dest, false)]) ↔ true = true :=
        (mem_concat_of_ne (by simp)).trans hfacts.installed
      have haside : MovedAside dest (l ++ [(.verifyAt dest, false)]) ↔ aside = true :=
        (mem_concat_of_ne (by simp)).trans hfacts.aside
      refine ⟨copied, aside, ⟨hfacts.root, hinstalled, haside, ?_⟩, hwhole.later nofun⟩
      exact iff_of_true (List.mem_append_right _ (List.mem_singleton_self _)) rfl

/-- How it ends, and whether the app is said to be updated. -/
inductive Outcome (dest : String) (x : Option App) (src : App) : Bool → Logged → Prop
  | kept {s : Logged} (h : Facts dest x false false false s) : Outcome dest x src false s
  | lost {s : Logged} (hx : x ≠ none) (h : Facts dest none false true false s) : Outcome dest x src false s
  | placed {rejected : Bool} {s : Logged} (h : Placed dest src rejected s) : Outcome dest x src false s
  | checked {s : Logged} (h : Placed dest src false s) (hchecked : Checked dest s.2) : Outcome dest x src true s

theorem Outcome.noted {t : Trouble} {ok b : Bool} (h : Outcome dest x src ok (d, l)) :
    Outcome dest x src ok ({ d with log := d.log ++ [t] }, l ++ [(.note t, b)]) := by
  have hnote : Aloof dest (.note t, b) := (Neutral.aloof trivial)
  cases h with
  | kept h => exact .kept (h.quiet hnote rfl)
  | lost hx h => exact .lost hx (h.quiet hnote rfl)
  | placed h => exact .placed (h.quiet hnote (Neutral.ne_rm trivial) rfl)
  | checked h hchecked => exact .checked (h.quiet hnote (Neutral.ne_rm trivial) rfl) (List.mem_append_left _ hchecked)

theorem Failed.outcome {s : Logged} (h : Failed dest x src s) : Outcome dest x src false s := by
  rcases h with h | ⟨hx, h⟩ | h
  · exact .kept h
  · exact .lost hx h
  · exact .placed h

theorem does_swapAt {key name : String} {E : Logged → Prop} : Does (Setting dest x src) (swapAt .darwin key name src dest)
    (fun ok => Outcome dest x src ok) E := by
  unfold swapAt
  refine Triple.tryCatch (E := fun _ => Outcome dest x src false) ?_ fun e => ?_
  · refine (does_installApp.mono (fun _ _ h => h) fun s h => h.outcome).bind fun _ => ?_
    refine (does_harden.mono (fun _ _ h => h) fun s h => .placed h).bind fun _ => triple_return fun s h => .checked h.1 h.2
  · refine Does.bind (Q := fun _ => Outcome dest x src false) ?_ fun _ => triple_return fun s h => h
    exact does_note fun d l b h => h.noted

end Steps

/-! ### The app of macOS -/

section Companion

variable {payload : List (List String × App)} {x : Option App} {old : Dict String String}

/-- Before the app's turn. -/
structure Start (payload : List (List String × App)) (x : Option App) (s : Logged) : Prop where
  extracted : s.1.extracted = payload
  facts : Facts appName x false false false s
  fresh : ¬Stale appName s.2

/-- After it: nothing was done, or it ended in one of the four ways. -/
def Ended (payload : List (List String × App)) (x : Option App) (ok : Bool) (s : Logged) : Prop :=
  (ok = false ∧ Facts appName x false false false s) ∨
    ∃ src, locateInPayload payload appName = some src ∧ Outcome appName x src ok s

theorem Start.quiet {d d' : Device} {l : List Event} {e : Event} (h : Start payload x (d, l)) (he : Aloof appName e)
    (hrm : e ≠ (.rm (tmpName appName), false)) (hextracted : d'.extracted = d.extracted)
    (hroot : d'.root appName = d.root appName) : Start payload x (d', l ++ [e]) := by
  refine ⟨hextracted.trans h.extracted, h.facts.quiet he hroot, ?_⟩
  rw [Stale, mem_concat_of_ne hrm]
  exact h.fresh

theorem Ended.noted {t : Trouble} {ok b : Bool} {d : Device} {l : List Event} (h : Ended payload x ok (d, l)) :
    Ended payload x ok ({ d with log := d.log ++ [t] }, l ++ [(.note t, b)]) := by
  rcases h with ⟨hok, h⟩ | ⟨src, hsrc, h⟩
  · exact .inl ⟨hok, h.quiet (Neutral.aloof trivial) rfl⟩
  · exact .inr ⟨src, hsrc, h.noted⟩

theorem does_swapApp : Does (Start payload x) (swapApp .darwin companion) (Ended payload x)
    (Facts appName x false false false) := by
  have hdestinations : uiAppDestinations .darwin companion = [appName] := by simp [uiAppDestinations, appName]
  have hname : uiAppPayloadName .darwin companion = some appName := by simp [uiAppPayloadName, companion, appName]
  unfold swapApp
  rw [hdestinations, hname]
  dsimp only
  refine Does.bind (Q := fun found s => found = locateInPayload payload appName ∧ Start payload x s) ?_ fun found => ?_
  · refine does_look (v := fun d => locateInPayload d.extracted appName) (fun _ _ => rfl) (fun d l h => ⟨?_, ?_⟩) fun d l h => ?_
    · exact congrArg (locateInPayload · appName) h.extracted
    · exact h.quiet (Neutral.aloof trivial) (Neutral.ne_rm trivial) rfl rfl
    · exact h.facts.quiet (Neutral.aloof trivial) rfl
  · cases found with
    | none => exact triple_return fun s h => .inl ⟨rfl, h.2.facts⟩
    | some src =>
      have hverify : Does (fun s => some src = locateInPayload payload appName ∧ Start payload x s)
          (verifyAppSignature .darwin src) (fun _ s => some src = locateInPayload payload appName ∧ Setting appName x src s)
          (Facts appName x false false false) := by
        refine does_look (v := fun _ => ()) (fun _ _ => rfl) (fun d l h => ⟨h.1, ?_⟩) fun d l h => ?_
        · have hquiet : Start payload x (d.tock, l ++ [(.verifySignature src, true)]) :=
            h.2.quiet (Neutral.aloof trivial) (Neutral.ne_rm trivial) rfl rfl
          exact ⟨hquiet.facts, hquiet.fresh, List.mem_append_right _ (List.mem_singleton_self _)⟩
        · exact h.2.facts.quiet (Neutral.aloof trivial) rfl
      refine hverify.bind fun _ => ?_
      by_cases hsrc : some src = locateInPayload payload appName
      · refine Does.bind (does_swapAt.pre fun s h => h.2) fun ok => ?_
        refine Does.bind (Q := fun rest s => rest = false ∧ Outcome appName x src ok s) (triple_return fun s h => ⟨rfl, h⟩) fun rest => ?_
        refine triple_return fun s h => .inr ⟨src, hsrc.symm, ?_⟩
        obtain ⟨rfl, h⟩ := h
        rwa [Bool.or_false]
      · exact fun s h => absurd h.1 hsrc

theorem does_swapEntry {h : String} {E : Logged → Prop} : Does (Start payload x) (swapEntry .darwin old companion h)
    (Ended payload x) E := by
  unfold swapEntry
  split_ifs
  · exact triple_return fun s h => .inl ⟨rfl, h.facts⟩
  · refine Triple.tryCatch does_swapApp fun e => ?_
    refine Does.bind (Q := fun _ => Facts appName x false false false) ?_ fun _ => triple_return fun s h => .inl ⟨rfl, h⟩
    exact does_note fun d l b h => h.quiet (Neutral.aloof trivial) rfl

/-- The other keys of a manifest are no apps. -/
theorem does_swapEntryOther {platform : Platform} {key h : String} {P E : Logged → Prop}
    (hkey : ∀ name, uiAppPayloadName platform key = some name → uiAppDestinations platform key = [])
    (hP : ∀ d l t b, P (d, l) → P ({ d with log := d.log ++ [t] }, l ++ [(.note t, b)])) :
    Does P (swapEntry platform old key h) (fun ok s => ok = false ∧ P s) E := by
  have happ : Does P (swapApp platform key) (fun ok s => ok = false ∧ P s) P := by
    unfold swapApp
    split
    · exact triple_return fun s h => ⟨rfl, h⟩
    · rename_i hsome
      cases hname : uiAppPayloadName platform key with
      | none => exact triple_throw fun s h => h
      | some name => exact absurd (hkey name hname) hsome
  unfold swapEntry
  split_ifs
  · exact triple_return fun s h => ⟨rfl, h⟩
  · refine Triple.tryCatch happ fun e => Does.bind (Q := fun _ => P) ?_ fun _ => triple_return fun s h => ⟨rfl, h⟩
    exact does_note fun d l b h => hP d l _ b h

theorem does_swapOthers {platform : Platform} {P E : Logged → Prop}
    (hP : ∀ d l t b, P (d, l) → P ({ d with log := d.log ++ [t] }, l ++ [(.note t, b)])) :
    ∀ {entries : List (String × String)}, (∀ e ∈ entries, ∀ name, uiAppPayloadName platform e.1 = some name →
      uiAppDestinations platform e.1 = []) → Does P (swapEntries platform old entries) (fun keys s => keys = [] ∧ P s) E
  | [], _ => triple_return fun s h => ⟨rfl, h⟩
  | e :: entries, hkeys => by
    rw [swapEntries]
    refine Does.bind (does_swapEntryOther (hkeys e List.mem_cons_self) hP) fun ok => ?_
    by_cases hok : ok = false
    · subst hok
      refine Does.bind ((does_swapOthers hP fun p hp => hkeys p (List.mem_cons_of_mem e hp)).pre fun s h => h.2) fun keys => ?_
      exact triple_return fun s h => h
    · exact fun s h => absurd h.1 hok

/-- The keys that are said to be swapped are the app's. -/
def Reported (payload : List (List String × App)) (x : Option App) (keys : List String) (s : Logged) : Prop :=
  (∀ key ∈ keys, key = companion) ∧ ∃ ok, (ok = true ↔ companion ∈ keys) ∧ Ended payload x ok s

theorem does_swapEntries {E : Logged → Prop} : ∀ {entries : List (String × String)}, (entries.map Prod.fst).Nodup →
    Does (Start payload x) (swapEntries .darwin old entries) (Reported payload x) E
  | [], _ => triple_return fun s h => ⟨fun _ hk => absurd hk List.not_mem_nil, false, by simp, .inl ⟨rfl, h.facts⟩⟩
  | e :: entries, hnodup => by
    obtain ⟨key, h⟩ := e
    rw [List.map_cons, List.nodup_cons] at hnodup
    have hother {key : String} (hkey : key ≠ companion) (name : String) (hname : uiAppPayloadName .darwin key = some name) :
        uiAppDestinations .darwin key = [] := by
      have hnone : uiAppPayloadName .darwin key = none := if_neg hkey
      rw [hnone] at hname
      cases hname
    rw [swapEntries]
    by_cases hkey : key = companion
    · subst hkey
      have hrest (p : String × String) (hp : p ∈ entries) : p.1 ≠ companion := fun heq =>
        hnodup.1 (List.mem_map.mpr ⟨p, hp, heq⟩)
      refine does_swapEntry.bind fun ok => ?_
      refine Does.bind (does_swapOthers (fun d l t b h => h.noted) fun p hp => hother (hrest p hp)) fun keys => ?_
      refine triple_return fun s h => ?_
      obtain ⟨rfl, h⟩ := h
      refine ⟨fun key hk => ?_, ok, ?_, h⟩
      · cases ok with
        | false => cases hk
        | true => exact List.mem_singleton.mp hk
      · cases ok <;> simp
    · refine Does.bind (does_swapEntryOther (hother hkey) fun d l t b h => ?_) fun ok => ?_
      · exact h.quiet (Neutral.aloof trivial) (Neutral.ne_rm trivial) rfl rfl
      · by_cases hok : ok = false
        · subst hok
          exact ((does_swapEntries hnodup.2).pre fun s h => h.2).bind fun keys => triple_return fun s h => h
        · exact fun s h => absurd h.1 hok

end Companion

/-! ### Whatever fails -/

section Run

variable (platform : Platform) (key dest : String) (old new : Dict String String) (d d' : Device) (l : List Event)
  (keys : List String)

/-- The device after the swap. -/
def after : Device := (run perform (swapChangedUiApps platform old new).run d).2

/-- What the swap does, in its order. -/
def done : List Event := events (σ := sig) perform (fun a d => (a, went a d)) (swapChangedUiApps platform old new).run d

/-- At the destination is a complete copy of the payload's app, which passed the check before it was copied,
and did not fail the one in its place. -/
structure New : Prop where
  copied : ∃ name src app, uiAppPayloadName platform key = some name ∧ locateInPayload d.extracted name = some src ∧
    d'.root dest = some app ∧ src.Complete app ∧ (.verifySignature src, true) ∈ l
  passed : ¬Rejected dest l

/-- Each destination has its old app, or a new one, and a new one that was checked in its place
where the key is said to be swapped. -/
structure FailureAtomic : Prop where
  dests : ∀ key name dest, uiAppPayloadName platform key = some name → dest ∈ uiAppDestinations platform key →
    (d'.root dest = d.root dest ∧ ¬Installed dest l) ∨ New platform key dest d d' l
  swapped : ∀ key ∈ keys, ∃ dest ∈ uiAppDestinations platform key, New platform key dest d d' l ∧ Checked dest l

/-- The app that was moved aside is followed by the new one, which does not fail the check in its place,
and is not a file that was copied into what was left of an older copy. -/
structure Unspoiled : Prop where
  followed : ∀ key name dest, uiAppPayloadName platform key = some name → dest ∈ uiAppDestinations platform key →
    MovedAside dest l → Installed dest l
  accepted : ∀ key name dest, uiAppPayloadName platform key = some name → dest ∈ uiAppDestinations platform key →
    ¬Rejected dest l
  clean : ∀ key name dest src, uiAppPayloadName platform key = some name → dest ∈ uiAppDestinations platform key →
    Installed dest l → locateInPayload d.extracted name = some src → src.isFile = true → ¬Stale dest l

variable {platform key dest old new d d' l keys}

/-- On macOS there is one app and one destination. -/
theorem unspoiled_iff : Unspoiled .darwin d l ↔ (MovedAside appName l → Installed appName l) ∧ ¬Rejected appName l ∧
    (Installed appName l → ∀ src, locateInPayload d.extracted appName = some src → src.isFile = true → ¬Stale appName l) := by
  have hname : uiAppPayloadName .darwin companion = some appName := by simp [uiAppPayloadName, companion, appName]
  have hdest : appName ∈ uiAppDestinations .darwin companion := by simp [uiAppDestinations, appName]
  constructor
  · intro h
    exact ⟨h.followed _ _ _ hname hdest, h.accepted _ _ _ hname hdest, fun hin src => h.clean _ _ _ src hname hdest hin⟩
  · rintro ⟨hfollowed, haccepted, hclean⟩
    refine ⟨fun key name dest hname hdest => ?_, fun key name dest hname hdest => ?_, fun key name dest src hname hdest => ?_⟩
    · obtain ⟨-, -, -, rfl⟩ := only_companion hname hdest
      exact hfollowed
    · obtain ⟨-, -, -, rfl⟩ := only_companion hname hdest
      exact haccepted
    · obtain ⟨-, -, rfl, rfl⟩ := only_companion hname hdest
      exact fun hin => hclean hin src

theorem failureAtomic_iff (hkeys : ∀ key ∈ keys, key = companion) : FailureAtomic .darwin d d' l keys ↔
    ((d'.root appName = d.root appName ∧ ¬Installed appName l) ∨ New .darwin companion appName d d' l) ∧
      (companion ∈ keys → New .darwin companion appName d d' l ∧ Checked appName l) := by
  have hname : uiAppPayloadName .darwin companion = some appName := by simp [uiAppPayloadName, companion, appName]
  have hdest : appName ∈ uiAppDestinations .darwin companion := by simp [uiAppDestinations, appName]
  constructor
  · refine fun h => ⟨h.dests _ _ _ hname hdest, fun hmem => ?_⟩
    obtain ⟨dest, hd, hnew⟩ := h.swapped companion hmem
    obtain ⟨-, -, -, rfl⟩ := only_companion hname hd
    exact hnew
  · rintro ⟨hdests, hswapped⟩
    refine ⟨fun key name dest hn hd => ?_, fun key hk => ?_⟩
    · obtain ⟨-, rfl, -, rfl⟩ := only_companion hn hd
      exact hdests
    · obtain rfl := hkeys key hk
      exact ⟨appName, hdest, hswapped hk⟩

/-- The new app in its place is complete but in the one case. -/
theorem Placed.new_iff {src : App} {rejected : Bool} (h : Placed appName src rejected (d', l))
    (hsrc : locateInPayload d.extracted appName = some src) :
    New .darwin companion appName d d' l ↔ ¬(src.isFile = true ∧ Stale appName l) ∧ ¬Rejected appName l := by
  have hname : uiAppPayloadName .darwin companion = some appName := by simp [uiAppPayloadName, companion, appName]
  obtain ⟨copied, aside, hfacts, hwhole⟩ := h
  constructor
  · rintro ⟨⟨name, src', app, hn, hsrc', happ, hcomplete, -⟩, hpassed⟩
    obtain rfl : appName = name := Option.some.inj (hname.symm.trans hn)
    obtain rfl : src = src' := Option.some.inj (hsrc.symm.trans hsrc')
    obtain rfl : copied = app := Option.some.inj (hfacts.root.symm.trans happ)
    exact ⟨hwhole.complete.mp hcomplete, hpassed⟩
  · rintro ⟨hclean, hpassed⟩
    exact ⟨⟨appName, src, copied, hname, hsrc, hfacts.root, hwhole.complete.mpr hclean, hwhole.verified⟩, hpassed⟩

/-- However it ends, it is atomic where nothing spoils it. -/
theorem Ended.iff_unspoiled {ok : Bool} (h : Ended d.extracted (d.root appName) ok (d', l)) :
    (((d'.root appName = d.root appName ∧ ¬Installed appName l) ∨ New .darwin companion appName d d' l) ∧
      (ok = true → New .darwin companion appName d d' l ∧ Checked appName l)) ↔ Unspoiled .darwin d l := by
  have hkept (hok : ok = false) (hfacts : Facts appName (d.root appName) false false false (d', l)) :
      (((d'.root appName = d.root appName ∧ ¬Installed appName l) ∨ New .darwin companion appName d d' l) ∧
        (ok = true → New .darwin companion appName d d' l ∧ Checked appName l)) ↔ Unspoiled .darwin d l := by
    have hinstalled : ¬Installed appName l := fun hin => Bool.noConfusion (hfacts.installed.mp hin)
    have haside : ¬MovedAside appName l := fun hin => Bool.noConfusion (hfacts.aside.mp hin)
    have hrejected : ¬Rejected appName l := fun hin => Bool.noConfusion (hfacts.rejected.mp hin)
    refine iff_of_true ⟨.inl ⟨hfacts.root, hinstalled⟩, fun h => ?_⟩ (unspoiled_iff.mpr ⟨?_, hrejected, ?_⟩)
    · rw [hok] at h
      cases h
    · exact fun hin => absurd hin haside
    · exact fun hin => absurd hin hinstalled
  have hplaced {src : App} {rejected : Bool} (hsrc : locateInPayload d.extracted appName = some src)
      (h : Placed appName src rejected (d', l)) : Unspoiled .darwin d l ↔ New .darwin companion appName d d' l := by
    have hinstalled : Installed appName l := by
      obtain ⟨copied, aside, hfacts, -⟩ := h
      exact hfacts.installed.mpr rfl
    rw [h.new_iff hsrc, unspoiled_iff]
    constructor
    · exact fun hu => ⟨fun hfile => hu.2.2 hinstalled src hsrc hfile.1 hfile.2, hu.2.1⟩
    · rintro ⟨hclean, hrejected⟩
      refine ⟨fun _ => hinstalled, hrejected, fun _ src' hsrc' hfile hstale => ?_⟩
      obtain rfl : src = src' := Option.some.inj (hsrc.symm.trans hsrc')
      exact hclean ⟨hfile, hstale⟩
  have hold (hin : Installed appName l) : ¬(d'.root appName = d.root appName ∧ ¬Installed appName l) := fun h => h.2 hin
  rcases h with ⟨hok, hfacts⟩ | ⟨src, hsrc, h⟩
  · exact hkept hok hfacts
  · cases h with
    | kept hfacts => exact hkept rfl hfacts
    | lost hx hfacts =>
      have hnone : d'.root appName = none := hfacts.root
      refine iff_of_false ?_ fun hu => ?_
      · rintro ⟨⟨hsame, -⟩ | hnew, -⟩
        · exact hx (hsame.symm.trans hnone)
        · obtain ⟨name, src', app, -, -, happ, -⟩ := hnew.copied
          rw [hnone] at happ
          cases happ
      · have hin := (unspoiled_iff.mp hu).1 (hfacts.aside.mpr rfl)
        exact Bool.noConfusion (hfacts.installed.mp hin)
    | placed h =>
      have hinstalled : Installed appName l := by
        obtain ⟨copied, aside, hfacts, -⟩ := h
        exact hfacts.installed.mpr rfl
      rw [hplaced hsrc h]
      constructor
      · exact fun hatomic => hatomic.1.resolve_left (hold hinstalled)
      · exact fun hnew => ⟨.inr hnew, nofun⟩
    | checked h hchecked =>
      have hinstalled : Installed appName l := by
        obtain ⟨copied, aside, hfacts, -⟩ := h
        exact hfacts.installed.mpr rfl
      rw [hplaced hsrc h]
      constructor
      · exact fun hatomic => hatomic.1.resolve_left (hold hinstalled)
      · exact fun hnew => ⟨.inr hnew, fun _ => ⟨hnew, hchecked⟩⟩

/-- The swap does not raise, and what it noted is what it did. -/
theorem swap_spec {P : Logged → Prop} {Q : List String → Logged → Prop}
    (h : Does P (swapChangedUiApps platform old new) Q fun _ => False) (hP : P (d, [])) :
    ∃ keys, (run perform (swapChangedUiApps platform old new).run d).1 = .ok keys ∧
      Q keys (after platform old new d, done platform old new d) := by
  have hlogged : run step (swapChangedUiApps platform old new).run (d, []) =
      ((run perform (swapChangedUiApps platform old new).run d).1, after platform old new d, done platform old new d) :=
    run_logged (σ := sig) perform (fun a d => (a, went a d)) (swapChangedUiApps platform old new).run d []
  have hpost := h (d, []) hP
  rw [hlogged] at hpost
  cases hr : (run perform (swapChangedUiApps platform old new).run d).1 with
  | error e =>
    rw [hr] at hpost
    exact hpost.elim
  | ok keys =>
    rw [hr] at hpost
    exact ⟨keys, rfl, hpost⟩

theorem no_destinations (hplatform : platform ≠ .darwin) (key : String) : uiAppDestinations platform key = [] := by
  cases platform with
  | darwin => exact absurd rfl hplatform
  | win32 => rfl
  | linux => rfl

end Run

/-! ### An app that is lost -/

/-- The rename of the new app fails once the old one is moved aside. -/
def breaks (t : ℕ) : Answer := if t = 9 then { error := some .os } else {}

def extracted : Device := { booted breaks with extracted := [([appName], newApp)] }

end Apps
end Install
end LocaiLink
