/-
# The UI apps after an update

An update compares two manifests, not the app that is installed. After an update in which
no swap of an app fails, the installed app has the hash that the new manifest lists exactly
when the swap was due, and the release ships that app, or the installed app had that hash
before (`apps_converge_iff`). An app whose swap failed once is not swapped again until its
listed hash changes (`companion_stale`).
-/
import LocaiLink.Install.Apps

namespace LocaiLink
namespace Install
namespace Apps

open Prog Device

/-! ### What goes wrong -/

/-- Whether it concerns an app that the platform has. -/
def Trouble.counts (platform : Platform) : Trouble → Bool
  | .failed key _ => (uiAppPayloadName platform key).isSome
  | .aborted => true
  | .leftover _ => true

def Device.trouble (platform : Platform) (d : Device) : ℕ := d.log.countP fun e => e.counts platform

section Rules

variable {platform : Platform} {n : ℕ} {α β : Type}

theorem trouble_append (d : Device) (e : Trouble) : Device.trouble platform { d with log := d.log ++ [e] } =
    d.trouble platform + if e.counts platform then 1 else 0 := by
  rw [Device.trouble, List.countP_append, List.countP_singleton]
  rfl

/-- The log only grows. -/
theorem le_trouble (a : Act) (d : Device) : d.trouble platform ≤ (perform a d).2.trouble platform := by
  have hchange (f : Option Device) (hf : ∀ d' ∈ f, d'.log = d.log) :
      d.trouble platform ≤ (d.change f).2.trouble platform := by
    unfold Device.change
    split
    · exact le_refl _
    · cases f with
      | none => exact le_refl _
      | some d' => exact le_of_eq (congrArg (List.countP _) (hf d' rfl)).symm
  have hcopy (name : String) (result : Option App) : d.trouble platform ≤ (d.copy name result).2.trouble platform := by
    unfold Device.copy
    split
    · cases d.ask.copied with
      | none => exact le_refl _
      | some app => exact le_refl _
    · cases result with
      | none => exact le_refl _
      | some app => exact le_refl _
  cases a with
  | note e =>
    change d.trouble platform ≤ Device.trouble platform { d with log := d.log ++ [e] }
    rw [trouble_append]
    exact Nat.le_add_right ..
  | rm name =>
    change d.trouble platform ≤ (d.rm name).2.trouble platform
    unfold Device.rm
    split
    · exact le_refl _
    · exact hchange _ fun d' hd' => by
        obtain rfl := Option.some.inj hd'
        rfl
    · dsimp only
      split
      · exact le_refl _
      · change d.trouble platform ≤ Device.trouble platform { d with log := d.log ++ [.leftover name] }
        rw [trouble_append]
        exact Nat.le_add_right ..
  | stage release =>
    exact hchange _ fun d' hd' => by
      obtain rfl := Option.some.inj hd'
      rfl
  | flip release =>
    exact hchange _ fun d' hd' => by
      obtain rfl := Option.some.inj hd'
      rfl
  | replace p q =>
    refine hchange _ fun d' hd' => ?_
    obtain ⟨app, -, hd'⟩ := Option.bind_eq_some_iff.mp hd'
    obtain ⟨-, hd'⟩ := Option.ite_none_right_eq_some.mp hd'
    obtain rfl := Option.some.inj hd'
    rfl
  | ditto src name => exact hcopy _ _
  | copytree src name => exact hcopy _ _
  | copy2 src base name => exact hcopy _ _
  | _ => exact le_refl _

/-- Nothing was forgotten of `n` troubles, and `P` holds where there are no more. -/
def Fine (platform : Platform) (n : ℕ) (P : Device → Prop) (d : Device) : Prop :=
  n ≤ d.trouble platform ∧ (d.trouble platform = n → P d)

theorem Fine.mono {P Q : Device → Prop} {d : Device} (h : Fine platform n P d) (hPQ : P d → Q d) : Fine platform n Q d :=
  ⟨h.1, fun hn => hPQ (h.2 hn)⟩

/-- What the code leaves when nothing goes wrong. -/
abbrev Makes (platform : Platform) (n : ℕ) (P : Device → Prop) (x : Raising α) (Q : α → Device → Prop)
    (E : Device → Prop) : Prop :=
  Triple (σ := sig) perform (Fine platform n P) x.run (Post (fun a => Fine platform n (Q a)) fun _ => Fine platform n E)

variable {P E : Device → Prop} {x : Raising α}

theorem Makes.bind {f : α → Raising β} {R : α → Device → Prop} {T : β → Device → Prop} (h : Makes platform n P x R E)
    (hf : ∀ a, Makes platform n (R a) (f a) T E) : Makes platform n P (x >>= f) T E :=
  Triple.raising h hf

theorem Makes.mono {Q Q' : α → Device → Prop} {E' : Device → Prop} (h : Makes platform n P x Q E)
    (hQ : ∀ a d, Q a d → Q' a d) (hE : ∀ d, E d → E' d) : Makes platform n P x Q' E' :=
  Triple.mono h fun r d hr => match r with
    | .ok a => Fine.mono hr (hQ a d)
    | .error _ => Fine.mono hr (hE d)

theorem makes_pure {a : α} {Q : α → Device → Prop} (h : ∀ d, P d → Q a d) :
    Makes platform n P (pure a : Raising α) Q E :=
  triple_return fun _ hd => hd.mono (h _)

theorem makes_throw {e : Raised} {Q : α → Device → Prop} (h : ∀ d, P d → E d) :
    Makes platform n P (throw e : Raising α) Q E :=
  triple_throw fun _ hd => hd.mono (h _)

/-- One action. -/
theorem makes_raising {p : Prog sig (Except Raised α)} {Q : α → Device → Prop}
    (h : ∀ d, P d → d.trouble platform = n →
      Post (fun a => Fine platform n (Q a)) (fun _ => Fine platform n E) (p.run perform d).1 (p.run perform d).2) :
    Makes platform n P (raising p) Q E := by
  intro d hd
  change Post _ _ (p.run perform d).1 (p.run perform d).2
  by_cases hn : d.trouble platform = n
  · exact h d (hd.2 hn) hn
  · have hmore : n < (p.run perform d).2.trouble platform :=
      lt_of_lt_of_le (lt_of_le_of_ne hd.1 (Ne.symm hn))
        (run_keeps perform (I := fun d' => d.trouble platform ≤ d'.trouble platform)
          (fun a d' hd' => hd'.trans (le_trouble a d')) p d (le_refl _))
    cases (p.run perform d).1 with
    | ok a => exact ⟨hmore.le, fun heq => absurd heq (Nat.ne_of_gt hmore)⟩
    | error e => exact ⟨hmore.le, fun heq => absurd heq (Nat.ne_of_gt hmore)⟩

/-- What is so of the state before may be assumed. -/
theorem Makes.assuming {c : Prop} {Q : α → Device → Prop} (hc : ∀ d, P d → c) (h : c → Makes platform n P x Q E) :
    Makes platform n P x Q E :=
  makes_raising (p := x.run) fun d hd hn => h (hc d hd) d ⟨hn.ge, fun _ => hd⟩

theorem Makes.pre {P' : Device → Prop} {Q : α → Device → Prop} (h : Makes platform n P x Q E) (hP : ∀ d, P' d → P d) :
    Makes platform n P' x Q E :=
  Triple.pre h fun _ hd => hd.mono (hP _)

theorem makes_tryCatch {f : Raised → Raising α} {Q : α → Device → Prop} {E' : Device → Prop}
    (h : Makes platform n P x Q E) (hf : ∀ e, Makes platform n E (f e) Q E') :
    Makes platform n P (tryCatch x f) Q E' :=
  Triple.tryCatch h hf

/-- Where something is noted that counts, nothing is claimed any more. -/
theorem makes_note {e : Trouble} (he : e.counts platform = true) {Q : Unit → Device → Prop} :
    Makes platform n P (note e) Q E := by
  refine makes_raising fun d _ hn => ?_
  have hmore : Device.trouble platform { d with log := d.log ++ [e] } = d.trouble platform + 1 := by
    rw [trouble_append, if_pos he]
  refine ⟨?_, fun heq => ?_⟩
  · change n ≤ Device.trouble platform { d with log := d.log ++ [e] }
    omega
  · change Device.trouble platform { d with log := d.log ++ [e] } = n at heq
    omega

/-! ### What the actions leave -/

/-- The payload, the manifest, and what is so of the install root. -/
structure At (payload : List (List String × App)) (current : Manifest) (φ : (String → Option App) → Prop) (d : Device) :
    Prop where
  extracted : d.extracted = payload
  current : d.current = current
  root : φ d.root

variable {payload : List (List String × App)} {current : Manifest} {φ ψ : (String → Option App) → Prop}

theorem makes_look {p : Prog sig (Except Raised α)} {v : Device → α} (hp : ∀ d, p.run perform d = d.look (v d))
    {R : α → Prop} (hR : ∀ d, At payload current φ d → R (v d)) :
    Makes platform n (At payload current φ) (raising p) (fun a d => R a ∧ At payload current φ d) (At payload current φ) := by
  refine makes_raising fun d hd hn => ?_
  have hsame : At payload current φ d.tock := ⟨hd.extracted, hd.current, hd.root⟩
  rw [hp d, Device.look]
  cases d.ask.error with
  | none => exact ⟨hn.ge, fun _ => ⟨hR d hd, hsame⟩⟩
  | some e => exact ⟨hn.ge, fun _ => hsame⟩

theorem makes_change {p : Prog sig (Except Raised Unit)} {f : Device → Device} {Q : Device → Prop}
    (hp : ∀ d, p.run perform d = d.change (some (f d))) (hlog : ∀ d, (f d).log = d.log) (h : ∀ d, P d → Q (f d).tock) :
    Makes platform n P (raising p) (fun _ => Q) fun _ => True := by
  refine makes_raising fun d hd hn => ?_
  have hsame : (f d).tock.trouble platform = n := (congrArg (List.countP _) (hlog d)).trans hn
  rw [hp d, Device.change]
  cases d.ask.error with
  | some e => exact ⟨hn.ge, fun _ => trivial⟩
  | none => exact ⟨hsame.ge, fun _ => h d hd⟩

theorem makes_rm {name : String} (h : ∀ root, φ root → ψ (Function.update root name none)) :
    Makes platform n (At payload current φ) (raising (act (.rm name))) (fun _ => At payload current ψ) fun _ => True := by
  refine makes_raising fun d hd hn => ?_
  change Post _ _ (d.rm name).1 (d.rm name).2
  have hgone : At payload current ψ (d.put name none).tock := ⟨hd.extracted, hd.current, h _ hd.root⟩
  unfold Device.rm
  split
  · rename_i hnone
    refine ⟨hn.ge, fun _ => ⟨hd.extracted, hd.current, ?_⟩⟩
    have hroot := h _ hd.root
    rwa [Function.update_eq_self_iff.mpr hnone.symm] at hroot
  · unfold Device.change
    split
    · exact ⟨hn.ge, fun _ => trivial⟩
    · exact ⟨hn.ge, fun _ => hgone⟩
  · dsimp only
    split
    · exact ⟨hn.ge, fun _ => hgone⟩
    · rename_i files hfiles hrest
      have hmore : Device.trouble platform { d with log := d.log ++ [.leftover name] } = d.trouble platform + 1 := by
        rw [trouble_append]
        rfl
      refine ⟨?_, fun heq => ?_⟩
      · change n ≤ Device.trouble platform { d with log := d.log ++ [.leftover name] }
        omega
      · change Device.trouble platform { d with log := d.log ++ [.leftover name] } = n at heq
        omega

theorem makes_copy {p : Prog sig (Except Raised Unit)} {name : String} {f : Option App → Option App}
    (hp : ∀ d, p.run perform d = d.copy name (f (d.root name)))
    (h : ∀ root app, φ root → f (root name) = some app → ψ (Function.update root name (some app))) :
    Makes platform n (At payload current φ) (raising p) (fun _ => At payload current ψ) fun _ => True := by
  refine makes_raising fun d hd hn => ?_
  rw [hp d, Device.copy]
  cases d.ask.error with
  | some e =>
    cases d.ask.copied with
    | none => exact ⟨hn.ge, fun _ => trivial⟩
    | some app => exact ⟨hn.ge, fun _ => trivial⟩
  | none =>
    cases hresult : f (d.root name) with
    | none => exact ⟨hn.ge, fun _ => trivial⟩
    | some app => exact ⟨hn.ge, fun _ => ⟨hd.extracted, hd.current, h _ app hd.root hresult⟩⟩

theorem makes_replace {p q : String}
    (h : ∀ root app, φ root → root p = some app → ψ (Function.update (Function.update root p none) q (some app))) :
    Makes platform n (At payload current φ) (raising (act (.replace p q))) (fun _ => At payload current ψ)
      (At payload current φ) := by
  refine makes_raising fun d hd hn => ?_
  have hsame : At payload current φ d.tock := ⟨hd.extracted, hd.current, hd.root⟩
  change Post _ _ (d.change (d.replaced p q)).1 (d.change (d.replaced p q)).2
  unfold Device.change
  split
  · exact ⟨hn.ge, fun _ => hsame⟩
  · cases hreplaced : d.replaced p q with
    | none => exact ⟨hn.ge, fun _ => hsame⟩
    | some d' =>
      obtain ⟨app, happ, hreplaced⟩ := Option.bind_eq_some_iff.mp hreplaced
      obtain ⟨-, hreplaced⟩ := Option.ite_none_right_eq_some.mp hreplaced
      obtain rfl := Option.some.inj hreplaced
      exact ⟨hn.ge, fun _ => ⟨hd.extracted, hd.current, h _ app hd.root happ⟩⟩

end Rules

/-! ### The swap of an app -/

section Swap

variable {platform : Platform} {n : ℕ} {payload : List (List String × App)} {current : Manifest}
  {φ : (String → Option App) → Prop} {src : App} {dest name key : String}

theorem tmp_ne_dest : tmpName dest ≠ dest := by
  intro h
  have hlength := congrArg String.length h
  simp only [tmpName, String.length_append] at hlength
  have hdot : ".".length = 1 := rfl
  omega

theorem backup_ne_dest : backupName dest ≠ dest := by
  intro h
  have hlength := congrArg String.length h
  simp only [backupName, String.length_append] at hlength
  have hdot : ".".length = 1 := rfl
  omega

theorem tmp_ne_backup : tmpName dest ≠ backupName dest := by
  intro h
  have hlist := congrArg String.toList h
  simp only [tmpName, backupName, String.toList_append, List.append_assoc] at hlist
  have hend := List.append_cancel_left (List.append_cancel_left hlist)
  revert hend
  decide

theorem makes_copyApp : Makes platform n (At payload current fun root => root (tmpName dest) = none)
    (copyApp platform name src (tmpName dest)) (fun _ => At payload current fun root => root (tmpName dest) = some src)
    fun _ => True := by
  have hnew {f : Option App → Option App} (hf : f none = some src) (root : String → Option App) (app : App)
      (hroot : root (tmpName dest) = none) (happ : f (root (tmpName dest)) = some app) :
      Function.update root (tmpName dest) (some app) (tmpName dest) = some src := by
    rw [hroot, hf] at happ
    rw [Function.update_self, happ]
  unfold copyApp
  cases src with
  | file content =>
    exact makes_copy (f := filed name (.file content)) (fun _ => rfl) (hnew rfl)
  | bundle files =>
    split_ifs
    · exact makes_copy (f := merged true (.bundle files)) (fun _ => rfl) (hnew rfl)
    · exact makes_copy (f := merged false (.bundle files)) (fun _ => rfl) (hnew rfl)

theorem makes_moveIn {E : Device → Prop} (hE : ∀ d, At payload current (fun root => root (tmpName dest) = some src) d → E d) :
    Makes platform n (At payload current fun root => root (tmpName dest) = some src)
      (raising (act (.replace (tmpName dest) dest))) (fun _ => At payload current fun root => root dest = some src) E := by
  refine (makes_replace fun root app hroot happ => ?_).mono (fun _ _ h => h) hE
  rw [Function.update_self, ← happ, hroot]

theorem makes_swapAside : Makes platform n (At payload current fun root => root (tmpName dest) = some src) (swapAside dest)
    (fun _ => At payload current fun root => root dest = some src) fun _ => True := by
  have hrm {φ : (String → Option App) → Prop} (h : ∀ root, φ root → φ (Function.update root (backupName dest) none)) :
      Makes platform n (At payload current φ) (raising (act (.rm (backupName dest)))) (fun _ => At payload current φ)
        fun _ => True :=
    makes_rm h
  have haside : Makes platform n (At payload current fun root => root (tmpName dest) = some src)
      (raising (act (.replace dest (backupName dest)))) (fun _ => At payload current fun root => root (tmpName dest) = some src)
      fun _ => True := by
    refine (makes_replace fun root app hroot _ => ?_).mono (fun _ _ h => h) fun _ _ => trivial
    rw [Function.update_of_ne tmp_ne_backup, Function.update_of_ne tmp_ne_dest, hroot]
  have hend : Makes platform n (At payload current fun root => root (tmpName dest) = some src) (do
      raising (act (.replace (tmpName dest) dest))
      raising (act (.rm (backupName dest))))
      (fun _ => At payload current fun root => root dest = some src) fun _ => True := by
    refine (makes_moveIn fun _ _ => trivial).bind fun _ => hrm fun root hroot => ?_
    rw [Function.update_of_ne backup_ne_dest.symm, hroot]
  unfold swapAside
  refine (hrm fun root hroot => ?_).bind fun _ => ?_
  · rw [Function.update_of_ne tmp_ne_backup, hroot]
  · refine Makes.bind (R := fun _ => At payload current fun root => root (tmpName dest) = some src) ?_ fun there => ?_
    · exact (makes_look (v := fun d => (d.root dest).isSome) (fun _ => rfl) (R := fun _ => True) fun _ _ => trivial).mono
        (fun _ _ h => h.2) fun _ _ => trivial
    · cases there with
      | true => exact haside.bind fun _ => hend
      | false => exact hend

/-- An installation that returns has installed the app. -/
theorem makes_installApp : Makes platform n (At payload current φ) (installApp platform name src dest)
    (fun _ => At payload current fun root => root dest = some src) fun _ => True := by
  unfold installApp
  refine Makes.bind (R := fun _ => At payload current φ) ?_ fun _ => ?_
  · exact (makes_look (v := fun _ => ()) (fun _ => rfl) (R := fun _ => True) fun _ _ => trivial).mono
      (fun _ _ h => h.2) fun _ _ => trivial
  · refine (makes_rm (ψ := fun root => root (tmpName dest) = none) fun root _ => Function.update_self ..).bind fun _ => ?_
    refine makes_copyApp.bind fun _ => ?_
    refine makes_tryCatch (makes_moveIn fun _ h => h) fun e => ?_
    cases e with
    | os => exact makes_swapAside
    | other => exact makes_throw fun _ _ => trivial

theorem makes_quiet {p : Prog sig (Except Raised Unit)} (hp : ∀ d, p.run perform d = d.look ()) :
    Makes platform n (At payload current φ) (raising p) (fun _ => At payload current φ) (At payload current φ) :=
  (makes_look hp (R := fun _ => True) fun _ _ => trivial).mono (fun _ _ h => h.2) fun _ h => h

theorem makes_harden : Makes platform n (At payload current φ) (hardenSwappedApp platform dest)
    (fun _ => At payload current φ) fun _ => True := by
  unfold hardenSwappedApp
  split_ifs
  · refine Makes.bind (R := fun _ => At payload current φ) ?_ fun _ => ?_
    · exact makes_tryCatch (makes_quiet fun _ => rfl) fun _ => makes_pure fun _ h => h
    · exact (makes_quiet fun _ => rfl).mono (fun _ _ h => h) fun _ _ => trivial
  · exact makes_pure fun _ h => h

/-- A destination has the app, unless something was noted. -/
theorem makes_swapAt (hkey : (uiAppPayloadName platform key).isSome = true) {E : Device → Prop} :
    Makes platform n (At payload current φ) (swapAt platform key name src dest)
      (fun _ => At payload current fun root => root dest = some src) E := by
  unfold swapAt
  refine makes_tryCatch (E := fun _ => True) ?_ fun e => ?_
  · exact makes_installApp.bind fun _ => makes_harden.bind fun _ => makes_pure fun _ h => h
  · exact Makes.bind (R := fun _ _ => False) (makes_note (e := .failed key (some dest)) hkey) fun _ =>
      makes_pure fun _ h => h.elim

/-- What is noted of an app that the platform does not have does not count. -/
theorem makes_noteOther (hkey : uiAppPayloadName platform key = none) :
    Makes platform n (At payload current φ) (note (.failed key none)) (fun _ => At payload current φ) fun _ => True := by
  refine makes_raising fun d hd hn => ?_
  have hsame : Device.trouble platform { d with log := d.log ++ [.failed key none] } = d.trouble platform := by
    rw [trouble_append, Trouble.counts, hkey]
    rfl
  refine ⟨?_, fun _ => ⟨hd.extracted, hd.current, hd.root⟩⟩
  change n ≤ Device.trouble platform { d with log := d.log ++ [.failed key none] }
  omega

end Swap

/-! ### The app of macOS -/

def companion : String := "companion"

def appName : String := "Locai Link.app"

section Companion

variable {n : ℕ} {payload : List (List String × App)} {current : Manifest} {φ : (String → Option App) → Prop}
  {old : Dict String String} {x : Option App}

/-- Where a swap is due the app of the payload is installed, if the payload has one. -/
theorem makes_swapApp : Makes .darwin n (At payload current fun root => root appName = x) (swapApp .darwin companion)
    (fun _ => At payload current fun root => root appName = (locateInPayload payload appName).or x) fun _ => True := by
  have hdestinations : uiAppDestinations .darwin companion = [appName] := by simp [uiAppDestinations, appName]
  have hname : uiAppPayloadName .darwin companion = some appName := by simp [uiAppPayloadName, companion, appName]
  unfold swapApp
  rw [hdestinations, hname]
  dsimp only
  refine Makes.bind (R := fun found d => found = locateInPayload payload appName ∧
    At payload current (fun root => root appName = x) d) ?_ fun found => ?_
  · refine (makes_look (v := fun d => locateInPayload d.extracted appName) (fun _ => rfl)
      (R := fun found => found = locateInPayload payload appName) fun d hd => ?_).mono (fun _ _ h => h) fun _ _ => trivial
    rw [hd.extracted]
  · cases found with
    | none =>
      refine makes_pure fun d hd => ?_
      rw [← hd.1, Option.none_or]
      exact hd.2
    | some src =>
      refine Makes.assuming (fun _ hd => hd.1) fun hsrc => ?_
      have hverify : Makes .darwin n (At payload current fun root => root appName = x) (verifyAppSignature .darwin src)
          (fun _ => At payload current fun root => root appName = x) fun _ => True :=
        (makes_quiet fun _ => rfl).mono (fun _ _ h => h) fun _ _ => trivial
      have hswap : Makes .darwin n (At payload current fun root => root appName = x)
          (swapAll .darwin companion appName src [appName]) (fun _ => At payload current fun root => root appName = some src)
          fun _ => True :=
        (makes_swapAt rfl).bind fun ok => makes_pure fun _ h => h
      rw [← hsrc, Option.some_or]
      exact (hverify.bind fun _ => hswap).pre fun _ hd => hd.2

/-- What is to be at the app's place: its swap is due when the two manifests differ. -/
def swapped (payload : List (List String × App)) (old : Dict String String) (hash : Option String) (x : Option App) :
    Option App :=
  match hash with
  | none => x
  | some h => if old.get? companion = some h then x else (locateInPayload payload appName).or x

theorem makes_swapEntry {h : String} : Makes .darwin n (At payload current fun root => root appName = x)
    (swapEntry .darwin old companion h) (fun _ => At payload current fun root => root appName = swapped payload old (some h) x)
    fun _ => True := by
  unfold swapEntry swapped
  dsimp only
  split_ifs
  · exact makes_pure fun _ h => h
  · refine makes_tryCatch makes_swapApp fun e => ?_
    exact Makes.bind (R := fun _ _ => False) (makes_note (e := .failed companion none) rfl) fun _ =>
      makes_pure fun _ h => h.elim

/-- The other keys of a manifest are no apps. -/
theorem makes_swapEntryOther {key h : String} (hkey : key ≠ companion) :
    Makes .darwin n (At payload current φ) (swapEntry .darwin old key h) (fun _ => At payload current φ) fun _ => True := by
  have hname : uiAppPayloadName .darwin key = none := if_neg hkey
  have happ : swapApp .darwin key = throw .other := by
    unfold swapApp
    rw [hname]
    rfl
  unfold swapEntry
  split_ifs
  · exact makes_pure fun _ h => h
  · rw [happ]
    refine makes_tryCatch (makes_throw fun _ h => h) fun e => ?_
    exact (makes_noteOther hname).bind fun _ => makes_pure fun _ h => h

theorem makes_swapEntries : ∀ {entries : List (String × String)} {x : Option App}, (entries.map Prod.fst).Nodup →
    Makes .darwin n (At payload current fun root => root appName = x) (swapEntries .darwin old entries)
      (fun _ => At payload current fun root => root appName = swapped payload old (entries.lookup companion) x) fun _ => True
  | [], _, _ => makes_pure fun _ h => h
  | e :: entries, x, hnodup => by
    obtain ⟨key, h⟩ := e
    rw [List.map_cons, List.nodup_cons] at hnodup
    have hrest {y : Option App} := makes_swapEntries (x := y) hnodup.2
    rw [swapEntries]
    by_cases hkey : key = companion
    · subst hkey
      have habsent : entries.lookup companion = none := by
        rw [List.lookup_eq_none_iff]
        intro p hp
        have hne : companion ≠ p.1 := fun heq => hnodup.1 (List.mem_map.mpr ⟨p, hp, heq.symm⟩)
        simpa using hne
      rw [habsent] at hrest
      rw [List.lookup_cons_self]
      exact makes_swapEntry.bind fun ok => hrest.bind fun keys => makes_pure fun _ h => h
    · rw [Dict.lookup_cons_ne _ _ (Ne.symm hkey)]
      exact (makes_swapEntryOther hkey).bind fun ok => hrest.bind fun keys => makes_pure fun _ h => h

theorem makes_restartAll : ∀ {keys : List String}, Makes .darwin n (At payload current φ) (restartAll keys)
    (fun _ => At payload current φ) fun _ => True
  | [] => makes_pure fun _ h => h
  | key :: keys => by
    refine Makes.bind (R := fun _ => At payload current φ) ?_ fun _ => makes_restartAll
    exact makes_raising fun d hd hn => ⟨hn.ge, fun _ => ⟨hd.extracted, hd.current, hd.root⟩⟩

theorem makes_swapApps {E : Device → Prop} : Makes .darwin n (At payload current fun root => root appName = x)
    (swapApps .darwin old)
    (fun _ => At payload current fun root => root appName = swapped payload old (current.apps.get? companion) x) E := by
  unfold swapApps
  refine makes_tryCatch (E := fun _ => True) ?_ fun e => makes_note rfl
  refine Makes.bind (R := fun manifest d => manifest = current ∧ At payload current (fun root => root appName = x) d) ?_
    fun manifest => ?_
  · refine (makes_look (v := fun d => d.current) (fun _ => rfl) (R := fun manifest => manifest = current)
      fun d hd => hd.current).mono (fun _ _ h => h) fun _ _ => trivial
  · refine Makes.assuming (fun _ hd => hd.1) fun hmanifest => ?_
    subst hmanifest
    exact ((makes_swapEntries manifest.apps.nodup).bind fun keys => makes_restartAll).pre fun _ hd => hd.2

/-- A successful update. -/
theorem makes_swapBundle {release : Release} : Makes .darwin n (fun d => d.current = current ∧ d.root appName = x)
    (swapBundle .darwin release)
    (fun ok d => ok = true → At release.payload release.manifest
      (fun root => root appName = swapped release.payload current.apps (release.manifest.apps.get? companion) x) d)
    fun _ => True := by
  unfold swapBundle
  refine Makes.bind (R := fun manifest d => manifest = current ∧ d.root appName = x) ?_ fun manifest => ?_
  · refine makes_raising fun d hd hn => ?_
    change Post _ _ (d.look d.current).1 (d.look d.current).2
    rw [Device.look]
    cases d.ask.error with
    | none => exact ⟨hn.ge, fun _ => hd⟩
    | some e => exact ⟨hn.ge, fun _ => trivial⟩
  · refine Makes.assuming (fun _ hd => hd.1) fun hmanifest => ?_
    subst hmanifest
    split_ifs
    · exact makes_pure fun d _ hok => by cases hok
    · have hstage : Makes .darwin n (fun d => manifest = manifest ∧ d.root appName = x) (raising (act (.stage release)))
          (fun _ d => d.extracted = release.payload ∧ d.root appName = x) fun _ => True :=
        makes_change (f := fun d => { d with extracted := release.payload }) (fun _ => rfl) (fun _ => rfl)
          fun d hd => ⟨rfl, hd.2⟩
      have hflip : Makes .darwin n (fun d => d.extracted = release.payload ∧ d.root appName = x) (raising (act (.flip release)))
          (fun _ => At release.payload release.manifest fun root => root appName = x) fun _ => True :=
        makes_change (f := fun d => { d with current := release.manifest }) (fun _ => rfl) (fun _ => rfl)
          fun d hd => ⟨hd.1, rfl, hd.2⟩
      have hquiet {φ : (String → Option App) → Prop} {p : Prog sig (Except Raised Unit)}
          (hp : ∀ d, p.run perform d = d.look ()) : Makes .darwin n (At release.payload release.manifest φ) (raising p)
          (fun _ => At release.payload release.manifest φ) fun _ => True :=
        (makes_quiet hp).mono (fun _ _ h => h) fun _ _ => trivial
      refine hstage.bind fun _ => hflip.bind fun _ => (hquiet fun _ => rfl).bind fun _ => ?_
      exact makes_swapApps.bind fun _ => (hquiet fun _ => rfl).bind fun _ => makes_pure fun _ h _ => h

end Companion

/-! ### Runs of updates -/

section Runs

variable (H : App → String) (platform : Platform)

/-- The UI apps that are installed have the hashes that the manifest lists. -/
def Has (manifest : Manifest) (d : Device) : Prop :=
  ∀ key name dest h app, uiAppPayloadName platform key = some name → dest ∈ uiAppDestinations platform key →
    manifest.apps.get? key = some h → d.root dest = some app → H app = h

/-- The release has the apps whose hashes it lists. -/
def Ships (release : Release) : Prop :=
  ∀ key name h, uiAppPayloadName platform key = some name → release.manifest.apps.get? key = some h →
    ∃ src, locateInPayload release.payload name = some src ∧ H src = h

/-- Before an update: an app whose listed hash does not change has it, an app whose hash
changes is shipped with the new one, and one that is not shipped has it. -/
structure Ready (release : Release) (d : Device) : Prop where
  unchanged : ∀ key name dest h app, uiAppPayloadName platform key = some name → dest ∈ uiAppDestinations platform key →
    release.manifest.apps.get? key = some h → d.current.apps.get? key = some h → d.root dest = some app → H app = h
  shipped : ∀ key name dest h src, uiAppPayloadName platform key = some name → dest ∈ uiAppDestinations platform key →
    release.manifest.apps.get? key = some h → d.current.apps.get? key ≠ some h →
    locateInPayload release.payload name = some src → H src = h
  missing : ∀ key name dest h app, uiAppPayloadName platform key = some name → dest ∈ uiAppDestinations platform key →
    release.manifest.apps.get? key = some h → d.current.apps.get? key ≠ some h →
    locateInPayload release.payload name = none → d.root dest = some app → H app = h

variable {H platform}

/-- Only macOS has an app to swap. -/
theorem only_companion {key name dest : String} (hname : uiAppPayloadName platform key = some name)
    (hdest : dest ∈ uiAppDestinations platform key) :
    platform = .darwin ∧ key = companion ∧ name = appName ∧ dest = appName := by
  cases platform with
  | darwin =>
    obtain ⟨hkey, hname⟩ := Option.ite_none_right_eq_some.mp hname
    exact ⟨rfl, hkey, (Option.some.inj hname).symm, List.mem_singleton.mp hdest⟩
  | win32 => cases hdest
  | linux => cases hdest

/-- What a successful update leaves in which nothing goes wrong with the apps. -/
theorem update_leaves {release : Release} {d d' : Device} (h : update .darwin release d = some d')
    (hsmooth : d'.trouble .darwin = d.trouble .darwin) :
    At release.payload release.manifest (fun root => root appName =
      swapped release.payload d.current.apps (release.manifest.apps.get? companion) (d.root appName)) d' := by
  have hmakes : Makes .darwin (d.trouble .darwin) (fun e => e.current = d.current ∧ e.root appName = d.root appName)
      (swapBundle .darwin release) _ _ :=
    makes_swapBundle
  have hspec := hmakes d ⟨le_refl _, fun _ => ⟨rfl, rfl⟩⟩
  rcases hr : Prog.run perform (swapBundle .darwin release).run d with ⟨r, d''⟩
  unfold update at h
  rw [hr] at h hspec
  obtain ⟨hok, hd'⟩ := Option.ite_none_right_eq_some.mp h
  obtain rfl := Option.some.inj hd'
  cases r with
  | error e => cases hok
  | ok b =>
    obtain rfl : b = true := Option.some.inj hok
    exact hspec.2 hsmooth rfl

/-- One update, from any state. -/
theorem has_iff_ready {release : Release} {d d' : Device} (h : update platform release d = some d')
    (hsmooth : d'.trouble platform = d.trouble platform) :
    Has H platform release.manifest d' ↔ Ready H platform release d := by
  have hleaves (hplatform : platform = .darwin) : d'.root appName =
      swapped release.payload d.current.apps (release.manifest.apps.get? companion) (d.root appName) := by
    subst hplatform
    exact (update_leaves h hsmooth).root
  constructor
  · intro hhas
    refine ⟨fun key name dest h app hname hdest hh hold happ => ?_, fun key name dest h src hname hdest hh hold hsrc => ?_,
      fun key name dest h app hname hdest hh hold hnone happ => ?_⟩
    · obtain ⟨hplatform, rfl, rfl, rfl⟩ := only_companion hname hdest
      refine hhas _ _ _ h app hname hdest hh ?_
      rw [hleaves hplatform, hh, swapped, if_pos hold, happ]
    · obtain ⟨hplatform, rfl, rfl, rfl⟩ := only_companion hname hdest
      refine hhas _ _ _ h src hname hdest hh ?_
      rw [hleaves hplatform, hh, swapped, if_neg hold, hsrc, Option.some_or]
    · obtain ⟨hplatform, rfl, rfl, rfl⟩ := only_companion hname hdest
      refine hhas _ _ _ h app hname hdest hh ?_
      rw [hleaves hplatform, hh, swapped, if_neg hold, hnone, Option.none_or, happ]
  · intro hready key name dest h app hname hdest hh happ
    obtain ⟨hplatform, rfl, rfl, rfl⟩ := only_companion hname hdest
    rw [hleaves hplatform, hh, swapped] at happ
    split_ifs at happ with hold
    · exact hready.unchanged _ _ _ h app hname hdest hh hold happ
    · cases hsrc : locateInPayload release.payload appName with
      | none =>
        rw [hsrc, Option.none_or] at happ
        exact hready.missing _ _ _ h app hname hdest hh hold hsrc happ
      | some src =>
        rw [hsrc, Option.some_or] at happ
        obtain rfl := Option.some.inj happ
        exact hready.shipped _ _ _ h src hname hdest hh hold hsrc

/-- Where the installed apps are those of the manifest, a release that ships what it lists
finds the device ready. -/
theorem ready_of_has {release : Release} {d : Device} (hhas : Has H platform d.current d) (hships : Ships H platform release) :
    Ready H platform release d := by
  refine ⟨fun key name dest h app hname hdest _ hold happ => hhas key name dest h app hname hdest hold happ,
    fun key name dest h src hname hdest hh _ hsrc => ?_, fun key name dest h app hname hdest hh _ hnone _ => ?_⟩
  · obtain ⟨src', hsrc', hH⟩ := hships key name h hname hh
    rw [hsrc] at hsrc'
    rw [Option.some.inj hsrc', hH]
  · obtain ⟨src', hsrc', -⟩ := hships key name h hname hh
    rw [hnone] at hsrc'
    cases hsrc'

theorem update_trouble {release : Release} {d d' : Device} (h : update platform release d = some d') :
    d.trouble platform ≤ d'.trouble platform := by
  unfold update at h
  obtain ⟨-, hd'⟩ := Option.ite_none_right_eq_some.mp h
  obtain rfl := Option.some.inj hd'
  exact run_keeps perform (I := fun d' => d.trouble platform ≤ d'.trouble platform)
    (fun a d' hd' => hd'.trans (le_trouble a d')) (swapBundle platform release).run d (le_refl _)

theorem updates_trouble : ∀ {releases : List Release} {d d' : Device}, updates platform releases d = some d' →
    d.trouble platform ≤ d'.trouble platform
  | [], d, d', h => by
    obtain rfl := Option.some.inj h
    exact le_refl _
  | release :: releases, d, d', h => by
    rw [updates, List.foldlM_cons] at h
    obtain ⟨d₁, hd₁, h⟩ := Option.bind_eq_some_iff.mp h
    exact (update_trouble hd₁).trans (updates_trouble h)

theorem update_has {release : Release} {d d' : Device} (hhas : Has H platform d.current d) (hships : Ships H platform release)
    (h : update platform release d = some d') (hsmooth : d'.trouble platform = d.trouble platform) :
    Has H platform d'.current d' := by
  have hnew := (has_iff_ready h hsmooth).mpr (ready_of_has hhas hships)
  intro key name dest hash app hname hdest hh happ
  obtain ⟨hplatform, -⟩ := only_companion hname hdest
  subst hplatform
  rw [(update_leaves h hsmooth).current] at hh
  exact hnew key name dest hash app hname hdest hh happ

/-- Along a run in which nothing goes wrong with the apps they are those of the manifest. -/
theorem updates_has : ∀ {releases : List Release} {d d' : Device}, Has H platform d.current d →
    (∀ release ∈ releases, Ships H platform release) → updates platform releases d = some d' →
    d'.trouble platform = d.trouble platform → Has H platform d'.current d'
  | [], d, d', hhas, _, h, _ => by
    obtain rfl := Option.some.inj h
    exact hhas
  | release :: releases, d, d', hhas, hships, h, hsmooth => by
    rw [updates, List.foldlM_cons] at h
    obtain ⟨d₁, hd₁, h⟩ := Option.bind_eq_some_iff.mp h
    have hfirst : d.trouble platform ≤ d₁.trouble platform := update_trouble hd₁
    have hrest : d₁.trouble platform ≤ d'.trouble platform := updates_trouble h
    have hhas₁ := update_has hhas (hships release List.mem_cons_self) hd₁ (by omega)
    exact updates_has hhas₁ (fun r hr => hships r (List.mem_cons_of_mem _ hr)) h (by omega)

/-- **UI apps and manifests.** After a run of successful updates, nothing having gone wrong
with the apps in the last one, the installed apps have the hashes of its manifest exactly
when the last update found the device ready. -/
theorem apps_converge_iff (H : App → String) (platform : Platform) {releases : List Release} {release : Release}
    {d₀ d' : Device} (hrun : updates platform (releases ++ [release]) d₀ = some d') :
    ∃ d, updates platform releases d₀ = some d ∧ (d'.trouble platform = d.trouble platform →
      (Has H platform release.manifest d' ↔ Ready H platform release d)) := by
  rw [updates, List.foldlM_append] at hrun
  obtain ⟨d, hd, hlast⟩ := Option.bind_eq_some_iff.mp hrun
  rw [List.foldlM_cons] at hlast
  obtain ⟨d₁, hd₁, hlast⟩ := Option.bind_eq_some_iff.mp hlast
  obtain rfl : d₁ = d' := Option.some.inj hlast
  exact ⟨d, hd, has_iff_ready hd₁⟩

end Runs

/-! ### A swap that failed once -/

def oldApp : App := .bundle [(["Contents", "Info.plist"], [48])]

def newApp : App := .bundle [(["Contents", "Info.plist"], [49])]

/-- The hash of the sources an app was built from. -/
def hashOf (app : App) : String := if app = newApp then "1" else "0"

def listing (version hash : String) : Manifest := ⟨version, Dict.set .empty companion hash⟩

def releaseOf (version : String) : Release := ⟨listing version "1", [([appName], newApp)]⟩

def booted (oracle : ℕ → Answer) : Device :=
  ⟨listing "1.0" "0", [], fun name => if name = appName then some oldApp else none, [], oracle, 0⟩

/-- The copy of the app fails in the first update. -/
def fails (t : ℕ) : Answer := if t = 9 then { error := some .other } else {}

theorem ships_releaseOf (version : String) : Ships hashOf .darwin (releaseOf version) := by
  intro key name h hname hh
  obtain ⟨rfl, hname⟩ := Option.ite_none_right_eq_some.mp hname
  obtain rfl := Option.some.inj hname
  have hone : h = "1" := (Option.some.inj hh).symm
  have hlocate : locateInPayload [([appName], newApp)] appName = some newApp := by decide +kernel
  refine ⟨newApp, hlocate, ?_⟩
  rw [hone]
  decide

theorem has_booted (oracle : ℕ → Answer) : Has hashOf .darwin (listing "1.0" "0") (booted oracle) := by
  intro key name dest h app hname hdest hh happ
  obtain ⟨-, rfl, rfl, rfl⟩ := only_companion hname hdest
  have hzero : h = "0" := (Option.some.inj hh).symm
  have hold : app = oldApp := (Option.some.inj happ).symm
  rw [hzero, hold]
  decide

/-- The copy of the first update fails, the second one lists the same hash: nothing is
attempted, nothing fails, and the app stays as it was. -/
theorem companion_stale : ∃ d₀ d₁ d₂, Has hashOf .darwin d₀.current d₀ ∧ Ships hashOf .darwin (releaseOf "1.1") ∧
    Ships hashOf .darwin (releaseOf "1.2") ∧ update .darwin (releaseOf "1.1") d₀ = some d₁ ∧
    update .darwin (releaseOf "1.2") d₁ = some d₂ ∧ d₂.trouble .darwin = d₁.trouble .darwin ∧
    ¬Has hashOf .darwin (releaseOf "1.2").manifest d₂ := by
  have hrun : ((update .darwin (releaseOf "1.1") (booted fails)).bind fun d₁ =>
      (update .darwin (releaseOf "1.2") d₁).map fun d₂ => (d₁, d₂)).any (fun p =>
        p.2.trouble .darwin = p.1.trouble .darwin ∧ p.2.root appName = some oldApp) = true := by
    decide +kernel
  obtain ⟨⟨d₁, d₂⟩, hd, hlast⟩ := (Option.any_eq_true _ _).mp hrun
  obtain ⟨hsmooth, hold⟩ := of_decide_eq_true hlast
  obtain ⟨d₁', hd₁, hd⟩ := Option.bind_eq_some_iff.mp hd
  obtain ⟨d₂', hd₂, hpair⟩ := Option.map_eq_some_iff.mp hd
  obtain ⟨rfl, rfl⟩ := Prod.mk.inj hpair
  refine ⟨booted fails, d₁', d₂', has_booted fails, ships_releaseOf "1.1", ships_releaseOf "1.2", hd₁, hd₂, hsmooth, fun hhas => ?_⟩
  have hone : hashOf oldApp = "1" := hhas companion appName appName "1" oldApp rfl (List.mem_singleton.mpr rfl) rfl hold
  revert hone
  decide

/-- Where no copy fails, the second update finds the app up to date. -/
theorem companion_updated : ∃ d', updates .darwin ([releaseOf "1.1"] ++ [releaseOf "1.2"]) (booted fun _ => {}) = some d' ∧
    Has hashOf .darwin (releaseOf "1.2").manifest d' := by
  have hrun : ((updates .darwin [releaseOf "1.1"] (booted fun _ => {})).bind fun d =>
      (update .darwin (releaseOf "1.2") d).map fun d' => (d, d')).any (fun p =>
        p.2.trouble .darwin = p.1.trouble .darwin ∧ p.1.root appName = some newApp ∧
          p.1.current.apps.get? companion = some "1") = true := by
    decide +kernel
  obtain ⟨⟨d, d'⟩, hd, hlast⟩ := (Option.any_eq_true _ _).mp hrun
  obtain ⟨hsmooth, hnew, hlisted⟩ := of_decide_eq_true hlast
  obtain ⟨d₁, hd₁, hd⟩ := Option.bind_eq_some_iff.mp hd
  obtain ⟨d₂, hd₂, hpair⟩ := Option.map_eq_some_iff.mp hd
  obtain ⟨rfl, rfl⟩ := Prod.mk.inj hpair
  have hboth : updates .darwin ([releaseOf "1.1"] ++ [releaseOf "1.2"]) (booted fun _ => {}) = some d₂ := by
    rw [updates, List.foldlM_append]
    refine Option.bind_eq_some_iff.mpr ⟨d₁, hd₁, ?_⟩
    rw [List.foldlM_cons, hd₂]
    rfl
  have hhas : Has hashOf .darwin d₁.current d₁ := by
    intro key name dest h app hname hdest hh happ
    obtain ⟨-, rfl, rfl, rfl⟩ := only_companion hname hdest
    rw [← Option.some.inj (hlisted.symm.trans hh), ← Option.some.inj (hnew.symm.trans happ)]
    decide
  obtain ⟨d₃, hd₃, hiff⟩ := apps_converge_iff hashOf .darwin hboth
  obtain rfl := Option.some.inj (hd₁.symm.trans hd₃)
  exact ⟨d₂, hboth, (hiff hsmooth).mpr (ready_of_has hhas (ships_releaseOf "1.2"))⟩

end Apps
end Install
end LocaiLink
