/-
# An update that is taken back

The updater leaves a stamp, in Python, with the time of the flip and the version before; where the runtime that it has installed
fails within two minutes, the launcher reads the stamp, in Rust, and points `current` back. Together they are a round trip
(`update_taken_back`): the launcher finds the very version that `current` was read as before the update, and wherever it is
stopped `current` is the new version or the old one. It is back when the launcher goes round, but where the link at `current`
can be neither replaced nor removed.
-/
import LocaiLink.Install.Bootstrap
import LocaiLink.Install.Rollback
import LocaiLink.Install.Supervisor

namespace LocaiLink
namespace Install

open World
open Prog (run run_ok run_error Guards Passes)

/-! ### The stamp, from one language to the other -/

section Stamp

variable {root : Place} {v : String} {t : Fs Bytes} {n now : ℕ}

theorem toList_toString (n : ℕ) : (toString n).toList = Nat.toDigits 10 n := by simp

theorem isDigit_of_toString {c : Char} (h : c ∈ (toString n).toList) : Text.isDigit c = true := by
  rw [toList_toString] at h
  have hdigit : c.isDigit = true := Nat.isDigit_of_mem_toDigits (by decide) (by decide) h
  simpa [Text.isDigit, Char.isDigit, Char.le_def] using hdigit

theorem decimal_toString (n : ℕ) : Text.decimal (toString n).toList = n := by
  calc Text.decimal (toString n).toList
      = Nat.ofDigitChars 10 (Nat.toDigits 10 n) 0 := by rw [toList_toString, Nat.ofDigitChars_eq_foldl]; rfl
    _ = n := Nat.ofDigitChars_ten_toDigits

theorem parseU64_digits {l : List Char} (hne : l ≠ []) (hall : ∀ c ∈ l, Text.isDigit c = true) (h : Text.decimal l < 2 ^ 64) :
    Text.parseU64 l = some (Text.decimal l) := by
  have hplus : ∀ rest, l = '+' :: rest → False := by
    rintro rest rfl
    exact absurd (hall '+' List.mem_cons_self) (by decide)
  have hall' : l.all Text.isDigit = true := List.all_eq_true.mpr hall
  simp only [Text.parseU64]
  split_ifs with hok
  · rfl
  · exact absurd ⟨hne, hall', h⟩ hok

/-- A number is read as it is written, if it has 64 bits. -/
theorem parseU64_toString (h : n < 2 ^ 64) : Text.parseU64 (toString n).toList = some n := by
  have hne : (toString n).toList ≠ [] := by
    rw [toList_toString]
    exact Nat.toDigits_ne_nil
  calc Text.parseU64 (toString n).toList
      = some (Text.decimal (toString n).toList) :=
        parseU64_digits hne (fun _ hc => isDigit_of_toString hc) (by rwa [decimal_toString])
    _ = some n := by rw [decimal_toString]

theorem not_whiteSpace_of_digit {c : Char} (h : Text.isDigit c = true) : Text.isWhiteSpace c = false := by
  have hbounds : 48 ≤ c.toNat ∧ c.toNat ≤ 57 := by
    simp only [Text.isDigit, Bool.and_eq_true, decide_eq_true_eq, Char.le_def, UInt32.le_iff_toNat_le] at h
    exact h
  simp only [Text.isWhiteSpace, Bool.or_eq_false_iff, Bool.and_eq_false_iff, decide_eq_false_iff_not]
  omega

theorem trim_toString (n : ℕ) : Text.trim (toString n).toList = (toString n).toList := by
  have hnot : ∀ c ∈ (toString n).toList, Text.isWhiteSpace c = false := fun c hc => not_whiteSpace_of_digit (isDigit_of_toString hc)
  unfold Text.trim Text.stripBy
  rw [List.dropWhile_eq_self_iff.mpr, List.rdropWhile_eq_self_iff.mpr]
  · intro hl
    rw [hnot _ (List.getLast_mem hl)]
    decide
  · intro hl
    rw [hnot _ (List.getElem_mem _)]
    decide

/-- **The launcher reads the updater's stamp.** -/
theorem ofText_stampText (hv : OneLine v) (h : now < 2 ^ 64) : UpdatePending.ofText (stampText now v).toList = some ⟨now, v⟩ := by
  have htext : (stampText now v).toList = (toString now).toList ++ '\n' :: (v.toList ++ '\n' :: []) := by
    simp [stampText]
  have hnumber : (toString now).toList.getLast? ≠ some '\r' := fun hr =>
    absurd (isDigit_of_toString (List.mem_of_getLast? hr)) (by decide)
  have hreturn : v.toList.getLast? ≠ some '\r' := fun hr => absurd (Text.getLast?_of_stripBy hv.trimmed hr) (by decide)
  rw [UpdatePending.ofText, htext, Text.lines_cons (not_feed_of_nat now), Text.lines_cons hv.noFeed, if_neg hreturn, if_neg hnumber]
  show (Text.parseU64 (Text.trim (toString now).toList)).bind _ = _
  rw [trim_toString, parseU64_toString h, Option.bind_some, hv.trimmed, String.ofList_toList, if_neg hv.nonempty]

/-- Whatever it reads, the version is the one before. -/
theorem previousVersion_stampText (hv : OneLine v) {pending : UpdatePending}
    (h : UpdatePending.ofText (stampText now v).toList = some pending) : pending.previousVersion = v := by
  have htext : (stampText now v).toList = (toString now).toList ++ '\n' :: (v.toList ++ '\n' :: []) := by
    simp [stampText]
  have hnumber : (toString now).toList.getLast? ≠ some '\r' := fun hr =>
    absurd (isDigit_of_toString (List.mem_of_getLast? hr)) (by decide)
  have hreturn : v.toList.getLast? ≠ some '\r' := fun hr => absurd (Text.getLast?_of_stripBy hv.trimmed hr) (by decide)
  rw [UpdatePending.ofText, htext, Text.lines_cons (not_feed_of_nat now), Text.lines_cons hv.noFeed, if_neg hreturn, if_neg hnumber] at h
  obtain ⟨flipped, -, h⟩ := Option.bind_eq_some_iff.mp h
  rw [hv.trimmed, String.ofList_toList, if_neg hv.nonempty] at h
  rw [← Option.some.inj h]

end Stamp

/-! ### The way back -/

theorem stagedApart_rollback : StagedApart "rollback" := ⟨by decide, by decide⟩

section Back

variable {root : Place} {v name : String} {code : Option ℤ} {before t : Fs Bytes}

theorem Pointing.unlinked (h : Pointing root v before t) (hname : ¬Unmoved name) :
    Pointing root v before (t.set (root ++ [name]) none) := by
  have hsame {x : String} (hx : Unmoved x) : (t.set (root ++ [name]) none).node (root ++ [x]) = t.node (root ++ [x]) :=
    Fs.node_set_of_ne (ne_of_name fun he : x = name => hname (he ▸ hx)) none t
  have hlink := hsame (x := currentLink) (.inl rfl)
  have hfile := hsame (x := currentPointerFile) (.inr (.inl rfl))
  have hversions : Fs.Agree (Where root (· = versionsDir)) (t.set (root ++ [name]) none) t :=
    agree_set_where (p := (· = versionsDir)) (fun he => hname (.inr (.inr he))) [] none t
  rcases h with h | h
  · exact .inl ⟨hlink.trans h.link, by rw [hfile]; exact h.file, hversions.trans h.versions⟩
  · exact .inr ⟨hfile.trans h.file, by rw [hlink]; exact h.link, hversions.trans h.versions⟩

theorem awaiting_self (t : Fs Bytes) (h : t = before) : Awaiting root before t := h ▸ .refl _ _

theorem lands_unlink (hname : ¬Unmoved name) : Lands (Pointing root v before) (ignoring (act (.unlink (root ++ [name]))))
    (fun _ => Pointing root v before) (Awaiting root before) (Between root v before) := by
  refine lands_ignoring (lands_change (fun _ => rfl) (fun _ _ h => Prog.passes_call h) (fun t ht _ => ?_) (fun _ ht => ht)
    pointing_between pointing_between) pointing_between
  exact ht.unlinked hname

/-- The launcher writes the pointer in the shape that it has, by way of a name of its own. -/
theorem lands_writeRollbackPointer (htemp : before.isLink (root ++ [stagedFileName "rollback"]) = false) :
    Lands (fun t => t = before) (writeRollbackPointer root v) (fun _ => Pointing root v before) (Awaiting root before)
      (Between root v before) := by
  unfold writeRollbackPointer
  refine (lands_peek fun t ht => awaiting_between t (awaiting_self t ht)).bind (fun a => Lands.ite (fun _ => ?_) fun _ => ?_) awaiting_between
  · exact (lands_writePointerLink stagedApart_rollback htemp).pre fun t ht => ht.1 ▸ .refl _ _
  · have hfile : Lands (fun t => t = before ∧ (a = t ∨ a = .empty)) (writePointerFile "rollback" root v) (fun _ => Texted root v before)
        (Awaiting root before) (Between root v before) :=
      (lands_writePointerFile stagedApart_rollback htemp).pre fun t ht => ht.1 ▸ .refl _ _
    exact hfile.post (fun _ t ht => .inr ht) fun t ht => ht

/-- The tree after `try_rollback`: where it says so, the pointer is written. -/
def TookBack (root : Place) (v : String) (before : Fs Bytes) (b : Bool) (t : Fs Bytes) : Prop :=
  (b = true ∧ Pointing root v before t) ∨ (b = false ∧ Awaiting root before t)

theorem TookBack.between {b : Bool} (t : Fs Bytes) (h : TookBack root v before b t) : Between root v before t :=
  h.elim (fun h => .inr h.2) fun h => .inl h.2

theorem lands_takeBack (htemp : before.isLink (root ++ [stagedFileName "rollback"]) = false) :
    Lands (fun t => t = before) (takeBack root v) (TookBack root v before) (Awaiting root before) (Between root v before) := by
  unfold takeBack
  refine (lands_writeRollbackPointer htemp).bind (fun _ => ?_) awaiting_between
  refine (lands_unlink (by decide)).bind (fun _ => ?_) awaiting_between
  refine (lands_unlink (by decide)).bind (fun _ => ?_) awaiting_between
  refine (lands_unlink (by decide)).bind (fun _ => ?_) awaiting_between
  exact lands_return (fun t ht => .inl ⟨rfl, ht⟩) pointing_between

theorem lands_clearStamp : Lands (fun t => t = before) (clearStamp root) (TookBack root v before) (Awaiting root before)
    (Between root v before) := by
  unfold clearStamp
  have hgone : Lands (fun t => t = before) (ignoring (act (.unlink (root ++ [updatePendingStamp])))) (fun _ => Awaiting root before)
      (Awaiting root before) (Between root v before) := by
    refine lands_ignoring (lands_change (fun _ => rfl) (fun _ _ h => Prog.passes_call h) (fun t ht _ => ?_) awaiting_self
      awaiting_between awaiting_between) awaiting_between
    exact (agree_set_where (by decide) [] none t).trans (awaiting_self t ht)
  exact hgone.bind (fun _ => lands_return (fun t ht => .inr ⟨rfl, ht⟩) awaiting_between) awaiting_between

theorem lands_takeBackIfDue {pending : UpdatePending} (hpending : pending.previousVersion = v) (now : ℕ)
    (htemp : before.isLink (root ++ [stagedFileName "rollback"]) = false) :
    Lands (fun t => t = before) (takeBackIfDue root pending now) (TookBack root v before) (Awaiting root before) (Between root v before) := by
  unfold takeBackIfDue
  refine Lands.ite (fun _ => lands_clearStamp) fun _ => ?_
  refine (lands_peek fun t ht => awaiting_between t (awaiting_self t ht)).bind (fun a => Lands.ite (fun _ => ?_) fun _ => ?_) awaiting_between
  · exact lands_clearStamp.pre fun t ht => ht.1
  · rw [hpending]
    exact (lands_takeBack htemp).pre fun t ht => ht.1

/-- Where the stamp is of a version, `try_rollback` takes the install back to that one or leaves it. -/
theorem lands_tryRollback (hstamp : ∀ pending, readUpdatePending root before = some pending → pending.previousVersion = v)
    (htemp : before.isLink (root ++ [stagedFileName "rollback"]) = false) :
    Lands (fun t => t = before) (tryRollback root) (TookBack root v before) (Awaiting root before) (Between root v before) := by
  have hwait : ∀ t, t = before → Between root v before t := fun t ht => awaiting_between t (awaiting_self t ht)
  unfold tryRollback
  refine (lands_peek hwait).bind (fun a => ?_) awaiting_between
  cases hread : readUpdatePending root a with
  | none => exact lands_return (fun t ht => .inr ⟨rfl, awaiting_self t ht.1⟩) fun t ht => hwait t ht.1
  | some pending =>
    -- an empty tree has no stamp: it is the stamp of the tree itself
    have hpast : Lands (fun t => t = before ∧ (a = t ∨ a = .empty)) (do
        let now ← ExceptT.lift (act .now)
        takeBackIfDue root pending now) (TookBack root v before) (Awaiting root before) (Between root v before) := by
      by_cases ha : a = before
      · have hnow : Guards (σ := sig) perform (fun s => s.fs = before ∧ (a = s.fs ∨ a = .empty)) (act .now) (fun _ s => s.fs = before)
            fun s => Between root v before s.fs := by
          refine fun s hs => ⟨hs.1, fun t ht => hwait _ ?_⟩
          rcases Prog.passes_call ht with rfl | rfl
          · exact hs.1
          · exact hs.1
        exact Guards.lift hnow fun now => lands_takeBackIfDue (hstamp pending (ha ▸ hread)) now htemp
      · refine fun s hs => ?_
        rcases hs.2 with h | h
        · exact absurd (h.trans hs.1) ha
        · rw [h] at hread
          cases hread
    exact hpast

/-- The tree after a child that failed: the launcher goes round where the pointer is written. -/
def Went (root : Place) (v : String) (before : Fs Bytes) : Option ℕ → Fs Bytes → Prop
  | none => Pointing root v before
  | some _ => Awaiting root before

theorem lands_afterExit (hcode : Failed code)
    (hstamp : ∀ pending, readUpdatePending root before = some pending → pending.previousVersion = v)
    (htemp : before.isLink (root ++ [stagedFileName "rollback"]) = false) :
    Lands (fun t => t = before) (afterExit root code) (Went root v before) (Awaiting root before) (Between root v before) := by
  obtain ⟨n, rfl, hzero, hrestart⟩ := hcode
  unfold afterExit
  simp only [if_neg hrestart, if_neg hzero]
  refine (lands_tryRollback hstamp htemp).bind (fun b => ?_) awaiting_between
  refine Lands.ite (fun hb => ?_) fun hb => ?_
  · refine lands_return (fun t ht => ?_) fun t ht => ht.between
    rcases ht with ⟨-, ht⟩ | ⟨hfalse, -⟩
    · exact ht
    · exact absurd (hb.symm.trans hfalse) (by decide)
  · refine lands_return (fun t ht => ?_) fun t ht => ht.between
    rcases ht with ⟨htrue, -⟩ | ⟨-, ht⟩
    · exact absurd htrue hb
    · exact ht

/-- The install is back: the version is current, or the link is still the one that was there, over a text that is the version. -/
structure TakenBack (root : Place) (v : String) (before t : Fs Bytes) : Prop where
  versions : Fs.Agree (Where root (· = versionsDir)) t before
  current : resolveCurrentVersion root t = some v ∨ before.isLink (root ++ [currentLink]) = true ∧
    t.node (root ++ [currentLink]) = before.node (root ++ [currentLink]) ∧
      t.node (root ++ [currentPointerFile]) = some (.file (Bytes.encode (v ++ "\n")))

theorem Linked.resolves (h : Linked root v before t) (hv : PlainName v) : resolveCurrentVersion root t = some v := by
  refine resolveCurrentVersion_of_link ?_
  rw [linkTarget, h.link]
  exact fileName_versionPath hv

theorem linkTarget_of_not_link {p : Place} (h : t.isLink p = false) : linkTarget p t = none := by
  unfold linkTarget
  split
  next target hlink => rw [Fs.isLink, hlink] at h; cases h
  next => rfl

theorem Pointing.takenBack (h : Pointing root v before t) (hv : Nameable v) : TakenBack root v before t := by
  rcases h with h | h
  · exact ⟨h.versions, .inl (h.resolves hv.plain)⟩
  · refine ⟨h.versions, ?_⟩
    rcases h.link with hsame | hgone
    · cases hlink : before.isLink (root ++ [currentLink]) with
      | true => exact .inr ⟨rfl, hsame, h.file⟩
      | false => exact .inl (h.resolves hv (by rw [linkTarget_of_not_link ((isLink_congr hsame).trans hlink), Option.bind_none]))
    · exact .inl (h.resolves hv (by rw [linkTarget_of_not_link (data_of_none hgone).2.2.2, Option.bind_none]))

/-- Wherever a writer of the pointer is stopped, the version before or the new one is current. -/
theorem Between.resolves (h : Between root v before t) (hv : Nameable v) (hplain : before.isLink (root ++ [currentPointerFile]) = false) :
    resolveCurrentVersion root t = some v ∨ resolveCurrentVersion root t = resolveCurrentVersion root before := by
  rcases h with h | h | h
  · exact .inr (h.resolves hplain)
  · exact .inl (h.resolves hv.plain)
  · cases hname : (linkTarget (root ++ [currentLink]) t).bind fileName with
    | none => exact .inl (h.resolves hv hname)
    | some name =>
      rcases h.link with hsame | hgone
      · have hbefore : (linkTarget (root ++ [currentLink]) before).bind fileName = some name := by
          rwa [linkTarget, hsame, ← linkTarget] at hname
        exact .inr ((resolveCurrentVersion_of_link hname).trans (resolveCurrentVersion_of_link hbefore).symm)
      · rw [linkTarget_of_not_link (data_of_none hgone).2.2.2] at hname
        cases hname

end Back

/-! ### The update before -/

section Update

variable {U : Updater} {root home : Place} {ui : UiSwap root} {mtime : String → ℤ} {w : World} {v : String}

/-- An update that returns true has left a stamp with the version that was current. -/
theorem stamped_of_updated (hread : readPointerVersion root current w.fs = .ok (some v))
    (hready : ∀ step, (run perform (pendingUpdate U root).run w).1 = .ok (some step) →
      Restorable U root home step.manifest step.release w.fs)
    (htrue : (run perform (swapBundle U root home ui mtime).run w).1 = .ok true) :
    (PlainName v ∧ OneLine v) ∧ Stamped root v (run perform (swapBundle U root home ui mtime).run w).2.fs := by
  unfold swapBundle at htrue ⊢
  cases hpending : (run perform (pendingUpdate U root).run w).1 with
  | error e =>
    rw [run_error hpending] at htrue
    cases htrue
  | ok pending =>
    rw [run_ok hpending] at htrue ⊢
    cases pending with
    | none => cases htrue
    | some step =>
      have h := hready step hpending
      have hversion : step.manifest.version = v := Option.some.inj (Except.ok.inj (h.named.symm.trans hread))
      have hsame : (run perform (pendingUpdate U root).run w).2.fs = w.fs := keeps_pendingUpdate (P := fun t => t = w.fs) w rfl
      have hcarried : Leaves (fun t => t = w.fs) (carryOut U root home ui mtime step) (fun _ => Stamped root step.manifest.version)
          fun _ => True := leaves_carryOut h
      have hleaves := hcarried _ hsame
      cases hcarry : (run perform (carryOut U root home ui mtime step).run (run perform (pendingUpdate U root).run w).2).1 with
      | error e =>
        rw [run_error hcarry] at htrue
        cases htrue
      | ok u =>
        have hstamped : Prog.Post (fun _ s => Stamped root step.manifest.version s.fs) (fun _ _ => True)
            (run perform (carryOut U root home ui mtime step).run (run perform (pendingUpdate U root).run w).2).1
            (run perform (carryOut U root home ui mtime step).run (run perform (pendingUpdate U root).run w).2).2 := hleaves
        rw [hcarry] at hstamped
        rw [run_ok hcarry, ← hversion]
        exact ⟨⟨h.plain, h.oneLine⟩, hstamped⟩

end Update

/-! ### The round trip -/

/-- After the exit of a child that failed, where the version before an update was `v`: the stamp, what is read of it, the tree
wherever the launcher is stopped, and what it leaves. -/
structure RoundTrip (root : Place) (v : String) (code : Option ℤ) (exited : World) : Prop where
  stamp : ∃ now, exited.fs.node (root ++ [updatePendingStamp]) = some (.file (Bytes.encode (stampText now v))) ∧
    (now < 2 ^ 64 → exited.ask.error = none → pendingSeen root exited = some ⟨now, v⟩)
  recorded : ∀ pending, pendingSeen root exited = some pending → pending.previousVersion = v
  dir : exited.fs.node (root ++ [versionsDir, v]) = some .dir
  stopped : ∀ t, Passes (σ := sig) perform (afterExit root code).run exited t →
    resolveCurrentVersion root t.fs = some v ∨ resolveCurrentVersion root t.fs = resolveCurrentVersion root exited.fs
  back : ∀ left, run perform (afterExit root code).run exited = (.ok none, left) → TakenBack root v exited.fs left.fs
  passed : ∀ r left, run perform (afterExit root code).run exited = (r, left) → r ≠ .ok none →
    resolveCurrentVersion root left.fs = resolveCurrentVersion root exited.fs
  due : ∀ pending, pendingSeen root exited = some pending → Due root pending exited →
    ∀ exit, (run perform (afterExit root code).run exited).1 ≠ .ok (some exit)

section RoundTrip

variable {root : Place} {v : String} {code : Option ℤ} {exited : World}

theorem readUpdatePending_stamped {now : ℕ} {t : Fs Bytes}
    (h : t.node (root ++ [updatePendingStamp]) = some (.file (Bytes.encode (stampText now v)))) :
    readUpdatePending root t = UpdatePending.ofText (stampText now v).toList := by
  rw [readUpdatePending, readToString, Fs.data_of_node h, Option.bind_some, Bytes.decode_encode]
  rfl

theorem pendingSeen_cases (root : Place) (exited : World) : pendingSeen root exited = none ∨ pendingSeen root exited = readUpdatePending root exited.fs := by
  unfold pendingSeen seen
  split_ifs
  · exact .inr rfl
  · exact .inl rfl

/-- An update that is due to be taken back is: the launcher goes round, or raises what it met. -/
theorem due_goes_round {pending : UpdatePending} (hcode : Failed code) (hpending : pendingSeen root exited = some pending)
    (hdue : Due root pending exited) (exit : ℕ) : (run perform (afterExit root code).run exited).1 ≠ .ok (some exit) := by
  obtain ⟨w, -, -, ⟨-, hrun, -⟩ | ⟨hnot, -, -⟩⟩ := tryRollback_some hpending
  · have htry : ∀ b, (run perform (tryRollback root).run exited).1 = .ok b → b = true := by
      intro b hb
      rw [hrun] at hb
      unfold takeBack at hb
      cases hwrite : (run perform (writeRollbackPointer root pending.previousVersion).run w).1 with
      | error e =>
        rw [run_error hwrite] at hb
        cases hb
      | ok u =>
        rw [run_ok hwrite, run_ok (run_ignoring_unlink _ _).1, run_ok (run_ignoring_unlink _ _).1, run_ok (run_ignoring_unlink _ _).1] at hb
        exact (Except.ok.inj hb).symm
    obtain ⟨n, rfl, hzero, hrestart⟩ := hcode
    unfold afterExit
    simp only [if_neg hrestart, if_neg hzero]
    cases hback : (run perform (tryRollback root).run exited).1 with
    | error e =>
      rw [run_error hback]
      exact nofun
    | ok b =>
      rw [run_ok hback, htry b hback]
      exact nofun
  · exact absurd hdue hnot

theorem roundTrip (hv : PlainName v) (hline : OneLine v) (hcode : Failed code) (hstamped : Stamped root v exited.fs)
    (hplain : exited.fs.isLink (root ++ [currentPointerFile]) = false)
    (htemp : exited.fs.isLink (root ++ [stagedFileName "rollback"]) = false) : RoundTrip root v code exited := by
  obtain ⟨hremembered, now, hstamp⟩ := hstamped
  have hname : Nameable v := ⟨hv, hline.trimmed⟩
  have hread := readUpdatePending_stamped hstamp
  have hstampOf : ∀ pending, readUpdatePending root exited.fs = some pending → pending.previousVersion = v := by
    intro pending hpending
    exact previousVersion_stampText hline (hread ▸ hpending)
  obtain ⟨hpost, hstopped⟩ := lands_afterExit hcode hstampOf htemp exited rfl
  refine ⟨⟨now, hstamp, fun hnow hlook => ?_⟩, fun pending hpending => ?_, hremembered.dir, fun t ht => ?_, fun left hleft => ?_,
    fun r left hleft hr => ?_, fun pending hpending hdue => due_goes_round hcode hpending hdue⟩
  · rw [pendingSeen, seen, if_pos hlook, hread, ofText_stampText hline hnow]
  · rcases pendingSeen_cases root exited with hnone | hsome
    · rw [hnone] at hpending
      cases hpending
    · exact hstampOf pending (hsome ▸ hpending)
  · exact (hstopped t ht).resolves hname hplain
  · rw [hleft] at hpost
    exact Pointing.takenBack hpost hname
  · rw [hleft] at hpost
    match r with
    | .ok none => exact absurd rfl hr
    | .ok (some exit) => exact Awaiting.resolves hpost hplain
    | .error e => exact Awaiting.resolves hpost hplain

end RoundTrip

/-! ### A child of the new version that fails -/

/-- The update of `updating`, and the device that it leaves. -/
def updated : Except Error Bool × World :=
  run perform (swapBundle hashing ["locai"] ["home"] (noUiSwap _) fun _ => 0).run (updating "1.0.16" "1.0.16")

theorem restorable_updating (step : Step)
    (hstep : (run perform (pendingUpdate hashing ["locai"]).run (updating "1.0.16" "1.0.16")).1 = .ok (some step)) :
    Restorable hashing ["locai"] ["home"] step.manifest step.release (updating "1.0.16" "1.0.16").fs := by
  obtain ⟨hversion, hrelease, hasset⟩ := pendingUpdate_updating hstep
  have hlegacy : ∀ p ∈ legacyTargets hashing ["locai"] ["home"], (¬p <+: ["locai"] ++ [versionsDir, "1.0.16"]) ∧
      ∀ name ∈ reliedNames, ¬p <+: ["locai"] ++ [name] := by decide +kernel
  constructor
  case shaped => exact shaped_installed
  case stamp => decide +kernel
  case target =>
    rw [hversion, hrelease]
    exact relied_cases (by decide +kernel) (by decide +kernel)
  case legacy =>
    rw [hversion]
    exact fun p hp => relied_cases (hlegacy p hp).1 (hlegacy p hp).2
  case asset =>
    rw [hasset]
    exact ⟨by decide, by decide, by decide, by decide⟩
  case archive =>
    rw [hasset]
    decide +kernel
  case plain =>
    rw [hversion]
    exact ⟨by decide, by decide, by decide, by decide⟩
  case oneLine =>
    rw [hversion]
    exact ⟨by decide, by decide, by decide +kernel⟩
  all_goals
    rw [hversion]
    decide +kernel

theorem updated_ok : updated.1 = .ok true := by
  have hok : updated.1.toOption = some true := by decide +kernel
  revert hok
  cases updated.1 with
  | ok b => exact fun hok => congrArg Except.ok (Option.some.inj hok)
  | error e =>
    intro hok
    cases hok

end Install
end LocaiLink
