/-
# The launcher and its children

`run` starts the runtime of the version that `current` names and waits for it: a child that
exits for an update is started again, and one that fails within the health window of an
update is taken back to the version before (`try_rollback`). The same `run` serves every
command of the command line: what it does to the install it does after the child has exited,
and only for a child that fails while a stamp can be read (`run_intervenes`).
-/
import LocaiLink.Install.Retention

namespace LocaiLink
namespace Install

open World
open Prog (run run_ok run_error)

/-! ### The stamp -/

/-- What a stamp says: when the flip was, and the version before it. -/
structure UpdatePending where
  flippedAtUnix : ℕ
  previousVersion : String

def UpdatePending.ofText (text : List Char) : Option UpdatePending :=
  match Text.lines text with
  | first :: second :: _ => do
    let flippedAtUnix ← Text.parseU64 (Text.trim first)
    let previousVersion := String.ofList (Text.trim second)
    if previousVersion = "" then none else some ⟨flippedAtUnix, previousVersion⟩
  | _ => none

/-- `read_update_pending` -/
def readUpdatePending (root : Place) (t : Fs Bytes) : Option UpdatePending :=
  (readToString (root ++ [updatePendingStamp]) t).bind UpdatePending.ofText

def exitRestartForUpdate : ℤ := 42

def postUpdateHealthWindowSecs : ℕ := 120

/-! ### After the child has exited -/

/-- The stamp goes, and nothing is taken back. -/
def clearStamp (root : Place) : Raising Bool := do
  ignoring (act (.unlink (root ++ [updatePendingStamp])))
  pure false

/-- The install is taken back to a version, and what the update left goes. -/
def takeBack (root : Place) (version : String) : Raising Bool := do
  writeRollbackPointer root version
  ignoring (act (.unlink (root ++ [previousLink])))
  ignoring (act (.unlink (root ++ [previousPointerFile])))
  ignoring (act (.unlink (root ++ [updatePendingStamp])))
  pure true

/-- Only within the health window, and to a version that has its directory. -/
def takeBackIfDue (root : Place) (pending : UpdatePending) (now : ℕ) : Raising Bool := do
  if postUpdateHealthWindowSecs < now - pending.flippedAtUnix then clearStamp root
  else if !(← peek).isDir (versionDir root pending.previousVersion) then clearStamp root
  else takeBack root pending.previousVersion

/-- `try_rollback`: true where the install was taken back. -/
def tryRollback (root : Place) : Raising Bool := do
  match readUpdatePending root (← peek) with
  | none => pure false
  | some pending =>
    let now ← ExceptT.lift (act .now)
    takeBackIfDue root pending now

/-- What `run` returns once its child has exited, none where it goes round. A child that a
signal has killed has no exit code. -/
def afterExit (root : Place) : Option ℤ → Raising (Option ℕ)
  | none => pure (some 1)
  | some code =>
    if code = exitRestartForUpdate then pure none
    else if code = 0 then pure (some 0)
    else do
      if ← tryRollback root then pure none else pure (some (min code.toNat 255))

/-! ### The launcher -/

/-- The version to start, or the exit code where there is none: the first start installs one. -/
def findVersion (root : Place) (bootstrap : Script (Except ℕ String)) : Raising (Except ℕ String) := do
  match resolveCurrentVersion root (← peek) with
  | some version => pure (.ok version)
  | none =>
    if (← peek).isFile (root ++ ["boot.json"]) then ExceptT.lift bootstrap
    else throw ⟨.other, s!"no installed version and no boot.json in {placeText root}."⟩

def checkRuntime (root : Place) (runtimeName version : String) : Raising Unit := do
  if !(← peek).isFile (versionDir root version ++ [runtimeName]) then
    throw ⟨.other, s!"current points at version {version}, but its runtime does not exist or isn't a file."⟩

/-- Before the child is started. -/
def beforeSpawn (root : Place) (runtimeName : String) (bootstrap : Script (Except ℕ String)) : Raising (Except ℕ String) := do
  match ← findVersion root bootstrap with
  | .error code => pure (.error code)
  | .ok version => do
    checkRuntime root runtimeName version
    pure (.ok version)

/-- A child: what comes of the device while it runs, and its exit code. -/
structure Child where
  effect : World → World
  code : Option ℤ

/-- One time round: the device when it starts, and when the child is spawned or the launcher
returns without one; then the child's exit code, with the device when it has exited and when
the launcher goes on. -/
structure Round where
  start : World
  spawned : World
  child : Option (Option ℤ × World × World)

/-- `run`, with its children one after the other: the times round, and what it returns, none
while it waits for a child. A child that cannot be spawned is an error. -/
def runLauncher (root : Place) (runtimeName : String) (bootstrap : Script (Except ℕ String)) :
    List (Except Error Child) → World → List Round × Option (Except Error ℕ)
  | [], _ => ([], none)
  | child :: children, w =>
    match run perform (beforeSpawn root runtimeName bootstrap).run w with
    | (.error e, spawned) => ([⟨w, spawned, none⟩], some (.error e))
    | (.ok (.error code), spawned) => ([⟨w, spawned, none⟩], some (.ok code))
    | (.ok (.ok _), spawned) =>
      match child with
      | .error e => ([⟨w, spawned, none⟩], some (.error e))
      | .ok child =>
        let exited := child.effect spawned
        match run perform (afterExit root child.code).run exited with
        | (.error e, left) => ([⟨w, spawned, some (child.code, exited, left)⟩], some (.error e))
        | (.ok (some code), left) => ([⟨w, spawned, some (child.code, exited, left)⟩], some (.ok code))
        | (.ok none, left) =>
          let rest := runLauncher root runtimeName bootstrap children left
          (⟨w, spawned, some (child.code, exited, left)⟩ :: rest.1, rest.2)

/-! ### What the launcher sees -/

/-- The tree that the launcher sees: where a look fails, there is nothing. -/
def seen (w : World) : Fs Bytes := if w.ask.error = none then w.fs else .empty

/-- It resolves `current` to a version. -/
def Resolves (root : Place) (w : World) : Prop := (resolveCurrentVersion root (seen w)).isSome = true

/-- The update that it takes for pending. -/
def pendingSeen (root : Place) (w : World) : Option UpdatePending := readUpdatePending root (seen w)

/-- The time that it reads after that. -/
def timeSeen (w : World) : ℕ := (perform .now w.tock).1

/-- The pending update is in its health window, and the version before it has its directory. -/
def Due (root : Place) (pending : UpdatePending) (w : World) : Prop :=
  timeSeen w - pending.flippedAtUnix ≤ postUpdateHealthWindowSecs ∧
    (seen (perform .now w.tock).2).isDir (versionDir root pending.previousVersion) = true

/-- A child that failed. -/
def Failed (code : Option ℤ) : Prop := ∃ n, code = some n ∧ n ≠ 0 ∧ n ≠ exitRestartForUpdate

section Reads

variable {α : Type}

/-- What `peek` makes of an answer. -/
def peeked : Except Error (Fs Bytes) → Raising (Fs Bytes)
  | .ok t => pure t
  | .error _ => pure .empty

theorem run_peek (w : World) : run perform peek.run w = (.ok (seen w), w.tock) := by
  have hrest : run perform peek.run w = run perform (peeked (World.perform .look w).1).run (World.perform .look w).2 := rfl
  rw [hrest]
  unfold seen
  simp only [World.perform]
  cases w.ask.error <;> rfl

theorem actsOf_peek (w : World) : actsOf peek w = [.look] := by
  have hrest : actsOf peek w = .look :: actsOf (peeked (World.perform .look w).1) (World.perform .look w).2 := rfl
  rw [hrest]
  simp only [World.perform]
  cases w.ask.error <;> rfl

theorem run_peek_bind (f : Fs Bytes → Raising α) (w : World) : run perform (peek >>= f).run w = run perform (f (seen w)).run w.tock := by
  rw [run_ok (congrArg Prod.fst (run_peek w)), run_peek]

theorem actsOf_peek_bind (f : Fs Bytes → Raising α) (w : World) :
    actsOf (peek >>= f) w = .look :: actsOf (f (seen w)) w.tock := by
  rw [actsOf_ok (congrArg Prod.fst (run_peek w)), actsOf_peek, run_peek]
  rfl

end Reads

section Rollback

variable {root : Place} {w : World} {pending : UpdatePending}

/-- Without a stamp, `try_rollback` looks for one and returns. -/
theorem tryRollback_none (h : pendingSeen root w = none) :
    run perform (tryRollback root).run w = (.ok false, w.tock) ∧ actsOf (tryRollback root) w = [.look] := by
  unfold pendingSeen at h
  unfold tryRollback
  rw [run_peek_bind, actsOf_peek_bind, h]
  exact ⟨rfl, rfl⟩

/-- With a stamp it takes the install back where that is due, and clears the stamp elsewhere. -/
theorem tryRollback_some (h : pendingSeen root w = some pending) : ∃ w' as, w'.fs = w.fs ∧
    ((Due root pending w ∧ run perform (tryRollback root).run w = run perform (takeBack root pending.previousVersion).run w' ∧
        actsOf (tryRollback root) w = as ++ actsOf (takeBack root pending.previousVersion) w') ∨
      (¬Due root pending w ∧ run perform (tryRollback root).run w = run perform (clearStamp root).run w' ∧
        actsOf (tryRollback root) w = as ++ actsOf (clearStamp root) w')) := by
  have hrun : run perform (tryRollback root).run w =
      run perform (takeBackIfDue root pending (timeSeen w)).run (perform .now w.tock).2 := by
    unfold pendingSeen at h
    unfold tryRollback
    rw [run_peek_bind, h]
    rfl
  have hacts : actsOf (tryRollback root) w =
      .look :: .now :: actsOf (takeBackIfDue root pending (timeSeen w)) (perform .now w.tock).2 := by
    unfold pendingSeen at h
    unfold tryRollback
    rw [actsOf_peek_bind, h]
    rfl
  rw [hrun, hacts]
  unfold takeBackIfDue
  by_cases hage : postUpdateHealthWindowSecs < timeSeen w - pending.flippedAtUnix
  · rw [if_pos hage]
    exact ⟨(perform .now w.tock).2, [.look, .now], rfl, .inr ⟨fun hdue => absurd hdue.1 (by omega), rfl, rfl⟩⟩
  · refine ⟨(perform .now w.tock).2.tock, [.look, .now, .look], rfl, ?_⟩
    rw [if_neg hage, run_peek_bind, actsOf_peek_bind]
    cases hdir : (seen (perform .now w.tock).2).isDir (versionDir root pending.previousVersion) with
    | false => exact .inr ⟨fun hdue => absurd hdue.2 (by simp [hdir]), rfl, rfl⟩
    | true => exact .inl ⟨⟨by omega, hdir⟩, rfl, rfl⟩

/-- A removal that is passed over is made, or nothing is. -/
theorem run_ignoring_unlink (p : Place) (w : World) : (run perform (ignoring (act (.unlink p))).run w).1 = .ok () ∧
    ((run perform (ignoring (act (.unlink p))).run w).2.fs = w.fs ∨
      (run perform (ignoring (act (.unlink p))).run w).2.fs = w.fs.set p none) := by
  refine ⟨rfl, ?_⟩
  change (w.change _ fun t => t.set p none).2.fs = _ ∨ (w.change _ fun t => t.set p none).2.fs = _
  rcases change_cases w (unlinkFails p w.fs) fun t => t.set p none with ⟨e, he⟩ | ⟨-, he⟩
  · rw [he]
    exact .inl rfl
  · rw [he]
    exact .inr rfl

theorem run_clearStamp (w : World) : (run perform (clearStamp root).run w).1 = .ok false ∧
    ((run perform (clearStamp root).run w).2.fs = w.fs ∨
      (run perform (clearStamp root).run w).2.fs = w.fs.set (root ++ [updatePendingStamp]) none) := by
  obtain ⟨hok, hfs⟩ := run_ignoring_unlink (root ++ [updatePendingStamp]) w
  unfold clearStamp
  rw [run_ok hok]
  exact ⟨rfl, hfs⟩

/-- What the launcher does is more than to read. -/
def Touches {α : Type} (x : Raising α) (w : World) : Prop := ∃ a ∈ actsOf x w, a ≠ .look ∧ a ≠ .now

theorem Touches.bind {α β : Type} {x : Raising α} {f : α → Raising β} (h : Touches x w) : Touches (x >>= f) w := by
  obtain ⟨a, ha, hread⟩ := h
  refine ⟨a, ?_, hread⟩
  cases hx : (run perform x.run w).1 with
  | ok v =>
    rw [actsOf_ok hx]
    exact List.mem_append_left _ ha
  | error e => rwa [actsOf_error hx]

theorem touches_unlink (p : Place) (w : World) : Touches (ignoring (act (.unlink p))) w :=
  ⟨.unlink p, List.mem_cons_self .., by simp, by simp⟩

theorem touches_writeRollbackPointer (version : String) (w : World) : Touches (writeRollbackPointer root version) w := by
  have hwrite (tmp : Place) (d : Bytes) : Touches (mapErr "write rollback pointer" (act (.write tmp d))) w.tock :=
    ⟨.write tmp d, List.mem_cons_self .., by simp, by simp⟩
  have hshape : Touches (if (seen w).isLink (root ++ [currentLink]) || !(seen w).isFile (root ++ [currentPointerFile]) then
      writePointerLink "rollback" root version else writePointerFile "rollback" root version) w.tock := by
    split_ifs
    · exact (touches_unlink _ _).bind
    · exact (hwrite _ _).bind
  obtain ⟨a, ha, hread⟩ := hshape
  refine ⟨a, ?_, hread⟩
  unfold writeRollbackPointer
  rw [actsOf_peek_bind]
  exact List.mem_cons_of_mem _ ha

/-- `try_rollback` does more than to read where, and only where, it reads a stamp. -/
theorem touches_tryRollback : Touches (tryRollback root) w ↔ (pendingSeen root w).isSome = true := by
  cases hpending : pendingSeen root w with
  | none =>
    refine iff_of_false (fun ⟨a, ha, hread⟩ => hread.1 ?_) (by simp)
    rwa [(tryRollback_none hpending).2, List.mem_singleton] at ha
  | some pending =>
    refine iff_of_true ?_ rfl
    have hfrom {x : Raising Bool} {w' : World} {as : List Act} (h : Touches x w') (hacts : actsOf (tryRollback root) w = as ++ actsOf x w') :
        Touches (tryRollback root) w := by
      obtain ⟨a, ha, hread⟩ := h
      exact ⟨a, hacts ▸ List.mem_append_right _ ha, hread⟩
    obtain ⟨w', as, -, ⟨-, -, hacts⟩ | ⟨-, -, hacts⟩⟩ := tryRollback_some hpending
    · exact hfrom (touches_writeRollbackPointer _ _).bind hacts
    · exact hfrom (touches_unlink _ _).bind hacts

/-- Taking the install back writes the pointer, and removes what the update left. -/
theorem run_takeBack (version : String) (w : World) : ∀ p, p ≠ root ++ [previousLink] → p ≠ root ++ [previousPointerFile] →
    p ≠ root ++ [updatePendingStamp] → (run perform (takeBack root version).run w).2.fs.node p =
      (run perform (writeRollbackPointer root version).run w).2.fs.node p := by
  have hgone {p q : Place} (hq : q ≠ p) (w : World) :
      (run perform (ignoring (act (.unlink p))).run w).2.fs.node q = w.fs.node q := by
    rcases (run_ignoring_unlink p w).2 with hfs | hfs
    · rw [hfs]
    · rw [hfs, Fs.node_set_of_ne hq]
  intro p hlink hfile hstamp
  unfold takeBack
  cases hwrite : (run perform (writeRollbackPointer root version).run w).1 with
  | error e => rw [run_error hwrite]
  | ok u =>
    rw [run_ok hwrite, run_ok (run_ignoring_unlink _ _).1, run_ok (run_ignoring_unlink _ _).1, run_ok (run_ignoring_unlink _ _).1]
    exact ((hgone hstamp _).trans (hgone hfile _)).trans (hgone hlink _)

end Rollback

/-! ### What the launcher does around a child -/

/-- After the exit of a child: the launcher does more than to read where the child failed and
a stamp is read. Then the stamp goes, and where the update is due to be taken back, the
pointers are written first. -/
structure ChildLaws (root : Place) (code : Option ℤ) (exited left : World) : Prop where
  touches : Touches (afterExit root code) exited ↔ Failed code ∧ (pendingSeen root exited).isSome = true
  passes : ¬(Failed code ∧ (pendingSeen root exited).isSome = true) → left.fs = exited.fs
  clears : ∀ pending, pendingSeen root exited = some pending → ¬Due root pending exited →
    left.fs = exited.fs ∨ left.fs = exited.fs.set (root ++ [updatePendingStamp]) none
  restores : ∀ pending, Failed code → pendingSeen root exited = some pending → Due root pending exited →
    ∃ w : World, w.fs = exited.fs ∧ ∀ p, p ≠ root ++ [previousLink] → p ≠ root ++ [previousPointerFile] →
      p ≠ root ++ [updatePendingStamp] → left.fs.node p =
        (run perform (writeRollbackPointer root pending.previousVersion).run w).2.fs.node p

/-- One time round: nothing is changed before the child is started, where `current` resolves. -/
structure RoundLaws (root : Place) (r : Round) : Prop where
  starts : Resolves root r.start → r.spawned.fs = r.start.fs
  child : ∀ code exited left, r.child = some (code, exited, left) → ChildLaws root code exited left

section Laws

variable {root : Place} {w : World} {code : Option ℤ}

/-- After a child that did not fail, `run` returns or goes round. -/
theorem afterExit_passes (root : Place) (w : World) (h : ¬Failed code) : (run perform (afterExit root code).run w).2 = w ∧ actsOf (afterExit root code) w = [] := by
  cases code with
  | none => exact ⟨rfl, rfl⟩
  | some n =>
    unfold afterExit
    by_cases hrestart : n = exitRestartForUpdate
    · simp only [if_pos hrestart]
      exact ⟨rfl, rfl⟩
    · by_cases hzero : n = 0
      · simp only [if_neg hrestart, if_pos hzero]
        exact ⟨rfl, rfl⟩
      · exact absurd ⟨n, rfl, hzero, hrestart⟩ h

/-- After one that failed it does what `try_rollback` does. -/
theorem afterExit_failed (root : Place) (w : World) (h : Failed code) : (run perform (afterExit root code).run w).2 = (run perform (tryRollback root).run w).2 ∧
    actsOf (afterExit root code) w = actsOf (tryRollback root) w := by
  obtain ⟨n, rfl, hzero, hrestart⟩ := h
  unfold afterExit
  simp only [if_neg hrestart, if_neg hzero]
  cases hback : (run perform (tryRollback root).run w).1 with
  | error e => exact ⟨by rw [run_error hback], actsOf_error hback⟩
  | ok back =>
    rw [run_ok hback, actsOf_ok hback]
    cases back
    · exact ⟨rfl, List.append_nil _⟩
    · exact ⟨rfl, List.append_nil _⟩

theorem childLaws (root : Place) (code : Option ℤ) (w : World) : ChildLaws root code w (run perform (afterExit root code).run w).2 := by
  by_cases hfailed : Failed code
  · obtain ⟨hleft, hacts⟩ := afterExit_failed root w hfailed
    rw [hleft]
    refine ⟨?_, fun hnot => ?_, fun pending hpending hdue => ?_, fun pending _ hpending hdue => ?_⟩
    · have hsame : Touches (afterExit root code) w ↔ Touches (tryRollback root) w := by rw [Touches, Touches, hacts]
      rw [hsame, touches_tryRollback]
      tauto
    · have hnone : pendingSeen root w = none := by
        by_contra hsome
        exact hnot ⟨hfailed, Option.isSome_iff_ne_none.mpr hsome⟩
      rw [(tryRollback_none hnone).1]
      rfl
    · obtain ⟨w', -, hfs, ⟨hdue', -, -⟩ | ⟨-, hrun, -⟩⟩ := tryRollback_some hpending
      · exact absurd hdue' hdue
      · rw [hrun, ← hfs]
        exact (run_clearStamp w').2
    · obtain ⟨w', -, hfs, ⟨-, hrun, -⟩ | ⟨hdue', -, -⟩⟩ := tryRollback_some hpending
      · exact ⟨w', hfs, fun p hlink hfile hstamp => by rw [hrun, run_takeBack _ _ p hlink hfile hstamp]⟩
      · exact absurd hdue hdue'
  · obtain ⟨hleft, hacts⟩ := afterExit_passes root w hfailed
    rw [hleft]
    refine ⟨iff_of_false (fun ⟨a, ha, _⟩ => ?_) fun h => hfailed h.1, fun _ => rfl, fun _ _ _ => .inl rfl,
      fun _ h => absurd h hfailed⟩
    rw [hacts] at ha
    cases ha

theorem run_checkRuntime (runtimeName version : String) (w : World) :
    (run perform (checkRuntime root runtimeName version).run w).2 = w.tock := by
  unfold checkRuntime
  rw [run_peek_bind]
  split_ifs
  · rfl
  · rfl

theorem run_beforeSpawn (runtimeName : String) (bootstrap : Script (Except ℕ String)) (h : Resolves root w) :
    (run perform (beforeSpawn root runtimeName bootstrap).run w).2.fs = w.fs := by
  obtain ⟨version, hversion⟩ := Option.isSome_iff_exists.mp h
  have hfound : run perform (findVersion root bootstrap).run w = (.ok (.ok version), w.tock) := by
    unfold findVersion
    rw [run_peek_bind, hversion]
    rfl
  unfold beforeSpawn
  rw [run_ok (congrArg Prod.fst hfound), hfound]
  cases hchecked : (run perform (checkRuntime root runtimeName version).run w.tock).1 with
  | error e =>
    rw [run_error hchecked, run_checkRuntime]
    rfl
  | ok u =>
    rw [run_ok hchecked, run_checkRuntime]
    rfl

end Laws

/-! ### A command that fails after an update -/

/-- The entries of the install root that an update leaves: the pointers and the stamp. -/
def updateEntries : List String := [currentLink, currentPointerFile, previousLink, previousPointerFile, updatePendingStamp]

/-- Just taken from 1.0.15 to 1.0.16. -/
def updatedTree : Fs Bytes :=
  [([], .dir), (["opt"], .dir), (["opt", "versions"], .dir), (["opt", "versions", "1.0.15"], .dir),
    (["opt", "versions", "1.0.16"], .dir), (["opt", "versions", "1.0.16", "locai-link-runtime"], .file []),
    (["opt", "current"], .link (versionPath "1.0.16")), (["opt", "previous"], .link (versionPath "1.0.15")),
    (["opt", ".update-pending"], .file (Bytes.encode (stampText 0 "1.0.15")))].foldl (fun t e => t.set e.1 (some e.2)) .empty

/-- The first round of a launcher whose child leaves the device as it is and exits with 1. -/
def failedCommand : List Round :=
  (runLauncher ["opt"] runtimeBinary (pure (.error 2)) [.ok ⟨id, some 1⟩] ⟨updatedTree, 0, fun _ => {}, 0⟩).1

theorem failedCommand_length : 0 < failedCommand.length := by decide +kernel

end Install
end LocaiLink
