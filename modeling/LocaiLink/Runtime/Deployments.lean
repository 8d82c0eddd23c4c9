/-
# The rows of deployments

The companion polls the deployments that are under way. A row is queued before its deploy begins, and a poll that finds it
queued for too long makes it failed. Both the age of a row and the guard on what is under way go wrong for a deploy that
is tried again: the age counts from the first time, and a failed row is not queued any more (`rows_follow_iff`).
-/
import Mathlib.Algebra.Order.Ring.Rat
import Mathlib.Data.List.Induction
import LocaiLink.Base.Dict

namespace LocaiLink
namespace Deployments

inductive Stage
  | queued
  | downloading
  | configuring
  | failed
  deriving DecidableEq

/-- The stages that a call may give. -/
inductive Progress
  | queued
  | downloading
  | configuring
  | completed
  deriving DecidableEq

structure Row where
  modelName : Option String
  stage : Stage
  progressPct : ℚ
  createdAt : ℚ

abbrev Rows := Dict String Row

def queuedTtlSeconds : ℚ := 300

/-- `x or y` of two names -/
def named (x y : Option String) : Option String := if x = none ∨ x = some "" then y else x

/-- The stage of the row that a call leaves, none for `completed`. -/
def Progress.stage : Progress → Option Stage
  | .queued => some .queued
  | .downloading => some .downloading
  | .configuring => some .configuring
  | .completed => none

def stageOf (d : Rows) (p : String) : Option Stage := (d.get? p).map Row.stage

/-- `set_deployment_progress` -/
def setDeploymentProgress (d : Rows) (pipelineId : String) (stage : Progress) (progressPct : ℚ) (modelName : Option String)
    (now : ℚ) : Rows :=
  match stage.stage with
  | none => d.erase pipelineId
  | some st =>
    if stage = .queued ∧ stageOf d pipelineId ≠ none ∧ stageOf d pipelineId ≠ some .queued then d
    else
      let existing := d.get? pipelineId
      d.set pipelineId {
        modelName := named modelName (existing.bind Row.modelName)
        stage := st
        progressPct := progressPct
        createdAt := (existing.map Row.createdAt).getD now }

/-- A row as a poll leaves it. -/
def aged (now : ℚ) (row : Row) : Row :=
  if row.stage = .queued ∧ queuedTtlSeconds < now - row.createdAt then { row with stage := .failed, progressPct := 0 } else row

structure Reported where
  pipelineId : String
  modelName : Option String
  stage : Stage
  progressPct : ℚ

def reported (e : String × Row) : Reported := ⟨e.1, e.2.modelName, e.2.stage, e.2.progressPct⟩

/-- The part of `snapshot` on the rows: what it leaves of them, and what it reports. -/
def snapshot (d : Rows) (now : ℚ) : Rows × List Reported :=
  let d := d.mapValues (aged now)
  (d, d.entries.map reported)

inductive Action
  | setDeploymentProgress (pipelineId : String) (stage : Progress) (progressPct : ℚ) (modelName : Option String)
  | snapshot

/-- A call, and what the clock shows in it. -/
structure Event where
  time : ℚ
  action : Action

def apply (d : Rows) (e : Event) : Rows :=
  match e.action with
  | .setDeploymentProgress p stage pct name => setDeploymentProgress d p stage pct name e.time
  | .snapshot => (snapshot d e.time).1

/-- The rows after a history. -/
def after (h : List Event) : Rows := h.foldl apply .empty

/-! ### What rows are to follow -/

/-- A call for a pipeline. -/
def IsCall (p : String) (e : Event) : Prop := ∃ stage pct name, e.action = .setDeploymentProgress p stage pct name

def IsQueueing (p : String) (e : Event) : Prop := ∃ pct name, e.action = .setDeploymentProgress p .queued pct name

/-- The latest queueing of a pipeline was at time `q`. -/
def LastQueueing (h : List Event) (p : String) (q : ℚ) : Prop :=
  ∃ front e rest, h = front ++ e :: rest ∧ IsQueueing p e ∧ e.time = q ∧ ∀ x ∈ rest, ¬IsQueueing p x

/-- From then on its row has been queued. -/
def QueuedSince (h : List Event) (p : String) (q : ℚ) : Prop :=
  ∃ front e rest, h = front ++ e :: rest ∧ IsQueueing p e ∧ e.time = q ∧ (∀ x ∈ rest, ¬IsCall p x) ∧
    ∀ r, r <+: rest → stageOf (after (front ++ e :: r)) p = some .queued

/-- Its row turned failed in a poll, when it had been queued for more than the limit since its latest queueing. -/
def TimedOut (h : List Event) (p : String) : Prop :=
  ∃ front e rest, h = front ++ e :: rest ∧ e.action = .snapshot ∧ (∀ x ∈ rest, ¬IsCall p x) ∧
    stageOf (after (front ++ [e])) p = some .failed ∧ ∃ q, QueuedSince front p q ∧ queuedTtlSeconds < e.time - q

/-- What a call or a poll does to the rows that it finds: queueing leaves a deploy that is under way as it is, and queues
any other; a completed one has no row; and only what timed out is reported as failed. -/
def Follows (h : List Event) (e : Event) : Prop :=
  match e.action with
  | .setDeploymentProgress p .queued _ _ =>
    if stageOf (after h) p = some .downloading ∨ stageOf (after h) p = some .configuring then
      (after (h ++ [e])).get? p = (after h).get? p
    else stageOf (after (h ++ [e])) p = some .queued
  | .setDeploymentProgress p .completed _ _ => (after (h ++ [e])).get? p = none
  | .setDeploymentProgress _ .downloading _ _ | .setDeploymentProgress _ .configuring _ _ => True
  | .snapshot => ∀ r ∈ (snapshot (after h) e.time).2, r.stage = .failed → TimedOut (h ++ [e]) r.pipelineId

/-- No failed row is queued again, and where a poll finds a row that was created too long ago and is queued, its latest
queueing is too long ago, too. -/
def Timely (h : List Event) (e : Event) : Prop :=
  match e.action with
  | .setDeploymentProgress p .queued _ _ => stageOf (after h) p ≠ some .failed
  | .setDeploymentProgress _ _ _ _ => True
  | .snapshot => ∀ p row q, (after h).get? p = some row → row.stage = .queued → queuedTtlSeconds < e.time - row.createdAt →
      LastQueueing h p q → queuedTtlSeconds < e.time - q

section Rows

variable {d : Rows} {h : List Event} {e : Event} {p p' : String} {q : ℚ} {stage : Progress} {pct : ℚ} {name : Option String} {now : ℚ}

theorem after_append (h : List Event) (e : Event) : after (h ++ [e]) = apply (after h) e := by
  unfold after
  rw [List.foldl_append]
  rfl

theorem get?_setDeploymentProgress_ne (hne : p' ≠ p) : (setDeploymentProgress d p stage pct name now).get? p' = d.get? p' := by
  unfold setDeploymentProgress
  cases stage.stage with
  | none => exact d.get?_erase_of_ne hne
  | some st =>
    dsimp only
    split_ifs
    · rfl
    · exact d.get?_set_of_ne _ hne

/-- What a call for another pipeline leaves alone. -/
theorem get?_apply_of_not_call (hcall : ¬IsCall p e) (hsnap : e.action ≠ .snapshot) : (apply d e).get? p = d.get? p := by
  obtain ⟨time, action⟩ := e
  cases action with
  | setDeploymentProgress p' stage pct name => exact get?_setDeploymentProgress_ne fun heq => hcall ⟨stage, pct, name, by rw [heq]⟩
  | snapshot => exact absurd rfl hsnap

theorem stageOf_snapshot (d : Rows) (now : ℚ) (p : String) :
    stageOf (snapshot d now).1 p = (d.get? p).map fun row => (aged now row).stage := by
  unfold stageOf snapshot
  rw [Dict.get?_mapValues, Option.map_map]
  rfl

/-- A row that failed stays so while no call for it comes. -/
theorem failed_apply (hcall : ¬IsCall p e) (hfailed : stageOf d p = some .failed) : stageOf (apply d e) p = some .failed := by
  by_cases hsnap : e.action = .snapshot
  · have happly : apply d e = (snapshot d e.time).1 := by rw [apply, hsnap]
    obtain ⟨row, hrow, hstage⟩ := Option.map_eq_some_iff.mp hfailed
    rw [happly, stageOf_snapshot, hrow]
    have hne : ¬(row.stage = .queued ∧ queuedTtlSeconds < e.time - row.createdAt) := fun hq => by
      rw [hstage] at hq
      cases hq.1
    rw [Option.map_some, aged, if_neg hne, hstage]
  · rw [stageOf, get?_apply_of_not_call hcall hsnap]
    exact hfailed

theorem failed_foldl {l : List Event} (hcalls : ∀ x ∈ l, ¬IsCall p x) (hfailed : stageOf d p = some .failed) :
    stageOf (l.foldl apply d) p = some .failed := by
  induction l generalizing d with
  | nil => exact hfailed
  | cons e l ih =>
    obtain ⟨he, hl⟩ := List.forall_mem_cons.mp hcalls
    exact ih hl (failed_apply he hfailed)

/-- One more event that is no call for the pipeline. -/
theorem QueuedSince.append (hq : QueuedSince h p q) (hcall : ¬IsCall p e) (hstill : stageOf (after (h ++ [e])) p = some .queued) :
    QueuedSince (h ++ [e]) p q := by
  obtain ⟨front, x, rest, rfl, hx, htime, hcalls, hqueued⟩ := hq
  refine ⟨front, x, rest ++ [e], by simp, hx, htime, ?_, fun r hr => ?_⟩
  · intro y hy
    rcases List.mem_append.mp hy with hy | hy
    · exact hcalls y hy
    · exact List.mem_singleton.mp hy ▸ hcall
  · rcases List.prefix_concat_iff.mp hr with rfl | hr
    · have hassoc : front ++ x :: (rest ++ [e]) = front ++ x :: rest ++ [e] := by simp
      rw [hassoc]
      exact hstill
    · exact hqueued r hr

theorem TimedOut.append (ht : TimedOut h p) (hcall : ¬IsCall p e) : TimedOut (h ++ [e]) p := by
  obtain ⟨front, x, rest, rfl, hx, hcalls, hfailed, hq⟩ := ht
  refine ⟨front, x, rest ++ [e], by simp, hx, fun y hy => ?_, hfailed, hq⟩
  rcases List.mem_append.mp hy with hy | hy
  · exact hcalls y hy
  · exact List.mem_singleton.mp hy ▸ hcall

/-- Two splits of a history at the last event of a kind are the same. -/
theorem split_unique {P : Event → Prop} {front front' rest rest' : List Event} {x x' : Event}
    (heq : front ++ x :: rest = front' ++ x' :: rest') (hx : P x) (hx' : P x') (hrest : ∀ y ∈ rest, ¬P y)
    (hrest' : ∀ y ∈ rest', ¬P y) : x = x' := by
  rcases List.append_eq_append_iff.mp heq with ⟨mid, rfl, hmid⟩ | ⟨mid, rfl, hmid⟩
  · cases mid with
    | nil => exact (List.cons.inj hmid).1
    | cons y mid =>
      have hmem : x' ∈ rest := by
        rw [(List.cons.inj hmid).2]
        simp
      exact absurd hx' (hrest x' hmem)
  · cases mid with
    | nil => exact (List.cons.inj hmid).1.symm
    | cons y mid =>
      have hmem : x ∈ rest' := by
        rw [(List.cons.inj hmid).2]
        simp
      exact absurd hx (hrest' x hmem)

theorem IsQueueing.isCall (hq : IsQueueing p e) : IsCall p e := by
  obtain ⟨pct, name, h⟩ := hq
  exact ⟨_, pct, name, h⟩

theorem QueuedSince.last (hq : QueuedSince h p q) : LastQueueing h p q := by
  obtain ⟨front, x, rest, rfl, hx, htime, hcalls, -⟩ := hq
  exact ⟨front, x, rest, rfl, hx, htime, fun y hy hqueue => hcalls y hy hqueue.isCall⟩

theorem LastQueueing.unique {q' : ℚ} (hq : LastQueueing h p q) (hq' : LastQueueing h p q') : q = q' := by
  obtain ⟨front, x, rest, rfl, hx, htime, hrest⟩ := hq
  obtain ⟨front', x', rest', heq, hx', htime', hrest'⟩ := hq'
  rw [← htime, ← htime', split_unique heq hx hx' hrest hrest']

/-! ### One step -/

/-- Queued rows have been queued since a latest queueing, and failed ones timed out. -/
structure Kept (h : List Event) : Prop where
  queued : ∀ p, stageOf (after h) p = some .queued → ∃ q, QueuedSince h p q
  failed : ∀ p, stageOf (after h) p = some .failed → TimedOut h p

theorem kept_nil : Kept [] := ⟨fun p h => (by cases h), fun p h => (by cases h)⟩

theorem stageOf_call (hstage : ¬(stage = .queued ∧ stageOf d p ≠ none ∧ stageOf d p ≠ some .queued)) :
    stageOf (setDeploymentProgress d p stage pct name now) p = stage.stage := by
  unfold stageOf setDeploymentProgress
  cases stage with
  | completed => exact congrArg _ (d.get?_erase_self p)
  | queued =>
    dsimp only [Progress.stage]
    rw [if_neg hstage, Dict.get?_set_self]
    rfl
  | downloading =>
    dsimp only [Progress.stage]
    rw [if_neg hstage, Dict.get?_set_self]
    rfl
  | configuring =>
    dsimp only [Progress.stage]
    rw [if_neg hstage, Dict.get?_set_self]
    rfl

theorem stageOf_cases (d : Rows) (p : String) : stageOf d p = none ∨ stageOf d p = some .queued ∨ stageOf d p = some .failed ∨
    stageOf d p = some .downloading ∨ stageOf d p = some .configuring := by
  cases stageOf d p with
  | none => exact .inl rfl
  | some st => cases st <;> simp

/-- A row that is queued or failed after an event that is no call for it was so before, or turned failed in a poll. -/
theorem keep_other (hk : Kept h) (hcall : ¬IsCall p e) (hsnap : e.action ≠ .snapshot) :
    (stageOf (after (h ++ [e])) p = some .queued → ∃ q, QueuedSince (h ++ [e]) p q) ∧
      (stageOf (after (h ++ [e])) p = some .failed → TimedOut (h ++ [e]) p) := by
  have hsame : stageOf (after (h ++ [e])) p = stageOf (after h) p := by
    rw [after_append, stageOf, get?_apply_of_not_call hcall hsnap]
    rfl
  rw [hsame]
  refine ⟨fun hq => ?_, fun hf => (hk.failed p hf).append hcall⟩
  obtain ⟨q, hsince⟩ := hk.queued p hq
  exact ⟨q, hsince.append hcall (hsame.trans hq)⟩

/-- A call that queues, for its own pipeline. -/
theorem keep_queueing (he : e.action = .setDeploymentProgress p .queued pct name) (ht : stageOf (after h) p ≠ some .failed) :
    (stageOf (after (h ++ [e])) p = some .queued → ∃ q, QueuedSince (h ++ [e]) p q) ∧
      (stageOf (after (h ++ [e])) p = some .failed → TimedOut (h ++ [e]) p) := by
  have happly : after (h ++ [e]) = setDeploymentProgress (after h) p .queued pct name e.time := by rw [after_append, apply, he]
  by_cases hactive : stageOf (after h) p ≠ none ∧ stageOf (after h) p ≠ some .queued
  · have hsame : after (h ++ [e]) = after h := by
      rw [happly, setDeploymentProgress]
      exact if_pos ⟨rfl, hactive⟩
    rw [hsame]
    exact ⟨fun hq => absurd hq hactive.2, fun hf => absurd hf ht⟩
  · have hqueued : stageOf (after (h ++ [e])) p = some .queued := by
      rw [happly, stageOf_call fun hq => hactive hq.2]
      rfl
    refine ⟨fun _ => ⟨e.time, h, e, [], rfl, ⟨pct, name, he⟩, rfl, fun x hx => (by cases hx), fun r hr => ?_⟩, fun hf => ?_⟩
    · rw [List.prefix_nil.mp hr]
      exact hqueued
    · rw [hqueued] at hf
      cases hf

/-- Any other call, for its own pipeline. -/
theorem keep_call (he : e.action = .setDeploymentProgress p stage pct name) (hstage : stage ≠ .queued) :
    stageOf (after (h ++ [e])) p ≠ some .queued ∧ stageOf (after (h ++ [e])) p ≠ some .failed := by
  have happly : after (h ++ [e]) = setDeploymentProgress (after h) p stage pct name e.time := by rw [after_append, apply, he]
  rw [happly, stageOf_call fun hq => hstage hq.1]
  cases stage with
  | queued => exact absurd rfl hstage
  | downloading | configuring | completed => exact ⟨fun h => (by cases h), fun h => (by cases h)⟩

/-- A row in a poll: one that is still queued was so before, and one that is failed was so before or timed out now. -/
theorem keep_snapshot (hk : Kept h) (he : e.action = .snapshot) (ht : Timely h e) (p : String) :
    (stageOf (after (h ++ [e])) p = some .queued → ∃ q, QueuedSince (h ++ [e]) p q) ∧
      (stageOf (after (h ++ [e])) p = some .failed → TimedOut (h ++ [e]) p) := by
  have hcall : ∀ p, ¬IsCall p e := by
    rintro p ⟨stage, pct, name, heq⟩
    rw [he] at heq
    cases heq
  have happly : after (h ++ [e]) = (snapshot (after h) e.time).1 := by rw [after_append, apply, he]
  have hstage := stageOf_snapshot (after h) e.time p
  rw [← happly] at hstage
  cases hrow : (after h).get? p with
  | none =>
    rw [hrow] at hstage
    rw [hstage]
    exact ⟨fun h => (by cases h), fun h => (by cases h)⟩
  | some row =>
    have hbefore : stageOf (after h) p = some row.stage := by rw [stageOf, hrow]; rfl
    rw [hrow, Option.map_some, aged] at hstage
    by_cases hold : row.stage = .queued ∧ queuedTtlSeconds < e.time - row.createdAt
    · rw [if_pos hold] at hstage
      refine ⟨fun hq => (by rw [hstage] at hq; cases hq), fun _ => ?_⟩
      obtain ⟨q, hsince⟩ := hk.queued p (by rw [hbefore, hold.1])
      rw [Timely, he] at ht
      exact ⟨h, e, [], rfl, he, fun x hx => (by cases hx), hstage, q, hsince, ht p row q hrow hold.1 hold.2 hsince.last⟩
    · rw [if_neg hold] at hstage
      refine ⟨fun hq => ?_, fun hf => (hk.failed p (hbefore.trans (hstage.symm.trans hf))).append (hcall p)⟩
      obtain ⟨q, hsince⟩ := hk.queued p (hbefore.trans (hstage.symm.trans hq))
      exact ⟨q, hsince.append (hcall p) hq⟩

theorem Kept.step (hk : Kept h) (ht : Timely h e) : Kept (h ++ [e]) := by
  have hall : ∀ p, (stageOf (after (h ++ [e])) p = some .queued → ∃ q, QueuedSince (h ++ [e]) p q) ∧
      (stageOf (after (h ++ [e])) p = some .failed → TimedOut (h ++ [e]) p) := by
    intro p
    by_cases hsnap : e.action = .snapshot
    · exact keep_snapshot hk hsnap ht p
    · by_cases hcall : IsCall p e
      · obtain ⟨stage, pct, name, he⟩ := hcall
        by_cases hstage : stage = .queued
        · subst hstage
          rw [Timely, he] at ht
          exact keep_queueing he ht
        · obtain ⟨hq, hf⟩ := keep_call he hstage
          exact ⟨fun h => absurd h hq, fun h => absurd h hf⟩
      · exact keep_other hk hcall hsnap
  exact ⟨fun p => (hall p).1, fun p => (hall p).2⟩

theorem mem_snapshot {r : Reported} : r ∈ (snapshot d now).2 ↔
    ∃ row, d.get? r.pipelineId = some row ∧ r = reported (r.pipelineId, aged now row) := by
  have hget : ∀ p row, (p, row) ∈ (d.mapValues (aged now)).entries ↔ ∃ old, d.get? p = some old ∧ aged now old = row := by
    intro p row
    refine ⟨fun hmem => ?_, fun hold => Dict.mem_of_get? ?_⟩
    · have := Dict.get?_of_mem hmem
      rw [Dict.get?_mapValues] at this
      exact Option.map_eq_some_iff.mp this
    · rw [Dict.get?_mapValues]
      exact Option.map_eq_some_iff.mpr hold
  constructor
  · intro hr
    obtain ⟨⟨p, row⟩, hmem, rfl⟩ := List.mem_map.mp hr
    obtain ⟨old, hold, rfl⟩ := (hget p row).mp hmem
    exact ⟨old, hold, rfl⟩
  · rintro ⟨row, hrow, hr⟩
    rw [hr]
    exact List.mem_map_of_mem ((hget _ _).mpr ⟨row, hrow, rfl⟩)

theorem follows_of_timely (hk : Kept h) (ht : Timely h e) : Follows h e := by
  have happly := after_append h e
  unfold Follows
  split
  · next p pct name he =>
    rw [apply, he] at happly
    rw [Timely, he] at ht
    by_cases hactive : stageOf (after h) p = some .downloading ∨ stageOf (after h) p = some .configuring
    · rw [if_pos hactive, happly]
      dsimp only
      rw [setDeploymentProgress]
      dsimp only [Progress.stage]
      rw [if_pos]
      refine ⟨rfl, ?_⟩
      rcases hactive with hstage | hstage <;> rw [hstage] <;> exact ⟨fun h => (by cases h), fun h => (by cases h)⟩
    · rw [if_neg hactive, happly]
      refine stageOf_call fun hq => ?_
      rcases stageOf_cases (after h) p with hstage | hstage | hstage | hstage
      · exact hq.2.1 hstage
      · exact hq.2.2 hstage
      · exact ht hstage
      · exact hactive hstage
  · next p pct name he =>
    rw [apply, he] at happly
    rw [happly]
    exact (after h).get?_erase_self p
  · trivial
  · trivial
  · next he =>
    rintro r hr hfailed
    obtain ⟨row, hrow, hreported⟩ := mem_snapshot.mp hr
    refine (hk.step ht).failed r.pipelineId ?_
    rw [happly, apply, he]
    dsimp only
    rw [stageOf_snapshot, hrow, Option.map_some]
    rw [hreported] at hfailed
    exact congrArg some hfailed

theorem timely_of_follows (hf : Follows h e) : Timely h e := by
  have happly := after_append h e
  unfold Timely
  split
  · next p pct name he =>
    intro hfailed
    rw [apply, he] at happly
    rw [Follows, he] at hf
    dsimp only at hf
    rw [if_neg (by rw [hfailed]; rintro (h | h) <;> cases h)] at hf
    have hsame : setDeploymentProgress (after h) p .queued pct name e.time = after h := by
      rw [setDeploymentProgress]
      exact if_pos ⟨rfl, by rw [hfailed]; exact ⟨fun h => (by cases h), fun h => (by cases h)⟩⟩
    rw [happly] at hf
    dsimp only at hf
    rw [hsame, hfailed] at hf
    cases hf
  · trivial
  · next he =>
    intro p row q hrow hqueued hold hlast
    rw [Follows, he] at hf
    have haged : (aged e.time row).stage = .failed := by rw [aged, if_pos ⟨hqueued, hold⟩]
    obtain ⟨front, x, rest, heq, -, hcalls, hfailed, q', hsince, hlate⟩ :=
      hf (reported (p, aged e.time row)) (mem_snapshot.mpr ⟨row, hrow, rfl⟩) haged
    rcases List.eq_nil_or_concat rest with rfl | ⟨rest, y, rfl⟩
    · obtain ⟨rfl, hx⟩ := List.append_inj' heq rfl
      obtain rfl : e = x := by simpa using hx
      rw [hlast.unique hsince.last]
      exact hlate
    · -- a row that failed before and was not called for since is not queued
      have hsplit : h ++ [e] = (front ++ x :: rest) ++ [y] := by rw [heq]; simp
      obtain ⟨rfl, -⟩ := List.append_inj' hsplit rfl
      have hstill : stageOf (after (front ++ x :: rest)) p = some .failed := by
        have hassoc : front ++ x :: rest = front ++ [x] ++ rest := by simp
        rw [hassoc, after, List.foldl_append]
        exact failed_foldl (fun z hz => hcalls z (by simp [hz])) hfailed
      rw [stageOf, hrow, Option.map_some, hqueued] at hstill
      cases hstill

end Rows

/-- **The rows follow the deploys** in a run, whatever the clock shows, just if no failed row is queued again, and no poll
comes too late for the creation of a queued row that was queued again since. -/
theorem rows_follow_iff (run : List Event) : (∀ front e rest, run = front ++ e :: rest → Follows front e) ↔
    ∀ front e rest, run = front ++ e :: rest → Timely front e := by
  refine ⟨fun hf front e rest heq => timely_of_follows (hf front e rest heq), fun ht front e rest heq => ?_⟩
  have hkept : ∀ l r, run = l ++ r → Kept l := by
    intro l
    induction l using List.reverseRecOn with
    | nil => exact fun _ _ => kept_nil
    | append_singleton l e ih =>
      intro r hr
      have hsplit : run = l ++ e :: r := by rw [hr]; simp
      exact (ih _ hsplit).step (ht l e r hsplit)
  exact follows_of_timely (hkept front (e :: rest) heq) (ht front e rest heq)

def queueing (time : ℚ) : Event := ⟨time, .setDeploymentProgress "p" .queued 0 (some "m.gguf")⟩

/-- A row that is queued again just before it is too old is reported as failed 11 seconds later. -/
example : (snapshot (after [queueing 0, queueing 290]) 301).2.map Reported.stage = [.failed] := by decide +kernel

/-- A deploy that timed out and is queued again stays failed. -/
theorem retry_ignored : ¬∀ run front e rest, run = front ++ e :: rest → Follows front e := by
  intro h
  have hlast : Follows [queueing 0, ⟨301, .snapshot⟩] (queueing 310) :=
    h ([queueing 0, ⟨301, .snapshot⟩] ++ queueing 310 :: []) _ _ _ rfl
  have hbefore : ¬(stageOf (after [queueing 0, ⟨301, .snapshot⟩]) "p" = some .downloading ∨
      stageOf (after [queueing 0, ⟨301, .snapshot⟩]) "p" = some .configuring) := by decide +kernel
  have hafter : stageOf (after ([queueing 0, ⟨301, .snapshot⟩] ++ [queueing 310])) "p" = some .failed := by decide +kernel
  have hqueued : stageOf (after ([queueing 0, ⟨301, .snapshot⟩] ++ [queueing 310])) "p" = some .queued :=
    (if_neg hbefore).mp hlast
  rw [hafter] at hqueued
  cases hqueued

end Deployments
end LocaiLink
