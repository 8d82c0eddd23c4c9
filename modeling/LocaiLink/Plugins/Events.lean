/-
# Events of the classifiers

A classifier gives each frame a label and a score. The adapters of images and of sounds make events of them with
the same code: an event goes on while the label stays and the score is not below the threshold, and it is reported
when it ends, if it was long enough and the report before it is long enough ago. What is reported are the closed runs
(`Runs.Closed`) that these two conditions let through (`events_exact`).
-/
import Mathlib.Algebra.Order.Ring.Rat
import LocaiLink.Base.Runs

namespace LocaiLink
namespace Events

/-- What a classifier says of a frame, and the time when it does. -/
structure Frame where
  label : String
  score : ℚ
  time : ℚ

structure Settings where
  modelId : String
  threshold : ℚ
  minDuration : ℚ
  minInterval : ℚ

/-- What the two adapters differ in. -/
structure Kind where
  subModelType : String
  source : String

structure CurrentEvent where
  label : String
  startTs : ℚ
  endTs : ℚ
  maxConf : ℚ

structure State where
  currentEvent : Option CurrentEvent
  lastLabel : Option String
  lastEventTime : ℚ

/-- The numbers are those before they are rounded, and the times before they are written out. -/
structure Payload where
  modelId : String
  modelType : String
  subModelType : String
  modelOutputType : String
  modelOutput : String
  modelOutputConfidence : ℚ
  modelOutputStartTime : ℚ
  modelOutputEndTime : ℚ
  modelOutputDuration : ℚ
  source : String

/-- The payload of an event. -/
def payload (kind : Kind) (c : Settings) (event : CurrentEvent) : Payload where
  modelId := c.modelId
  modelType := "classification"
  subModelType := kind.subModelType
  modelOutputType := "text"
  modelOutput := event.label
  modelOutputConfidence := event.maxConf
  modelOutputStartTime := event.startTs
  modelOutputEndTime := event.endTs
  modelOutputDuration := event.endTs - event.startTs
  source := kind.source

section Machine

variable (kind : Kind) (c : Settings)

/-- `_finalise_event` -/
def finaliseEvent (s : State) (now : ℚ) : Option Payload × State :=
  match s.currentEvent with
  | none => (none, s)
  | some event =>
    let duration := event.endTs - event.startTs
    let interval := now - s.lastEventTime
    if c.minDuration ≤ duration ∧ c.minInterval ≤ interval then (some (payload kind c event), { s with lastEventTime := now })
    else (none, s)

/-- The event that a frame opens. -/
def opened (f : Frame) : CurrentEvent := ⟨f.label, f.time, f.time, f.score⟩

/-- `_process_event_state`; `_finalise_event` does nothing where no event is open. -/
def processEventState (s : State) (f : Frame) : Option Payload × State :=
  let now := f.time
  if c.threshold ≤ f.score then
    match s.currentEvent, decide (some f.label = s.lastLabel) with
    | some event, true =>
      (none, { s with currentEvent := some { event with maxConf := max event.maxConf f.score, endTs := now } })
    | _, _ =>
      let (result, s) := finaliseEvent kind c s now
      (result, { s with currentEvent := some (opened f), lastLabel := some f.label })
  else
    let (result, s) := finaliseEvent kind c s now
    (result, { s with currentEvent := none, lastLabel := none })

/-- What is emitted for the frames that come. -/
def emitted (s : State) : List Frame → List Payload
  | [] => []
  | f :: frames => (processEventState kind c s f).1.toList ++ emitted (processEventState kind c s f).2 frames

def initial : State := ⟨none, none, 0⟩

end Machine

namespace ImageClassifier

def kind : Kind := ⟨"image_classification", "live_camera"⟩

def processEventState : Settings → State → Frame → Option Payload × State := Events.processEventState kind

def events (c : Settings) (frames : List Frame) : List Payload := emitted kind c initial frames

end ImageClassifier

namespace AudioClassifier

def kind : Kind := ⟨"audio_classification", "live_audio"⟩

def processEventState : Settings → State → Frame → Option Payload × State := Events.processEventState kind

def events (c : Settings) (frames : List Frame) : List Payload := emitted kind c initial frames

end AudioClassifier

/-! ### What is to be emitted -/

/-- The label of a frame whose score is not below the threshold. -/
def labelOf (c : Settings) (f : Frame) : Option String := if c.threshold ≤ f.score then some f.label else none

/-- The event of a run: its label, its first and its last time, and the greatest of its scores. -/
def eventOf (run : List Frame) : Option CurrentEvent := do
  let first ← run.head?
  let last ← run.getLast?
  let best ← (run.map Frame.score).max?
  pure ⟨first.label, first.time, last.time, best⟩

def slice (frames : List Frame) (s e : ℕ) : List Frame := (frames.drop s).take (e - s)

/-- The event of a run in a row of frames, and the time of the first frame after it. -/
def describe (frames : List Frame) (r : ℕ × ℕ) : Option (CurrentEvent × ℚ) := do
  let event ← eventOf (slice frames r.1 r.2)
  let next ← frames[r.2]?
  pure (event, next.time)

/-- The events that last long enough and are closed long enough after the one that was selected before. -/
def selected (c : Settings) : ℚ → List (CurrentEvent × ℚ) → List CurrentEvent
  | _, [] => []
  | last, (event, closing) :: rest =>
    if c.minDuration ≤ event.endTs - event.startTs ∧ c.minInterval ≤ closing - last then event :: selected c closing rest
    else selected c last rest

/-! ### The open event is the open run -/

section Link

variable {kind : Kind} {c : Settings} {frames l run : List Frame} {f : Frame} {event : CurrentEvent} {s e i : ℕ}

theorem eventOf_singleton (f : Frame) : eventOf [f] = some (opened f) := rfl

/-- One more frame has the last time, and its score may be the greatest. -/
theorem eventOf_append (h : eventOf run = some event) (f : Frame) :
    eventOf (run ++ [f]) = some { event with maxConf := max event.maxConf f.score, endTs := f.time } := by
  cases run with
  | nil => cases h
  | cons a run =>
    obtain ⟨last, hlast⟩ : ∃ last, (a :: run).getLast? = some last := ⟨_, List.getLast?_eq_some_getLast (List.cons_ne_nil a run)⟩
    unfold eventOf at h ⊢
    rw [hlast] at h
    simp only [List.head?_cons, List.map_cons, List.max?_cons', Option.bind_eq_bind, Option.bind_some, Option.pure_def,
      Option.some.injEq] at h
    subst h
    have hlast' : (a :: (run ++ [f])).getLast? = some f := List.getLast?_concat (l := a :: run)
    simp only [List.cons_append, List.head?_cons, List.map_cons, List.max?_cons', hlast', Option.bind_eq_bind, Option.bind_some,
      Option.pure_def, List.map_append, List.map_nil, List.foldl_append, List.foldl_cons, List.foldl_nil]

theorem slice_succ (hf : frames[i]? = some f) (h : s ≤ i) : slice frames s (i + 1) = slice frames s i ++ [f] := by
  unfold slice
  rw [show i + 1 - s = i - s + 1 by omega, List.take_add_one, List.getElem?_drop, show s + (i - s) = i by omega, hf]
  rfl

theorem slice_one (hf : frames[i]? = some f) : slice frames i (i + 1) = [f] := by
  rw [slice_succ hf (Nat.le_refl i), slice, Nat.sub_self, List.take_zero, List.nil_append]

/-- The state has the event of the run that is open before a frame. -/
def Linked (frames : List Frame) (i : ℕ) (s : State) : Option (String × ℕ) → Prop
  | none => s.currentEvent = none
  | some (k, first) => first < i ∧ s.lastLabel = some k ∧ ∃ event, s.currentEvent = some event ∧ eventOf (slice frames first i) = some event

variable {st : State} {cur : Option (String × ℕ)} {k : String}

theorem finaliseEvent_none (h : st.currentEvent = none) (now : ℚ) : finaliseEvent kind c st now = (none, st) := by
  rw [finaliseEvent, h]

/-- A frame that opens an event is its run's first. -/
theorem linked_opened (hf : frames[i]? = some f) (last : ℚ) (hlabel : labelOf c f = some f.label) :
    Linked frames (i + 1) ⟨some (opened f), some f.label, last⟩ (Runs.start i (labelOf c f)) := by
  rw [hlabel]
  exact ⟨Nat.lt_succ_self i, rfl, opened f, rfl, by rw [slice_one hf, eventOf_singleton]⟩

/-- What a frame leaves where it does not go on with an event. -/
theorem linked_after (kind : Kind) (c : Settings) (hf : frames[i]? = some f) (h : ∀ event, st.currentEvent = some event → labelOf c f ≠ none → some f.label ≠ st.lastLabel) :
    (processEventState kind c st f).1 = (finaliseEvent kind c st f.time).1 ∧
      (processEventState kind c st f).2.lastEventTime = (finaliseEvent kind c st f.time).2.lastEventTime ∧
      Linked frames (i + 1) (processEventState kind c st f).2 (Runs.start i (labelOf c f)) := by
  by_cases hhot : c.threshold ≤ f.score
  · have hlabel : labelOf c f = some f.label := if_pos hhot
    have hstep : processEventState kind c st f = ((finaliseEvent kind c st f.time).1,
        ⟨some (opened f), some f.label, (finaliseEvent kind c st f.time).2.lastEventTime⟩) := by
      unfold processEventState
      simp only [if_pos hhot]
      cases hevent : st.currentEvent with
      | none => rfl
      | some event =>
        have hne : some f.label ≠ st.lastLabel := h event hevent (by rw [hlabel]; exact fun h => by cases h)
        simp only [decide_eq_false hne]
    rw [hstep]
    exact ⟨rfl, rfl, linked_opened hf _ hlabel⟩
  · have hlabel : labelOf c f = none := if_neg hhot
    have hstep : processEventState kind c st f = ((finaliseEvent kind c st f.time).1,
        ⟨none, none, (finaliseEvent kind c st f.time).2.lastEventTime⟩) := by
      unfold processEventState
      simp only [if_neg hhot]
    rw [hstep, hlabel]
    exact ⟨rfl, rfl, rfl⟩

/-- And where it does. -/
theorem linked_extend (kind : Kind) (hf : frames[i]? = some f) (hlabel : labelOf c f = some k) (h : Linked frames i st (some (k, s))) :
    (processEventState kind c st f).1 = none ∧ (processEventState kind c st f).2.lastEventTime = st.lastEventTime ∧
      Linked frames (i + 1) (processEventState kind c st f).2 (some (k, s)) := by
  obtain ⟨hlt, hlast, event, hevent, hrun⟩ := h
  have hhot : c.threshold ≤ f.score := by
    by_contra hcold
    rw [labelOf, if_neg hcold] at hlabel
    cases hlabel
  have hk : some f.label = st.lastLabel := by
    rw [labelOf, if_pos hhot] at hlabel
    rw [hlabel, hlast]
  have hstep : processEventState kind c st f =
      (none, { st with currentEvent := some { event with maxConf := max event.maxConf f.score, endTs := f.time } }) := by
    unfold processEventState
    simp only [if_pos hhot, hevent, decide_eq_true hk]
  rw [hstep]
  exact ⟨rfl, rfl, by omega, hlast, _, rfl, by rw [slice_succ hf hlt.le, eventOf_append hrun]⟩

/-- An event that ends is selected or not. -/
theorem selected_finalise (hevent : st.currentEvent = some event) (now : ℚ) (rest : List (CurrentEvent × ℚ)) :
    (selected c st.lastEventTime ((event, now) :: rest)).map (payload kind c) = (finaliseEvent kind c st now).1.toList ++
      (selected c (finaliseEvent kind c st now).2.lastEventTime rest).map (payload kind c) := by
  unfold finaliseEvent
  rw [selected, hevent]
  dsimp only
  split_ifs <;> rfl

/-- **From a frame on**, what is emitted is what is selected of the runs that are closed from there on. -/
theorem emitted_eq (hl : frames.drop i = l) (h : Linked frames i st cur) : emitted kind c st l =
    (selected c st.lastEventTime ((Runs.scan i cur (l.map (labelOf c))).filterMap (describe frames))).map (payload kind c) := by
  induction l generalizing i st cur with
  | nil => rfl
  | cons f l ih =>
    have hf : frames[i]? = some f := by rw [← List.head?_drop, hl]; rfl
    have hl' : frames.drop (i + 1) = l := by rw [← List.tail_drop, hl]; rfl
    rw [emitted, List.map_cons]
    cases cur with
    | none =>
      have hnone : st.currentEvent = none := h
      have hidle : ∀ event, st.currentEvent = some event → labelOf c f ≠ none → some f.label ≠ st.lastLabel := by
        intro event hevent
        rw [hnone] at hevent
        cases hevent
      obtain ⟨hresult, hlast, hlinked⟩ := linked_after kind c hf hidle
      rw [ih hl' hlinked, hresult, hlast, finaliseEvent_none hnone, Runs.scan]
      rfl
    | some r =>
      obtain ⟨k, s⟩ := r
      rw [Runs.scan]
      split_ifs with hsame
      · obtain ⟨hresult, hlast, hlinked⟩ := linked_extend kind hf hsame h
        rw [ih hl' hlinked, hresult, hlast]
        rfl
      · obtain ⟨hlt, hlabel, event, hevent, hrun⟩ := h
        have hne : ∀ event, st.currentEvent = some event → labelOf c f ≠ none → some f.label ≠ st.lastLabel := by
          intro _ _ hhot heq
          rw [hlabel] at heq
          refine hsame ?_
          unfold labelOf at hhot ⊢
          split_ifs at hhot ⊢ with hle
          · exact heq
          · exact absurd rfl hhot
        obtain ⟨hresult, hlast, hlinked⟩ := linked_after kind c hf hne
        have hdescribe : describe frames (s, i) = some (event, f.time) := by
          unfold describe
          simp only [hrun, hf]
          rfl
        rw [ih hl' hlinked, hresult, hlast, List.filterMap_cons_some hdescribe, selected_finalise hevent]

end Link

theorem isSome_eventOf {run : List Frame} (h : run ≠ []) : (eventOf run).isSome = true := by
  cases run with
  | nil => exact absurd rfl h
  | cons a run =>
    unfold eventOf
    rw [List.getLast?_eq_some_getLast h]
    rfl

/-- A closed run has its event. -/
theorem isSome_describe {c : Settings} {frames : List Frame} {r : ℕ × ℕ} (h : Runs.Closed (frames.map (labelOf c)) r) :
    (describe frames r).isSome = true := by
  have hlength : r.2 < frames.length := by simpa using h.followed
  have hrun : slice frames r.1 r.2 ≠ [] := by
    intro hnil
    have hlt := h.nonempty
    have := congrArg List.length hnil
    rw [slice, List.length_take, List.length_drop, List.length_nil] at this
    omega
  obtain ⟨event, hevent⟩ := Option.isSome_iff_exists.mp (isSome_eventOf hrun)
  unfold describe
  rw [hevent, List.getElem?_eq_getElem hlength]
  rfl

/-- **What is emitted** is, in order, the events of the closed runs of one label and scores not below the threshold, where they
last long enough and end long enough after the one before; the two adapters emit the same. -/
theorem events_exact (c : Settings) (frames : List Frame) : ∃ runs : List (ℕ × ℕ),
    (∀ r, r ∈ runs ↔ Runs.Closed (frames.map (labelOf c)) r) ∧ runs.Pairwise (fun r r' => r.2 ≤ r'.1) ∧
    (∀ r ∈ runs, (describe frames r).isSome = true) ∧
    ImageClassifier.events c frames = (selected c 0 (runs.filterMap (describe frames))).map (payload ImageClassifier.kind c) ∧
    AudioClassifier.events c frames = (selected c 0 (runs.filterMap (describe frames))).map (payload AudioClassifier.kind c) := by
  have hnone : Linked frames 0 initial none := rfl
  exact ⟨Runs.closedRuns (frames.map (labelOf c)), fun r => Runs.mem_closedRuns, Runs.pairwise_closedRuns,
    fun r hr => isSome_describe (Runs.mem_closedRuns.mp hr), emitted_eq List.drop_zero hnone, emitted_eq List.drop_zero hnone⟩

/-- A run that is too short, one that is reported, and one that ends too soon after that. -/
example : (ImageClassifier.events ⟨"m", 1 / 2, 1, 3⟩
    [⟨"cat", 1, 9⟩, ⟨"dog", 3 / 5, 10⟩, ⟨"dog", 4 / 5, 11⟩, ⟨"dog", 0, 12⟩, ⟨"cat", 1, 13⟩, ⟨"cat", 1, 14⟩, ⟨"dog", 0, 14⟩]).map
      (fun p => (p.modelOutput, p.modelOutputConfidence, p.modelOutputDuration)) = [("dog", 4 / 5, 1)] := by
  decide +kernel

end Events
end LocaiLink
