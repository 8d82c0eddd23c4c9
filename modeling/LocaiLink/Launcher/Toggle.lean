/-
# The serving toggle of a model

A click on a model's row flips `is_serving` in the tray's own list and posts the change to
the agent; a POST that fails flips it back, and every poll that is applied replaces the
list by the agent's. The flips are relative, so one that a poll has come between is not
undone but done to the agent's value. `right_iff` says in which runs the list has what
the tray last learned.
-/
import LocaiLink.Launcher.Menu

namespace LocaiLink.Launcher.Toggle

open Menu

/-! ### The toggle -/

inductive ServingAction
  | start
  | stop
  deriving DecidableEq

/-- The value of `is_serving` that an action asks for. -/
def ServingAction.requested : ServingAction → Bool
  | .start => true
  | .stop => false

/-- `iter_mut().find(..)`, and `is_serving = !is_serving` where something is found. -/
def flip (id : String) : List ModelInfo → List ModelInfo
  | [] => []
  | m :: models => if m.id = id then { m with isServing := !m.isServing } :: models else m :: flip id models

/-- The value that a list has for a model. -/
def serving (models : List ModelInfo) (id : String) : Option Bool := (models.find? fun m => m.id = id).map ModelInfo.isServing

/-- What has happened, as the statements tell it; no step reads it. -/
inductive Mark
  | clicked (id : String)
  | accepted (id : String) (requested : Bool)
  | polled (models : List ModelInfo)

/-- The handles, the POSTs under way with what they ask for, and the marks, the newest first. -/
structure State where
  handles : MenuHandles
  posts : List (String × ServingAction)
  marks : List Mark

/-- A click on a row, the answer of a POST, or a hop of the poll loop to the main thread. -/
inductive Event
  | click (id : String)
  | posted (id : String) (ok : Bool)
  | applied (hop : Hop)

namespace State

/-- The tray at its start. -/
def opened (shown : BuiltTray) : State := ⟨⟨shown, [], []⟩, [], []⟩

/-- `handle_model_toggle`, up to its POST. -/
def handleModelToggle (s : State) (id : String) : State :=
  if id ∈ s.handles.inFlight then s
  else
    match s.handles.models.find? fun m => m.id = id with
    | none => s
    | some m =>
      { handles := { s.handles with models := flip id s.handles.models, inFlight := id :: s.handles.inFlight }
        posts := (id, if m.isServing then .stop else .start) :: s.posts
        marks := .clicked id :: s.marks }

/-- The rest of its thread, with the answer of the POST. -/
def posted (s : State) (id : String) (ok : Bool) : State :=
  match s.posts.lookup id with
  | none => s
  | some action =>
    { handles :=
        { s.handles with
          models := if ok then s.handles.models else flip id s.handles.models
          inFlight := s.handles.inFlight.filter (· ≠ id) }
      posts := s.posts.filter (·.1 ≠ id)
      marks := if ok then .accepted id action.requested :: s.marks else s.marks }

def step (s : State) : Event → State
  | .click id => s.handleModelToggle id
  | .posted id ok => s.posted id ok
  | .applied hop => { s with handles := s.handles.apply hop, marks := .polled hop.data.models :: s.marks }

/-- Every step of the run, from the state it finds. -/
def Along (P : State → Event → Prop) : State → List Event → Prop
  | _, [] => True
  | s, e :: l => P s e ∧ Along P (s.step e) l

end State

/-! ### What the tray has learned -/

/-- The model was clicked after the last poll that was applied. -/
def clickedSince (id : String) : List Mark → Bool
  | [] => false
  | .clicked id' :: marks => id' = id || clickedSince id marks
  | .accepted _ _ :: marks => clickedSince id marks
  | .polled _ :: _ => false

/-- The value in the last poll that was applied, or the one that an accepted toggle clicked after it asked for. -/
def learned (id : String) : List Mark → Option Bool
  | [] => none
  | .clicked _ :: marks => learned id marks
  | .accepted id' requested :: marks => if id' = id && clickedSince id marks then some requested else learned id marks
  | .polled models :: _ => serving models id

namespace State

/-- Each model that no toggle is in flight of has the value that was learned. -/
def Reconciled (s : State) : Prop := ∀ id, id ∉ s.handles.inFlight → serving s.handles.models id = learned id s.marks

/-- The list is reconciled after the step, and a click asks for the other value than the one learned. -/
structure Right (s : State) (e : Event) : Prop where
  reconciled : (s.step e).Reconciled
  acts : ∀ id action, e = .click id → s.posts.lookup id = none → (s.step e).posts.lookup id = some action →
    learned id s.marks = some (!action.requested)

/-- No poll was applied between the click and the failure of its POST that has the model. -/
def Timely (s : State) : Event → Prop
  | .posted id false => id ∈ s.handles.inFlight → clickedSince id s.marks = true ∨ serving s.handles.models id = none
  | _ => True

end State

/-! ### The list -/

theorem serving_flip (id id' : String) (models : List ModelInfo) :
    serving (flip id models) id' = if id' = id then (serving models id').map not else serving models id' := by
  induction models with
  | nil => simp [flip, serving]
  | cons m models ih =>
    unfold serving at ih ⊢
    by_cases hid : m.id = id
    · rw [flip, if_pos hid]
      by_cases heq : id' = id
      · have hm : m.id = id' := hid.trans heq.symm
        simp [heq, hid]
      · have hm : ¬m.id = id' := fun h => heq (h.symm.trans hid)
        simp [heq, hm]
    · rw [flip, if_neg hid]
      by_cases hm : m.id = id'
      · have heq : ¬id' = id := fun h => hid (hm.trans h)
        simp [heq, hm]
      · simpa [hm] using ih

theorem apply_models (h : MenuHandles) (hop : Hop) : (h.apply hop).models = hop.data.models := by
  unfold MenuHandles.apply
  split_ifs <;> rfl

theorem apply_inFlight (h : MenuHandles) (hop : Hop) : (h.apply hop).inFlight = h.inFlight := by
  unfold MenuHandles.apply
  split_ifs <;> rfl

theorem lookup_filter {id id' : String} (posts : List (String × ServingAction)) :
    (posts.filter (·.1 ≠ id)).lookup id' = if id' = id then none else posts.lookup id' := by
  induction posts with
  | nil => simp
  | cons p posts ih =>
    by_cases hp : p.1 = id
    · rw [List.filter_cons_of_neg (by simpa using hp), ih]
      by_cases heq : id' = id
      · simp [heq]
      · have hne : (id' == p.1) = false := beq_eq_false_iff_ne.mpr fun h => heq (h.trans hp)
        rw [if_neg heq, if_neg heq, List.lookup_cons, hne]
    · rw [List.filter_cons_of_pos (by simpa using hp), List.lookup_cons, List.lookup_cons, ih]
      by_cases heq : id' = id
      · have hne : (id' == p.1) = false := beq_eq_false_iff_ne.mpr fun h => hp (h.symm.trans heq)
        simp only [hne, if_pos heq]
      · rw [if_neg heq, if_neg heq]

namespace State

variable {s : State}

/-- A model whose toggle is in flight has the value that was asked for, unless a poll has been applied since. -/
def Tracked (s : State) (id : String) (action : ServingAction) : Prop :=
  if clickedSince id s.marks = true then
    serving s.handles.models id = some action.requested ∧ learned id s.marks = some (!action.requested)
  else serving s.handles.models id = learned id s.marks

/-- The slots are those of the POSTs under way, each of which is tracked, and the list is reconciled. -/
structure Sound (s : State) : Prop where
  slots : ∀ id, id ∈ s.handles.inFlight ↔ (s.posts.lookup id).isSome = true
  tracked : ∀ id action, s.posts.lookup id = some action → s.Tracked id action
  reconciled : s.Reconciled

theorem sound_opened (shown : BuiltTray) : (opened shown).Sound :=
  ⟨fun _ => by simp [opened], fun _ _ h => (by cases h), fun _ _ => rfl⟩

/-- What a click does that claims the slot. -/
theorem click_cases (s : State) (id : String) : s.handleModelToggle id = s ∨
    id ∉ s.handles.inFlight ∧ ∃ b, serving s.handles.models id = some b ∧ s.handleModelToggle id =
      { handles := { s.handles with models := flip id s.handles.models, inFlight := id :: s.handles.inFlight }
        posts := (id, if b then .stop else .start) :: s.posts
        marks := .clicked id :: s.marks } := by
  unfold handleModelToggle
  by_cases hslot : id ∈ s.handles.inFlight
  · exact .inl (if_pos hslot)
  · rw [if_neg hslot]
    cases hfind : s.handles.models.find? fun m => m.id = id with
    | none => exact .inl rfl
    | some m => exact .inr ⟨hslot, m.isServing, by rw [serving, hfind]; rfl, rfl⟩

theorem requested_of_click (b : Bool) : (if b then ServingAction.stop else .start).requested = !b := by
  cases b <;> rfl

/-- After a click every toggle is tracked, and the list is reconciled but for those in flight. -/
theorem Sound.click (hs : s.Sound) (id : String) : (s.step (.click id)).Sound := by
  show (s.handleModelToggle id).Sound
  obtain h | ⟨hslot, b, hserving, h⟩ := s.click_cases id
  · rw [h]
    exact hs
  · rw [h]
    have hlearned : learned id s.marks = some b := (hs.reconciled id hslot).symm.trans hserving
    refine ⟨fun id' => ?_, fun id' action hpost => ?_, fun id' hfree => ?_⟩
    · rw [List.lookup_cons]
      by_cases heq : id' = id
      · simp [heq]
      · simp [heq, beq_eq_false_iff_ne.mpr heq, hs.slots id']
    · rw [List.lookup_cons] at hpost
      unfold Tracked
      by_cases heq : id' = id
      · subst heq
        rw [beq_self_eq_true] at hpost
        obtain rfl := Option.some.inj hpost
        have hsince : clickedSince id' (.clicked id' :: s.marks) = true := by simp [clickedSince]
        rw [if_pos hsince, serving_flip, if_pos rfl, hserving, requested_of_click]
        exact ⟨rfl, by rw [Bool.not_not]; exact hlearned⟩
      · rw [beq_eq_false_iff_ne.mpr heq] at hpost
        have hsince : clickedSince id' (.clicked id :: s.marks) = clickedSince id' s.marks := by
          simp [clickedSince, Ne.symm heq]
        rw [hsince, serving_flip, if_neg heq]
        exact hs.tracked id' action hpost
    · have heq : id' ≠ id := fun heq => hfree (heq ▸ List.mem_cons_self)
      rw [serving_flip, if_neg heq]
      exact hs.reconciled id' fun hmem => hfree (List.mem_cons_of_mem _ hmem)

/-- After a poll that is applied the list is what was learned. -/
theorem Sound.applied (hs : s.Sound) (hop : Hop) : (s.step (.applied hop)).Sound := by
  have hmodels : (s.step (.applied hop)).handles.models = hop.data.models := apply_models _ _
  refine ⟨fun id => ?_, fun id action hpost => ?_, fun id _ => ?_⟩
  · show id ∈ (s.handles.apply hop).inFlight ↔ _
    rw [apply_inFlight]
    exact hs.slots id
  · unfold Tracked
    have hsince : clickedSince id (s.step (.applied hop)).marks = false := rfl
    rw [hsince, if_neg Bool.false_ne_true, hmodels]
    rfl
  · rw [hmodels]
    rfl

/-- What an answer does. -/
theorem posted_eq {id : String} {action : ServingAction} (h : s.posts.lookup id = some action) (ok : Bool) :
    s.step (.posted id ok) =
      { handles :=
          { s.handles with
            models := if ok then s.handles.models else flip id s.handles.models
            inFlight := s.handles.inFlight.filter (· ≠ id) }
        posts := s.posts.filter (·.1 ≠ id)
        marks := if ok then .accepted id action.requested :: s.marks else s.marks } := by
  show s.posted id ok = _
  rw [posted, h]

theorem posted_of_none {id : String} (h : s.posts.lookup id = none) (ok : Bool) : s.step (.posted id ok) = s := by
  show s.posted id ok = _
  rw [posted, h]

/-- The other models are as they were after an answer. -/
theorem posted_other {id id' : String} (h : id' ≠ id) (ok : Bool) :
    serving (s.step (.posted id ok)).handles.models id' = serving s.handles.models id' ∧
      learned id' (s.step (.posted id ok)).marks = learned id' s.marks ∧
      clickedSince id' (s.step (.posted id ok)).marks = clickedSince id' s.marks ∧
      (s.step (.posted id ok)).posts.lookup id' = s.posts.lookup id' ∧
      (id' ∈ (s.step (.posted id ok)).handles.inFlight ↔ id' ∈ s.handles.inFlight) := by
  cases hpost : s.posts.lookup id with
  | none =>
    rw [posted_of_none hpost]
    exact ⟨rfl, rfl, rfl, rfl, Iff.rfl⟩
  | some action =>
    rw [posted_eq hpost]
    refine ⟨?_, ?_, ?_, (lookup_filter s.posts).trans (if_neg h), by simp [h]⟩
    · cases ok with
      | true => rfl
      | false => exact (serving_flip id id' _).trans (if_neg h)
    · cases ok with
      | true => simp [learned, Ne.symm h]
      | false => rfl
    · cases ok <;> rfl

/-- An answer leaves the slots and what is tracked of the others. -/
theorem Sound.posted (hs : s.Sound) (id : String) (ok : Bool) (h : (s.step (.posted id ok)).Reconciled) :
    (s.step (.posted id ok)).Sound := by
  have hfreed : (s.step (.posted id ok)).posts.lookup id = none ∧ id ∉ (s.step (.posted id ok)).handles.inFlight := by
    cases hpost : s.posts.lookup id with
    | none =>
      rw [posted_of_none hpost]
      refine ⟨hpost, fun hmem => ?_⟩
      have hsome := (hs.slots id).mp hmem
      rw [hpost] at hsome
      cases hsome
    | some action =>
      rw [posted_eq hpost]
      exact ⟨(lookup_filter s.posts).trans (if_pos rfl), by simp⟩
  refine ⟨fun id' => ?_, fun id' action hpost => ?_, h⟩
  · by_cases heq : id' = id
    · rw [heq, hfreed.1]
      exact iff_of_false hfreed.2 (by simp)
    · obtain ⟨-, -, -, hlookup, hslot⟩ := s.posted_other heq ok
      rw [hlookup, hslot]
      exact hs.slots id'
  · have heq : id' ≠ id := by
      rintro rfl
      rw [hfreed.1] at hpost
      cases hpost
    obtain ⟨hserving, hlearned, hsince, hlookup, -⟩ := s.posted_other heq ok
    rw [hlookup] at hpost
    unfold Tracked
    rw [hserving, hlearned, hsince]
    exact hs.tracked id' action hpost

/-- The list is reconciled after an answer if it is at the model that was asked for. -/
theorem Sound.reconciled_posted_iff (hs : s.Sound) {id : String} {action : ServingAction} (hpost : s.posts.lookup id = some action)
    (ok : Bool) : (s.step (.posted id ok)).Reconciled ↔
      serving (s.step (.posted id ok)).handles.models id = learned id (s.step (.posted id ok)).marks := by
  constructor
  · intro h
    refine h id ?_
    rw [posted_eq hpost]
    simp
  · intro h id' hfree
    by_cases heq : id' = id
    · rw [heq]
      exact h
    · obtain ⟨hserving, hlearned, -, -, hslot⟩ := s.posted_other heq ok
      rw [hserving, hlearned]
      exact hs.reconciled id' fun hmem => hfree (hslot.mpr hmem)

theorem Sound.reconciled_iff (hs : s.Sound) (e : Event) : (s.step e).Reconciled ↔ s.Timely e := by
  cases e with
  | click id => exact iff_of_true (hs.click id).reconciled trivial
  | applied hop => exact iff_of_true (hs.applied hop).reconciled trivial
  | posted id ok =>
    cases hpost : s.posts.lookup id with
    | none =>
      have hfree : id ∉ s.handles.inFlight := fun hmem => by
        have hsome := (hs.slots id).mp hmem
        rw [hpost] at hsome
        cases hsome
      rw [posted_of_none hpost]
      cases ok with
      | true => exact iff_of_true hs.reconciled trivial
      | false => exact iff_of_true hs.reconciled fun hmem => absurd hmem hfree
    | some action =>
      have hslot : id ∈ s.handles.inFlight := (hs.slots id).mpr (by rw [hpost]; rfl)
      have htracked := hs.tracked id action hpost
      unfold Tracked at htracked
      rw [hs.reconciled_posted_iff hpost ok, posted_eq hpost]
      cases ok with
      | true =>
        refine iff_of_true ?_ trivial
        show serving s.handles.models id = learned id (.accepted id action.requested :: s.marks)
        rw [learned]
        cases hsince : clickedSince id s.marks with
        | true =>
          rw [hsince, if_pos rfl] at htracked
          simpa using htracked.1
        | false =>
          rw [hsince, if_neg Bool.false_ne_true] at htracked
          simpa using htracked
      | false =>
        show serving (flip id s.handles.models) id = learned id s.marks ↔ _
        rw [serving_flip, if_pos rfl]
        unfold Timely
        cases hsince : clickedSince id s.marks with
        | true =>
          rw [hsince, if_pos rfl] at htracked
          refine iff_of_true ?_ fun _ => .inl hsince
          rw [htracked.1, htracked.2]
          rfl
        | false =>
          rw [hsince, if_neg Bool.false_ne_true] at htracked
          rw [← htracked]
          cases hserving : serving s.handles.models id with
          | none => exact iff_of_true rfl fun _ => .inr hserving
          | some b => cases b <;> simp [hslot, hsince, hserving]

/-- A click asks for the other value than the one learned. -/
theorem Sound.acts (hs : s.Sound) (e : Event) : ∀ id action, e = .click id → s.posts.lookup id = none →
    (s.step e).posts.lookup id = some action → learned id s.marks = some (!action.requested) := by
  rintro id action rfl hnone hpost
  obtain h | ⟨hslot, b, hserving, h⟩ := s.click_cases id
  · rw [show s.step (.click id) = s from h, hnone] at hpost
    cases hpost
  · rw [show s.step (.click id) = _ from h, List.lookup_cons, beq_self_eq_true] at hpost
    obtain rfl := Option.some.inj hpost
    rw [← hs.reconciled id hslot, hserving, requested_of_click, Bool.not_not]

theorem Sound.right_iff_timely (hs : s.Sound) (e : Event) : s.Right e ↔ s.Timely e := by
  rw [← hs.reconciled_iff e]
  exact ⟨fun h => h.reconciled, fun h => ⟨h, hs.acts e⟩⟩

theorem Sound.step (hs : s.Sound) {e : Event} (h : s.Right e) : (s.step e).Sound := by
  cases e with
  | click id => exact hs.click id
  | posted id ok => exact hs.posted id ok h.reconciled
  | applied hop => exact hs.applied hop

/-! ### Runs -/

theorem along_right_iff : ∀ {l : List Event} {s : State}, s.Sound → (Along Right s l ↔ Along Timely s l)
  | [], _, _ => Iff.rfl
  | e :: l, s, hs => by
    show s.Right e ∧ Along Right (s.step e) l ↔ s.Timely e ∧ Along Timely (s.step e) l
    rw [← hs.right_iff_timely e]
    exact and_congr_right fun h => along_right_iff (hs.step h)

/-- **The list has what the tray last learned, exactly.** In every run of clicks, answers of their POSTs and polls
that are applied, every model that no toggle is in flight of has the value that was learned, and every click acts on
it, just if no POST fails after a poll that was applied since its click and has the model. -/
theorem right_iff (shown : BuiltTray) (events : List Event) : Along Right (opened shown) events ↔ Along Timely (opened shown) events :=
  along_right_iff (sound_opened shown)

/-- The menu before the device has reported anything. -/
def bare : BuiltTray := buildTrayMenu ⟨[], [], "", none, true⟩

/-- A poll that reports one model, which serves. -/
def reported : Hop := ⟨false, ⟨[⟨"p", "gemma", some 8003, true⟩], [], "", none, true⟩⟩

/-- A model that serves is clicked, the next poll still reports that it does, and the POST fails. -/
def overtaken : List Event := [.applied reported, .click "p", .applied reported, .posted "p" false]

/-- The tray has it that the model does not serve. -/
theorem overtaken_wrong : ¬∀ shown events, Along Right (opened shown) events := by
  intro h
  obtain ⟨-, -, -, htimely, -⟩ := (right_iff bare overtaken).mp (h bare overtaken)
  rcases htimely (by decide +kernel) with hsince | hgone
  · exact absurd hsince (by decide +kernel)
  · exact absurd hgone (by decide +kernel)

end State

end LocaiLink.Launcher.Toggle
