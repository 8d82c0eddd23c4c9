/-
# A model that is not added

`add_model` enters the model and writes the config file before it starts the process or
tells it, and nothing takes that back. `undone_iff` says when a call that raises leaves the
models and the config file as they were, and no process and no pid file of its own.
-/
import LocaiLink.Base.Ghost
import LocaiLink.Base.Triple
import LocaiLink.Serving.Ports
import LocaiLink.Serving.References

namespace LocaiLink
namespace LanguageModel

open Prog Plugin

/-! ### What is done -/

/-- Whether an action goes well, or a process runs. -/
def went : Act → Plugin → Bool
  | .writePid _, s | .clearPid _, s => (s.ask .file).error.isNone
  | .spawn _, s => (s.ask .spawn).error.isNone
  | .startProxy _, s => (s.ask .proxy).error.isNone
  | .isRunning m, s => (s.isRunning m).1
  | _, _ => true

abbrev Event := Act × Bool

/-- What a call has done with processes: one that it started runs as far as it knows, and is
recorded in the pid file; and what went wrong with recording it, removing the file again or
putting the proxy in front of it. -/
structure Course where
  running : Bool := false
  recorded : Bool := false
  unrecorded : Bool := false
  unremoved : Bool := false
  unfronted : Bool := false

def Course.note (g : Course) : Event → Course
  | (.spawn _, true) => { g with running := true }
  | (.isRunning _, false) => { g with running := false }
  | (.writePid _, true) => { g with recorded := true }
  | (.writePid _, false) => { g with unrecorded := true }
  | (.clearPid _, false) => { g with unremoved := g.recorded }
  | (.startProxy _, false) => { g with unfronted := true }
  | _ => g

/-- Something went wrong once the process was started, other than that it ended. -/
def Course.Late (g : Course) : Prop := g.unrecorded = true ∨ g.unremoved = true ∨ g.unfronted = true

instance (g : Course) : Decidable g.Late := inferInstanceAs (Decidable (_ ∨ _ ∨ _))

def course (l : List Event) : Course := l.foldl Course.note {}

theorem course_concat (l : List Event) (e : Event) : course (l ++ [e]) = (course l).note e := by
  rw [course, List.foldl_append]
  rfl

/-- The plugin, with what was done. -/
abbrev Logged := Plugin × List Event

def step : Sem swapSig Logged := logged (σ := swapSig) Plugin.perform fun a s => (a, went a s)

/-! ### Rules -/

section Rules

variable {α β : Type} {P E : Logged → Prop} {x : Raising α} {Q : α → Logged → Prop}

/-- From `P` the code returns in `Q`, or raises in `E`. -/
abbrev Leads (P : Logged → Prop) (x : Raising α) (Q : α → Logged → Prop) (E : Logged → Prop) : Prop :=
  Triple step P x.run (Post Q fun _ => E)

theorem Leads.bind {f : α → Raising β} {T : β → Logged → Prop} (h : Leads P x Q E) (hf : ∀ a, Leads (Q a) (f a) T E) :
    Leads P (x >>= f) T E := Triple.raising h hf

theorem Leads.mono {Q' : α → Logged → Prop} {E' : Logged → Prop} (h : Leads P x Q E) (hQ : ∀ a s, Q a s → Q' a s)
    (hE : ∀ s, E s → E' s) : Leads P x Q' E' :=
  Triple.mono h fun r s hr => match r with
    | .ok a => hQ a s hr
    | .error _ => hE s hr

theorem Leads.locked {l : Lock} (h : Leads P x Q E) : Leads P (LanguageModel.locked l x) Q E := by
  intro s hs
  have hrun : run step (LanguageModel.locked l x).run s = run step x.run s := run_locked step l x.run s
  rw [hrun]
  exact h s hs

/-- An action that does not raise. -/
theorem leads_act {a : Act} {Q : a.Resp → Logged → Prop}
    (h : ∀ s l, P (s, l) → Q (Plugin.perform a s).1 ((Plugin.perform a s).2, l ++ [(a, went a s)])) :
    Leads P (liftM (act a) : Raising a.Resp) Q E :=
  fun s hs => h s.1 s.2 hs

/-- An operation, and what it raises. -/
theorem leads_raise {p : Code (Option String)} {Q : Logged → Prop}
    (hok : ∀ s l, P (s, l) → (run step p (s, l)).1 = none → Q (run step p (s, l)).2)
    (hE : ∀ s l e, P (s, l) → (run step p (s, l)).1 = some e → E (run step p (s, l)).2) :
    Leads P (raise p) (fun _ => Q) E := by
  rintro ⟨s, l⟩ hs
  have hlift : run step (liftM p : Raising (Option String)).run (s, l) = (.ok (run step p (s, l)).1, (run step p (s, l)).2) := by
    change run step (p.bind _) (s, l) = _
    rw [run_bind']
    rfl
  unfold raise
  rw [run_ok (congrArg Prod.fst hlift), hlift]
  cases hr : (run step p (s, l)).1 with
  | none => exact hok s l hs hr
  | some e => exact hE s l e hs hr

theorem only_raising {A : Act → Prop} {f : α → Raising β} (hx : Only (σ := swapSig) A x.run)
    (hf : ∀ a, Only (σ := swapSig) A (f a).run) : Only (σ := swapSig) A (x >>= f).run :=
  Only.bind hx fun r => match r with
    | .ok a => hf a
    | .error _ => trivial

theorem only_act {A : Act → Prop} {a : Act} (h : A a) : Only (σ := swapSig) A (liftM (act a) : Raising a.Resp).run :=
  ⟨h, fun _ => trivial⟩

theorem only_raise {A : Act → Prop} {p : Code (Option String)} (h : Only (σ := swapSig) A p) :
    Only (σ := swapSig) A (raise p).run :=
  only_raising (Only.bind h fun _ => trivial) fun r => match r with
    | none => trivial
    | some _ => trivial

end Rules

/-! ### What the actions leave alone -/

/-- The actions that leave the models and the config files as they are. -/
def Frames : Act → Prop
  | .setModel _ _ _ | .delModel _ _ | .newManager _ _ _ _ | .writeConfig _ | .unlinkConfig _ => False
  | _ => True

/-- What they leave: of a manager its models and its port, and the files. -/
def viewed (m : ℕ) (s : Plugin) : Dict String Model × ℤ × (ℤ → Option (List Char)) :=
  ((s.managers m).models, (s.managers m).port, s.configs)

theorem viewed_setManager {m k : ℕ} {f : Manager → Manager} {s : Plugin} (h : ∀ x, (f x).models = x.models ∧ (f x).port = x.port) :
    viewed m (s.setManager k f) = viewed m s := by
  unfold viewed
  rw [setManager_at]
  split_ifs with hm
  · subst hm
    rw [(h _).1, (h _).2]
    rfl
  · rfl

theorem viewed_perform {a : Act} (h : Frames a) (m : ℕ) (s : Plugin) : viewed m (Plugin.perform a s).2 = viewed m s := by
  cases a with
  | setModel | delModel | newManager | writeConfig | unlinkConfig => exact h.elim
  | isRunning k =>
    change viewed m (s.isRunning k).2 = _
    unfold Plugin.isRunning
    split
    · rfl
    · rfl
  | addCallback k cb =>
    change viewed m (s.setManager k fun x => if cb ∈ x.callbacks then x else { x with callbacks := x.callbacks ++ [cb] }) = _
    refine viewed_setManager fun x => ?_
    split_ifs
    · exact ⟨rfl, rfl⟩
    · exact ⟨rfl, rfl⟩
  | removeCallback k cb =>
    change viewed m (s.setManager k fun x => { x with callbacks := x.callbacks.erase cb }) = _
    exact viewed_setManager fun _ => ⟨rfl, rfl⟩
  | makeProxy k =>
    change viewed m (s.setManager k fun x => { x with proxy := true }) = _
    exact viewed_setManager fun _ => ⟨rfl, rfl⟩
  | stopProxy k =>
    change viewed m (s.setManager k fun x => { x with proxy := false, tornDown := true }) = _
    exact viewed_setManager fun _ => ⟨rfl, rfl⟩
  | spawn | terminate => exact tryTo_view (viewed m) rfl (viewed_setManager fun _ => ⟨rfl, rfl⟩)
  | openLog | sighup | startProxy | startServer | writePid | clearPid => exact tryTo_view (viewed m) rfl rfl
  | _ => rfl

/-! ### A call -/

section Call

variable (m : ℕ) (id : String) (x : Model) (s₀ : Plugin)

/-- The manager with the model. -/
def Manager.adding (y : Manager) : Manager := { y with models := y.models.set id x }

/-- What writing the config file leaves of it. -/
def leftConfig : Option (List Char) :=
  if (s₀.ask .file).error = none then some (JsonText.dumps (((s₀.managers m).adding id x).config s₀.windows))
  else (s₀.ask .file).torn.or (s₀.configs (s₀.managers m).port)

/-- The model is entered, the config file is written or left where that failed, and `g` is the course so far. -/
structure Written (g : Course) (s : Logged) : Prop where
  viewed : viewed m s.1 = ((s₀.managers m).models.set id x, (s₀.managers m).port,
    Function.update s₀.configs (s₀.managers m).port (leftConfig m id x s₀))
  course : course s.2 = g

/-- Something is left of the process that the call started. -/
def Remains (s : Logged) : Prop :=
  (course s.2).running = true ∨ ((course s.2).recorded = true ∧ s.1.pids (s₀.managers m).port ≠ none)

/-- The call raises: something remains where something went wrong late. -/
def Broken (s : Logged) : Prop := ∃ g, Written m id x s₀ g s ∧ (Remains m s₀ s ↔ g.Late)

variable {m id x s₀}

theorem Written.port {g : Course} {s : Logged} (h : Written m id x s₀ g s) : (s.1.managers m).port = (s₀.managers m).port :=
  congrArg (fun v => v.2.1) h.viewed

theorem Written.frame {g : Course} {s : Plugin} {l : List Event} (h : Written m id x s₀ g (s, l)) {a : Act} (ha : Frames a) (b : Bool) :
    Written m id x s₀ (g.note (a, b)) ((Plugin.perform a s).2, l ++ [(a, b)]) :=
  ⟨(viewed_perform ha m s).trans h.viewed, by rw [course_concat, h.course]⟩

theorem Written.next {g g' : Course} {s : Plugin} {l : List Event} (h : Written m id x s₀ g (s, l)) {a : Act} (ha : Frames a)
    (hg : g.note (a, went a s) = g') : Written m id x s₀ g' ((Plugin.perform a s).2, l ++ [(a, went a s)]) :=
  hg ▸ h.frame ha (went a s)

/-- Nothing was started yet. -/
theorem Written.broken {s : Logged} (h : Written m id x s₀ {} s) : Broken m id x s₀ s := by
  refine ⟨{}, h, ?_⟩
  unfold Remains Course.Late
  rw [h.course]
  simp

/-- What is done before a process is started, and of which nothing remains. -/
def Early : Act → Prop
  | .setModel _ _ _ | .delModel _ _ | .newManager _ _ _ _ | .writeConfig _ | .unlinkConfig _ | .spawn _ | .writePid _
  | .startProxy _ => False
  | _ => True

theorem Early.frames {a : Act} (h : Early a) : Frames a := by
  cases a <;> trivial

theorem Early.note {a : Act} (h : Early a) (b : Bool) : Course.note {} (a, b) = {} := by
  cases a <;> first | exact h.elim | (cases b <;> rfl)

theorem Leads.early {α : Type} {y : Raising α} (h : Only (σ := swapSig) Early y.run) :
    Leads (Written m id x s₀ {}) y (fun _ => Written m id x s₀ {}) (Written m id x s₀ {}) := by
  have hkeeps : Triple step (Written m id x s₀ {}) y.run fun _ => Written m id x s₀ {} := by
    refine h.triple fun a s ha hs => ?_
    have hframe := hs.frame ha.frames (went a s.1)
    rw [ha.note] at hframe
    exact hframe
  refine Triple.mono hkeeps fun r s hs => ?_
  cases r with
  | ok a => exact hs
  | error e => exact hs

theorem only_reclaim : Only (σ := swapSig) Early (reclaimPreviousInstance m).run := by
  have hclear : Only (σ := swapSig) Early (liftM (act (.clearPid m)) : Raising Unit).run := only_act (a := .clearPid m) trivial
  unfold reclaimPreviousInstance
  refine only_raising (only_act (a := .readPid m) trivial) fun pid => ?_
  cases pid with
  | none => trivial
  | some pid =>
    by_cases hneg : pid < 0
    · simp only [if_pos hneg]
      trivial
    · simp only [if_neg hneg]
      refine only_raising (only_act (a := .inspect pid) trivial) fun info => ?_
      cases info with
      | gone => exact hclear
      | denied => exact hclear
      | found info =>
        refine only_raising (only_act (a := .manager m) trivial) fun y => ?_
        refine only_raising (only_act (a := .cwd) trivial) fun cwd => ?_
        split
        · refine only_raising (only_act (a := .endProcess pid) trivial) fun ended => ?_
          cases ended with
          | done => exact hclear
          | gone => exact hclear
          | failed => trivial
        · exact hclear

theorem only_stop : Only (σ := swapSig) Early (stop m).run := by
  unfold stop
  refine only_raising (only_act (a := .isRunning m) trivial) fun running => ?_
  cases running with
  | false => trivial
  | true =>
    refine only_raising (only_raise ⟨trivial, fun _ => trivial⟩) fun _ => ?_
    exact only_act (a := .clearPid m) trivial

theorem tryTo_error (q : Query) (f : Plugin → Plugin) (s : Plugin) : (s.tryTo q f).1 = (s.ask q).error := by
  unfold Plugin.tryTo
  cases (s.ask q).error with
  | none => rfl
  | some e => rfl

theorem tryTo_ok {q : Query} {s : Plugin} (h : (s.ask q).error = none) (f : Plugin → Plugin) : (s.tryTo q f).2 = f s.tock := by
  unfold Plugin.tryTo
  rw [h]

/-- The process is started, and the manager has it. -/
theorem leads_spawn : Leads (Written m id x s₀ {}) (raise (act (.spawn m)))
    (fun _ s => Written m id x s₀ { running := true } s ∧ (s.1.managers m).proc.isSome = true) (Written m id x s₀ {}) := by
  refine leads_raise (fun s l h hr => ?_) fun s l e h hr => ?_
  · have herror : (s.ask .spawn).error = none := (tryTo_error ..).symm.trans hr
    have hwent : went (.spawn m) s = true := congrArg Option.isNone herror
    refine ⟨h.next (a := .spawn m) trivial (by rw [hwent]; rfl), ?_⟩
    have hstate : (Plugin.perform (.spawn m) s).2 =
        s.tock.setManager m fun x => { x with proc := some (s.ask .spawn).pid, tornDown := false } := tryTo_ok herror _
    change ((Plugin.perform (.spawn m) s).2.managers m).proc.isSome = true
    rw [hstate, setManager_at, if_pos rfl]
    rfl
  · have herror : (s.ask .spawn).error = some e := (tryTo_error ..).symm.trans hr
    have hwent : went (.spawn m) s = false := congrArg Option.isNone herror
    exact h.next (a := .spawn m) trivial (by rw [hwent]; rfl)

/-- Its number is written to the pid file. -/
theorem leads_writePid : Leads (fun s => Written m id x s₀ { running := true } s ∧ (s.1.managers m).proc.isSome = true)
    (raise (act (.writePid m)))
    (fun _ s => Written m id x s₀ { running := true, recorded := true } s ∧ s.1.pids (s₀.managers m).port ≠ none) (Broken m id x s₀) := by
  refine leads_raise (fun s l h hr => ?_) fun s l e h hr => ?_
  · have herror : (s.ask .file).error = none := (tryTo_error ..).symm.trans hr
    have hwent : went (.writePid m) s = true := congrArg Option.isNone herror
    refine ⟨h.1.next (a := .writePid m) trivial (by rw [hwent]; rfl), ?_⟩
    have hstate : (Plugin.perform (.writePid m) s).2 =
        { s.tock with pids := Function.update s.pids (s.managers m).port (s.managers m).proc } := tryTo_ok herror _
    change (Plugin.perform (.writePid m) s).2.pids (s₀.managers m).port ≠ none
    rw [hstate, ← h.1.port]
    change Function.update s.pids (s.managers m).port (s.managers m).proc (s.managers m).port ≠ none
    rw [Function.update_self]
    exact Option.isSome_iff_ne_none.mp h.2
  · have herror : (s.ask .file).error = some e := (tryTo_error ..).symm.trans hr
    have hwent : went (.writePid m) s = false := congrArg Option.isNone herror
    have hnext : Written m id x s₀ { running := true, unrecorded := true } (run step (act (.writePid m)) (s, l)).2 :=
      h.1.next (a := .writePid m) trivial (by rw [hwent]; rfl)
    refine ⟨_, hnext, iff_of_true (.inl ?_) (.inl rfl)⟩
    rw [hnext.course]

/-- A poll, after which the process is known to run or to have ended. -/
theorem leads_poll {Q : Logged → Prop} (hQ : ∀ s l, Q (s, l) → Q ((s.isRunning m).2, l ++ [(.isRunning m, (s.isRunning m).1)])) :
    Leads (fun s => Written m id x s₀ { running := true, recorded := true } s ∧ Q s) (liftM (act (.isRunning m)) : Raising Bool)
      (fun running s => Written m id x s₀ { running, recorded := true } s ∧ Q s) (Broken m id x s₀) := by
  have hnote (running : Bool) : Course.note { running := true, recorded := true } (.isRunning m, running) =
      { running, recorded := true } := by
    cases running with
    | true => rfl
    | false => rfl
  exact leads_act (a := .isRunning m) fun s l h => ⟨h.1.next (a := .isRunning m) trivial (hnote _), hQ s l h.2⟩

theorem pids_isRunning (m : ℕ) (s : Plugin) : (s.isRunning m).2.pids = s.pids := by
  unfold Plugin.isRunning
  split
  · rfl
  · rfl

/-- The proxy is put in front of the process, if that still runs. -/
theorem leads_ensureProxy : Leads (fun s => Written m id x s₀ { running := true, recorded := true } s ∧
    s.1.pids (s₀.managers m).port ≠ none) (ensureProxy m) (fun _ s => ∃ g, Written m id x s₀ g s) (Broken m id x s₀) := by
  unfold ensureProxy
  refine Leads.locked ((leads_poll (Q := fun s => s.1.pids (s₀.managers m).port ≠ none) fun s l h => ?_).bind fun running => ?_)
  · change (s.isRunning m).2.pids _ ≠ none
    rw [pids_isRunning]
    exact h
  · cases running with
    | false => exact triple_return fun s h => ⟨_, h.1⟩
    | true =>
      refine Leads.bind (Q := fun _ s => Written m id x s₀ { running := true, recorded := true } s ∧
        s.1.pids (s₀.managers m).port ≠ none) (leads_act (a := .makeProxy m) fun s l h => ?_) fun _ => ?_
      · exact ⟨h.1.next (a := .makeProxy m) trivial rfl, h.2⟩
      · refine leads_raise (fun s l h hr => ?_) fun s l e h hr => ?_
        · exact ⟨_, h.1.next (a := .startProxy m) trivial rfl⟩
        · have herror : (s.ask .proxy).error = some e := (tryTo_error ..).symm.trans hr
          have hwent : went (.startProxy m) s = false := congrArg Option.isNone herror
          have hnext : Written m id x s₀ { running := true, recorded := true, unfronted := true }
              (run step (act (.startProxy m)) (s, l)).2 :=
            h.1.next (a := .startProxy m) trivial (by rw [hwent]; rfl)
          refine ⟨_, hnext, iff_of_true (.inl ?_) (.inr (.inr rfl))⟩
          rw [hnext.course]

/-- A process that ended at once: its pid file is removed, or left. -/
theorem leads_ended : Leads (fun s => Written m id x s₀ { recorded := true } s ∧ s.1.pids (s₀.managers m).port ≠ none)
    (liftM (act (.clearPid m)) : Raising Unit) (fun _ => Broken m id x s₀) (Broken m id x s₀) := by
  refine leads_act (a := .clearPid m) fun s l h => ?_
  cases herror : (s.ask .file).error with
  | none =>
    have hwent : went (.clearPid m) s = true := congrArg Option.isNone herror
    have hnext : Written m id x s₀ { recorded := true } ((Plugin.perform (.clearPid m) s).2, l ++ [(.clearPid m, went (.clearPid m) s)]) :=
      h.1.next (a := .clearPid m) trivial (by rw [hwent]; rfl)
    have hstate : (Plugin.perform (.clearPid m) s).2 =
        { s.tock with pids := Function.update s.pids (s.managers m).port none } := tryTo_ok herror _
    refine ⟨_, hnext, iff_of_false ?_ ?_⟩
    · rintro (hrunning | ⟨-, hpid⟩)
      · rw [hnext.course] at hrunning
        cases hrunning
      · refine hpid ?_
        change (Plugin.perform (.clearPid m) s).2.pids (s₀.managers m).port = none
        rw [hstate, ← h.1.port]
        exact Function.update_self ..
    · simp [Course.Late]
  | some e =>
    have hwent : went (.clearPid m) s = false := congrArg Option.isNone herror
    have hnext : Written m id x s₀ { recorded := true, unremoved := true }
        ((Plugin.perform (.clearPid m) s).2, l ++ [(.clearPid m, went (.clearPid m) s)]) :=
      h.1.next (a := .clearPid m) trivial (by rw [hwent]; rfl)
    have hstate : (Plugin.perform (.clearPid m) s).2 = s.tock := by
      change (s.tryTo .file _).2 = _
      unfold Plugin.tryTo
      rw [herror]
    refine ⟨_, hnext, iff_of_true (.inr ⟨?_, ?_⟩) (.inr (.inl rfl))⟩
    · rw [hnext.course]
    · change (Plugin.perform (.clearPid m) s).2.pids (s₀.managers m).port ≠ none
      rw [hstate]
      exact h.2

/-- `_start` -/
theorem leads_start : Leads (Written m id x s₀ {}) (start m) (fun _ s => ∃ g, Written m id x s₀ g s) (Broken m id x s₀) := by
  have hearly {α : Type} {y : Raising α} (h : Only (σ := swapSig) Early y.run) :
      Leads (Written m id x s₀ {}) y (fun _ => Written m id x s₀ {}) (Broken m id x s₀) :=
    (Leads.early h).mono (fun _ _ h => h) fun _ h => h.broken
  unfold start
  refine (hearly (only_act (a := .manager m) trivial)).bind fun y => ?_
  refine (hearly (only_act (a := .binExists m) trivial)).bind fun there => ?_
  cases there with
  | false => exact triple_throw fun _ h => h.broken
  | true =>
    refine (hearly only_reclaim).bind fun _ => ?_
    refine (hearly (only_act (a := .portInUse m) trivial)).bind fun busy => ?_
    cases busy with
    | true => exact triple_throw fun _ h => h.broken
    | false =>
      refine (hearly (only_raise (p := act (.openLog m)) ⟨trivial, fun _ => trivial⟩)).bind fun _ => ?_
      refine (leads_spawn.mono (fun _ _ h => h) fun _ h => h.broken).bind fun _ => leads_writePid.bind fun _ => ?_
      refine (leads_poll (Q := fun s => s.1.pids (s₀.managers m).port ≠ none) fun s l h => ?_).bind fun running => ?_
      · change (s.isRunning m).2.pids _ ≠ none
        rw [pids_isRunning]
        exact h
      · cases running with
        | true => exact leads_ensureProxy
        | false =>
          refine leads_ended.bind fun _ => Leads.bind (Q := fun _ => Broken m id x s₀) ?_ fun code => triple_throw fun _ h => h
          refine leads_act (a := .returnCode m) fun s l h => ?_
          obtain ⟨g, hwritten, hremains⟩ := h
          have hnext : Written m id x s₀ g ((Plugin.perform (.returnCode m) s).2, l ++ [(.returnCode m, went (.returnCode m) s)]) :=
            hwritten.next (a := .returnCode m) trivial rfl
          refine ⟨g, hnext, ?_⟩
          unfold Remains at hremains ⊢
          rw [hnext.course]
          rw [hwritten.course] at hremains
          exact hremains

/-- `_reload` -/
theorem leads_reload : Leads (Written m id x s₀ {}) (reload m) (fun _ s => ∃ g, Written m id x s₀ g s) (Broken m id x s₀) := by
  have hearly {α : Type} {y : Raising α} (h : Only (σ := swapSig) Early y.run) :
      Leads (Written m id x s₀ {}) y (fun _ => Written m id x s₀ {}) (Broken m id x s₀) :=
    (Leads.early h).mono (fun _ _ h => h) fun _ h => h.broken
  unfold reload
  refine (hearly (only_act (a := .isWindows) trivial)).bind fun windows => ?_
  cases windows with
  | true => exact (hearly only_stop).bind fun _ => leads_start
  | false => exact (hearly (only_raise (p := act (.sighup m)) ⟨trivial, fun _ => trivial⟩)).mono (fun _ _ h => ⟨_, h⟩) fun _ h => h

/-- `add_model` under the lock: where it returns, the config file was written. -/
theorem leads_putIn : Leads (fun s => s = (s₀, [])) (putIn m id x)
    (fun _ s => (s₀.ask .file).error = none ∧ ∃ g, Written m id x s₀ g s) (Broken m id x s₀) := by
  unfold putIn
  refine Leads.bind (Q := fun _ s => s = (s₀.setManager m fun y => { y with models := y.models.set id x }, [(.setModel m id x, true)]))
    (leads_act (a := .setModel m id x) fun s l h => ?_) fun _ => ?_
  · obtain ⟨rfl, rfl⟩ := Prod.mk.inj h
    rfl
  · have hmanager : (s₀.setManager m fun y => { y with models := y.models.set id x }).managers m = (s₀.managers m).adding id x := by
      rw [setManager_at, if_pos rfl]
      rfl
    have hwritten : Written m id x s₀ {} (run step (act (.writeConfig m))
        (s₀.setManager m fun y => { y with models := y.models.set id x }, [(.setModel m id x, true)])).2 := by
      refine ⟨?_, rfl⟩
      change viewed m ((s₀.setManager m fun y => { y with models := y.models.set id x }).writeConfig _ _).2 = _
      unfold viewed Plugin.writeConfig leftConfig
      dsimp only [tock]
      rw [hmanager]
      rfl
    refine Leads.bind (Q := fun _ s => (s₀.ask .file).error = none ∧ Written m id x s₀ {} s)
      (leads_raise (fun s l h hr => ?_) fun s l e h hr => ?_) fun _ => ?_
    · rw [h] at hr ⊢
      exact ⟨hr, hwritten⟩
    · rw [h]
      exact hwritten.broken
    · by_cases hfile : (s₀.ask .file).error = none
      · refine Leads.bind (Q := fun _ => Written m id x s₀ {}) ?_ fun running => ?_
        · exact fun s h => (Leads.early (only_act (a := .isRunning m) trivial)).mono (fun _ _ h => h) (fun _ h => h.broken) s h.2
        · have hdone {y : Raising Unit} (h : Leads (Written m id x s₀ {}) y (fun _ s => ∃ g, Written m id x s₀ g s) (Broken m id x s₀)) :
              Leads (Written m id x s₀ {}) y (fun _ s => (s₀.ask .file).error = none ∧ ∃ g, Written m id x s₀ g s) (Broken m id x s₀) :=
            h.mono (fun _ _ h => ⟨hfile, h⟩) fun _ h => h
          cases running with
          | true => exact hdone leads_reload
          | false => exact hdone leads_start
      · exact fun s h => absurd h.1 hfile

end Call

/-! ### A call that raises -/

section Raises

variable (m : ℕ) (id path : String) (args : List String) (env : Dict String String) (ttl : Option ℤ) (s : Plugin)

/-- The model as it is entered. -/
def entry : Model := ⟨path, args, env, ttl.getD MODEL_TTL⟩

/-- What a call returns or raises, and the plugin after it. -/
def adding : Except String Unit × Plugin := run (σ := swapSig) Plugin.perform (addModel m id path args env ttl).run s

/-- What the call does, in its order. -/
def done : List Event := events (σ := swapSig) Plugin.perform (fun a s => (a, went a s)) (addModel m id path args env ttl).run s

/-- After a call that raised it is as if there had been none: the models and the config file are as before, nothing is
left of a process that it started, and a later call that goes well serves of the model what was served before. -/
structure Undone : Prop where
  models : ((adding m id path args env ttl s).2.managers m).models = (s.managers m).models
  config : (adding m id path args env ttl s).2.configs (s.managers m).port = s.configs (s.managers m).port
  process : ¬Remains m s ((adding m id path args env ttl s).2, done m id path args env ttl s)
  later : ∀ t id' path' args' env' ttl', (t.managers m).models = ((adding m id path args env ttl s).2.managers m).models →
    (adding m id' path' args' env' ttl' t).1 = .ok () → id' ≠ id →
      ∃ y : Manager, (adding m id' path' args' env' ttl' t).2.configs (t.managers m).port = some (JsonText.dumps (y.config t.windows)) ∧
        y.models.get? id = (s.managers m).models.get? id

/-- The call is refused for its `ttl`; or the model was there as it is entered, the write of the config file leaves it as it
was, and a process that is started is recorded, removed from the pid file again where it ends at once, and gets its proxy. -/
def Harmless : Prop :=
  badTtl ttl = true ∨ ((s.managers m).models.get? id = some (entry path args env ttl) ∧
    leftConfig m id (entry path args env ttl) s = s.configs (s.managers m).port ∧ ¬(course (done m id path args env ttl s)).Late)

theorem addModel_good (hgood : badTtl ttl = false) :
    addModel m id path args env ttl = locked (.manager m) (putIn m id (entry path args env ttl)) :=
  if_neg (Bool.eq_false_iff.mp hgood)

theorem addModel_bad (hbad : badTtl ttl = true) : ∃ e, addModel m id path args env ttl = throw e := ⟨_, if_pos hbad⟩

/-- What the code and its record leave. -/
theorem adding_spec (hgood : badTtl ttl = false) : Post
    (fun (_ : Unit) s' => (s.ask .file).error = none ∧ ∃ g, Written m id (entry path args env ttl) s g s')
    (fun (_ : String) => Broken m id (entry path args env ttl) s)
    (adding m id path args env ttl s).1 ((adding m id path args env ttl s).2, done m id path args env ttl s) := by
  have hlogged : run step (addModel m id path args env ttl).run (s, []) = ((adding m id path args env ttl s).1,
      (adding m id path args env ttl s).2, done m id path args env ttl s) :=
    run_logged (σ := swapSig) Plugin.perform (fun a s => (a, went a s)) (addModel m id path args env ttl).run s []
  have hspec : Leads (fun s' => s' = (s, [])) (addModel m id path args env ttl)
      (fun _ s' => (s.ask .file).error = none ∧ ∃ g, Written m id (entry path args env ttl) s g s')
      (Broken m id (entry path args env ttl) s) := by
    rw [addModel_good m id path args env ttl hgood]
    exact leads_putIn.locked
  have hpost := hspec (s, []) rfl
  rw [hlogged] at hpost
  exact hpost

/-- A call that is refused at once does nothing. -/
theorem adding_refused (hbad : badTtl ttl = true) : (adding m id path args env ttl s).1 ≠ .ok () ∧
    (adding m id path args env ttl s).2 = s ∧ done m id path args env ttl s = [] := by
  obtain ⟨e, he⟩ := addModel_bad m id path args env ttl hbad
  unfold adding done
  rw [he]
  exact ⟨nofun, rfl, rfl⟩

variable {m id path args env ttl s}

/-- A call that goes well serves the models that there were, and its own. -/
theorem served_after {t : Plugin} {id' : String} (hok : (adding m id' path args env ttl t).1 = .ok ()) (hne : id' ≠ id) :
    ∃ y : Manager, (adding m id' path args env ttl t).2.configs (t.managers m).port = some (JsonText.dumps (y.config t.windows)) ∧
      y.models.get? id = (t.managers m).models.get? id := by
  cases hbad : badTtl ttl with
  | true => exact absurd hok (adding_refused m id' path args env ttl t hbad).1
  | false =>
    have hspec := adding_spec m id' path args env ttl t hbad
    rw [hok] at hspec
    obtain ⟨hfile, g, hwritten⟩ := hspec
    refine ⟨(t.managers m).adding id' (entry path args env ttl), ?_, Dict.get?_set_of_ne _ _ hne.symm⟩
    have hconfigs : (adding m id' path args env ttl t).2.configs = Function.update t.configs (t.managers m).port
        (leftConfig m id' (entry path args env ttl) t) :=
      congrArg (fun v => v.2.2) hwritten.viewed
    rw [hconfigs, Function.update_self, leftConfig, if_pos hfile]

/-- **A call that raises.** It leaves all as it was just where it is refused for its `ttl`, or where it enters what was
there, the config file comes out the same, and nothing goes wrong after the process was started but that it ends. -/
theorem undone_iff (m : ℕ) (id path : String) (args : List String) (env : Dict String String) (ttl : Option ℤ) (s : Plugin)
    (e : String) (hraises : (adding m id path args env ttl s).1 = .error e) :
    Undone m id path args env ttl s ↔ Harmless m id path args env ttl s := by
  cases hbad : badTtl ttl with
  | true =>
    obtain ⟨-, hsame, hnone⟩ := adding_refused m id path args env ttl s hbad
    refine iff_of_true ⟨by rw [hsame], by rw [hsame], ?_, fun t id' path' args' env' ttl' ht hok hne => ?_⟩ (.inl hbad)
    · rw [hnone]
      rintro (hrunning | ⟨hrecorded, -⟩)
      · cases hrunning
      · cases hrecorded
    · rw [hsame] at ht
      rw [← ht]
      exact served_after hok hne
  | false =>
    have hspec := adding_spec m id path args env ttl s hbad
    rw [hraises] at hspec
    obtain ⟨g, hwritten, hremains⟩ := hspec
    have hmodels : ((adding m id path args env ttl s).2.managers m).models = (s.managers m).models.set id (entry path args env ttl) :=
      congrArg (fun v => v.1) hwritten.viewed
    have hconfigs : (adding m id path args env ttl s).2.configs = Function.update s.configs (s.managers m).port
        (leftConfig m id (entry path args env ttl) s) :=
      congrArg (fun v => v.2.2) hwritten.viewed
    have hcourse : course (done m id path args env ttl s) = g := hwritten.course
    constructor
    · intro h
      have hsame := h.models
      have hleft := h.config
      rw [hmodels, Dict.set_eq_self_iff] at hsame
      rw [hconfigs, Function.update_self] at hleft
      refine .inr ⟨hsame, hleft, fun hlate => h.process (hremains.mpr ?_)⟩
      rwa [hcourse] at hlate
    · rintro (hrefused | ⟨hknown, hleft, hlate⟩)
      · rw [hbad] at hrefused
        cases hrefused
      · have hsame : ((adding m id path args env ttl s).2.managers m).models = (s.managers m).models :=
          hmodels.trans (Dict.set_eq_self_iff.mpr hknown)
        refine ⟨hsame, ?_, fun hin => ?_, fun t id' path' args' env' ttl' ht hok hne => ?_⟩
        · rw [hconfigs, Function.update_self, hleft]
        · rw [hcourse] at hlate
          exact hlate (hremains.mp hin)
        · rw [← hsame, ← ht]
          exact served_after hok hne

end Raises

/-! ### A model whose process does not start -/

/-- Something else listens on the port. -/
def busy (q : Query) (t : ℕ) : Answer := if q = .port then { yes := true } else calm q t

def unserved : Plugin := fresh false (Path.ofString "/srv") (fun _ => none) (fun _ => none) busy

/-- The model stays entered. -/
theorem model_stays : ¬∀ m id path args env ttl s e, (adding m id path args env ttl s).1 = .error e →
    Undone m id path args env ttl s := by
  intro h
  have hraises : (adding 0 "a" "models/a.gguf" [] .empty none unserved).1.toOption = none := by decide +kernel
  have hthere : (((adding 0 "a" "models/a.gguf" [] .empty none unserved).2.managers 0).models.get? "a").isSome = true := by
    decide +kernel
  cases hr : (adding 0 "a" "models/a.gguf" [] .empty none unserved).1 with
  | ok u =>
    rw [hr] at hraises
    cases hraises
  | error e =>
    rw [(h 0 "a" "models/a.gguf" [] .empty none unserved e hr).models] at hthere
    cases hthere

/-- The process cannot be told. -/
def deaf (q : Query) (t : ℕ) : Answer := if q = .signal then { error := some "No such process" } else calm q t

/-- A manager that serves a model, as its config file says. -/
def serving : Plugin :=
  { fresh false (Path.ofString "/srv") (fun _ => none) (fun _ => none) deaf with
    managers := fun _ => { (managerOn 8100 []) with models := .set .empty "a" (entry "models/a.gguf" [] .empty none), proc := some 1 }
    configs := fun _ => some (JsonText.dumps ((Manager.adding "a" (entry "models/a.gguf" [] .empty none)
      { (managerOn 8100 []) with models := .set .empty "a" (entry "models/a.gguf" [] .empty none), proc := some 1 }).config false)) }

/-- The model that is served is added again, and the process cannot be told. -/
theorem undone_again : Undone 0 "a" "models/a.gguf" [] .empty none serving :=
  (undone_iff 0 "a" "models/a.gguf" [] .empty none serving "No such process" rfl).mpr (.inr ⟨rfl, rfl, by decide +kernel⟩)

end LanguageModel
end LocaiLink
