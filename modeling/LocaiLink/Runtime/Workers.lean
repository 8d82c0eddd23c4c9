/-
# What deploy workers and cancels do

`Doing` is what a thread has done about deploys: whose worker it is, what it
knows under the runtime's lock, whom it cancelled, how much of an announced
artifact it wrote, whether the artifact is in its place and its config committed.
`Allowed` is when it may do what touches a worker, a job or an artifact's place,
and when it may report a deploy completed; the code of every thread follows that
(`heeds_run`, `heeds_handleCommand`, `heeds_deployWorker`).
-/
import LocaiLink.Base.Protocol
import LocaiLink.Runtime.Actions

namespace LocaiLink
namespace AgentRuntime

open Code

/-- What a thread knows while it holds the runtime's lock: the worker of an id, that
an id has no live one, the job it has just registered, or that a job is not cancelled. -/
inductive Known
  | nothing
  | worker (pid : String) (w : AgentWorker)
  | clear (pid : String)
  | made (j : ℕ) (cmd : DeployModelCommand)
  | going (j : ℕ)

/-- What a thread has done about deploys. It knows something while it is inside the
runtime's lock, and a worker is `retired` when it has given up its registration.
Between its file check, or its rename, and its commit the artifact is `placed`. -/
structure Doing where
  job : Option (ℕ × DeployModelCommand) := none
  retired : Bool := false
  known : Option Known := none
  cancelled : Option AgentWorker := none
  announced : ℕ := 0
  written : ℕ := 0
  target : Option Path := none
  placed : Bool := false
  committed : Bool := false

/-- The report that a command is completed. -/
def Completes : Report → Prop
  | .command _ .completed _ => True
  | _ => False

namespace Doing

def learn (k : Known) (g : Doing) : Doing := { g with known := g.known.map fun _ => k }

/-- What an action and its answer add. -/
def noteAct : (a : Act) → a.Resp → Doing → Doing
  | .getWorker pid, none, g => g.learn (.clear pid)
  | .getWorker pid, some w, g => g.learn (.worker pid w)
  | .jobAlive j, alive, g => match g.known with
    | some (.worker pid w) => if w.job = j ∧ alive = false then g.learn (.clear pid) else g
    | _ => g
  | .register cmd _, j, g => g.learn (.made j cmd)
  | .startJob _, _, g => g.learn .nothing
  | .isCancelled j, c, g => if c = false then g.learn (.going j) else { g with placed := false }
  | .cancelJob _, _, g => match g.known with
    | some (.worker _ w) => { g with cancelled := some w }
    | _ => g
  | .download _, .ok r, g => { g with announced := r.length.toOption.getD 0, written := 0 }
  | .append _ chunk, none, g => { g with written := g.written + chunk.length }
  | .dropWorker _ _, _, g => { g with retired := true }
  | .cwd, p, g => { g with target := g.job.map fun job => (p.div "models").div job.2.modelName, placed := false }
  | .lookup p, some _, g => if g.target = some p then { g with placed := true } else g
  | .replace _ q, none, g => if g.target = some q then { g with placed := true } else g
  | .setConfig _ _, _, g => { g with placed := false, committed := true }
  | _, _, g => g

/-- What a deed adds. Whatever was known ends with the lock. -/
def note (g : Doing) : Deed rtSig → Doing
  | .act a r => noteAct a r g
  | .lock .self => { g with known := some .nothing }
  | .unlock .self => { g with known := none }
  | .lock _ | .unlock _ => g

/-- The thread is the worker of the job, and still registered. -/
structure AtWork (j : ℕ) (cmd : DeployModelCommand) (g : Doing) : Prop where
  job : g.job = some (j, cmd)
  registered : g.retired = false

/-- What touches a worker, a job or an artifact's place. -/
def Permits (g : Doing) : Act → Prop
  | .register cmd _ => g.known = some (.clear cmd.pipelineId)
  | .startJob j => ∃ cmd, g.known = some (.made j cmd)
  | .endJob j => g.retired = true ∧ ∃ cmd, g.job = some (j, cmd)
  | .dropWorker pid cid => g.known = some .nothing ∧ ∃ j cmd, g.AtWork j cmd ∧ pid = cmd.pipelineId ∧ cid = cmd.id
  | .attachResponse pid cid r => g.known = some .nothing ∧
      ∃ j cmd, g.AtWork j cmd ∧ pid = cmd.pipelineId ∧ cid = cmd.id ∧ ∀ k, r = some k → k = j
  | .cancelJob k => ∃ pid w, g.known = some (.worker pid w) ∧ w.job = k
  | .closeResponse k => ∃ w, g.cancelled = some w ∧ w.response = some k
  | .setConfig pid _ => ∀ j cmd, g.job = some (j, cmd) →
      pid = cmd.pipelineId ∧ g.known = some (.going j) ∧ g.placed = true
  | .replace _ _ => g.announced ≠ 0 → g.written = g.announced
  | .report r => Completes r → ∀ j cmd, g.job = some (j, cmd) → g.committed = true
  | _ => True

/-- A worker that has given up its registration only ends. -/
def Allowed (g : Doing) (a : Act) : Prop := g.Permits a ∧ (g.retired = true → ∃ j, a = .endJob j)

@[simp] theorem learn_job (k : Known) (g : Doing) : (g.learn k).job = g.job := rfl

@[simp] theorem learn_retired (k : Known) (g : Doing) : (g.learn k).retired = g.retired := rfl

@[simp] theorem learn_announced (k : Known) (g : Doing) : (g.learn k).announced = g.announced := rfl

@[simp] theorem learn_written (k : Known) (g : Doing) : (g.learn k).written = g.written := rfl

@[simp] theorem learn_cancelled (k : Known) (g : Doing) : (g.learn k).cancelled = g.cancelled := rfl

/-- A thread stays whose worker it is. -/
@[simp] theorem noteAct_job (a : Act) (r : a.Resp) (g : Doing) : (noteAct a r g).job = g.job := by
  unfold noteAct
  split <;> try rfl
  all_goals split <;> try rfl
  split <;> rfl

@[simp] theorem note_job (g : Doing) (d : Deed rtSig) : (g.note d).job = g.job := by
  unfold note
  split <;> first | exact noteAct_job .. | rfl

theorem note_lock_retired (g : Doing) (l : Lock) : (g.note (.lock l)).retired = g.retired := by
  cases l <;> rfl

theorem note_unlock_retired (g : Doing) (l : Lock) : (g.note (.unlock l)).retired = g.retired := by
  cases l <;> rfl

/-- The actions that neither retire a worker nor count bytes. -/
def Plain : Act → Prop
  | .dropWorker _ _ | .download _ | .append _ _ => False
  | _ => True

theorem noteAct_plain {a : Act} (h : Plain a) (r : a.Resp) (g : Doing) :
    (noteAct a r g).retired = g.retired ∧ (noteAct a r g).announced = g.announced ∧
      (noteAct a r g).written = g.written := by
  unfold noteAct
  split <;> try exact ⟨rfl, rfl, rfl⟩
  · split <;> try exact ⟨rfl, rfl, rfl⟩
    split <;> exact ⟨rfl, rfl, rfl⟩
  · split <;> exact ⟨rfl, rfl, rfl⟩
  · split <;> exact ⟨rfl, rfl, rfl⟩
  · exact h.elim
  · exact h.elim
  · exact h.elim
  · split <;> exact ⟨rfl, rfl, rfl⟩
  · split <;> exact ⟨rfl, rfl, rfl⟩

/-- The plain actions that leave the target where it is. -/
def Steady : Act → Prop
  | .cwd => False
  | a => Plain a

theorem Steady.plain {a : Act} (h : Steady a) : Plain a := by
  cases a <;> trivial

theorem Steady.stays {a : Act} (h : Steady a) : a ≠ .cwd := by
  rintro rfl
  exact h

theorem noteAct_target {a : Act} (h : a ≠ .cwd) (r : a.Resp) (g : Doing) : (noteAct a r g).target = g.target := by
  unfold noteAct
  split <;> try rfl
  · split <;> try rfl
    split <;> rfl
  · split <;> rfl
  · split <;> rfl
  · exact absurd rfl h
  · split <;> rfl
  · split <;> rfl

theorem note_lock_place (g : Doing) (l : Lock) :
    (g.note (.lock l)).target = g.target ∧ (g.note (.lock l)).placed = g.placed := by
  cases l <;> exact ⟨rfl, rfl⟩

theorem note_unlock_place (g : Doing) (l : Lock) :
    (g.note (.unlock l)).target = g.target ∧ (g.note (.unlock l)).placed = g.placed := by
  cases l <;> exact ⟨rfl, rfl⟩

theorem known_learn {k : Known} {g : Doing} (h : g.known = some k) (k' : Known) : (g.learn k').known = some k' := by
  rw [learn, h, Option.map_some]

theorem known_getWorker {k : Known} {g : Doing} (h : g.known = some k) (pid : String) (w : Option AgentWorker) :
    (noteAct (.getWorker pid) w g).known = some (w.elim (.clear pid) (.worker pid)) := by
  cases w <;> exact known_learn h _

theorem known_jobAlive {pid : String} {w : AgentWorker} {g : Doing} (h : g.known = some (.worker pid w)) (alive : Bool) :
    (noteAct (.jobAlive w.job) alive g).known = some (if alive then .worker pid w else .clear pid) := by
  simp only [noteAct, h, true_and]
  cases alive with
  | true => exact h
  | false => exact known_learn h _

theorem note_lock_counts (g : Doing) (l : Lock) :
    (g.note (.lock l)).announced = g.announced ∧ (g.note (.lock l)).written = g.written := by
  cases l <;> exact ⟨rfl, rfl⟩

theorem note_unlock_counts (g : Doing) (l : Lock) :
    (g.note (.unlock l)).announced = g.announced ∧ (g.note (.unlock l)).written = g.written := by
  cases l <;> exact ⟨rfl, rfl⟩

end Doing

/-! ### Code that keeps to it -/

/-- From what its thread has done, the code does what is allowed and ends in `Q`. -/
abbrev Heeds {α : Type} (Q : Doing → α → Prop) (g : Doing) (p : Code α) : Prop :=
  Prog.Follows (σ := rtSig) Doing.note Doing.Allowed Q g p

section Heeds

variable {α β : Type} {g : Doing}

theorem Heeds.locked {Q R : Doing → α → Prop} {l : Lock} {p : Code α} (h : Heeds Q (g.note (.lock l)) p)
    (hR : ∀ g a, Q g a → R (g.note (.unlock l)) a) : Heeds R g (Code.locked l p) :=
  Prog.Follows.locked h hR

theorem heeds_pure {Q : Doing → α → Prop} {a : α} (h : Q g a) : Heeds Q g (pure a : Code α) := .ret h

theorem heeds_act {a : Act} {Q : Doing → a.Resp → Prop} (hA : g.Allowed a) (h : ∀ r, Q (Doing.noteAct a r g) r) :
    Heeds Q g (act a) :=
  Prog.follows_call (σ := rtSig) hA h

theorem Heeds.lifted {p : Code α} {f : α → Raising β} {Q : Doing → α → Prop} {R : Doing → Except String β → Prop}
    (h : Heeds Q g p) (hf : ∀ g a, Q g a → Heeds R g (f a).run) : Heeds R g ((liftM p : Raising α) >>= f).run := by
  have hp : Heeds (fun g r => ∃ a, r = .ok a ∧ Q g a) g (liftM p : Raising α).run :=
    h.bind fun g a hg => .ret ⟨a, rfl, hg⟩
  refine hp.bind fun g r hr => ?_
  obtain ⟨a, rfl, hg⟩ := hr
  exact hf g a hg

theorem Heeds.raising {x : Raising α} {f : α → Raising β} {Q : Doing → Except String α → Prop}
    {R : Doing → Except String β → Prop} (h : Heeds Q g x.run) (hok : ∀ g a, Q g (.ok a) → Heeds R g (f a).run)
    (herr : ∀ g e, Q g (.error e) → R g (.error e)) : Heeds R g (x >>= f).run :=
  h.bind fun g r hq => match r with
    | .ok a => hok g a hq
    | .error e => .ret (herr g e hq)

/-- What holds of an answer, of the code that raises it. -/
def whenRaised (Q : Doing → Option String → Prop) (g : Doing) : Except String Unit → Prop
  | .ok () => Q g none
  | .error e => Q g (some e)

/-- An answer that is an error is raised. -/
theorem Heeds.raised {p : Code (Option String)} {f : Unit → Raising β} {Q : Doing → Option String → Prop}
    {R : Doing → Except String β → Prop} (h : Heeds Q g p) (hf : ∀ g, Q g none → Heeds R g (f ()).run)
    (herr : ∀ g e, Q g (some e) → R g (.error e)) : Heeds R g (raise p >>= f).run := by
  have hp : Heeds (whenRaised Q) g (raise p).run :=
    Heeds.lifted h fun g r hg => match r with
      | some _ => .ret hg
      | none => .ret hg
  exact hp.raising (fun g _ hg => hf g hg) herr

/-- Code of `P` actions keeps what the actions and the locks keep. -/
theorem Does.heeds {P : Act → Prop} {K : Doing → Prop} {p : Code α} (h : Does P p)
    (hA : ∀ g a, P a → K g → g.Allowed a) (hact : ∀ g a r, P a → K g → K (Doing.noteAct a r g))
    (hlock : ∀ g l, K g → K (g.note (.lock l))) (hunlock : ∀ g l, K g → K (g.note (.unlock l))) (hg : K g) :
    Heeds (fun g _ => K g) g p :=
  h.only.follows hA hact hlock hunlock hg

end Heeds

/-! ### Commands -/

namespace Doing

/-- The thread of a command, or the main thread. -/
structure Free (g : Doing) : Prop where
  job : g.job = none
  registered : g.retired = false
  announced : g.announced = 0

theorem Free.lock {g : Doing} (h : g.Free) (l : Lock) : (g.note (.lock l)).Free :=
  ⟨(note_job ..).trans h.job, (note_lock_retired ..).trans h.registered, (note_lock_counts ..).1.trans h.announced⟩

theorem Free.unlock {g : Doing} (h : g.Free) (l : Lock) : (g.note (.unlock l)).Free :=
  ⟨(note_job ..).trans h.job, (note_unlock_retired ..).trans h.registered, (note_unlock_counts ..).1.trans h.announced⟩

theorem Free.noteAct {g : Doing} (h : g.Free) {a : Act} (ha : Plain a) (r : a.Resp) : (noteAct a r g).Free :=
  ⟨(noteAct_job ..).trans h.job, (noteAct_plain ha r g).1.trans h.registered,
    (noteAct_plain ha r g).2.1.trans h.announced⟩

theorem Free.allowed {g : Doing} (h : g.Free) {a : Act} (ha : g.Permits a) : g.Allowed a :=
  ⟨ha, fun hr => by rw [h.registered] at hr; cases hr⟩

end Doing

theorem Does.free {α : Type} {p : Code α} (h : Does Ordinary p) {g : Doing} (hg : g.Free) :
    Heeds (fun g _ => g.Free) g p := by
  refine h.heeds (fun g a ha hg => hg.allowed ?_) (fun g a r ha hg => hg.noteAct ?_ r) (fun _ l hg => hg.lock l)
    (fun _ l hg => hg.unlock l) hg
  · cases a with
    | setConfig pid c =>
      intro j cmd hj
      rw [hg.job] at hj
      cases hj
    | report r =>
      intro _ j cmd hj
      rw [hg.job] at hj
      cases hj
    | _ => trivial
  · cases a <;> trivial

theorem heeds_report (r : Report) {g : Doing} (hg : g.Free) : Heeds (fun g _ => g.Free) g (act (.report r)) :=
  (does_report r).ordinary.free hg

/-- An action of a command, with what is known after it. -/
theorem heeds_known {a : Act} {g : Doing} (hg : g.Free) (hp : g.Permits a) (ha : Doing.Plain a) {Q : Doing → a.Resp → Prop}
    (h : ∀ r, (Doing.noteAct a r g).Free → Q (Doing.noteAct a r g) r) : Heeds Q g (act a) :=
  heeds_act (hg.allowed hp) fun r => h r (hg.noteAct ha r)

/-- The lookup of a worker: the id is clear, or the worker is known. -/
theorem heeds_liveWorker (pid : String) {g : Doing} {k : Known} (hg : g.Free) (hk : g.known = some k) :
    Heeds (fun g w => g.Free ∧ g.known = some (w.elim (.clear pid) (.worker pid))) g (liveWorker pid) := by
  refine Prog.Follows.bind (Q := fun g (w : Option AgentWorker) =>
    g.Free ∧ g.known = some (w.elim (.clear pid) (.worker pid))) (heeds_known (a := .getWorker pid) hg trivial trivial
      fun w hfree => ⟨hfree, Doing.known_getWorker hk pid w⟩) ?_
  rintro g (_ | w) ⟨hg, hk⟩
  · exact heeds_pure ⟨hg, hk⟩
  · refine Prog.Follows.bind (heeds_known (a := .jobAlive w.job) (Q := fun g (alive : Bool) => g.Free ∧ g.known =
      some (if alive then .worker pid w else .clear pid)) hg trivial trivial
        fun alive hfree => ⟨hfree, Doing.known_jobAlive hk alive⟩) ?_
    rintro g (_ | _) ⟨hg, hk⟩
    · exact heeds_pure ⟨hg, hk⟩
    · exact heeds_pure ⟨hg, hk⟩

theorem heeds_deployModel (cmd : DeployModelCommand) {g : Doing} (hg : g.Free) :
    Heeds (fun g _ => g.Free) g (deployModel cmd) := by
  unfold deployModel
  split
  · exact heeds_report _ hg
  split_ifs
  · exact heeds_report _ hg
  refine Heeds.locked (Q := fun g _ => g.Free) ((heeds_liveWorker _ (hg.lock .self) rfl).bind ?_) fun _ _ hg => hg.unlock .self
  rintro g (_ | w) ⟨hg, hk⟩
  · refine Prog.Follows.bind (heeds_known (a := .register cmd _) (Q := fun g j => g.Free ∧ g.known = some (.made j cmd))
      hg hk trivial fun j hfree => ⟨hfree, Doing.known_learn hk _⟩) ?_
    rintro g j ⟨hg, hk⟩
    exact heeds_known (a := .startJob j) hg ⟨cmd, hk⟩ trivial fun _ hfree => hfree
  · exact heeds_report _ hg

theorem heeds_cancelDeploy (cid pid : String) {g : Doing} (hg : g.Free) :
    Heeds (fun g _ => g.Free) g (cancelDeploy cid pid) := by
  refine Prog.Follows.bind (Q := fun g w => g.Free ∧ ∀ v, w = some v → g.cancelled = some v)
    (Heeds.locked (Q := fun g w => g.Free ∧ ∀ v, w = some v → g.cancelled = some v)
      ((heeds_liveWorker pid (hg.lock .self) rfl).bind ?_) fun g w h => ⟨h.1.unlock .self, h.2⟩) ?_
  · rintro g (_ | w) ⟨hg, hk⟩
    · exact (heeds_report _ hg).bind fun g _ hg => heeds_pure ⟨hg, by simp⟩
    · refine Prog.Follows.bind (heeds_known (a := .cancelJob w.job) (Q := fun g _ => g.Free ∧ g.cancelled = some w)
        hg ⟨pid, w, hk, rfl⟩ trivial fun _ hfree => ⟨hfree, ?_⟩) fun g _ h => ?_
      · simp only [Doing.noteAct, hk, Option.elim]
      · exact heeds_pure ⟨h.1, fun v hv => Option.some.inj hv ▸ h.2⟩
  · rintro g (_ | w) ⟨hg, hw⟩
    · exact heeds_pure hg
    · refine Prog.Follows.bind (Q := fun g _ => g.Free) ?_ fun g _ hg => heeds_report _ hg
      cases hr : w.response with
      | none => exact heeds_pure hg
      | some k => exact heeds_known (a := .closeResponse k) hg ⟨w, hw w rfl, hr⟩ trivial fun _ hfree => hfree

theorem heeds_dispatch (V : Validator) (me : Option ℕ) (cmd : Command) {g : Doing} (hg : g.Free) :
    Heeds (fun g _ => g.Free) g (dispatch V me cmd) := by
  cases cmd with
  | deployModel cmd => exact heeds_deployModel cmd hg
  | cancelDeploy cid pid => exact heeds_cancelDeploy cid pid hg
  | _ => exact (does_dispatch V me _ (fun _ => by simp) fun _ _ => by simp).free hg

theorem heeds_handleCommand (V : Validator) (me : Option ℕ) (data : Json) {g : Doing} (hg : g.Free) :
    Heeds (fun g _ => g.Free) g (handleCommand V me data) := by
  refine Prog.Follows.bind (heeds_known (a := .getAgentConfig) (Q := fun g _ => g.Free) hg trivial trivial
    fun _ hfree => hfree) fun g current hg => ?_
  split
  · exact heeds_dispatch V me _ hg
  · split
    · split_ifs
      · exact heeds_pure hg
      · exact heeds_report _ hg
    · exact heeds_pure hg

theorem heeds_run (V : Validator) {g : Doing} (hg : g.Free) : Heeds (fun g _ => g.Free) g (run V) :=
  (does_run V).free hg

/-! ### Deploy workers -/

namespace Doing

variable {j : ℕ} {cmd : DeployModelCommand} {q : Option Path} {t n : ℕ} {g : Doing}

/-- The worker at work, with its target, what was announced to it and what it wrote. -/
structure Loading (j : ℕ) (cmd : DeployModelCommand) (q : Option Path) (t n : ℕ) (g : Doing) : Prop
    extends AtWork j cmd g where
  target : g.target = q
  announced : g.announced = t
  written : g.written = n

theorem AtWork.lock (h : g.AtWork j cmd) (l : Lock) : (g.note (.lock l)).AtWork j cmd :=
  ⟨(note_job ..).trans h.job, (note_lock_retired ..).trans h.registered⟩

theorem AtWork.unlock (h : g.AtWork j cmd) (l : Lock) : (g.note (.unlock l)).AtWork j cmd :=
  ⟨(note_job ..).trans h.job, (note_unlock_retired ..).trans h.registered⟩

theorem AtWork.allowed (h : g.AtWork j cmd) {a : Act} (ha : g.Permits a) : g.Allowed a :=
  ⟨ha, fun hr => by rw [h.registered] at hr; cases hr⟩

theorem Loading.lock (h : g.Loading j cmd q t n) (l : Lock) : (g.note (.lock l)).Loading j cmd q t n :=
  ⟨h.toAtWork.lock l, (note_lock_place ..).1.trans h.target, (note_lock_counts ..).1.trans h.announced, (note_lock_counts ..).2.trans h.written⟩

theorem Loading.unlock (h : g.Loading j cmd q t n) (l : Lock) : (g.note (.unlock l)).Loading j cmd q t n :=
  ⟨h.toAtWork.unlock l, (note_unlock_place ..).1.trans h.target, (note_unlock_counts ..).1.trans h.announced, (note_unlock_counts ..).2.trans h.written⟩

theorem Loading.noteAct (h : g.Loading j cmd q t n) {a : Act} (ha : Steady a) (r : a.Resp) :
    (noteAct a r g).Loading j cmd q t n := by
  obtain ⟨hretired, hannounced, hwritten⟩ := noteAct_plain ha.plain r g
  refine ⟨⟨(noteAct_job ..).trans h.job, hretired.trans h.registered⟩, ?_, hannounced.trans h.announced,
    hwritten.trans h.written⟩
  exact (noteAct_target ha.stays r g).trans h.target

end Doing

section Worker

variable {j : ℕ} {cmd : DeployModelCommand} {q : Option Path} {t n : ℕ} {g : Doing}

/-- What a worker does besides its commit, its reply, its bytes and its end. -/
def Aside : Act → Prop
  | .setConfig _ _ | .cwd => False
  | .report r => ¬Completes r
  | a => Ordinary a

theorem Does.loading {α : Type} {p : Code α} (h : Does Aside p) (hg : g.Loading j cmd q t n) :
    Heeds (fun g _ => g.Loading j cmd q t n) g p := by
  refine h.heeds (fun g a ha hg => hg.allowed ?_) (fun g a r ha hg => hg.noteAct ?_ r) (fun _ l hg => hg.lock l)
    (fun _ l hg => hg.unlock l) hg
  · cases a with
    | report r => exact fun hr => absurd hr ha
    | _ => trivial
  · cases a <;> trivial

theorem does_aside_report {r : Report} (h : ¬Completes r) : Does Aside (act (.report r)) :=
  does_act (a := .report r) h

theorem does_aside_setDeployment (pid : String) (stage : Stage) (progress : ℕ) (name : String) :
    Does Aside (act (.setDeployment pid stage progress name)) :=
  does_act (a := .setDeployment pid stage progress name) trivial

theorem does_aside_isCancelled : Does Aside (act (.isCancelled j)) := does_act (a := .isCancelled j) trivial

theorem does_aside_cleanupPartial (p : Path) : Does Aside (cleanupPartial p) :=
  .bind (does_act (a := .lookup p) trivial) fun _ =>
    .ite (.bind (does_act (a := .unlink p) trivial) fun _ => does_pure _) (does_pure _)

theorem does_aside_reportCancelled : Does Aside (reportCancelled cmd) :=
  .bind (does_aside_report id) fun _ => .bind (does_aside_setDeployment ..) fun _ => does_aside_report id

theorem heeds_attachResponse {r : Option ℕ} (hr : ∀ k, r = some k → k = j) (hg : g.Loading j cmd q t n) :
    Heeds (fun g _ => g.Loading j cmd q t n) g (attachResponse cmd.pipelineId cmd.id r) := by
  refine Heeds.locked (Q := fun g _ => g.Loading j cmd q t n)
    (heeds_act (a := .attachResponse cmd.pipelineId cmd.id r) ?_ fun _ => ?_) fun _ _ hg => hg.unlock .self
  · exact (hg.lock .self).allowed ⟨rfl, j, cmd, (hg.lock .self).toAtWork, rfl, rfl, hr⟩
  · exact (hg.lock .self).noteAct (a := .attachResponse cmd.pipelineId cmd.id r) trivial ()

theorem heeds_writeChunks (p : Path) (total : ℕ) : ∀ (chunks : List Bytes) (done : ℕ) (last : ℤ) {g : Doing},
    g.Loading j cmd q t done → Heeds (fun g r => ∃ n, g.Loading j cmd q t n ∧ ∀ c d, r = .ok (c, d) → n = d) g
      (writeChunks j cmd p total chunks done last).run
  | [], done, last, g, hg => heeds_pure ⟨done, hg, fun c d h => (Prod.mk.inj (Except.ok.inj h)).2⟩
  | chunk :: chunks, done, last, g, hg => by
    unfold writeChunks
    refine Heeds.lifted (does_aside_isCancelled.loading hg) fun g c hg => ?_
    cases c with
    | true => exact heeds_pure ⟨done, hg, fun c d h => (Prod.mk.inj (Except.ok.inj h)).2⟩
    | false =>
      refine Heeds.raised (Q := fun g e => g.Loading j cmd q t (if e = none then done + chunk.length else done))
        (heeds_act (a := .append p chunk) (hg.allowed trivial) fun e => ?_) (fun g hg => ?_) fun g e hg => ?_
      · cases e with
        | none => exact ⟨⟨hg.job, hg.registered⟩, hg.target, hg.announced, congrArg (· + chunk.length) hg.written⟩
        | some e => exact hg
      · have hg : g.Loading j cmd q t (done + chunk.length) := hg
        simp only
        split
        · refine Heeds.lifted ((does_aside_report id).loading hg) fun g _ hg => ?_
          refine Heeds.lifted ((does_aside_setDeployment ..).loading hg) fun g _ hg => ?_
          exact heeds_writeChunks p total chunks _ _ hg
        · exact heeds_writeChunks p total chunks _ _ hg
      · exact ⟨done, hg, fun c d h => by cases h⟩

/-- After the request: a reply announces its length, and nothing is written yet. -/
def Replied (j : ℕ) (cmd : DeployModelCommand) (q : Option Path) (t n : ℕ) (g : Doing) : Except String Response → Prop
  | .ok reply => g.Loading j cmd q (reply.length.toOption.getD 0) 0
  | .error _ => g.Loading j cmd q t n

/-- What holds of a download's result: what was announced and written is what it counted. -/
def Counted (j : ℕ) (cmd : DeployModelCommand) (q : Option Path) (g : Doing) (r : Except String (Bool × ℕ × ℕ)) : Prop :=
  ∃ t n, g.Loading j cmd q t n ∧ ∀ c total done, r = .ok (c, total, done) → t = total ∧ n = done

theorem heeds_fetch (url : String) (p : Path) (hg : g.Loading j cmd q t n) :
    Heeds (Counted j cmd q) g (fetch j cmd url p).run := by
  have hraise {g : Doing} {t n : ℕ} (e : String) (hg : g.Loading j cmd q t n) : Counted j cmd q g (.error e) :=
    ⟨t, n, hg, fun _ _ _ h => by cases h⟩
  refine Heeds.raising (x := ExceptT.mk (act (.download url))) (Q := Replied j cmd q t n)
    (heeds_act (a := .download url) (hg.allowed trivial) fun r => ?_) (fun g reply hg => ?_) fun g e hg => hraise e hg
  · cases r with
    | ok reply => exact ⟨⟨hg.job, hg.registered⟩, hg.target, rfl, rfl⟩
    | error e => exact hg
  refine Heeds.lifted (heeds_attachResponse (r := some j) (fun k hk => (Option.some.inj hk).symm) hg) fun g _ hg => ?_
  refine Heeds.raised (p := pure reply.status) (Q := fun g _ => g.Loading j cmd q (reply.length.toOption.getD 0) 0)
    (heeds_pure hg) (fun g hg => ?_) fun g e hg => hraise e hg
  cases hlength : reply.length with
  | error e => exact heeds_pure (hraise e hg)
  | ok total =>
    rw [hlength] at hg
    have hg : g.Loading j cmd q total 0 := hg
    have hcounted {g : Doing} {c : Bool} {done : ℕ} (hg : g.Loading j cmd q total done) :
        Counted j cmd q g (.ok (c, total, done)) := ⟨total, done, hg, fun _ _ _ h => by
      obtain ⟨-, h⟩ := Prod.mk.inj (Except.ok.inj h)
      exact Prod.mk.inj h⟩
    refine Heeds.raising (x := ExceptT.mk (pure (.ok total))) (Q := fun g r => r = .ok total ∧ g.Loading j cmd q total 0)
      (heeds_pure ⟨rfl, hg⟩) (fun g _ h => ?_) fun g e h => by cases h.1
    obtain ⟨htotal, hg⟩ := h
    obtain rfl := Except.ok.inj htotal
    refine Heeds.lifted ((does_aside_report id).loading hg) fun g _ hg => ?_
    refine Heeds.lifted ((does_aside_setDeployment ..).loading hg) fun g _ hg => ?_
    refine Heeds.raised ((does_act (P := Aside) (a := .create p) trivial).loading hg) (fun g hg => ?_)
      fun g e hg => hraise e hg
    refine Heeds.raising (heeds_writeChunks p _ reply.chunks 0 (-1) hg) (fun g w hw => ?_) fun g e hw => ?_
    · obtain ⟨n, hg, hn⟩ := hw
      obtain ⟨cancelled, done⟩ := w
      obtain rfl := hn cancelled done rfl
      cases cancelled with
      | true => exact heeds_pure (hcounted hg)
      | false =>
        exact Heeds.raised (p := pure reply.error) (Q := fun g _ => g.Loading j cmd q _ n) (heeds_pure hg)
          (fun g hg => heeds_pure (hcounted hg)) fun g e hg => hraise e hg
    · obtain ⟨n, hg, -⟩ := hw
      exact hraise e hg

/-- The worker is at work, whatever was announced and written. -/
def AtIt (j : ℕ) (cmd : DeployModelCommand) (q : Option Path) (g : Doing) : Prop := ∃ t n, g.Loading j cmd q t n

theorem AtIt.counted (h : AtIt j cmd q g) : g.Loading j cmd q g.announced g.written := by
  obtain ⟨t, n, h⟩ := h
  exact ⟨h.toAtWork, h.target, rfl, rfl⟩

theorem Does.atIt {α : Type} {p : Code α} (h : Does Aside p) (hg : AtIt j cmd q g) : Heeds (fun g _ => AtIt j cmd q g) g p :=
  (h.loading hg.counted).mono fun _ _ h => ⟨_, _, h⟩

theorem heeds_detach (hg : AtIt j cmd q g) :
    Heeds (fun g _ => AtIt j cmd q g) g (attachResponse cmd.pipelineId cmd.id none) :=
  (heeds_attachResponse (fun _ h => by cases h) hg.counted).mono fun _ _ h => ⟨_, _, h⟩

/-- The worker, who has done what the flag stands for. -/
structure Having (flag : Doing → Bool) (j : ℕ) (cmd : DeployModelCommand) (q : Option Path) (g : Doing) : Prop where
  atIt : AtIt j cmd q g
  has : flag g = true

/-- What a worker tells of its deploy before it is completed. -/
def Telling : Act → Prop
  | .report r => ¬Completes r
  | .setDeployment _ _ _ _ => True
  | _ => False

theorem Does.having {α : Type} {p : Code α} {flag : Doing → Bool} (h : Does Telling p)
    (hflag : ∀ g g' : Doing, g'.placed = g.placed → g'.committed = g.committed → flag g' = flag g)
    (hg : Having flag j cmd q g) : Heeds (fun g _ => Having flag j cmd q g) g p := by
  refine h.heeds (fun g a ha hg => hg.atIt.counted.allowed ?_) (fun g a r ha hg => ?_) (fun g l hg => ?_)
    (fun g l hg => ?_) hg
  · cases a with
    | report r => exact fun hr => absurd hr ha
    | setDeployment _ _ _ _ => trivial
    | _ => exact ha.elim
  · cases a with
    | report _ | setDeployment _ _ _ _ => exact hg
    | _ => exact ha.elim
  · have hsame : (g.note (.lock l)).committed = g.committed := by cases l <;> rfl
    exact ⟨⟨_, _, hg.atIt.counted.lock l⟩, (hflag _ _ (Doing.note_lock_place ..).2 hsame).trans hg.has⟩
  · have hsame : (g.note (.unlock l)).committed = g.committed := by cases l <;> rfl
    exact ⟨⟨_, _, hg.atIt.counted.unlock l⟩, (hflag _ _ (Doing.note_unlock_place ..).2 hsame).trans hg.has⟩

/-- The worker whose artifact is in its place. -/
abbrev InPlace := Having Doing.placed

/-- The worker whose config is committed. -/
abbrev Done := Having Doing.committed

/-- What a worker has when it is answered whether its artifact is there. -/
def Answered (j : ℕ) (cmd : DeployModelCommand) (q : Option Path) (g : Doing) (r : Except String Bool) : Prop :=
  AtIt j cmd q g ∧ (r = .ok true → g.placed = true)

theorem heeds_no (hg : AtIt j cmd q g) : Heeds (Answered j cmd q) g (pure false : Raising Bool).run :=
  heeds_pure ⟨hg, fun h => by cases h⟩

/-- The rename comes after the check of what was written, and puts the artifact in its place. -/
theorem heeds_downloadAndPublish (url : String) (target p : Path) (hg : AtIt j cmd (some target) g) :
    Heeds (Answered j cmd (some target)) g (downloadAndPublish j cmd url target p).run := by
  unfold downloadAndPublish
  refine Heeds.lifted ((does_aside_cleanupPartial p).atIt hg) fun g _ hg => ?_
  refine Heeds.lifted (heeds_fetch url p hg.counted) fun g r hr => ?_
  obtain ⟨t, n, hg, hcount⟩ := hr
  match r with
  | .error e =>
    refine Heeds.lifted (does_aside_isCancelled.loading hg) fun g c hg => ?_
    have hg : AtIt j cmd (some target) g := ⟨t, n, hg⟩
    cases c with
    | true =>
      refine Heeds.lifted (heeds_detach hg) fun g _ hg => ?_
      refine Heeds.lifted ((does_aside_cleanupPartial p).atIt hg) fun g _ hg => ?_
      exact Heeds.lifted (does_aside_reportCancelled.atIt hg) fun g _ hg => heeds_no hg
    | false =>
      refine Heeds.lifted ((does_aside_cleanupPartial p).atIt hg) fun g _ hg => ?_
      refine Heeds.lifted ((does_aside_report id).atIt hg) fun g _ hg => ?_
      refine Heeds.lifted ((does_aside_setDeployment ..).atIt hg) fun g _ hg => ?_
      exact Heeds.lifted (heeds_detach hg) fun g _ hg => heeds_no hg
  | .ok (cancelled, total, done) =>
    obtain ⟨rfl, rfl⟩ := hcount cancelled total done rfl
    refine Heeds.lifted (heeds_attachResponse (r := none) (fun _ h => by cases h) hg) fun g _ hg => ?_
    have hat : AtIt j cmd (some target) g := ⟨t, n, hg⟩
    cases cancelled with
    | true =>
      refine Heeds.lifted ((does_aside_cleanupPartial p).atIt hat) fun g _ hg => ?_
      exact Heeds.lifted (does_aside_reportCancelled.atIt hg) fun g _ hg => heeds_no hg
    | false =>
      simp only [Bool.false_eq_true, if_false]
      split
      · refine Heeds.lifted ((does_aside_cleanupPartial p).atIt hat) fun g _ hg => ?_
        refine Heeds.lifted ((does_aside_report id).atIt hg) fun g _ hg => ?_
        exact Heeds.lifted ((does_aside_setDeployment ..).atIt hg) fun g _ hg => heeds_no hg
      · rename_i hwhole
        refine Heeds.lifted (does_aside_isCancelled.loading hg) fun g c hg => ?_
        cases c with
        | true =>
          refine Heeds.lifted ((does_aside_cleanupPartial p).atIt ⟨t, n, hg⟩) fun g _ hg => ?_
          exact Heeds.lifted (does_aside_reportCancelled.atIt hg) fun g _ hg => heeds_no hg
        | false =>
          have hall : g.announced ≠ 0 → g.written = g.announced := fun ht => by
            rw [hg.announced] at ht ⊢
            exact hg.written.trans (not_not.mp fun hne => hwhole ⟨ht, hne⟩)
          refine Heeds.raised (Q := fun g e => AtIt j cmd (some target) g ∧ (e = none → g.placed = true))
            (heeds_act (a := .replace p target) (hg.allowed hall) fun e => ⟨?_, fun he => ?_⟩)
              (fun g hg => heeds_pure ⟨hg.1, fun _ => hg.2 rfl⟩) fun g e hg => ⟨hg.1, fun h => by cases h⟩
          · exact ⟨t, n, hg.noteAct (a := .replace p target) trivial e⟩
          · subst he
            simp only [Doing.noteAct, hg.target, if_true]

/-- What a worker has when it is answered whether its config is committed. -/
def Committing (j : ℕ) (cmd : DeployModelCommand) (q : Option Path) (g : Doing) (committed : Bool) : Prop :=
  AtIt j cmd q g ∧ (committed = true → g.committed = true)

/-- The config is set where the worker has just seen that it is not cancelled. -/
theorem heeds_setConfig {k : Known} (hg : InPlace j cmd q g) (hk : g.known = some k) :
    Heeds (Committing j cmd q) g (do
      if ← act (.isCancelled j) then pure false
      else
        act (.setConfig cmd.pipelineId cmd.config)
        act (.store (.updatePipelineConfig cmd.config))
        pure true) := by
  refine .act (hg.atIt.counted.allowed (a := .isCancelled j) trivial) fun c => ?_
  have hasked : Doing.Loading j cmd q g.announced g.written (Doing.noteAct (.isCancelled j) c g) :=
    hg.atIt.counted.noteAct (a := .isCancelled j) trivial c
  cases c with
  | true => exact heeds_pure ⟨⟨_, _, hasked⟩, fun h => by cases h⟩
  | false =>
    have hcommit (j' : ℕ) (cmd' : DeployModelCommand) (h : (Doing.noteAct (.isCancelled j) false g).job = some (j', cmd')) :
        cmd.pipelineId = cmd'.pipelineId ∧ (Doing.noteAct (.isCancelled j) false g).known = some (.going j') ∧
          (Doing.noteAct (.isCancelled j) false g).placed = true := by
      rw [hasked.job] at h
      obtain ⟨rfl, rfl⟩ := Prod.mk.inj (Option.some.inj h)
      exact ⟨rfl, Doing.known_learn hk _, hg.has⟩
    refine .act (hasked.allowed (a := .setConfig cmd.pipelineId cmd.config) hcommit) fun _ => ?_
    have hset := hasked.noteAct (a := .setConfig cmd.pipelineId cmd.config) trivial ()
    refine .act (hset.allowed (a := .store (.updatePipelineConfig cmd.config)) trivial) fun _ => .ret ?_
    exact ⟨⟨_, _, hset.noteAct (a := .store (.updatePipelineConfig cmd.config)) trivial ()⟩, fun _ => rfl⟩

theorem heeds_commitDeploy (hg : InPlace j cmd q g) : Heeds (Committing j cmd q) g (commitDeploy j cmd) := by
  have hreport : Does Telling (reportProgress cmd.pipelineId .configuring 95 0 0) :=
    does_act (a := .report _) id
  have hshow : Does Telling (act (.setDeployment cmd.pipelineId .configuring 95 cmd.modelName)) :=
    does_act (a := .setDeployment ..) trivial
  refine (hreport.having (fun _ _ h _ => h) hg).bind fun g _ hg => ?_
  refine (hshow.having (fun _ _ h _ => h) hg).bind fun g _ hg => ?_
  have hin : InPlace j cmd q ((g.note (.lock .ops)).note (.lock .self)) :=
    ⟨⟨_, _, (hg.atIt.counted.lock .ops).lock .self⟩, hg.has⟩
  refine Heeds.locked (Q := Committing j cmd q) (Heeds.locked (heeds_setConfig hin rfl) fun g c hg => ?_) fun g c hg => ?_
  · exact ⟨⟨_, _, hg.1.counted.unlock .self⟩, hg.2⟩
  · exact ⟨⟨_, _, hg.1.counted.unlock .ops⟩, hg.2⟩

theorem heeds_deploySteps (hg : AtIt j cmd none g) : Heeds (fun g _ => ∃ q, AtIt j cmd q g) g (deploySteps j cmd).run := by
  unfold deploySteps
  have hcwd (cwd : Path) : AtIt j cmd (some ((cwd.div "models").div cmd.modelName)) (Doing.noteAct .cwd cwd g) := by
    have hat := hg.counted
    refine ⟨g.announced, g.written, ⟨hat.job, hat.registered⟩, ?_, rfl, rfl⟩
    simp only [Doing.noteAct, hat.job, Option.map_some]
  refine Heeds.lifted (Q := fun g cwd => AtIt j cmd (some ((cwd.div "models").div cmd.modelName)) g)
    (heeds_act (a := .cwd) (hg.counted.allowed trivial) hcwd) fun g cwd hg => ?_
  have hraise {g : Doing} {q : Option Path} (hg : AtIt j cmd q g) : ∃ q, AtIt j cmd q g := ⟨q, hg⟩
  refine Heeds.raised ((does_act (P := Aside) (a := .mkdir _) trivial).atIt hg) (fun g hg => ?_) fun g e hg => hraise hg
  dsimp only
  split
  · exact heeds_pure (hraise hg)
  refine Heeds.lifted ((does_act (P := Aside) (a := .getAgentConfig) trivial).atIt hg) fun g current hg => ?_
  have hguard : Heeds (fun g _ => AtIt j cmd (some ((cwd.div "models").div cmd.modelName)) g) g
      (downloadLockFor cmd.modelName) :=
    Heeds.locked (Q := fun g _ => AtIt j cmd (some ((cwd.div "models").div cmd.modelName)) g)
      (heeds_pure ⟨_, _, hg.counted.lock .downloadsGuard⟩) fun _ _ hg => ⟨_, _, hg.counted.unlock .downloadsGuard⟩
  refine Heeds.lifted hguard fun g lock hg => ?_
  refine Heeds.raising (x := lockedRaising lock _) (Q := Answered j cmd (some ((cwd.div "models").div cmd.modelName)))
    (Heeds.locked (Q := Answered j cmd (some ((cwd.div "models").div cmd.modelName))) ?_ fun g _ hg =>
      ⟨⟨_, _, hg.1.counted.unlock lock⟩, fun h => (Doing.note_unlock_place ..).2.trans (hg.2 h)⟩)
    (fun g there hg => ?_) fun g e hg => hraise hg.1
  · have hg : AtIt j cmd (some ((cwd.div "models").div cmd.modelName)) (g.note (.lock lock)) :=
      ⟨_, _, hg.counted.lock lock⟩
    refine Heeds.lifted (does_aside_isCancelled.atIt hg) fun g c hg => ?_
    cases c with
    | true => exact Heeds.lifted (does_aside_reportCancelled.atIt hg) fun g _ hg => heeds_no hg
    | false =>
      refine Heeds.lifted (Q := fun g (node : Option Node) => AtIt j cmd (some ((cwd.div "models").div cmd.modelName)) g ∧
        (node.isSome → g.placed = true)) (heeds_act (a := .lookup _) (hg.counted.allowed trivial) fun node => ?_)
        fun g node hg => ?_
      · refine ⟨⟨_, _, hg.counted.noteAct (a := .lookup _) trivial node⟩, fun hnode => ?_⟩
        obtain ⟨x, rfl⟩ := Option.isSome_iff_exists.mp hnode
        simp only [Doing.noteAct, hg.counted.target, if_true]
      · split
        · rename_i hnode
          exact heeds_pure ⟨hg.1, fun _ => hg.2 hnode⟩
        · exact heeds_downloadAndPublish _ _ _ hg.1
  · cases there with
    | false => exact heeds_pure (hraise hg.1)
    | true =>
      refine Heeds.lifted (heeds_commitDeploy ⟨hg.1, hg.2 rfl⟩) fun g committed hg => ?_
      cases committed with
      | false => exact Heeds.lifted (does_aside_reportCancelled.atIt hg.1) fun g _ hg => heeds_pure (hraise hg)
      | true =>
        have hdone : Done j cmd _ g := ⟨hg.1, hg.2 rfl⟩
        have hreport : Does Telling (reportProgress cmd.pipelineId .completed 100 0 0) :=
          does_act (a := .report _) id
        have hshow : Does Telling (act (.setDeployment cmd.pipelineId .completed 100 cmd.modelName)) :=
          does_act (a := .setDeployment ..) trivial
        refine Heeds.lifted (hreport.having (fun _ _ _ h => h) hdone) fun g _ hdone => ?_
        refine Heeds.lifted (hshow.having (fun _ _ _ h => h) hdone) fun g _ hdone => ?_
        have hcompleted : g.Permits (.report
            (.command cmd.id .completed s!"Model {cmd.modelName} deployed successfully.")) := fun _ _ _ _ => hdone.has
        exact Heeds.lifted (Q := fun g _ => AtIt j cmd _ g)
          (heeds_act (a := .report _) (hdone.atIt.counted.allowed hcompleted) fun _ => hdone.atIt)
          fun g _ hg => heeds_pure (hraise hg)

/-- A worker gives up its registration last, and then only ends. -/
theorem heeds_deployWorker (j : ℕ) (cmd : DeployModelCommand) :
    Heeds (fun _ _ => True) ({ job := some (j, cmd) } : Doing) (deployWorker j cmd) := by
  have hborn : AtIt j cmd none { job := some (j, cmd) } := ⟨0, 0, ⟨rfl, rfl⟩, rfl, rfl, rfl⟩
  have hlast {q : Option Path} {g : Doing} (hg : AtIt j cmd q g) : Heeds (fun _ _ => True) g (do
      locked .self (act (.dropWorker cmd.pipelineId cmd.id))
      act (.endJob j)) := by
    have hin := hg.counted.lock .self
    refine .lock (.act (hin.allowed ⟨rfl, j, cmd, hin.toAtWork, rfl, rfl⟩) fun _ => .unlock (.act ⟨?_, fun _ => ⟨j, rfl⟩⟩
      fun _ => .ret trivial))
    exact ⟨rfl, cmd, hin.job⟩
  refine (heeds_deploySteps hborn).bind fun g r hg => ?_
  obtain ⟨q, hg⟩ := hg
  cases r with
  | ok u => exact hlast hg
  | error e =>
    refine ((does_aside_report id).atIt hg).bind fun g _ hg => ?_
    exact ((does_aside_setDeployment ..).atIt hg).bind fun g _ hg => hlast hg

end Worker

end AgentRuntime
end LocaiLink
