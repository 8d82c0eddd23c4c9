/-
# What a worker does about its file

A worker downloads into a file beside its target, inside the lock of its model's name, and
puts it in its place when all of it is written. `Courier` is what a thread has done about
that, and `Permits` is when it may do what touches a file, start a job or report a deploy
completed; the code of every thread follows that (`carries_handleCommand`,
`carries_deployWorker`).
-/
import LocaiLink.Runtime.Artifacts

namespace LocaiLink
namespace AgentRuntime

open Code Rt Machine

/-! ### What a worker does about its file -/

/-- The reply brought all that it announced. -/
structure Entire (r : Response) : Prop where
  ended : r.error = none
  length : r.length = .ok r.chunks.flatten.length

/-- What a thread has done about files: the job that it made, or whose worker it is; the
directory of the models; whether it is inside the lock of its model's name; the reply that it
has, and what it wrote of it; whether its target was there or it put it there; and whether
it reported its deploy completed. -/
structure Courier where
  made : Option ℕ := none
  job : Option (ℕ × DeployModelCommand) := none
  dir : Option Path := none
  inside : Bool := false
  reply : Option Response := none
  staged : Option Bytes := none
  placed : Bool := false
  reported : Bool := false

namespace Courier

def target (g : Courier) : Option Path := g.dir.bind fun d => g.job.map fun job => d.div job.2.modelName

/-- The path is that of the file beside the target. -/
def Stages (g : Courier) (p : Path) : Prop := ∃ t, g.target = some t ∧ t.withName (t.name ++ ".partial") = some p

/-- What an action and its answer add. -/
def noteAct : (a : Act) → a.Resp → Courier → Courier
  | .register _ _, j, g => { g with made := some j }
  | .cwd, p, g => { g with dir := some (p.div "models") }
  | .lookup p, some _, g => if g.target = some p then { g with placed := true } else g
  | .download _, .ok r, g => { g with reply := some r, staged := none }
  | .unlink _, _, g => { g with staged := none }
  | .create _, none, g => { g with staged := some [] }
  | .append _ chunk, none, g => { g with staged := g.staged.map (· ++ chunk) }
  | .replace _ _, none, g => { g with placed := true, staged := none }
  | .report (.command _ .completed _), _, g => { g with reported := true }
  | _, _, g => g

/-- What a deed adds. -/
def note (g : Courier) : Deed rtSig → Courier
  | .act a r => noteAct a r g
  | .lock (.download name) =>
    if g.job.any (fun job => job.2.modelName = name) then { g with inside := true, staged := none } else g
  | .unlock (.download name) => if g.job.any (fun job => job.2.modelName = name) then { g with inside := false } else g
  | .lock _ | .unlock _ => g

/-- All of the reply was written, unless nothing was announced. -/
def Fetched (g : Courier) : Prop :=
  ∃ r n, g.reply = some r ∧ r.error = none ∧ r.length = .ok n ∧ g.staged = some r.chunks.flatten ∧
    (n ≠ 0 → r.chunks.flatten.length = n)

/-- A worker touches the file beside its target alone, inside the lock, and puts it in its place
when all is written; it reports its deploy completed when its target is there. A name that is
registered is one of a file, or empty. -/
def Permits (g : Courier) : Act → Prop
  | .register cmd _ => cmd.modelName ≠ "" → isSafeBasename cmd.modelName = true
  | .startJob j => g.made = some j
  | .mkdir p => ∀ job, g.job = some job → g.dir = some p
  | .unlink p => ∀ job, g.job = some job → g.inside = true ∧ g.Stages p
  | .create p => ∀ job, g.job = some job → g.inside = true ∧ g.Stages p
  | .append p _ => ∀ job, g.job = some job → g.inside = true ∧ g.Stages p
  | .replace p q => ∀ job, g.job = some job → g.inside = true ∧ g.Stages p ∧ g.target = some q ∧ g.Fetched
  | .report r => Completes r → ∀ job, g.job = some job → g.placed = true
  | _ => True

theorem noteAct_job (a : Act) (r : a.Resp) (g : Courier) : (noteAct a r g).job = g.job := by
  unfold noteAct
  split <;> try rfl
  split <;> rfl

theorem note_job (g : Courier) (d : Deed rtSig) : (g.note d).job = g.job := by
  unfold note
  split <;> first | exact noteAct_job .. | rfl | (split <;> rfl)

theorem note_lock (g : Courier) (l : Lock) :
    g.note (.lock l) = { g with inside := (g.note (.lock l)).inside, staged := (g.note (.lock l)).staged } := by
  cases l with
  | download name =>
    unfold note
    dsimp only
    split_ifs
    · rfl
    · rfl
  | _ => rfl

theorem note_unlock (g : Courier) (l : Lock) :
    g.note (.unlock l) = { g with inside := (g.note (.unlock l)).inside, staged := (g.note (.unlock l)).staged } := by
  cases l with
  | download name =>
    unfold note
    dsimp only
    split_ifs
    · rfl
    · rfl
  | _ => rfl

/-- A worker is inside once it takes the lock of its model's name. -/
theorem inside_lock (g : Courier) (l : Lock) :
    g.note (.lock l) = g ∨ ((g.note (.lock l)).staged = none ∧ ∃ job, g.job = some job ∧ l = .download job.2.modelName) := by
  cases l with
  | download name =>
    unfold note
    dsimp only
    split_ifs with hname
    · obtain ⟨job, hjob, heq⟩ := (Option.any_eq_true _ _).mp hname
      exact .inr ⟨rfl, job, hjob, by rw [of_decide_eq_true heq]⟩
    · exact .inl rfl
  | _ => exact .inl rfl

/-- It is outside once it releases it. -/
theorem inside_unlock {g : Courier} {l : Lock} (h : (g.note (.unlock l)).inside = true) :
    g.note (.unlock l) = g ∧ ∀ job, g.job = some job → l ≠ .download job.2.modelName := by
  cases l with
  | download name =>
    unfold note at h ⊢
    dsimp only at h ⊢
    split_ifs at h ⊢ with hname
    refine ⟨rfl, fun job hjob hl => hname ?_⟩
    rw [hjob, Option.any_some, Lock.download.inj hl, decide_eq_true rfl]
  | _ => exact ⟨rfl, fun _ _ => nofun⟩

end Courier

/-! ### The code keeps to it -/

/-- What the code of a thread keeps to. -/
abbrev couriered : Prog.Terms rtSig Courier := .ofAct Courier.Permits

abbrev Carries {α : Type} (Q : Courier → α → Prop) (g : Courier) (p : Code α) : Prop :=
  Prog.Obeys (σ := rtSig) Courier.note couriered Q g p

/-- Code that raises, of which nothing is asked then. -/
abbrev CarriesOut {α : Type} (Q : Courier → α → Prop) (R : Courier → Prop) (g : Courier) (x : Raising α) : Prop :=
  Prog.Tries (σ := rtSig) Courier.note couriered Q (fun g _ => R g) g x

section Rules

variable {α β : Type} {g : Courier} {R : Courier → Prop}

theorem carries_act {a : Act} {Q : Courier → a.Resp → Prop} (hp : g.Permits a) (h : ∀ r, Q (Courier.noteAct a r g) r) :
    Carries Q g (act a) :=
  Prog.obeys_call (σ := rtSig) hp h

theorem carriesOut_lift {Q : Courier → α → Prop} {p : Code α} (h : Carries Q g p) : CarriesOut Q R g (liftM p : Raising α) :=
  Prog.tries_lift h

/-- An operation, and what it raises. -/
theorem carriesOut_raise {Q : Courier → Prop} {p : Code (Option String)}
    (h : Carries (fun g r => (r = none → Q g) ∧ (r.isSome = true → R g)) g p) : CarriesOut (fun g _ => Q g) R g (raise p) :=
  Prog.Tries.bind (carriesOut_lift h) fun _ r hg => match r with
    | none => .ret (hg.1 rfl)
    | some _ => .ret (hg.2 rfl)

/-- Code of `P` actions keeps what they and the locks keep. -/
theorem Does.carries {P : Act → Prop} {K : Courier → Prop} {p : Code α} (h : Does P p) (hA : ∀ g a, P a → K g → g.Permits a)
    (hact : ∀ g a r, P a → K g → K (Courier.noteAct a r g)) (hlock : ∀ g l, K g → K (g.note (.lock l)))
    (hunlock : ∀ g l, K g → K (g.note (.unlock l))) (hg : K g) : Carries (fun g _ => K g) g p :=
  Prog.follows_iff.mp (h.only.follows hA hact hlock hunlock hg)

end Rules

section Commands

variable {g : Courier}

/-- The thread of a command, or the main thread. -/
def Courier.Free (g : Courier) : Prop := g.job = none

theorem Courier.Free.permits (h : g.Free) {a : Act} (ha : Ordinary a) : g.Permits a := by
  have hnone {P : Prop} (job : ℕ × DeployModelCommand) (hjob : g.job = some job) : P := by
    rw [h] at hjob
    cases hjob
  cases a with
  | register | startJob | append | replace => exact ha.elim
  | mkdir | unlink | create => exact fun job hjob => hnone job hjob
  | report r => exact fun _ job hjob => hnone job hjob
  | _ => trivial

theorem Does.couriered {α : Type} {p : Code α} (h : Does Ordinary p) (hg : g.Free) : Carries (fun g _ => g.Free) g p :=
  h.carries (fun _ _ ha hg => hg.permits ha) (fun g a r _ hg => (Courier.noteAct_job a r g).trans hg)
    (fun g l hg => (Courier.note_job g (.lock l)).trans hg) (fun g l hg => (Courier.note_job g (.unlock l)).trans hg) hg

theorem carries_report (r : Report) (hg : g.Free) : Carries (fun g _ => g.Free) g (act (.report r)) :=
  (does_report r).ordinary.couriered hg

/-- An action that a command alone does. -/
theorem carries_free {a : Act} (hg : g.Free) (hp : g.Permits a) : Carries (fun g _ => g.Free) g (act a) :=
  carries_act hp fun r => (Courier.noteAct_job a r g).trans hg

theorem carries_liveWorker (pid : String) (hg : g.Free) : Carries (fun g _ => g.Free) g (liveWorker pid) := by
  refine (carries_free (a := .getWorker pid) hg trivial).bind fun g w hg => ?_
  cases w with
  | none => exact .ret hg
  | some w => exact (carries_free (a := .jobAlive w.job) hg trivial).bind fun g alive hg => .ret hg

theorem carries_deployModel (cmd : DeployModelCommand) (hg : g.Free) : Carries (fun g _ => g.Free) g (deployModel cmd) := by
  have hlocked {l : Lock} {g : Courier} {p : Code Unit} (h : Carries (fun g _ => g.Free) (g.note (.lock l)) p) :
      Carries (fun g _ => g.Free) g (Code.locked l p) :=
    Prog.Obeys.locked (σ := rtSig) trivial h (fun _ _ _ => trivial) fun g _ hg => (Courier.note_job g (.unlock l)).trans hg
  unfold deployModel
  split
  · exact carries_report _ hg
  split_ifs with hname
  · exact carries_report _ hg
  refine hlocked ((carries_liveWorker _ ((Courier.note_job ..).trans hg)).bind fun g w hg => ?_)
  cases w with
  | some w => exact carries_report _ hg
  | none =>
    have hsafe : cmd.modelName ≠ "" → isSafeBasename cmd.modelName = true := fun hne => by
      cases hs : isSafeBasename cmd.modelName with
      | true => rfl
      | false => exact absurd ⟨hne, hs⟩ hname
    exact .act hsafe fun j => .act rfl fun _ => .ret hg

theorem carries_cancelDeploy (cid pid : String) (hg : g.Free) : Carries (fun g _ => g.Free) g (cancelDeploy cid pid) := by
  refine Prog.Obeys.bind (Q := fun g _ => g.Free) (Prog.Obeys.locked (σ := rtSig) (Q := fun g _ => g.Free) trivial
    ((carries_liveWorker pid ((Courier.note_job ..).trans hg)).bind fun g w hg => ?_) (fun _ _ _ => trivial)
      fun g _ hg => (Courier.note_job g (.unlock .self)).trans hg) fun g w hg => ?_
  · cases w with
    | none => exact (carries_report _ hg).bind fun g _ hg => .ret hg
    | some w => exact (carries_free (a := .cancelJob w.job) hg trivial).bind fun g _ hg => .ret hg
  · cases w with
    | none => exact .ret hg
    | some w =>
      refine Prog.Obeys.bind (Q := fun g _ => g.Free) ?_ fun g _ hg => carries_report _ hg
      cases w.response with
      | none => exact .ret hg
      | some k => exact carries_free (a := .closeResponse k) hg trivial

theorem carries_handleCommand (V : Validator) (me : Option ℕ) (data : Json) (hg : g.Free) :
    Carries (fun g _ => g.Free) g (handleCommand V me data) := by
  refine (carries_free (a := .getAgentConfig) hg trivial).bind fun g current hg => ?_
  split
  · rename_i cmd _
    cases cmd with
    | deployModel cmd => exact carries_deployModel cmd hg
    | cancelDeploy cid pid => exact carries_cancelDeploy cid pid hg
    | _ => exact (does_dispatch V me _ (fun _ => by simp) fun _ _ => by simp).couriered hg
  · split
    · split_ifs
      · exact .ret hg
      · exact carries_report _ hg
    · exact .ret hg

end Commands

/-! ### A worker -/

section Worker

variable {j : ℕ} {cmd : DeployModelCommand} {d : Path} {r : Option Response} {b : Option Bytes} {g : Courier}

/-- The actions that are about no file and start no job; they complete nothing. -/
def Desk : Act → Prop
  | .register _ _ | .startJob _ | .cwd | .mkdir _ | .unlink _ | .create _ | .append _ _ | .replace _ _ | .download _ => False
  | .report r => ¬Completes r
  | _ => True

theorem Desk.permits {a : Act} (h : Desk a) (g : Courier) : g.Permits a := by
  cases a with
  | report r => exact fun hr => absurd hr h
  | register | startJob | mkdir | unlink | create | append | replace => exact h.elim
  | _ => trivial

/-- Of such an action a worker keeps at most that its target is there. -/
theorem Desk.noteAct {a : Act} (h : Desk a) (r : a.Resp) (g : Courier) :
    Courier.noteAct a r g = { g with placed := (Courier.noteAct a r g).placed } ∧
      (g.placed = true → (Courier.noteAct a r g).placed = true) := by
  cases a with
  | lookup p =>
    cases r with
    | none => exact ⟨rfl, id⟩
    | some n =>
      simp only [Courier.noteAct]
      split_ifs
      · exact ⟨rfl, fun _ => rfl⟩
      · exact ⟨rfl, id⟩
  | report told =>
    cases told with
    | command _ status output =>
      cases status with
      | completed => exact absurd trivial h
      | failed => exact ⟨rfl, id⟩
    | _ => exact ⟨rfl, id⟩
  | register | startJob | cwd | mkdir | unlink | create | append | replace | download => exact h.elim
  | _ => exact ⟨rfl, id⟩

/-- The worker of the job, where the models lie in `d`, inside the lock of its model's name;
`r` is the reply it has, and `b` what it wrote of it. -/
structure Busy (j : ℕ) (cmd : DeployModelCommand) (d : Path) (r : Option Response) (b : Option Bytes) (g : Courier) :
    Prop where
  job : g.job = some (j, cmd)
  dir : g.dir = some d
  inside : g.inside = true
  reply : g.reply = r
  staged : g.staged = b

/-- The worker inside the lock, whatever it wrote. -/
def Inside (j : ℕ) (cmd : DeployModelCommand) (d : Path) (g : Courier) : Prop := ∃ r b, Busy j cmd d r b g

theorem Busy.target (h : Busy j cmd d r b g) : g.target = some (d.div cmd.modelName) := by
  unfold Courier.target
  rw [h.dir, h.job]
  rfl

/-- The path of the file beside the target. -/
def Beside (cmd : DeployModelCommand) (d p : Path) : Prop :=
  (d.div cmd.modelName).withName ((d.div cmd.modelName).name ++ ".partial") = some p

theorem Busy.stages {p : Path} (h : Busy j cmd d r b g) (hp : Beside cmd d p) : g.Stages p := ⟨_, h.target, hp⟩

theorem Busy.desk {a : Act} (hg : Busy j cmd d r b g) (ha : Desk a) :
    Carries (fun g _ => Busy j cmd d r b g) g (act a) := by
  refine carries_act (ha.permits g) fun x => ?_
  rw [(ha.noteAct x g).1]
  exact ⟨hg.job, hg.dir, hg.inside, hg.reply, hg.staged⟩

theorem Inside.desk {a : Act} (hg : Inside j cmd d g) (ha : Desk a) : Carries (fun g _ => Inside j cmd d g) g (act a) := by
  obtain ⟨r, b, hg⟩ := hg
  exact (hg.desk ha).mono fun _ _ h => ⟨r, b, h⟩

theorem Busy.attach (hg : Busy j cmd d r b g) (k : Option ℕ) :
    Carries (fun g _ => Busy j cmd d r b g) g (attachResponse cmd.pipelineId cmd.id k) :=
  Prog.Obeys.locked (σ := rtSig) (Q := fun g _ => Busy j cmd d r b g) trivial
    (Busy.desk (a := .attachResponse cmd.pipelineId cmd.id k) hg trivial) (fun _ _ _ => trivial) fun _ _ hg => hg

theorem Inside.attach (hg : Inside j cmd d g) (k : Option ℕ) :
    Carries (fun g _ => Inside j cmd d g) g (attachResponse cmd.pipelineId cmd.id k) := by
  obtain ⟨r, b, hg⟩ := hg
  exact (hg.attach k).mono fun _ _ h => ⟨r, b, h⟩

theorem Inside.cleanup {p : Path} (hg : Inside j cmd d g) (hp : Beside cmd d p) :
    Carries (fun g _ => Inside j cmd d g) g (cleanupPartial p) := by
  refine (hg.desk (a := .lookup p) trivial).bind fun g n hg => ?_
  obtain ⟨r, b, hg⟩ := hg
  split_ifs
  · refine Prog.Obeys.act (fun _ _ => ⟨hg.inside, hg.stages hp⟩) fun e => .ret ⟨r, none, ?_⟩
    exact ⟨hg.job, hg.dir, hg.inside, hg.reply, rfl⟩
  · exact .ret ⟨r, b, hg⟩

theorem Inside.cancelled (hg : Inside j cmd d g) : Carries (fun g _ => Inside j cmd d g) g (reportCancelled cmd) := by
  refine (hg.desk (a := .report (.deploymentProgress ..)) id).bind fun g _ hg => ?_
  refine (hg.desk (a := .setDeployment ..) trivial).bind fun g _ hg => ?_
  exact hg.desk (a := .report (.command _ .failed _)) id

/-- A chunk that is written is added to what was. -/
theorem Busy.append {w : Bytes} {p : Path} (hg : Busy j cmd d r (some w) g) (hp : Beside cmd d p) (chunk : Bytes) :
    CarriesOut (fun g _ => Busy j cmd d r (some (w ++ chunk)) g) (Inside j cmd d) g (raise (act (.append p chunk))) := by
  refine carriesOut_raise (carries_act (a := .append p chunk) (fun _ _ => ⟨hg.inside, hg.stages hp⟩) fun e => ?_)
  cases e with
  | some e => exact ⟨nofun, fun _ => ⟨r, some w, hg⟩⟩
  | none =>
    refine ⟨fun _ => ⟨hg.job, hg.dir, hg.inside, hg.reply, ?_⟩, nofun⟩
    change g.staged.map (· ++ chunk) = _
    rw [hg.staged]
    rfl

theorem carriesOut_writeChunks {p : Path} (hp : Beside cmd d p) (total : ℕ) : ∀ (chunks : List Bytes) (w : Bytes) (last : ℤ)
    {g : Courier}, Busy j cmd d r (some w) g → CarriesOut (fun g (x : Bool × ℕ) => Inside j cmd d g ∧
      (x.1 = false → Busy j cmd d r (some (w ++ chunks.flatten)) g ∧ x.2 = (w ++ chunks.flatten).length)) (Inside j cmd d) g
        (writeChunks j cmd p total chunks w.length last)
  | [], w, last, g, hg => by
    rw [List.flatten_nil, List.append_nil]
    exact Prog.tries_pure ⟨⟨r, _, hg⟩, fun _ => ⟨hg, rfl⟩⟩
  | chunk :: chunks, w, last, g, hg => by
    have ih := carriesOut_writeChunks hp total chunks (w ++ chunk)
    rw [List.append_assoc, ← List.flatten_cons] at ih
    unfold writeChunks
    refine Prog.Tries.bind (carriesOut_lift (hg.desk (a := .isCancelled j) trivial)) fun g c hg => ?_
    cases c with
    | true => exact Prog.tries_pure ⟨⟨r, _, hg⟩, fun h => by cases h⟩
    | false =>
      refine Prog.Tries.bind (hg.append hp chunk) fun g _ hg => ?_
      dsimp only
      rw [← List.length_append]
      split_ifs
      · refine Prog.Tries.bind (carriesOut_lift (hg.desk (a := .report (.deploymentProgress ..)) id)) fun g _ hg => ?_
        refine Prog.Tries.bind (carriesOut_lift (hg.desk (a := .setDeployment ..) trivial)) fun g _ hg => ?_
        exact ih _ hg
      · exact ih _ hg

/-- Where it is not cancelled a fetch wrote all of its reply. -/
def FetchedAs (j : ℕ) (cmd : DeployModelCommand) (d : Path) (g : Courier) (x : Bool × ℕ × ℕ) : Prop :=
  Inside j cmd d g ∧ (x.1 = false → ∃ r, Busy j cmd d (some r) (some r.chunks.flatten) g ∧ r.error = none ∧
    r.length = .ok x.2.1 ∧ x.2.2 = r.chunks.flatten.length)

theorem carriesOut_fetch (url : String) {p : Path} (hg : Inside j cmd d g) (hp : Beside cmd d p) :
    CarriesOut (FetchedAs j cmd d) (Inside j cmd d) g (fetch j cmd url p) := by
  have hpure {α : Type} {g : Courier} {x : Except String α} (hg : Inside j cmd d g) :
      CarriesOut (fun g' a => g' = g ∧ x = .ok a) (Inside j cmd d) g (ExceptT.mk (pure x)) := by
    cases x with
    | ok a => exact Prog.Obeys.ret ⟨rfl, rfl⟩
    | error e => exact Prog.Obeys.ret hg
  have hraised {g : Courier} {e : Option String} (hg : Inside j cmd d g) :
      CarriesOut (fun g' _ => g' = g ∧ e = none) (Inside j cmd d) g (raise (pure e)) :=
    carriesOut_raise (Prog.obeys_pure ⟨fun he => ⟨rfl, he⟩, fun _ => hg⟩)
  have hget : CarriesOut (fun g reply => ∃ b, Busy j cmd d (some reply) b g) (Inside j cmd d) g
      (ExceptT.mk (act (.download url))) := by
    obtain ⟨r, b, hg⟩ := hg
    refine carries_act (a := .download url) trivial fun x => ?_
    cases x with
    | ok reply => exact ⟨none, hg.job, hg.dir, hg.inside, rfl, rfl⟩
    | error e => exact ⟨r, b, hg⟩
  unfold fetch
  refine Prog.Tries.bind hget fun g reply hg => ?_
  obtain ⟨b, hg⟩ := hg
  refine Prog.Tries.bind (carriesOut_lift (hg.attach (some j))) fun g _ hg => ?_
  refine Prog.Tries.bind (hraised ⟨_, _, hg⟩) fun _ _ h => ?_
  obtain ⟨rfl, -⟩ := h
  refine Prog.Tries.bind (hpure ⟨_, _, hg⟩) fun _ total h => ?_
  obtain ⟨rfl, hlength⟩ := h
  refine Prog.Tries.bind (carriesOut_lift (hg.desk (a := .report (.deploymentProgress ..)) id)) fun g _ hg => ?_
  refine Prog.Tries.bind (carriesOut_lift (hg.desk (a := .setDeployment ..) trivial)) fun g _ hg => ?_
  have hcreate : CarriesOut (fun g _ => Busy j cmd d (some reply) (some []) g) (Inside j cmd d) g (raise (act (.create p))) := by
    refine carriesOut_raise (carries_act (a := .create p) (fun _ _ => ⟨hg.inside, hg.stages hp⟩) fun e => ?_)
    cases e with
    | some e => exact ⟨nofun, fun _ => ⟨_, _, hg⟩⟩
    | none => exact ⟨fun _ => ⟨hg.job, hg.dir, hg.inside, hg.reply, rfl⟩, nofun⟩
  refine Prog.Tries.bind hcreate fun g _ hg => ?_
  refine Prog.Tries.bind (carriesOut_writeChunks hp total reply.chunks [] (-1) hg) fun g x hx => ?_
  obtain ⟨cancelled, done⟩ := x
  cases cancelled with
  | true => exact Prog.tries_pure ⟨hx.1, nofun⟩
  | false =>
    obtain ⟨hg, hdone⟩ := hx.2 rfl
    refine Prog.Tries.bind (hraised ⟨_, _, hg⟩) fun _ _ h => ?_
    obtain ⟨rfl, herror⟩ := h
    exact Prog.tries_pure ⟨⟨_, _, hg⟩, fun _ => ⟨reply, hg, herror, hlength, hdone⟩⟩

/-- The rename comes after the check of what was written. -/
theorem carriesOut_downloadAndPublish (url : String) {p : Path} (hg : Inside j cmd d g) (hp : Beside cmd d p) :
    CarriesOut (fun g there => Inside j cmd d g ∧ (there = true → g.placed = true)) (Inside j cmd d) g
      (downloadAndPublish j cmd url (d.div cmd.modelName) p) := by
  have hno {g : Courier} (hg : Inside j cmd d g) : CarriesOut (fun g there => Inside j cmd d g ∧ (there = true → g.placed = true))
      (Inside j cmd d) g (pure false) := Prog.tries_pure ⟨hg, nofun⟩
  have hfailed {g : Courier} {output : String} (hg : Inside j cmd d g) :
      Carries (fun g _ => Inside j cmd d g) g (reportCommand cmd.id .failed output) :=
    hg.desk (a := .report (.command _ .failed _)) id
  have hshown {g : Courier} (hg : Inside j cmd d g) :
      Carries (fun g _ => Inside j cmd d g) g (act (.setDeployment cmd.pipelineId .completed 0 cmd.modelName)) :=
    hg.desk (a := .setDeployment ..) trivial
  unfold downloadAndPublish
  refine Prog.Tries.bind (carriesOut_lift (hg.cleanup hp)) fun g _ hg => ?_
  have hfetch : Carries (fun g x => Prog.Ends (FetchedAs j cmd d) (fun g _ => Inside j cmd d g) g x) g
      (fetch j cmd url p).run := carriesOut_fetch url hg hp
  refine Prog.Tries.bind (carriesOut_lift hfetch) fun g x hx => ?_
  match x with
  | .error e =>
    have hg : Inside j cmd d g := hx
    refine Prog.Tries.bind (carriesOut_lift (hg.desk (a := .isCancelled j) trivial)) fun g c hg => ?_
    cases c with
    | true =>
      refine Prog.Tries.bind (carriesOut_lift (hg.attach none)) fun g _ hg => ?_
      refine Prog.Tries.bind (carriesOut_lift (hg.cleanup hp)) fun g _ hg => ?_
      exact Prog.Tries.bind (carriesOut_lift hg.cancelled) fun g _ hg => hno hg
    | false =>
      refine Prog.Tries.bind (carriesOut_lift (hg.cleanup hp)) fun g _ hg => ?_
      refine Prog.Tries.bind (carriesOut_lift (hfailed hg)) fun g _ hg => ?_
      refine Prog.Tries.bind (carriesOut_lift (hshown hg)) fun g _ hg => ?_
      exact Prog.Tries.bind (carriesOut_lift (hg.attach none)) fun g _ hg => hno hg
  | .ok (cancelled, total, done) =>
    obtain ⟨hg, hfetched⟩ := hx
    cases cancelled with
    | true =>
      refine Prog.Tries.bind (carriesOut_lift (hg.attach none)) fun g _ hg => ?_
      refine Prog.Tries.bind (carriesOut_lift (hg.cleanup hp)) fun g _ hg => ?_
      exact Prog.Tries.bind (carriesOut_lift hg.cancelled) fun g _ hg => hno hg
    | false =>
      obtain ⟨reply, hg, herror, hlength, rfl⟩ := hfetched rfl
      refine Prog.Tries.bind (carriesOut_lift (hg.attach none)) fun g _ hg => ?_
      simp only [Bool.false_eq_true, if_false]
      split
      · have hg : Inside j cmd d g := ⟨_, _, hg⟩
        refine Prog.Tries.bind (carriesOut_lift (hg.cleanup hp)) fun g _ hg => ?_
        refine Prog.Tries.bind (carriesOut_lift (hfailed hg)) fun g _ hg => ?_
        exact Prog.Tries.bind (carriesOut_lift (hshown hg)) fun g _ hg => hno hg
      · rename_i hwhole
        refine Prog.Tries.bind (carriesOut_lift (hg.desk (a := .isCancelled j) trivial)) fun g c hg => ?_
        cases c with
        | true =>
          have hg : Inside j cmd d g := ⟨_, _, hg⟩
          refine Prog.Tries.bind (carriesOut_lift (hg.cleanup hp)) fun g _ hg => ?_
          exact Prog.Tries.bind (carriesOut_lift hg.cancelled) fun g _ hg => hno hg
        | false =>
          have hall : total ≠ 0 → reply.chunks.flatten.length = total := fun ht =>
            not_not.mp fun hne => hwhole ⟨ht, hne⟩
          have hreplaced : CarriesOut (fun g _ => Inside j cmd d g ∧ g.placed = true) (Inside j cmd d) g
              (raise (act (.replace p (d.div cmd.modelName)))) := by
            refine carriesOut_raise (carries_act (a := .replace p (d.div cmd.modelName)) (fun _ _ =>
              ⟨hg.inside, hg.stages hp, hg.target, reply, total, hg.reply, herror, hlength, hg.staged, hall⟩) fun e => ?_)
            cases e with
            | some e => exact ⟨nofun, fun _ => ⟨_, _, hg⟩⟩
            | none => exact ⟨fun _ => ⟨⟨_, none, hg.job, hg.dir, hg.inside, hg.reply, rfl⟩, rfl⟩, nofun⟩
          exact Prog.Tries.bind hreplaced fun g _ hg => Prog.tries_pure ⟨hg.1, fun _ => hg.2⟩

/-- The worker of the job; `has` when its target is there. -/
structure Away (j : ℕ) (cmd : DeployModelCommand) (has : Bool) (g : Courier) : Prop where
  job : g.job = some (j, cmd)
  has : has = true → g.placed = true

theorem Inside.away (h : Inside j cmd d g) : Away j cmd false g := by
  obtain ⟨r, b, h⟩ := h
  exact ⟨h.job, nofun⟩

theorem Away.note {has : Bool} (h : Away j cmd has g) (l : Lock) :
    Away j cmd has (g.note (.lock l)) ∧ Away j cmd has (g.note (.unlock l)) := by
  refine ⟨?_, ?_⟩
  · rw [Courier.note_lock]
    exact ⟨h.job, h.has⟩
  · rw [Courier.note_unlock]
    exact ⟨h.job, h.has⟩

theorem Does.away {α : Type} {p : Code α} {has : Bool} (h : Does Desk p) (hg : Away j cmd has g) :
    Carries (fun g _ => Away j cmd has g) g p :=
  h.carries (fun g _ ha _ => ha.permits g) (fun g a r ha hg => by
    refine ⟨(Courier.noteAct_job a r g).trans hg.job, fun hh => (ha.noteAct r g).2 (hg.has hh)⟩)
    (fun _ l hg => (hg.note l).1) (fun _ l hg => (hg.note l).2) hg

theorem does_desk_reportCancelled : Does Desk (reportCancelled cmd) :=
  .bind (does_act (a := .report (.deploymentProgress ..)) id) fun _ =>
    .bind (does_act (a := .setDeployment ..) trivial) fun _ => does_act (a := .report (.command _ .failed _)) id

theorem does_desk_commitDeploy : Does Desk (commitDeploy j cmd) := by
  refine .bind (does_act (a := .report (.deploymentProgress ..)) id) fun _ => ?_
  refine .bind (does_act (a := .setDeployment ..) trivial) fun _ => .locked (.locked ?_ _) _
  refine .bind (does_act (a := .isCancelled j) trivial) fun c => .ite (does_pure _) ?_
  exact .bind (does_act (a := .setConfig ..) trivial) fun _ => .bind (does_act (a := .store _) trivial) fun _ => does_pure _

/-- A worker reports its deploy completed when its target is there. -/
theorem carriesOut_deploySteps (hg : Away j cmd false g) :
    CarriesOut (fun g _ => Away j cmd false g) (Away j cmd false) g (deploySteps j cmd) := by
  unfold deploySteps
  refine Prog.Tries.bind (Q := fun g cwd => Away j cmd false g ∧ g.dir = some (cwd.div "models"))
    (carriesOut_lift (carries_act (a := .cwd) trivial fun cwd => ⟨⟨hg.job, nofun⟩, rfl⟩)) fun g cwd hg => ?_
  have hmkdir : CarriesOut (fun g _ => Away j cmd false g ∧ g.dir = some (cwd.div "models")) (Away j cmd false) g
      (raise (act (.mkdir (cwd.div "models")))) :=
    carriesOut_raise (carries_act (a := .mkdir _) (fun _ _ => hg.2) fun e => ⟨fun _ => ⟨⟨hg.1.job, nofun⟩, hg.2⟩,
      fun _ => ⟨hg.1.job, nofun⟩⟩)
  refine Prog.Tries.bind hmkdir fun g _ hg => ?_
  dsimp only
  split
  · exact Prog.tries_throw hg.1
  rename_i p hp
  refine Prog.Tries.bind (Q := fun g _ => Away j cmd false g ∧ g.dir = some (cwd.div "models"))
    (carriesOut_lift (carries_act (a := .getAgentConfig) trivial fun _ => ⟨⟨hg.1.job, nofun⟩, hg.2⟩)) fun g current hg => ?_
  have hlock : Carries (fun g l => (Away j cmd false g ∧ g.dir = some (cwd.div "models")) ∧ l = .download cmd.modelName) g
      (downloadLockFor cmd.modelName) :=
    Prog.Obeys.locked (σ := rtSig)
      (Q := fun g (l : Lock) => (Away j cmd false g ∧ g.dir = some (cwd.div "models")) ∧ l = .download cmd.modelName)
      (R := fun g (l : Lock) => (Away j cmd false g ∧ g.dir = some (cwd.div "models")) ∧ l = .download cmd.modelName) trivial
      (Prog.obeys_pure ⟨hg, rfl⟩) (fun _ _ _ => trivial) fun _ _ h => h
  refine Prog.Tries.bind (carriesOut_lift hlock) fun g lock h => ?_
  obtain ⟨hg, rfl⟩ := h
  have hunlock {g : Courier} {there : Bool} (h : Inside j cmd (cwd.div "models") g ∧ (there = true → g.placed = true)) :
      Away j cmd there (g.note (.unlock (.download cmd.modelName))) := by
    have haway : Away j cmd there g := ⟨h.1.away.job, h.2⟩
    exact (haway.note _).2
  refine Prog.Tries.bind (Q := fun g there => Away j cmd there g) (Prog.Tries.locked
    (Q := fun g there => Inside j cmd (cwd.div "models") g ∧ (there = true → g.placed = true))
    (R := fun g _ => Inside j cmd (cwd.div "models") g) trivial ?_ (fun _ _ h => ⟨trivial, hunlock h⟩)
      fun _ _ h => ⟨trivial, (h.away.note _).2⟩) fun g there hg => ?_
  · have hin : Inside j cmd (cwd.div "models") (g.note (.lock (.download cmd.modelName))) := by
      refine ⟨g.reply, none, ?_⟩
      unfold Courier.note
      dsimp only
      rw [hg.1.job, Option.any_some, decide_eq_true rfl, if_pos rfl]
      exact ⟨rfl, hg.2, rfl, rfl, rfl⟩
    refine Prog.Tries.bind (carriesOut_lift (hin.desk (a := .isCancelled j) trivial)) fun g c hg => ?_
    cases c with
    | true => exact Prog.Tries.bind (carriesOut_lift hg.cancelled) fun g _ hg => Prog.tries_pure ⟨hg, nofun⟩
    | false =>
      have hlook : Carries (fun g (n : Option Node) => Inside j cmd (cwd.div "models") g ∧ (n.isSome = true → g.placed = true)) g
          (act (.lookup ((cwd.div "models").div cmd.modelName))) := by
        obtain ⟨r, b, hg⟩ := hg
        refine carries_act (a := .lookup _) trivial fun n => ?_
        cases n with
        | none => exact ⟨⟨r, b, hg⟩, nofun⟩
        | some n =>
          have hnote : Courier.noteAct (.lookup ((cwd.div "models").div cmd.modelName)) (some n) g =
              { g with placed := true } := if_pos hg.target
          rw [hnote]
          exact ⟨⟨r, b, hg.job, hg.dir, hg.inside, hg.reply, hg.staged⟩, fun _ => rfl⟩
      refine Prog.Tries.bind (carriesOut_lift hlook) fun g n h => ?_
      split
      · rename_i hn
        exact Prog.tries_pure ⟨h.1, fun _ => h.2 hn⟩
      · exact carriesOut_downloadAndPublish _ h.1 hp
  · have haway {g : Courier} {has : Bool} (h : Away j cmd has g) : Away j cmd false g := ⟨h.job, nofun⟩
    cases there with
    | false => exact Prog.tries_pure hg
    | true =>
      refine Prog.Tries.bind (carriesOut_lift (does_desk_commitDeploy.away hg)) fun g c hg => ?_
      cases c with
      | false => exact carriesOut_lift (does_desk_reportCancelled.away (haway hg))
      | true =>
        refine Prog.Tries.bind (carriesOut_lift
          ((does_act (P := Desk) (a := .report (.deploymentProgress ..)) id).away hg)) fun g _ hg => ?_
        refine Prog.Tries.bind (carriesOut_lift
          ((does_act (P := Desk) (a := .setDeployment ..) trivial).away hg)) fun g _ hg => ?_
        exact carriesOut_lift (carries_act (a := .report _) (fun _ _ _ => hg.has rfl) fun _ => ⟨hg.job, nofun⟩)

theorem carries_deployWorker (j : ℕ) (cmd : DeployModelCommand) :
    Carries (fun _ _ => True) { job := some (j, cmd) } (deployWorker j cmd) := by
  have hlast {g : Courier} (hg : Away j cmd false g) : Carries (fun _ _ => True) g (do
      locked .self (act (.dropWorker cmd.pipelineId cmd.id))
      act (.endJob j)) := by
    have hdoes : Does Desk (do
        locked .self (act (.dropWorker cmd.pipelineId cmd.id))
        act (.endJob j)) :=
      .bind (.locked (does_act (a := .dropWorker ..) trivial) _) fun _ => does_act (a := .endJob j) trivial
    exact (hdoes.away hg).mono fun _ _ _ => trivial
  have hborn : Away j cmd false { job := some (j, cmd) } := ⟨rfl, nofun⟩
  have hsteps : Carries (fun g _ => Away j cmd false g) { job := some (j, cmd) } (deploySteps j cmd).run :=
    Prog.Obeys.mono (fun g x h => match x with
      | .ok _ => h
      | .error _ => h) (carriesOut_deploySteps hborn)
  refine hsteps.bind fun g x hg => ?_
  cases x with
  | ok u => exact hlast hg
  | error e =>
    refine ((does_act (P := Desk) (a := .report (.command _ .failed _)) id).away hg).bind fun g _ hg => ?_
    exact ((does_act (P := Desk) (a := .setDeployment ..) trivial).away hg).bind fun g _ hg => hlast hg

end Worker

end AgentRuntime
end LocaiLink
