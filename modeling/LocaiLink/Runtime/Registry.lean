/-
# The register of deploy workers along a run

Which worker is registered for an id, over every interleaving of commands and
deploy threads: a worker at work is the one that is registered for its id, a
thread that is inside the runtime's lock knows what it looked up there, and a
cancelled job stays cancelled. The rule for threads that follow a protocol makes
this an invariant of the machine (`kept_exec`).
-/
import LocaiLink.Runtime.Threads
import LocaiLink.Runtime.Workers

namespace LocaiLink
namespace AgentRuntime

open Code Rt Machine

/-- The workers, the jobs, and how many there are. -/
structure Roster where
  workers : Dict String AgentWorker
  jobs : ℕ → Job
  nextJob : ℕ

/-- The part of the state that deploys are registered in. -/
def roster (s : Rt) : Roster := ⟨s.workers, s.jobs, s.nextJob⟩

/-- The actions that change it. -/
def Enrols : Act → Prop
  | .register _ _ | .startJob _ | .endJob _ | .cancelJob _ | .attachResponse _ _ _ | .closeResponse _ | .dropWorker _ _ =>
    True
  | _ => False

theorem roster_appendTo (p : Path) (chunk : Bytes) (s : Rt) : roster (s.appendTo p chunk) = roster s := by
  unfold appendTo
  split <;> rfl

theorem roster_fileOp {fails : Option String} {f : Rt → Rt} (h : ∀ s, roster (f s) = roster s) (s : Rt) :
    roster (s.fileOp fails f).2 = roster s := by
  unfold fileOp
  split
  · rfl
  · rw [h]
    rfl

theorem roster_perform {a : Act} (h : ¬Enrols a) (s : Rt) : roster (perform a s).2 = roster s := by
  cases a <;> simp only [Enrols, not_true_eq_false, not_false_eq_true] at h <;> simp only [perform] <;> try rfl
  case updateArgs => unfold modifyStored; split <;> rfl
  case createComponent => split <;> rfl
  case join => unfold Rt.join; split_ifs <;> rfl
  case store => unfold performStore; split <;> rfl
  case mkdir p => exact roster_fileOp (f := setNode p _) (fun _ => rfl) s
  case unlink p => exact roster_fileOp (f := setNode p _) (fun _ => rfl) s
  case create p => exact roster_fileOp (f := setNode p _) (fun _ => rfl) s
  case append p chunk => exact roster_fileOp (roster_appendTo p chunk) s
  case replace p q => exact roster_fileOp (f := fun t => (t.setNode p none).setNode q _) (fun _ => rfl) s
  case savePending => split <;> rfl
  case report => split <;> rfl
  case setDeployment => unfold Rt.setDeployment; split <;> [skip; split] <;> rfl

namespace Roster

/-- The thread of a job runs. -/
def alive (r : Roster) (j : ℕ) : Bool := (r.jobs j).started && !(r.jobs j).ended

/-- The job's worker is the one that is registered for its id. -/
def Registered (r : Roster) (j : ℕ) : Prop := ∃ w, r.workers.get? (r.jobs j).cmd.pipelineId = some w ∧ w.job = j

theorem Registered.unique {r : Roster} {i j : ℕ} (hi : r.Registered i) (hj : r.Registered j)
    (hpid : (r.jobs i).cmd.pipelineId = (r.jobs j).cmd.pipelineId) : i = j := by
  obtain ⟨v, hv, rfl⟩ := hi
  obtain ⟨w, hw, rfl⟩ := hj
  rw [hpid, hw, Option.some.injEq] at hv
  rw [hv]

/-- What holds of the register at any time. -/
structure Sound (r : Roster) : Prop where
  fresh : ∀ j, r.nextJob ≤ j → (r.jobs j).started = false ∧ (r.jobs j).cancelled = false
  waiting : ∀ j, (r.jobs j).started = true → (r.jobs j).entered = false → (r.jobs j).ended = false ∧ r.Registered j
  named : ∀ pid w, r.workers.get? pid = some w → w.job < r.nextJob ∧ (r.jobs w.job).cmd.pipelineId = pid ∧
    ∀ k, w.response = some k → k = w.job

/-- What a thread knows is so. -/
def Knows (r : Roster) : Known → Prop
  | .nothing => True
  | .worker pid w => r.workers.get? pid = some w
  | .clear pid => ∀ w, r.workers.get? pid = some w → r.alive w.job = false
  | .made j cmd => r.Registered j ∧ (r.jobs j).cmd = cmd ∧ (r.jobs j).started = false ∧ (r.jobs j).entered = false ∧
      (r.jobs j).ended = false
  | .going j => (r.jobs j).cancelled = false

/-- The thread of a job: until its worker gives up its registration it is registered. -/
structure Enlisted (r : Roster) (retired : Bool) (j : ℕ) (cmd : DeployModelCommand) : Prop where
  started : (r.jobs j).started = true
  entered : (r.jobs j).entered = true
  cmd : (r.jobs j).cmd = cmd
  going : retired = false → (r.jobs j).ended = false
  registered : retired = false → r.Registered j

end Roster

/-- What holds of a thread: of its job, of what it knows, and of whom it cancelled. -/
structure Mine (r : Roster) (held : Lock → Option (ℕ × ℕ)) (i : ℕ) (g : Doing) : Prop where
  job : ∀ j cmd, g.job = some (j, cmd) → r.Enlisted g.retired j cmd
  inside : ∀ k, g.known = some k → Holding (σ := rtSig) held .self i
  known : ∀ k, g.known = some k → r.Knows k
  cancelled : ∀ w, g.cancelled = some w → ∀ k, w.response = some k → k = w.job

/-- **The invariant** of the register, the runtime's lock and the threads. -/
structure Kept (s : Rt) (held : Lock → Option (ℕ × ℕ)) (gs : List Doing) : Prop where
  sound : (roster s).Sound
  mine : ∀ i g, gs[i]? = some g → Mine (roster s) held i g
  one : ∀ (i i' : ℕ) (g g' : Doing) (j : ℕ) (cmd cmd' : DeployModelCommand), gs[i]? = some g → gs[i']? = some g' → g.job = some (j, cmd) →
    g'.job = some (j, cmd') → i = i'
  has : ∀ j, (s.jobs j).entered = true → ∃ (i : ℕ) (g : Doing) (cmd : DeployModelCommand),
    gs[i]? = some g ∧ g.job = some (j, cmd)

section Kept

variable {s s' : Rt} {held held' : Lock → Option (ℕ × ℕ)} {gs : List Doing} {i : ℕ} {g g' : Doing}

/-- Only one thread is inside. -/
theorem Kept.alone (h : Kept s held gs) {k : Known} (hi : gs[i]? = some g) (hk : g.known = some k) {i' : ℕ}
    (hi' : gs[i']? = some g') (hne : i' ≠ i) : g'.known = none := by
  by_contra hsome
  obtain ⟨k', hk'⟩ := Option.ne_none_iff_exists'.mp hsome
  exact hne (((h.mine i' g' hi').inside k' hk').unique ((h.mine i g hi).inside k hk))

/-- One thread's deed: what has to be seen to for it, for the others and for the register. -/
theorem Kept.deed (h : Kept s held gs) (hi : gs[i]? = some g) (hjob : g'.job = g.job) (hsound : (roster s').Sound)
    (hmine : Mine (roster s') held' i g')
    (hothers : ∀ k x, k ≠ i → gs[k]? = some x → Mine (roster s) held k x → Mine (roster s') held' k x)
    (hentered : ∀ j, (s'.jobs j).entered = true → (s.jobs j).entered = true) : Kept s' held' (gs.set i g') := by
  have hback {k : ℕ} {x : Doing} (hk : (gs.set i g')[k]? = some x) : ∃ y, gs[k]? = some y ∧ x.job = y.job := by
    rcases getElem?_set_cases hk with ⟨rfl, rfl⟩ | ⟨-, hk⟩
    · exact ⟨g, hi, hjob⟩
    · exact ⟨x, hk, rfl⟩
  refine ⟨hsound, fun k x hk => ?_, fun k k' x x' j cmd cmd' hk hk' hx hx' => ?_, fun j hj => ?_⟩
  · rcases getElem?_set_cases hk with ⟨rfl, rfl⟩ | ⟨hne, hk⟩
    · exact hmine
    · exact hothers k x hne hk (h.mine k x hk)
  · obtain ⟨y, hy, hxy⟩ := hback hk
    obtain ⟨y', hy', hxy'⟩ := hback hk'
    exact h.one k k' y y' j cmd cmd' hy hy' (hxy ▸ hx) (hxy' ▸ hx')
  · obtain ⟨k, x, cmd, hk, hx⟩ := h.has j (hentered j hj)
    by_cases hki : k = i
    · subst hki
      obtain rfl := Option.some.inj (hk.symm.trans hi)
      exact ⟨k, g', cmd, List.getElem?_set_self' .. |>.trans (by rw [hi]; rfl), hjob.trans hx⟩
    · exact ⟨k, x, cmd, (List.getElem?_set_ne (Ne.symm hki)).trans hk, hx⟩

end Kept

/-! ### A change of one job -/

namespace Roster

variable {r : Roster} {j : ℕ} {f : Job → Job} {W : Dict String AgentWorker}

def setJob (j : ℕ) (f : Job → Job) (r : Roster) : Roster := { r with jobs := Function.update r.jobs j (f (r.jobs j)) }

theorem jobs_setJob (i : ℕ) : (r.setJob j f).jobs i = if i = j then f (r.jobs j) else r.jobs i :=
  Function.update_apply ..

theorem cmd_setJob (hcmd : (f (r.jobs j)).cmd = (r.jobs j).cmd) (i : ℕ) :
    ((r.setJob j f).jobs i).cmd = (r.jobs i).cmd := by
  rw [jobs_setJob]
  split_ifs with h
  · rw [hcmd, h]
  · rfl

theorem registered_setJob (hcmd : (f (r.jobs j)).cmd = (r.jobs j).cmd) (i : ℕ) :
    (r.setJob j f).Registered i ↔ r.Registered i := by
  unfold Registered
  rw [cmd_setJob hcmd]
  exact Iff.rfl

theorem Sound.setJob (h : r.Sound) (hcmd : (f (r.jobs j)).cmd = (r.jobs j).cmd)
    (hfresh : r.nextJob ≤ j → (f (r.jobs j)).started = false ∧ (f (r.jobs j)).cancelled = false)
    (hwait : (f (r.jobs j)).started = true → (f (r.jobs j)).entered = false →
      (f (r.jobs j)).ended = false ∧ r.Registered j) : (r.setJob j f).Sound := by
  refine ⟨fun i hi => ?_, fun i hs he => ?_, fun pid w hw => ?_⟩
  · rw [jobs_setJob]
    split_ifs with hij
    · exact hfresh (hij ▸ hi)
    · exact h.fresh i hi
  · rw [registered_setJob hcmd]
    rw [jobs_setJob] at hs he ⊢
    split_ifs at hs he ⊢ with hij
    · exact hij ▸ hwait hs he
    · exact h.waiting i hs he
  · rw [cmd_setJob hcmd]
    exact h.named pid w hw

theorem Enlisted.setJob {retired : Bool} {i : ℕ} {cmd : DeployModelCommand} (h : r.Enlisted retired i cmd)
    (hcmd : (f (r.jobs j)).cmd = (r.jobs j).cmd) (hkeep : i = j → (f (r.jobs j)).started = true ∧
      (f (r.jobs j)).entered = true ∧ (retired = false → (f (r.jobs j)).ended = false)) :
    (r.setJob j f).Enlisted retired i cmd := by
  have hjob : ((r.setJob j f).jobs i).started = true ∧ ((r.setJob j f).jobs i).entered = true ∧
      (retired = false → ((r.setJob j f).jobs i).ended = false) := by
    rw [jobs_setJob]
    split_ifs with hij
    · exact hkeep hij
    · exact ⟨h.started, h.entered, h.going⟩
  exact ⟨hjob.1, hjob.2.1, (cmd_setJob hcmd i).trans h.cmd, hjob.2.2,
    fun hr => (registered_setJob hcmd i).mpr (h.registered hr)⟩

/-- What a job's end or its entering takes from nobody's knowledge. -/
theorem knows_setJob {k : Known} (h : r.Knows k) (hcmd : (f (r.jobs j)).cmd = (r.jobs j).cmd)
    (halive : ((f (r.jobs j)).started && !(f (r.jobs j)).ended) = true → r.alive j = true)
    (hmade : ∀ cmd, k = .made j cmd → (f (r.jobs j)).started = false ∧ (f (r.jobs j)).entered = false ∧
      (f (r.jobs j)).ended = false)
    (hcancel : (f (r.jobs j)).cancelled = (r.jobs j).cancelled) :
    (r.setJob j f).Knows k := by
  cases k with
  | nothing => trivial
  | worker pid w => exact h
  | clear pid =>
    intro w hw
    have hdead := h w hw
    rw [alive, jobs_setJob]
    split_ifs with hj
    · rw [hj] at hdead
      by_contra hlive
      rw [halive (Bool.not_eq_false _ ▸ hlive)] at hdead
      cases hdead
    · exact hdead
  | made i cmd =>
    obtain ⟨hreg, hcmd', hjob⟩ := h
    refine ⟨(registered_setJob hcmd i).mpr hreg, (cmd_setJob hcmd i).trans hcmd', ?_⟩
    rw [jobs_setJob]
    split_ifs with hij
    · exact hmade cmd (by rw [hij])
    · exact hjob
  | going i =>
    change ((r.setJob j f).jobs i).cancelled = false
    rw [jobs_setJob]
    split_ifs with hij
    · rw [hcancel, ← hij]
      exact h
    · exact h

/-! ### A change of the registered workers -/

theorem Sound.setWorkers (h : r.Sound) (hreg : ∀ i, (r.jobs i).started = true → (r.jobs i).entered = false →
      r.Registered i → { r with workers := W }.Registered i)
    (hnamed : ∀ pid w, W.get? pid = some w → w.job < r.nextJob ∧ (r.jobs w.job).cmd.pipelineId = pid ∧
      ∀ k, w.response = some k → k = w.job) : { r with workers := W }.Sound :=
  ⟨h.fresh, fun i hs he => ⟨(h.waiting i hs he).1, hreg i hs he (h.waiting i hs he).2⟩, hnamed⟩

end Roster

/-! ### The deeds of a thread -/

theorem Mine.other {r r' : Roster} {held : Lock → Option (ℕ × ℕ)} {i : ℕ} {g : Doing} (h : Mine r held i g)
    (hjob : ∀ j cmd, g.job = some (j, cmd) → r.Enlisted g.retired j cmd → r'.Enlisted g.retired j cmd)
    (hknown : ∀ k, g.known = some k → r.Knows k → r'.Knows k) : Mine r' held i g :=
  ⟨fun j cmd hj => hjob j cmd hj (h.job j cmd hj), h.inside, fun k hk => hknown k hk (h.known k hk), h.cancelled⟩

theorem entered_setJob {s : Rt} {f : Job → Job} {j i : ℕ} (hf : ∀ t, (f t).entered = t.entered) :
    ((s.setJob j f).jobs i).entered = (s.jobs i).entered := by
  have hjobs : (s.setJob j f).jobs i = if i = j then f (s.jobs j) else s.jobs i := Function.update_apply ..
  rw [hjobs]
  split_ifs with hij
  · rw [hf, hij]
  · rfl

/-- A thread that has looked at nothing yet. -/
theorem Mine.unknowing {r : Roster} {held : Lock → Option (ℕ × ℕ)} {i : ℕ} {g : Doing} (hk : g.known = none)
    (hc : g.cancelled = none) (hj : ∀ j cmd, g.job = some (j, cmd) → r.Enlisted g.retired j cmd) : Mine r held i g := by
  refine ⟨hj, fun k h => ?_, fun k h => ?_, fun w h => ?_⟩
  · rw [hk] at h
    cases h
  · rw [hk] at h
    cases h
  · rw [hc] at h
    cases h

theorem Mine.idle {r : Roster} {held : Lock → Option (ℕ × ℕ)} {i : ℕ} {g : Doing} (hj : g.job = none)
    (hk : g.known = none) (hc : g.cancelled = none) : Mine r held i g := by
  refine .unknowing hk hc fun j cmd h => ?_
  rw [hj] at h
  cases h

section Deeds

variable {s : Rt} {held held' : Lock → Option (ℕ × ℕ)} {gs : List Doing} {i : ℕ} {g : Doing}

/-- What a thread inside the lock does, nobody else knows anything about. -/
theorem Kept.inside (h : Kept s held gs) (hi : gs[i]? = some g) {k : Known} (hk : g.known = some k) {s' : Rt} {g' : Doing}
    (hg : g'.job = g.job) (hsound : (roster s').Sound) (hmine : Mine (roster s') held i g')
    (hjob : ∀ retired j cmd, (roster s).Enlisted retired j cmd → (∀ j' cmd', g.job = some (j', cmd') → j ≠ j') →
      (roster s').Enlisted retired j cmd)
    (hentered : ∀ j, (s'.jobs j).entered = true → (s.jobs j).entered = true) : Kept s' held (gs.set i g') := by
  refine h.deed hi hg hsound hmine (fun m x hne hx hmx => hmx.other (fun j cmd hj he => ?_) fun k' hk' => ?_) hentered
  · refine hjob x.retired j cmd he fun j' cmd' hj' hjj => hne ?_
    exact h.one m i x g j cmd cmd' hx hi hj (hjj ▸ hj')
  · rw [h.alone hi hk hx hne] at hk'
    cases hk'

theorem Kept.register (h : Kept s held gs) (hi : gs[i]? = some g) {cmd : DeployModelCommand}
    (hid : cmd.config.id = cmd.pipelineId) (hk : g.known = some (.clear cmd.pipelineId)) :
    Kept (perform (.register cmd hid) s).2 held (gs.set i (g.learn (.made s.nextJob cmd))) := by
  have hm := h.mine i g hi
  have hclear := hm.known _ hk
  -- a live job is of another id, so the new entry takes the place of none of them
  have hreg {j : ℕ} (hlive : (roster s).alive j = true) (hj : j ≠ s.nextJob) (hr : (roster s).Registered j) :
      (roster (perform (.register cmd hid) s).2).Registered j := by
    obtain ⟨w, hw, hwj⟩ := hr
    have hne : (s.jobs j).cmd.pipelineId ≠ cmd.pipelineId := fun he => by
      have hdead := hclear w (he ▸ hw)
      rw [hwj, hlive] at hdead
      cases hdead
    refine ⟨w, ?_, hwj⟩
    change (s.workers.set cmd.pipelineId _).get? (Function.update s.jobs s.nextJob _ j).cmd.pipelineId = _
    rw [Function.update_of_ne hj, Dict.get?_set_of_ne _ _ hne]
    exact hw
  have hold {j : ℕ} (hj : j ≠ s.nextJob) : (roster (perform (.register cmd hid) s).2).jobs j = s.jobs j :=
    Function.update_of_ne hj ..
  have hnew : (roster (perform (.register cmd hid) s).2).jobs s.nextJob = { cmd, sameId := hid } :=
    Function.update_self ..
  have hget (pid : String) : (roster (perform (.register cmd hid) s).2).workers.get? pid =
      if pid = cmd.pipelineId then some ⟨s.nextJob, cmd.id, none⟩ else s.workers.get? pid := Dict.get?_set ..
  have henlisted (retired : Bool) (j : ℕ) (c : DeployModelCommand) (he : (roster s).Enlisted retired j c) :
      (roster (perform (.register cmd hid) s).2).Enlisted retired j c := by
    have hj : j ≠ s.nextJob := fun hj => by
      have hfresh := (h.sound.fresh j hj.ge).1
      rw [he.started] at hfresh
      cases hfresh
    refine ⟨?_, ?_, ?_, fun hr => ?_, fun hr => hreg ?_ hj (he.registered hr)⟩
    · rw [hold hj]; exact he.started
    · rw [hold hj]; exact he.entered
    · rw [hold hj]; exact he.cmd
    · rw [hold hj]; exact he.going hr
    · rw [Roster.alive, he.started, he.going hr]; rfl
  refine h.inside hi hk rfl ⟨fun j hj => ?_, fun j hs he => ?_, fun pid w hw => ?_⟩ ⟨fun j c hj => ?_, fun k hk' => ?_,
    fun k hk' => ?_, hm.cancelled⟩ (fun x j c he _ => henlisted x j c he) fun j hj => ?_
  · have hne : j ≠ s.nextJob := Nat.ne_of_gt hj
    rw [hold hne]
    exact h.sound.fresh j (Nat.le_of_succ_le hj)
  · have hne : j ≠ s.nextJob := fun hj => by rw [hj, hnew] at hs; cases hs
    rw [hold hne] at hs he ⊢
    obtain ⟨hend, hr⟩ := h.sound.waiting j hs he
    refine ⟨hend, hreg ?_ hne hr⟩
    rw [Roster.alive]
    exact (congrArg₂ (fun a b => a && !b) hs hend).trans rfl
  · rw [hget] at hw
    split_ifs at hw with hpid
    · rw [← Option.some.inj hw, hnew]
      exact ⟨Nat.lt_succ_self _, hpid.symm, fun k hk => by cases hk⟩
    · obtain ⟨hlt, hpid', hresp⟩ := h.sound.named pid w hw
      rw [hold (Nat.ne_of_lt hlt)]
      exact ⟨Nat.lt_succ_of_lt hlt, hpid', hresp⟩
  · exact henlisted _ j c (hm.job j c hj)
  · exact hm.inside _ hk
  · rw [Doing.known_learn hk, Option.some.injEq] at hk'
    rw [← hk']
    refine ⟨⟨⟨s.nextJob, cmd.id, none⟩, ?_, rfl⟩, ?_, ?_, ?_, ?_⟩
    · rw [hnew, hget, if_pos rfl]
    all_goals rw [hnew]
  · by_cases hne : j = s.nextJob
    · subst hne
      have hf : ((roster (perform (.register cmd hid) s).2).jobs s.nextJob).entered = true := hj
      rw [hnew] at hf
      cases hf
    · exact (congrArg Job.entered (hold hne)).symm.trans hj

theorem Kept.startJob (h : Kept s held gs) (hi : gs[i]? = some g) {j : ℕ} {cmd : DeployModelCommand}
    (hk : g.known = some (.made j cmd)) :
    Kept (perform (.startJob j) s).2 held (gs.set i (g.learn .nothing)) := by
  have hm := h.mine i g hi
  obtain ⟨hreg, hcmd, -, hentered, hended⟩ := hm.known _ hk
  have hlt : j < s.nextJob := by
    obtain ⟨w, hw, hwj⟩ := hreg
    exact hwj ▸ (h.sound.named _ w hw).1
  have hsound : ((roster s).setJob j fun t => { t with started := true }).Sound :=
    h.sound.setJob rfl (fun hle => absurd hle (Nat.not_le.mpr hlt)) fun _ _ => ⟨hended, hreg⟩
  have hother (retired : Bool) (j' : ℕ) (c : DeployModelCommand) (he : (roster s).Enlisted retired j' c) :
      ((roster s).setJob j fun t => { t with started := true }).Enlisted retired j' c :=
    he.setJob rfl fun hj => by
      have hin : (s.jobs j').entered = true := he.entered
      rw [hj] at hin
      exact absurd (hin.symm.trans hentered) (by simp)
  refine h.inside hi hk rfl hsound ⟨fun j' c hj' => hother _ j' c (hm.job j' c hj'), fun k _ => hm.inside _ hk,
    fun k hk' => ?_, hm.cancelled⟩ (fun retired j' c he _ => hother retired j' c he) fun j' hj' => ?_
  · rw [Doing.known_learn hk, Option.some.injEq] at hk'
    rw [← hk']
    trivial
  · exact (entered_setJob (f := fun t => { t with started := true }) fun _ => rfl).symm.trans hj'

theorem Kept.cancelJob (h : Kept s held gs) (hi : gs[i]? = some g) {pid : String} {w : AgentWorker}
    (hk : g.known = some (.worker pid w)) :
    Kept (perform (.cancelJob w.job) s).2 held (gs.set i { g with cancelled := some w }) := by
  have hm := h.mine i g hi
  have hw : s.workers.get? pid = some w := hm.known _ hk
  obtain ⟨hlt, -, hresp⟩ := h.sound.named pid w hw
  have hsound : ((roster s).setJob w.job fun t => { t with cancelled := true }).Sound :=
    h.sound.setJob rfl (fun hle => absurd hle (Nat.not_le.mpr hlt)) fun hs he => h.sound.waiting w.job hs he
  have hother (retired : Bool) (j' : ℕ) (c : DeployModelCommand) (he : (roster s).Enlisted retired j' c) :
      ((roster s).setJob w.job fun t => { t with cancelled := true }).Enlisted retired j' c :=
    he.setJob rfl fun hj => hj ▸ ⟨he.started, he.entered, he.going⟩
  refine h.inside hi hk rfl hsound ⟨fun j' c hj' => hother _ j' c (hm.job j' c hj'), fun k _ => hm.inside _ hk,
    fun k hk' => ?_, fun w' hw' => ?_⟩ (fun retired j' c he _ => hother retired j' c he) fun j' hj' => ?_
  · obtain rfl : .worker pid w = k := Option.some.inj (hk.symm.trans hk')
    exact hw
  · obtain rfl := Option.some.inj hw'
    exact hresp
  · exact (entered_setJob (f := fun t => { t with cancelled := true }) fun _ => rfl).symm.trans hj'

theorem Kept.closeResponse (h : Kept s held gs) (hi : gs[i]? = some g) (j : ℕ) :
    Kept (perform (.closeResponse j) s).2 held (gs.set i g) := by
  have hsound : ((roster s).setJob j fun t => { t with closed := true }).Sound :=
    h.sound.setJob rfl (h.sound.fresh j) (h.sound.waiting j)
  have hmine (m : ℕ) (x : Doing) (hx : Mine (roster s) held m x) :
      Mine ((roster s).setJob j fun t => { t with closed := true }) held m x := by
    refine hx.other (fun j' c _ he => he.setJob rfl fun hj => ?_) fun k _ hk => ?_
    · exact hj ▸ ⟨he.started, he.entered, he.going⟩
    · refine Roster.knows_setJob hk rfl id (fun c hc => ?_) rfl
      rw [hc] at hk
      exact hk.2.2
  refine h.deed hi rfl hsound (hmine i g (h.mine i g hi)) (fun m x _ _ hx => hmine m x hx) fun j' hj' => ?_
  exact (entered_setJob (f := fun t => { t with closed := true }) fun _ => rfl).symm.trans hj'

/-- A thread ends when its worker is gone, so nobody counts on it. -/
theorem Kept.endJob (h : Kept s held gs) (hi : gs[i]? = some g) {j : ℕ} {cmd : DeployModelCommand}
    (hretired : g.retired = true) (hj : g.job = some (j, cmd)) :
    Kept (perform (.endJob j) s).2 held (gs.set i g) := by
  have hin : (s.jobs j).entered = true := ((h.mine i g hi).job j cmd hj).entered
  have hsound : ((roster s).setJob j fun t => { t with ended := true }).Sound :=
    h.sound.setJob rfl (h.sound.fresh j) fun _ he => absurd (hin.symm.trans he) (by simp)
  have hmine (m : ℕ) (x : Doing) (hmx : gs[m]? = some x) (hx : Mine (roster s) held m x) :
      Mine ((roster s).setJob j fun t => { t with ended := true }) held m x := by
    refine hx.other (fun j' c hj' he => he.setJob rfl fun hjj => ⟨hjj ▸ he.started, hin, fun hr => ?_⟩) fun k _ hk => ?_
    · -- only the thread that ends has this job
      obtain rfl : m = i := h.one m i x g j c cmd hmx hi (hjj ▸ hj') hj
      obtain rfl := Option.some.inj (hmx.symm.trans hi)
      exact absurd (hretired.symm.trans hr) (by simp)
    · refine Roster.knows_setJob hk rfl (fun hlive => by simp at hlive) (fun c hc => ?_) rfl
      rw [hc] at hk
      exact absurd (hin.symm.trans hk.2.2.2.1) (by simp)
  refine h.deed hi rfl hsound (hmine i g hi (h.mine i g hi)) (fun m x _ hx => hmine m x hx) fun j' hj' => ?_
  exact (entered_setJob (f := fun t => { t with ended := true }) fun _ => rfl).symm.trans hj'

/-- A worker changes its own entry, or takes it out. -/
theorem Kept.setWorkers (h : Kept s held gs) (hi : gs[i]? = some g) {k : Known} (hk : g.known = some k) {j : ℕ}
    {cmd : DeployModelCommand} (hat : g.AtWork j cmd) {W : Dict String AgentWorker} {g' : Doing} (hjob : g'.job = g.job)
    (hknown : g'.known = some .nothing) (hcancelled : g'.cancelled = g.cancelled)
    (hW : ∀ pid, pid ≠ cmd.pipelineId → W.get? pid = s.workers.get? pid)
    (hown : ∀ w, W.get? cmd.pipelineId = some w → w.job = j ∧ ∀ k, w.response = some k → k = j)
    (hstay : g'.retired = false → ∃ w, W.get? cmd.pipelineId = some w) :
    Kept { s with workers := W } held (gs.set i g') := by
  have hm := h.mine i g hi
  have hme := hm.job j cmd hat.job
  have hmyreg := hme.registered hat.registered
  have hcmd : (s.jobs j).cmd = cmd := hme.cmd
  -- an entry of the same id is this worker's own
  have hreg {j' : ℕ} (hne : j ≠ j') (hr : (roster s).Registered j') :
      { roster s with workers := W }.Registered j' := by
    have hpid : (s.jobs j').cmd.pipelineId ≠ cmd.pipelineId := fun hpid =>
      hne (hmyreg.unique hr (by rw [hme.cmd]; exact hpid.symm))
    obtain ⟨w, hw, hwj⟩ := hr
    exact ⟨w, (hW _ hpid).trans hw, hwj⟩
  have hnamed (pid : String) (w : AgentWorker) (hw : W.get? pid = some w) : w.job < s.nextJob ∧
      (s.jobs w.job).cmd.pipelineId = pid ∧ ∀ k, w.response = some k → k = w.job := by
    by_cases hpid : pid = cmd.pipelineId
    · subst hpid
      obtain ⟨rfl, hresp⟩ := hown w hw
      obtain ⟨v, hv, hvj⟩ := hmyreg
      exact ⟨hvj ▸ (h.sound.named _ v hv).1, by rw [hcmd], hresp⟩
    · exact h.sound.named pid w ((hW pid hpid).symm.trans hw)
  have hsound : (roster { s with workers := W }).Sound := by
    refine Roster.Sound.setWorkers h.sound (fun j' hs he hr => hreg (fun hj => ?_) hr) hnamed
    subst hj
    exact absurd (hme.entered.symm.trans he) (by simp)
  refine h.inside hi hk hjob hsound ⟨fun j' c hj' => ?_, fun k _ => hm.inside _ hk, fun k hk' => ?_, ?_⟩
    (fun retired j' c he hne => ?_) fun _ hj' => hj'
  · obtain ⟨rfl, rfl⟩ : j = j' ∧ cmd = c := Prod.mk.inj (Option.some.inj (hat.job.symm.trans (hjob.symm.trans hj')))
    refine ⟨hme.started, hme.entered, hme.cmd, fun _ => hme.going hat.registered, fun hr => ?_⟩
    obtain ⟨w, hw⟩ := hstay hr
    exact ⟨w, by rw [show ((roster { s with workers := W }).jobs j).cmd = cmd from hcmd]; exact hw, (hown w hw).1⟩
  · rw [hknown, Option.some.injEq] at hk'
    rw [← hk']
    trivial
  · rw [hcancelled]
    exact hm.cancelled
  · exact ⟨he.started, he.entered, he.cmd, he.going, fun hr => hreg (hne j cmd hat.job).symm (he.registered hr)⟩

theorem Kept.attachResponse (h : Kept s held gs) (hi : gs[i]? = some g) (hk : g.known = some .nothing) {j : ℕ}
    {cmd : DeployModelCommand} (hat : g.AtWork j cmd) {cid : String} {r : Option ℕ} (hr : ∀ k, r = some k → k = j) :
    Kept (perform (.attachResponse cmd.pipelineId cid r) s).2 held (gs.set i g) := by
  have hme := (h.mine i g hi).job j cmd hat.job
  obtain ⟨w, hw, hwj⟩ := hme.registered hat.registered
  have hw : s.workers.get? cmd.pipelineId = some w := by rw [← hme.cmd]; exact hw
  simp only [perform, hw]
  split_ifs with hcid
  · refine h.setWorkers hi hk hat rfl hk rfl (fun pid hpid => Dict.get?_set_of_ne _ _ hpid) (fun v hv => ?_)
      fun _ => ⟨_, Dict.get?_set_self ..⟩
    rw [Dict.get?_set_self, Option.some.injEq] at hv
    rw [← hv]
    exact ⟨hwj, hr⟩
  · refine h.setWorkers (W := s.workers) hi hk hat rfl hk rfl (fun _ _ => rfl) (fun v hv => ?_) fun _ => ⟨w, hw⟩
    obtain rfl := Option.some.inj (hw.symm.trans hv)
    obtain ⟨-, -, hresp⟩ := h.sound.named _ w hw
    exact ⟨hwj, fun k hk => (hresp k hk).trans hwj⟩

theorem Kept.dropWorker (h : Kept s held gs) (hi : gs[i]? = some g) (hk : g.known = some .nothing) {j : ℕ}
    {cmd : DeployModelCommand} (hat : g.AtWork j cmd) {cid : String} :
    Kept (perform (.dropWorker cmd.pipelineId cid) s).2 held (gs.set i { g with retired := true }) := by
  have hme := (h.mine i g hi).job j cmd hat.job
  obtain ⟨w, hw, hwj⟩ := hme.registered hat.registered
  have hw : s.workers.get? cmd.pipelineId = some w := by rw [← hme.cmd]; exact hw
  simp only [perform, hw]
  split_ifs with hcid
  · refine h.setWorkers hi hk hat rfl hk rfl (fun pid hpid => Dict.get?_erase_of_ne _ hpid) (fun v hv => ?_)
      fun hr => by cases hr
    rw [Dict.get?_erase_self] at hv
    cases hv
  · refine h.setWorkers (W := s.workers) hi hk hat rfl hk rfl (fun _ _ => rfl) (fun v hv => ?_) fun hr => by cases hr
    obtain rfl := Option.some.inj (hw.symm.trans hv)
    obtain ⟨-, -, hresp⟩ := h.sound.named _ w hw
    exact ⟨hwj, fun k hk => (hresp k hk).trans hwj⟩

/-- What a thread learns is so. -/
theorem Mine.learn {r : Roster} (hm : Mine r held i g) {k : Known} (hk : r.Knows k) : Mine r held i (g.learn k) := by
  have hsome {k' : Known} (hk' : (g.learn k).known = some k') : k' = k ∧ ∃ k₀, g.known = some k₀ := by
    obtain ⟨k₀, hk₀, hkk⟩ := Option.map_eq_some_iff.mp hk'
    exact ⟨hkk.symm, k₀, hk₀⟩
  refine ⟨hm.job, fun k' hk' => ?_, fun k' hk' => ?_, hm.cancelled⟩
  · obtain ⟨-, k₀, hk₀⟩ := hsome hk'
    exact hm.inside k₀ hk₀
  · rw [(hsome hk').1]
    exact hk

/-- The other actions teach a thread something, or nothing. -/
theorem Mine.noteAct (hm : Mine (roster s) held i g) {a : Act} (ha : ¬Enrols a) :
    Mine (roster s) held i (Doing.noteAct a (perform a s).1 g) := by
  have hsame {t n : ℕ} {q : Option Path} {b c : Bool} :
      Mine (roster s) held i { g with announced := t, written := n, target := q, placed := b, committed := c } :=
    ⟨hm.job, hm.inside, hm.known, hm.cancelled⟩
  cases a <;> try exact hm
  case getWorker pid =>
    change Mine _ held i (Doing.noteAct (.getWorker pid) (s.workers.get? pid) g)
    cases hw : s.workers.get? pid with
    | none =>
      refine hm.learn (k := .clear pid) fun w hw' => ?_
      rw [show s.workers.get? pid = some w from hw'] at hw
      cases hw
    | some w => exact hm.learn (k := .worker pid w) hw
  case jobAlive j =>
    change Mine _ held i (Doing.noteAct (.jobAlive j) ((roster s).alive j) g)
    simp only [Doing.noteAct]
    split
    · rename_i pid w hk
      split_ifs with hj
      · refine hm.learn (k := .clear pid) fun v hv => ?_
        obtain rfl : v = w := Option.some.inj ((show s.workers.get? pid = some v from hv).symm.trans (hm.known _ hk))
        rw [hj.1]
        exact hj.2
      · exact hm
    · exact hm
  case isCancelled j =>
    change Mine _ held i (Doing.noteAct (.isCancelled j) (s.jobs j).cancelled g)
    simp only [Doing.noteAct]
    split_ifs with hj
    · exact hm.learn (k := .going j) hj
    · exact hsame
  case download url =>
    change Mine _ held i (Doing.noteAct (.download url) (s.ask .download).response g)
    cases (s.ask .download).response with
    | ok r => exact hsame
    | error e => exact hm
  case append p chunk =>
    change Mine _ held i (Doing.noteAct (.append p chunk) (perform (.append p chunk) s).1 g)
    cases (perform (.append p chunk) s).1 with
    | none => exact hsame
    | some e => exact hm
  case lookup p =>
    change Mine _ held i (Doing.noteAct (.lookup p) (s.node p) g)
    cases s.node p with
    | none => exact hm
    | some n =>
      simp only [Doing.noteAct]
      split_ifs
      · exact hsame
      · exact hm
  case replace p q =>
    change Mine _ held i (Doing.noteAct (.replace p q) (perform (.replace p q) s).1 g)
    cases (perform (.replace p q) s).1 with
    | none =>
      simp only [Doing.noteAct]
      split_ifs
      · exact hsame
      · exact hm
    | some e => exact hm
  case cwd => exact hsame
  case setConfig => exact hsame
  all_goals exact absurd trivial ha

theorem Kept.other (h : Kept s held gs) (hi : gs[i]? = some g) {a : Act} (ha : ¬Enrols a) :
    Kept (perform a s).2 held (gs.set i (Doing.noteAct a (perform a s).1 g)) := by
  have hsame : roster (perform a s).2 = roster s := roster_perform ha s
  refine h.deed hi (Doing.noteAct_job ..) (hsame ▸ h.sound) (hsame ▸ (h.mine i g hi).noteAct ha)
    (fun m x _ _ hx => hsame ▸ hx) fun j hj => ?_
  have hjobs : (perform a s).2.jobs = s.jobs := congrArg Roster.jobs hsame
  rwa [hjobs] at hj

/-- **The step.** Whatever a thread is allowed to do keeps the invariant. -/
theorem Kept.act (h : Kept s held gs) (hi : gs[i]? = some g) {a : Act} (ha : g.Allowed a) :
    Kept (perform a s).2 held (gs.set i (Doing.noteAct a (perform a s).1 g)) := by
  obtain ⟨hp, -⟩ := ha
  cases a with
  | register cmd hid => exact h.register hi hid hp
  | startJob j =>
    obtain ⟨cmd, hk⟩ := hp
    exact h.startJob hi hk
  | endJob j =>
    obtain ⟨hr, cmd, hj⟩ := hp
    exact h.endJob hi hr hj
  | cancelJob k =>
    obtain ⟨pid, w, hk, rfl⟩ := hp
    have hnote : Doing.noteAct (.cancelJob w.job) (perform (.cancelJob w.job) s).1 g = { g with cancelled := some w } := by
      simp only [Doing.noteAct, hk]
    rw [hnote]
    exact h.cancelJob hi hk
  | attachResponse pid cid r =>
    obtain ⟨hk, j, cmd, hat, rfl, rfl, hr⟩ := hp
    exact h.attachResponse hi hk hat hr
  | closeResponse k => exact h.closeResponse hi k
  | dropWorker pid cid =>
    obtain ⟨hk, j, cmd, hat, rfl, rfl⟩ := hp
    exact h.dropWorker hi hk hat
  | _ => exact h.other hi fun ha => ha.elim

theorem Kept.lock (h : Kept s held gs) (hi : gs[i]? = some g) {V : Validator} {l : Lock}
    (hheld : (machine V).acquire held l i = some held') : Kept s held' (gs.set i (g.note (.lock l))) := by
  have hm := h.mine i g hi
  have hkeep (m : ℕ) (x : Doing) (hx : Mine (roster s) held m x) : Mine (roster s) held' m x :=
    ⟨hx.job, fun k hk => (hx.inside k hk).acquire hheld, hx.known, hx.cancelled⟩
  refine h.deed hi (Doing.note_job ..) h.sound ?_ (fun m x _ _ hx => hkeep m x hx) fun _ hj => hj
  cases l with
  | self =>
    refine ⟨hm.job, fun k _ => holding_acquire hheld, fun k hk => ?_, hm.cancelled⟩
    rw [← Option.some.inj hk]
    trivial
  | _ => exact hkeep i g hm

theorem Kept.unlock (h : Kept s held gs) (hi : gs[i]? = some g) {l : Lock}
    (hheld : release (σ := rtSig) held l i = some held') : Kept s held' (gs.set i (g.note (.unlock l))) := by
  have hm := h.mine i g hi
  refine h.deed hi (Doing.note_job ..) h.sound ?_ (fun m x hne _ hx => ?_) fun _ hj => hj
  · cases l with
    | self => refine ⟨hm.job, fun k hk => ?_, fun k hk => ?_, hm.cancelled⟩ <;> cases hk
    | _ => exact ⟨hm.job, fun k hk => (hm.inside k hk).release hheld (by simp), hm.known, hm.cancelled⟩
  · exact ⟨hx.job, fun k hk => (hx.inside k hk).release hheld fun _ => hne, hx.known, hx.cancelled⟩

end Deeds

/-! ### Runs -/

/-- What a thread starts with. -/
def born : Entry → Rt → Doing
  | .command _ _, _ => {}
  | .worker j, s => { job := some (j, (s.jobs j).cmd) }

/-- The deploys that stand: of each id the model of the last config that a worker
committed, until the id is uninstalled. -/
abbrev Standing := String → Option String

def mark (standing : Standing) (g : Doing) : Act → Standing
  | .setConfig pid _ => match g.job with
    | some (_, cmd) => Function.update standing pid (some cmd.modelName)
    | none => standing
  | .popConfig pid => Function.update standing pid none
  | _ => standing

/-- What the threads of a run have done about deploys, and the deploys that stand. -/
def doings (V : Validator) (s : Rt) (es : List (Ev Entry)) : Notes Doing Standing :=
  (machine V).notes Doing.note born mark (start V s) ⟨[{}], fun _ => none⟩ es

/-- No deploy has been registered. -/
structure Unused (s : Rt) : Prop where
  workers : s.workers = .empty
  jobs : ∀ j, (s.jobs j).started = false ∧ (s.jobs j).cancelled = false ∧ (s.jobs j).entered = false

theorem Kept.append {s s' : Rt} {held : Lock → Option (ℕ × ℕ)} {gs : List Doing} {g : Doing} (h : Kept s held gs)
    (hsound : (roster s').Sound) (hg : Mine (roster s') held gs.length g)
    (hmine : ∀ m x, gs[m]? = some x → Mine (roster s) held m x → Mine (roster s') held m x)
    (hnew : ∀ j cmd, g.job = some (j, cmd) → (s.jobs j).entered = false)
    (hentered : ∀ j, (s'.jobs j).entered = true → (s.jobs j).entered = true ∨ ∃ cmd, g.job = some (j, cmd)) :
    Kept s' held (gs ++ [g]) := by
  have hcases {m : ℕ} {x : Doing} (hx : (gs ++ [g])[m]? = some x) : gs[m]? = some x ∨ (m = gs.length ∧ x = g) := by
    rw [List.getElem?_append] at hx
    split_ifs at hx with hlt
    · exact .inl hx
    · obtain ⟨hm, hx⟩ := List.getElem?_eq_some_iff.mp hx
      rw [List.length_singleton] at hm
      rw [List.getElem_singleton] at hx
      exact .inr ⟨by omega, hx.symm⟩
  -- the new thread's job is nobody else's
  have hapart {m : ℕ} {x : Doing} {j : ℕ} {cmd cmd' : DeployModelCommand} (hx : gs[m]? = some x)
      (hj : x.job = some (j, cmd)) (hj' : g.job = some (j, cmd')) : False := by
    have hin : (s.jobs j).entered = true := ((h.mine m x hx).job j cmd hj).entered
    exact absurd (hin.symm.trans (hnew j cmd' hj')) (by simp)
  refine ⟨hsound, fun m x hx => ?_, fun m m' x x' j c c' hx hx' hj hj' => ?_, fun j hj => ?_⟩
  · rcases hcases hx with hx | ⟨rfl, rfl⟩
    · exact hmine m x hx (h.mine m x hx)
    · exact hg
  · rcases hcases hx with hold | ⟨hm, he⟩ <;> rcases hcases hx' with hold' | ⟨hm', he'⟩
    · exact h.one m m' x x' j c c' hold hold' hj hj'
    · exact (hapart hold hj (he' ▸ hj')).elim
    · exact (hapart hold' hj' (he ▸ hj)).elim
    · exact hm.trans hm'.symm
  · rcases hentered j hj with hj | ⟨cmd, hj⟩
    · obtain ⟨m, x, cmd, hx, hjob⟩ := h.has j hj
      exact ⟨m, x, cmd, List.getElem?_append_left (List.getElem?_eq_some_iff.mp hx).1 |>.trans hx, hjob⟩
    · exact ⟨gs.length, g, cmd, List.getElem?_concat_length, hj⟩

/-- A thread that enters follows what it may do. -/
theorem heeds_enter {V : Validator} {s s' : Rt} {e : Entry} {p : Code Unit} (he : enter V e s = some (p, s')) :
    Heeds (fun _ _ => True) (born e s) p := by
  cases e with
  | command me data =>
    simp only [AgentRuntime.enter, Option.ite_none_right_eq_some, Option.some.injEq, Prod.mk.injEq] at he
    obtain ⟨-, rfl, rfl⟩ := he
    exact (heeds_handleCommand V me data ⟨rfl, rfl, rfl⟩).mono fun _ _ _ => trivial
  | worker j =>
    simp only [AgentRuntime.enter, Option.ite_none_right_eq_some, Option.some.injEq, Prod.mk.injEq] at he
    obtain ⟨-, rfl, rfl⟩ := he
    exact heeds_deployWorker j _

theorem Kept.enter {V : Validator} {s s' : Rt} {held : Lock → Option (ℕ × ℕ)} {gs : List Doing} {e : Entry} {p : Code Unit}
    (h : Kept s held gs) (he : enter V e s = some (p, s')) : Kept s' held (gs ++ [born e s]) := by
  cases e with
  | command me data =>
    simp only [AgentRuntime.enter, Option.ite_none_right_eq_some, Option.some.injEq, Prod.mk.injEq] at he
    obtain ⟨-, -, rfl⟩ := he
    exact h.append h.sound (.idle rfl rfl rfl) (fun _ _ _ hx => hx) (fun _ _ hj => by cases hj) fun j hj => .inl hj
  | worker j =>
    simp only [AgentRuntime.enter, Option.ite_none_right_eq_some, Option.some.injEq, Prod.mk.injEq] at he
    obtain ⟨hcan, -, rfl⟩ := he
    rw [Bool.and_eq_true, Bool.not_eq_true'] at hcan
    obtain ⟨hended, hreg⟩ := h.sound.waiting j hcan.1 hcan.2
    have hstarted : (s.jobs j).started = true := hcan.1
    have hsound : ((roster s).setJob j fun t => { t with entered := true }).Sound :=
      h.sound.setJob rfl (h.sound.fresh j) fun _ hf => by cases hf
    have hmine (m : ℕ) (x : Doing) (hx : Mine (roster s) held m x) :
        Mine ((roster s).setJob j fun t => { t with entered := true }) held m x := by
      refine hx.other (fun j' c _ he => he.setJob rfl fun hj => ?_) fun k _ hk => ?_
      · exact ⟨hstarted, rfl, hj ▸ he.going⟩
      · refine Roster.knows_setJob hk rfl (fun hlive => ?_) (fun c hc => ?_) rfl
        · exact hlive
        · rw [hc] at hk
          exact absurd (hstarted.symm.trans hk.2.2.1) (by simp)
    refine h.append hsound (.unknowing rfl rfl fun j' c hj' => ?_) (fun m x _ hx => hmine m x hx) (fun j' c hj' => ?_)
      fun j' hj' => ?_
    · obtain ⟨rfl, rfl⟩ := Prod.mk.inj (Option.some.inj hj')
      have hjob : ((roster s).setJob j fun t => { t with entered := true }).jobs j = { s.jobs j with entered := true } :=
        Function.update_self ..
      refine ⟨?_, ?_, ?_, fun _ => ?_, fun _ => ?_⟩
      · exact (congrArg Job.started hjob).trans hstarted
      · exact congrArg Job.entered hjob
      · exact Roster.cmd_setJob (r := roster s) (f := fun t => { t with entered := true }) rfl j
      · exact (congrArg Job.ended hjob).trans hended
      · exact (Roster.registered_setJob (r := roster s) (f := fun t => { t with entered := true }) rfl j).mpr hreg
    · obtain ⟨rfl, -⟩ := Prod.mk.inj (Option.some.inj hj')
      exact hcan.2
    · by_cases hjj : j' = j
      · exact .inr ⟨(s.jobs j).cmd, by rw [hjj]; rfl⟩
      · have hjob : (s.setJob j fun t => { t with entered := true }).jobs j' = s.jobs j' := Function.update_of_ne hjj ..
        exact .inl (hjob ▸ hj')

theorem Kept.start {s : Rt} (h : Unused s) : Kept s (fun _ => none) [{}] := by
  have hone {m : ℕ} {x : Doing} (hx : [({} : Doing)][m]? = some x) : x = {} :=
    List.mem_singleton.mp (List.mem_of_getElem? hx)
  refine ⟨⟨fun j _ => ⟨(h.jobs j).1, (h.jobs j).2.1⟩, fun j hs _ => ?_, fun pid w hw => ?_⟩, fun m x hx => ?_,
    fun m m' x x' j c c' hx _ hj _ => ?_, fun j hj => ?_⟩
  · exact absurd ((h.jobs j).1.symm.trans hs) (by simp)
  · change s.workers.get? pid = some w at hw
    rw [h.workers] at hw
    cases hw
  · rw [hone hx]
    exact .idle rfl rfl rfl
  · rw [hone hx] at hj
    cases hj
  · exact absurd ((h.jobs j).2.2.symm.trans hj) (by simp)

theorem tied_start (V : Validator) (s : Rt) :
    Tied Doing.note Doing.Allowed (start V s) (⟨[{}], fun _ => none⟩ : Notes Doing Standing).each :=
  .cons ((heeds_run V ⟨rfl, rfl, rfl⟩).mono fun _ _ _ => trivial) .nil

/-- **Every run** keeps the register, and every thread what it may do. -/
theorem kept_exec (V : Validator) {s : Rt} (hs : Unused s) {es : List (Ev Entry)} {c : Sys rtSig Rt}
    (h : (machine V).exec (start V s) es = some c) :
    Tied Doing.note Doing.Allowed c (doings V s es).each ∧ Kept c.shared c.held (doings V s es).each := by
  have hstart : Kept (start V s).shared (start V s).held (⟨[{}], fun _ => none⟩ : Notes Doing Standing).each :=
    Kept.start hs
  exact exec_follows (A := Doing.Allowed) (I := fun s held n => Kept s held n.each) (C := fun _ _ _ _ => True)
    (fun hI hi ha _ => hI.act hi ha) (fun hI hi hl => hI.lock hi hl) (fun hI hi hl => hI.unlock hi hl)
    (fun hI he => ⟨heeds_enter he, hI.enter he⟩) (tied_start V s) hstart (meetsNoted_of_meets (fun _ _ _ _ _ => trivial) (meets_all (fun _ _ => trivial) es _)) h

end AgentRuntime
end LocaiLink
