/-
# Deploys and their cancels, in any interleaving

Of two live workers of one pipeline one is on its way out, a cancelled deploy is
not committed, an artifact is put in its place only if all that was announced of
it was written, and what a thread does to a registration or a reply concerns its
own worker, or the one it cancels (`deploys_in_order`).
-/
import LocaiLink.Runtime.Registry

namespace LocaiLink
namespace AgentRuntime

open Code Rt Machine

/-- The action a thread performs in its next step. -/
def next (c : Sys rtSig Rt) (i : ℕ) : Option Act := performs c (.step i : Ev Entry)

/-- The job's thread has nothing left to do but to end. -/
def Leaving (c : Sys rtSig Rt) (gs : List Doing) (j : ℕ) : Prop :=
  ∃ (i : ℕ) (g : Doing) (cmd : DeployModelCommand) (p : Code Unit), gs[i]? = some g ∧ g.job = some (j, cmd) ∧
    c.threads[i]? = some p ∧ Prog.Only (σ := rtSig) (fun a => a = .endJob j) p

/-- What holds of a state that a run reaches, and of every next step. -/
structure InOrder (c : Sys rtSig Rt) (gs : List Doing) : Prop where
  /-- Of two live workers of a pipeline, one is leaving. -/
  one : ∀ j j', (roster c.shared).alive j = true → (roster c.shared).alive j' = true →
    (c.shared.jobs j).cmd.pipelineId = (c.shared.jobs j').cmd.pipelineId → j ≠ j' → Leaving c gs j ∨ Leaving c gs j'
  /-- An artifact is put in its place when all that was announced of it was written. -/
  whole : ∀ (i : ℕ) (g : Doing) (p q : Path), gs[i]? = some g → next c i = some (.replace p q) →
    g.announced ≠ 0 → g.written = g.announced
  /-- A registration is changed by its own worker's thread, or replaced when its thread is dead. -/
  registration : ∀ (i : ℕ) (g : Doing) (a : Act) (pid : String) (w : AgentWorker), gs[i]? = some g →
    next c i = some a → c.shared.workers.get? pid = some w →
      (perform a c.shared).2.workers.get? pid ≠ some w →
        (∃ cmd, g.job = some (w.job, cmd)) ∨ (roster c.shared).alive w.job = false
  /-- A worker attaches its own reply. -/
  attached : ∀ (i : ℕ) (g : Doing) (pid cid : String) (k : ℕ), gs[i]? = some g →
    next c i = some (.attachResponse pid cid (some k)) → ∃ cmd, g.job = some (k, cmd)
  /-- A cancel closes the reply of the worker that it cancelled. -/
  closed : ∀ (i : ℕ) (g : Doing) (k : ℕ), gs[i]? = some g → next c i = some (.closeResponse k) →
    ∃ w, g.cancelled = some w ∧ w.job = k

/-- The thread of the job does not commit its config in the next step. -/
def Uncommitted (c : Sys rtSig Rt) (gs : List Doing) (j : ℕ) : Prop :=
  ∀ (i : ℕ) (g : Doing) (cmd : DeployModelCommand) (pid : String) (conf : PipelineConfig), gs[i]? = some g →
    g.job = some (j, cmd) → next c i ≠ some (.setConfig pid conf)

section Steps

variable {c : Sys rtSig Rt} {gs : List Doing} {i : ℕ} {g : Doing}

/-- What a worker whose registration is gone has left. -/
theorem only_endJob {α : Type} {Q : Doing → α → Prop} {j : ℕ} {cmd : DeployModelCommand} {p : Code α}
    (h : Heeds Q g p) : g.retired = true → g.job = some (j, cmd) → Prog.Only (σ := rtSig) (fun a => a = .endJob j) p := by
  have hkeeps (a : Act) (r : a.Resp) (x : Doing) (hr : x.retired = true) (ha : x.Allowed a) :
      (x.note (.act a r)).retired = true := by
    obtain ⟨j', rfl⟩ := ha.2 hr
    exact hr
  induction h with
  | ret => exact fun _ _ => trivial
  | @act g a k hA _ ih =>
    intro hr hj
    refine ⟨?_, fun r => ih r (hkeeps a r g hr hA) ((Doing.note_job ..).trans hj)⟩
    obtain ⟨j', rfl⟩ := hA.2 hr
    obtain ⟨-, cmd', hj'⟩ := hA.1
    rw [hj, Option.some.injEq, Prod.mk.injEq] at hj'
    rw [hj'.1]
  | lock _ ih => exact fun hr hj => ih ((Doing.note_lock_retired ..).trans hr) ((Doing.note_job ..).trans hj)
  | unlock _ ih => exact fun hr hj => ih ((Doing.note_unlock_retired ..).trans hr) ((Doing.note_job ..).trans hj)

/-- A live worker is registered for its pipeline, or leaving. -/
theorem registered_or_leaving (ht : Tied Doing.note Doing.Allowed c gs) (hk : Kept c.shared c.held gs) {j : ℕ}
    (hlive : (roster c.shared).alive j = true) : (roster c.shared).Registered j ∨ Leaving c gs j := by
  rw [Roster.alive, Bool.and_eq_true, Bool.not_eq_true'] at hlive
  by_cases hin : (c.shared.jobs j).entered = true
  · obtain ⟨i, g, cmd, hi, hj⟩ := hk.has j hin
    cases hr : g.retired with
    | false => exact .inl (((hk.mine i g hi).job j cmd hj).registered hr)
    | true =>
      obtain ⟨hlt, hgi⟩ := List.getElem?_eq_some_iff.mp hi
      have hlt' : i < c.threads.length := (List.Forall₂.length_eq ht).symm ▸ hlt
      have hp := List.getElem?_eq_getElem hlt'
      obtain ⟨g', hg', hfollows⟩ := ht.ghost hp
      obtain rfl := Option.some.inj (hi.symm.trans hg')
      exact .inr ⟨i, g, cmd, _, hi, hj, hp, only_endJob hfollows hr hj⟩
  · exact .inl (hk.sound.waiting j hlive.1 (Bool.eq_false_iff.mpr hin)).2

/-- Who changes a registration. -/
theorem registration_changed (hk : Kept c.shared c.held gs) (hi : gs[i]? = some g) {a : Act} (ha : g.Allowed a)
    {pid : String} {w : AgentWorker} (hw : c.shared.workers.get? pid = some w)
    (hne : (perform a c.shared).2.workers.get? pid ≠ some w) :
    (∃ cmd, g.job = some (w.job, cmd)) ∨ (roster c.shared).alive w.job = false := by
  have hm := hk.mine i g hi
  -- what a worker at work finds under its id is its own registration
  have hown {j : ℕ} {cmd : DeployModelCommand} (hat : g.AtWork j cmd) (hpid : pid = cmd.pipelineId) : w.job = j := by
    have hme := hm.job j cmd hat.job
    obtain ⟨v, hv, hvj⟩ := hme.registered hat.registered
    rw [hme.cmd, ← hpid] at hv
    rw [← hvj, Option.some.inj (hw.symm.trans hv)]
  have hsame (h : (perform a c.shared).2.workers = c.shared.workers) : False := hne (h ▸ hw)
  obtain ⟨hp, -⟩ := ha
  by_cases henrols : Enrols a
  swap
  · exact (hsame (congrArg Roster.workers (roster_perform henrols c.shared))).elim
  cases a with
  | register cmd hid =>
    by_cases hpid : pid = cmd.pipelineId
    · exact .inr (hm.known _ hp w (hpid ▸ hw))
    · exact absurd ((Dict.get?_set_of_ne _ _ hpid).trans hw) hne
  | attachResponse pid' cid r =>
    obtain ⟨-, j, cmd, hat, rfl, -, -⟩ := hp
    by_cases hpid : pid = cmd.pipelineId
    · exact .inl ⟨cmd, (hown hat hpid).symm ▸ hat.job⟩
    · refine absurd ?_ hne
      simp only [perform]
      split
      · split_ifs
        · exact (Dict.get?_set_of_ne _ _ hpid).trans hw
        · exact hw
      · exact hw
  | dropWorker pid' cid =>
    obtain ⟨-, j, cmd, hat, rfl, -⟩ := hp
    by_cases hpid : pid = cmd.pipelineId
    · exact .inl ⟨cmd, (hown hat hpid).symm ▸ hat.job⟩
    · refine absurd ?_ hne
      simp only [perform]
      split
      · split_ifs
        · exact (Dict.get?_erase_of_ne _ hpid).trans hw
        · exact hw
      · exact hw
  | startJob _ | endJob _ | cancelJob _ | closeResponse _ => exact (hsame rfl).elim
  | _ => exact henrols.elim

end Steps

theorem cancelled_setJob {s : Rt} {i j : ℕ} {f : Job → Job} (hf : ∀ t : Job, t.cancelled = true → (f t).cancelled = true)
    (h : (s.jobs j).cancelled = true) : ((s.setJob i f).jobs j).cancelled = true := by
  have hupdate : (s.setJob i f).jobs j = if j = i then f (s.jobs i) else s.jobs j := Function.update_apply ..
  rw [hupdate]
  split_ifs with hij
  · exact hf _ (hij ▸ h)
  · exact h

/-- A registered job that is cancelled. -/
def Cancelled (j : ℕ) (s : Rt) : Prop := j < s.nextJob ∧ (s.jobs j).cancelled = true

theorem Cancelled.perform {j : ℕ} {s : Rt} (h : Cancelled j s) (a : Act) : Cancelled j (Rt.perform a s).2 := by
  by_cases henrols : Enrols a
  swap
  · have hsame := roster_perform henrols s
    have hnext : (Rt.perform a s).2.nextJob = s.nextJob := congrArg Roster.nextJob hsame
    have hjobs : (Rt.perform a s).2.jobs = s.jobs := congrArg Roster.jobs hsame
    exact ⟨hnext ▸ h.1, hjobs ▸ h.2⟩
  cases a with
  | register cmd hid =>
    have hold : (Rt.perform (.register cmd hid) s).2.jobs j = s.jobs j := Function.update_of_ne (Nat.ne_of_lt h.1) ..
    exact ⟨Nat.lt_succ_of_lt h.1, (congrArg Job.cancelled hold).trans h.2⟩
  | startJob i => exact ⟨h.1, cancelled_setJob (f := fun t => { t with started := true }) (fun _ h => h) h.2⟩
  | endJob i => exact ⟨h.1, cancelled_setJob (f := fun t => { t with ended := true }) (fun _ h => h) h.2⟩
  | closeResponse i => exact ⟨h.1, cancelled_setJob (f := fun t => { t with closed := true }) (fun _ h => h) h.2⟩
  | cancelJob i => exact ⟨h.1, cancelled_setJob (f := fun t => { t with cancelled := true }) (fun _ _ => rfl) h.2⟩
  | attachResponse pid cid r =>
    simp only [Rt.perform]
    split <;> [split_ifs; skip] <;> exact h
  | dropWorker pid cid =>
    simp only [Rt.perform]
    split <;> [split_ifs; skip] <;> exact h
  | _ => exact henrols.elim

/-- A cancel stays. -/
theorem Cancelled.exec {V : Validator} {j : ℕ} {es : List (Ev Entry)} {c d : Sys rtSig Rt} (hj : Cancelled j c.shared)
    (h : (machine V).exec c es = some d) : Cancelled j d.shared := by
  refine (holds_of_meets (M := machine V) (C := fun _ _ => True) (fun a s hs _ => hs.perform a) (fun x s p s' he hs => ?_)
    es c hj (meets_all (fun _ _ => trivial) es c)).last h
  cases x with
  | command me data =>
    simp only [machine, enter, Option.ite_none_right_eq_some, Option.some.injEq, Prod.mk.injEq] at he
    exact he.2.2 ▸ hs
  | worker i =>
    simp only [machine, enter, Option.ite_none_right_eq_some, Option.some.injEq, Prod.mk.injEq] at he
    rw [← he.2.2]
    exact ⟨hs.1, cancelled_setJob (f := fun t => { t with entered := true }) (fun _ h => h) hs.2⟩

/-- **Deploys and cancels in any interleaving.** In every state that a run reaches
deploys are in order, and a job whose event was set at any time before is not
committed. -/
theorem deploys_in_order (V : Validator) {s : Rt} (hs : Unused s) {es₁ es₂ : List (Ev Entry)} {c₁ c : Sys rtSig Rt}
    (h₁ : (machine V).exec (start V s) es₁ = some c₁) (h : (machine V).exec c₁ es₂ = some c) :
    InOrder c (doings V s (es₁ ++ es₂)).each ∧
      ∀ j, (c₁.shared.jobs j).cancelled = true → Uncommitted c (doings V s (es₁ ++ es₂)).each j := by
  have hexec : (machine V).exec (start V s) (es₁ ++ es₂) = some c := exec_append h₁ h
  obtain ⟨ht, hk⟩ := kept_exec V hs hexec
  refine ⟨⟨fun j j' hj hj' hpid hne => ?_, fun i g p q hi ha => ?_, fun i g a pid w hi ha hw hchanged => ?_,
    fun i g pid cid k hi ha => ?_, fun i g k hi ha => ?_⟩, fun j hj i g cmd pid conf hi hg ha => ?_⟩
  · rcases registered_or_leaving ht hk hj with hr | hl
    · rcases registered_or_leaving ht hk hj' with hr' | hl'
      · exact absurd (hr.unique hr' hpid) hne
      · exact .inr hl'
    · exact .inl hl
  · exact (ht.allowed hi ha).1
  · exact registration_changed hk hi (ht.allowed hi ha) hw hchanged
  · obtain ⟨-, j, cmd, hat, -, -, hr⟩ := (ht.allowed hi ha).1
    exact ⟨cmd, (hr k rfl).symm ▸ hat.job⟩
  · obtain ⟨w, hw, hr⟩ := (ht.allowed hi ha).1
    exact ⟨w, hw, ((hk.mine i g hi).cancelled w hw k hr).symm⟩
  · have hgoing : (c.shared.jobs j).cancelled = false :=
      (hk.mine i g hi).known _ ((ht.allowed hi ha).1 j cmd hg).2.1
    have hk₁ := (kept_exec V hs h₁).2
    have hlt : j < c₁.shared.nextJob := by
      by_contra hle
      exact absurd ((hk₁.sound.fresh j (Nat.le_of_not_lt hle)).2.symm.trans hj) (by simp)
    have hstays := (Cancelled.exec ⟨hlt, hj⟩ h).2
    exact absurd (hgoing.symm.trans hstays) (by simp)

/-! ### Two deploys of a model, without an announced length -/

/-- A device to which every artifact is sent, and no length of it is announced. -/
def servedDevice : Rt :=
  device [commandCenter] fun _ _ => { response := .ok ⟨none, .ok 0, [[1, 2, 3]], none⟩ }

theorem unused_servedDevice : Unused servedDevice := ⟨rfl, fun _ => ⟨rfl, rfl, rfl⟩⟩

def deployEntry : Entry :=
  .command none (command "DEPLOY_MODEL"
    [("pipeline_id", .str "m"), ("model_name", .str "m.gguf"), ("config", (modelConfig "m" false).modelDump)])

/-- A command's thread handles `DEPLOY_MODEL` to its end. -/
def deployCommanded (i : ℕ) : List (Ev Entry) := .enter deployEntry :: List.replicate 6 (.step i)

/-- The first worker comes to its rename. -/
def untilRename : List (Ev Entry) := deployCommanded 1 ++ .enter (.worker 0) :: List.replicate 22 (.step 2)

/-- It gives up its registration, and before its thread ends a second deploy starts. -/
def untilOverlap : List (Ev Entry) := untilRename ++ List.replicate 17 (.step 2) ++ deployCommanded 3

def isReplace : Option Act → Bool
  | some (.replace _ _) => true
  | _ => false

theorem overlap_run : ((machine .strict).exec (start .strict servedDevice) untilOverlap).map (fun c =>
    ((roster c.shared).alive 0, (roster c.shared).alive 1, (c.shared.jobs 0).cmd.pipelineId, (c.shared.jobs 1).cmd.pipelineId)) =
      some (true, true, "m", "m") := by
  decide +kernel

theorem rename_run : ((machine .strict).exec (start .strict servedDevice) untilRename).map (fun c =>
    (isReplace (next c 2), (doings .strict servedDevice untilRename).each[2]?.map Doing.announced)) =
      some (true, some 0) := by
  decide +kernel

/-- Two workers of one pipeline are alive at once, and an artifact whose length was
not announced is put in its place. -/
theorem workers_overlap :
    (¬ ∀ (V : Validator) (s : Rt) (es : List (Ev Entry)) (c : Sys rtSig Rt), Unused s →
      (machine V).exec (start V s) es = some c → ∀ j j', (roster c.shared).alive j = true →
        (roster c.shared).alive j' = true → (c.shared.jobs j).cmd.pipelineId = (c.shared.jobs j').cmd.pipelineId → j = j') ∧
    ¬ ∀ (V : Validator) (s : Rt) (es : List (Ev Entry)) (c : Sys rtSig Rt), Unused s →
      (machine V).exec (start V s) es = some c → ∀ (i : ℕ) (g : Doing), (doings V s es).each[i]? = some g →
        isReplace (next c i) = true → g.announced ≠ 0 ∧ g.written = g.announced := by
  refine ⟨fun h => ?_, fun h => ?_⟩
  · obtain ⟨c, hc, hend⟩ := Option.map_eq_some_iff.mp overlap_run
    simp only [Prod.mk.injEq] at hend
    obtain ⟨h₀, h₁, hpid, hpid'⟩ := hend
    exact absurd (h _ _ _ c unused_servedDevice hc 0 1 h₀ h₁ (hpid.trans hpid'.symm)) (by decide)
  · obtain ⟨c, hc, hend⟩ := Option.map_eq_some_iff.mp rename_run
    simp only [Prod.mk.injEq] at hend
    obtain ⟨hreplace, hg⟩ := hend
    obtain ⟨g, hg, hzero⟩ := Option.map_eq_some_iff.mp hg
    exact (h _ _ _ c unused_servedDevice hc 2 g hg hreplace).1 hzero

/-- The overlapping workers are in order, and nothing was cancelled. -/
theorem deploys_in_order_overlap : ∃ c₁ c, (machine .strict).exec (start .strict servedDevice) untilOverlap = some c₁ ∧
    (machine .strict).exec c₁ [] = some c ∧ InOrder c (doings .strict servedDevice (untilOverlap ++ [])).each ∧
      ∀ j, (c₁.shared.jobs j).cancelled = true → Uncommitted c (doings .strict servedDevice (untilOverlap ++ [])).each j := by
  obtain ⟨c, hc, -⟩ := Option.map_eq_some_iff.mp overlap_run
  exact ⟨c, c, hc, rfl, deploys_in_order .strict unused_servedDevice hc rfl⟩

end AgentRuntime
end LocaiLink
