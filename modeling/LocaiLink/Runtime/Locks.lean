/-
# The order of the locks

Every thread of the process takes its locks in one order: the guard of the download locks,
a download lock, the ops lock, the runtime's lock, and after them the locks of the pending
reports and of the deployments' table. The two runtime locks are taken again under
themselves. So no threads ever wait for each other in a circle (`no_deadlock`).
-/
import LocaiLink.Runtime.Process

namespace LocaiLink
namespace AgentRuntime

open Code Machine

/-- The place of a lock in the order. -/
def rank : ProcLock → ℕ
  | .rt .downloadsGuard => 0
  | .rt (.download _) => 1
  | .rt .ops => 2
  | .rt .self => 3
  | .rt .pendingReports => 4
  | .deployments => 5

/-- Within the process, where these locks of the runtime are held, the code takes others
in order and gives them back. -/
structure Orderly (hs : List Lock) {α : Type} (p : Code α) : Prop where
  inOrder : InOrder (σ := procSig) mayRetake rank (hs.map .rt) (within p)

/-- No lock is held but the ops lock, perhaps several times. -/
def OnlyOps (hs : List Lock) : Prop := ∀ l ∈ hs, l = .ops

/-- All locks that are held come before the runtime's lock. -/
def BeforeSelf (hs : List Lock) : Prop := ∀ l ∈ hs, rank (.rt l) < rank (.rt .self)

theorem onlyOps_nil : OnlyOps [] := fun _ h => by cases h

theorem beforeSelf_nil : BeforeSelf [] := fun _ h => by cases h

section Rules

variable {α β : Type} {hs : List Lock} {l : Lock}

theorem OnlyOps.cons (h : OnlyOps hs) : OnlyOps (.ops :: hs) := by
  intro l hl
  rcases List.mem_cons.mp hl with rfl | hl
  · rfl
  · exact h l hl

theorem OnlyOps.beforeSelf (h : OnlyOps hs) : BeforeSelf hs := by
  intro l hl
  rw [h l hl]
  decide

/-- The ops lock may be taken first, or again. -/
theorem OnlyOps.ranked (h : OnlyOps hs) : Ranked (σ := procSig) mayRetake rank (hs.map .rt) (.rt .ops) := by
  rcases hs with _ | ⟨l, hs⟩
  · exact .inr fun _ h => by cases h
  · refine .inl ⟨?_, rfl⟩
    rw [h l List.mem_cons_self]
    exact List.mem_cons_self

theorem ranked_of_lt (h : ∀ k ∈ hs, rank (.rt k) < rank (.rt l)) :
    Ranked (σ := procSig) mayRetake rank (hs.map .rt) (.rt l) := by
  refine .inr fun k hk => ?_
  obtain ⟨k', hk', rfl⟩ := List.mem_map.mp hk
  exact h k' hk'

/-- The table's lock comes last. -/
theorem ranked_deployments (hs : List Lock) : Ranked (σ := procSig) mayRetake rank (hs.map .rt) .deployments := by
  refine .inr fun k hk => ?_
  obtain ⟨k', -, rfl⟩ := List.mem_map.mp hk
  cases k' <;> simp [rank]

theorem inOrder_guarded (a : Act) : InOrder (σ := procSig) mayRetake rank (hs.map .rt) (ProcCode.guarded a) := by
  unfold ProcCode.guarded
  split
  · exact InOrder.locked (ranked_deployments hs) (inOrder_call (σ := procSig) _)
  · exact inOrder_call (σ := procSig) _

theorem orderly_pure (a : α) : Orderly hs (pure a : Code α) := ⟨inOrder_pure (σ := procSig) a⟩

theorem orderly_act (a : Act) : Orderly hs (act a) := ⟨(inOrder_guarded a).bind fun r => inOrder_pure r⟩

theorem Orderly.bind {p : Code α} {f : α → Code β} (h : Orderly hs p) (hf : ∀ a, Orderly hs (f a)) :
    Orderly hs (p >>= f) := by
  refine ⟨?_⟩
  rw [within_bind]
  exact h.inOrder.bind fun a => (hf a).inOrder

theorem Orderly.locked {p : Code α} (hl : Ranked (σ := procSig) mayRetake rank (hs.map .rt) (.rt l))
    (h : Orderly (l :: hs) p) : Orderly hs (Code.locked l p) := by
  refine ⟨?_⟩
  rw [within_locked]
  exact InOrder.locked hl h.inOrder

theorem Orderly.lockedSelf {p : Code α} (hself : BeforeSelf hs) (h : Orderly (.self :: hs) p) :
    Orderly hs (Code.locked .self p) :=
  Orderly.locked (ranked_of_lt hself) h

theorem Orderly.ite {c : Prop} [Decidable c] {p q : Code α} (hp : Orderly hs p) (hq : Orderly hs q) :
    Orderly hs (if c then p else q) := by
  split_ifs <;> assumption

theorem Orderly.raising {x : Raising α} {f : α → Raising β} (h : Orderly hs x.run) (hf : ∀ a, Orderly hs (f a).run) :
    Orderly hs (x >>= f).run :=
  h.bind fun r => match r with
    | .ok a => hf a
    | .error _ => orderly_pure _

theorem orderly_lift {p : Code α} (h : Orderly hs p) : Orderly hs (liftM p : Raising α).run :=
  h.bind fun _ => orderly_pure _

theorem orderly_raise {p : Code (Option String)} (h : Orderly hs p) : Orderly hs (raise p).run :=
  Orderly.raising (orderly_lift h) fun r => match r with
    | some _ => orderly_pure _
    | none => orderly_pure _

end Rules

/-! ### Starting, stopping and swapping -/

section Pipelines

variable {hs : List Lock} {me : Option ℕ} {V : Validator}

theorem orderly_createComponents (c : PipelineConfig) : Orderly hs (createComponents c) := by
  refine (orderly_act _).bind fun r => ?_
  cases r with
  | some _ => exact orderly_pure _
  | none =>
    rcases c.sink with _ | sink
    · exact orderly_pure _
    · exact orderly_act _

theorem orderly_stopPipeline (h : OnlyOps hs) (pid : String) : Orderly hs (stopPipeline me pid) := by
  refine .locked h.ranked ?_
  have hself : BeforeSelf (.ops :: hs) := h.cons.beforeSelf
  refine (Orderly.lockedSelf hself (orderly_act _)).bind fun pipe => ?_
  cases pipe with
  | none => exact orderly_pure _
  | some pipe =>
    refine (orderly_act _).bind fun _ => (orderly_act _).bind fun _ => (orderly_act _).bind fun alive => .ite (orderly_pure _) ?_
    refine (Orderly.lockedSelf hself (orderly_act _)).bind fun _ => ?_
    exact (orderly_act _).bind fun _ => orderly_pure _

theorem orderly_stopIfRunning (h : OnlyOps hs) (pid : String) (running : Bool) :
    Orderly hs (stopIfRunning me pid running) :=
  .ite (orderly_stopPipeline h pid) (orderly_pure _)

theorem orderly_carryOut (h : OnlyOps hs) (pid : String) (plan : Plan) : Orderly hs (carryOut me pid plan) := by
  refine (orderly_stopIfRunning h pid _).bind fun stopped => .ite ?_ (orderly_pure _)
  refine (orderly_createComponents _).bind fun r => ?_
  cases r with
  | some _ => exact orderly_pure _
  | none =>
    refine (orderly_act _).bind fun pipe => ?_
    refine Orderly.bind (Orderly.lockedSelf h.beforeSelf ?_) fun _ => ?_
    · rcases plan.pending with _ | c
      · exact orderly_act _
      · exact (orderly_act _).bind fun _ => orderly_act _
    · refine (orderly_act _).bind fun _ => (orderly_act _).bind fun _ => ?_
      exact (orderly_act _).bind fun _ => orderly_pure _

theorem orderly_startPipeline (h : OnlyOps hs) (pid : String) (data : Option Json) :
    Orderly hs (startPipeline V me pid data) := by
  refine .locked h.ranked ?_
  have hplan : Orderly (.self :: .ops :: hs) (planStart V pid data) :=
    (orderly_act _).bind fun _ => (orderly_act _).bind fun _ => orderly_pure _
  refine (Orderly.lockedSelf h.cons.beforeSelf hplan).bind fun plan => ?_
  cases plan with
  | error _ => exact orderly_pure _
  | ok plan => exact orderly_carryOut h.cons pid plan

theorem orderly_stopRemoved (h : OnlyOps hs) : ∀ l : List String, Orderly hs (stopRemoved me l)
  | [] => orderly_pure _
  | pid :: l => (orderly_stopPipeline h pid).bind fun _ => .ite (orderly_stopRemoved h l) (orderly_pure _)

theorem orderly_startActive (h : OnlyOps hs) : ∀ l : List PipelineConfig, Orderly hs (startActive V me l)
  | [] => orderly_pure _
  | p :: l => by
    have hrest := orderly_startActive h l
    refine .ite ((orderly_startPipeline h _ _).bind fun _ => .ite hrest (orderly_pure _)) ?_
    refine (orderly_act _).bind fun _ => .ite ?_ hrest
    exact (orderly_stopPipeline h _).bind fun _ => .ite hrest (orderly_pure _)

theorem orderly_applyConfig (h : OnlyOps hs) (target previous : AgentConfig) :
    Orderly hs (applyConfig V me target previous) := by
  refine .locked h.ranked ?_
  have hswap : Orderly (.ops :: hs) (diffAndSwapPipelines V me previous target) := by
    refine (orderly_act _).bind fun removed => (orderly_stopRemoved h.cons removed).bind fun r => ?_
    cases r with
    | error _ => exact orderly_pure _
    | ok _ => exact orderly_startActive h.cons _
  refine hswap.bind fun r => ?_
  cases r with
  | error _ => exact orderly_pure _
  | ok _ =>
    refine Orderly.lockedSelf h.cons.beforeSelf ((orderly_act _).bind fun r => ?_)
    cases r with
    | some _ => exact orderly_pure _
    | none => exact (orderly_act _).bind fun _ => (orderly_act _).bind fun _ => orderly_pure _

end Pipelines

/-! ### Reconfiguring, uninstalling, serving -/

section Commands

variable {hs : List Lock} {me : Option ℕ} {V : Validator}

theorem orderly_restoreState (snapshot : Option AgentConfig) : Orderly hs (restoreState snapshot) := by
  rcases snapshot with _ | snapshot
  · exact orderly_pure _
  · exact orderly_act _

theorem orderly_swapTo (h : OnlyOps hs) (newCfg : AgentConfig) : Orderly hs (swapTo V me newCfg) := by
  refine (orderly_act _).bind fun snapshotCfg => (orderly_act _).bind fun snapshotState => ?_
  refine (orderly_applyConfig h _ _).bind fun r => ?_
  cases r with
  | ok _ => exact (orderly_act _).bind fun _ => (orderly_act _).bind fun _ => orderly_pure _
  | error e =>
    refine (orderly_applyConfig h _ _).bind fun r => ?_
    cases r with
    | ok _ => exact (orderly_restoreState _).bind fun _ => orderly_pure _
    | error _ => exact (orderly_act _).bind fun _ => (orderly_act _).bind fun _ => orderly_pure _

theorem orderly_guardConfig (current : AgentConfig) (resolved : Json) : Orderly hs (guardConfig V current resolved) := by
  refine .ite ?_ (orderly_pure _)
  rcases V.agentConfig resolved with _ | newCfg
  · exact (orderly_act _).bind fun _ => orderly_pure _
  · exact .ite (orderly_pure _) (.ite (orderly_pure _) (orderly_pure _))

theorem orderly_applyAgentConfig (h : OnlyOps hs) (raw : Json) : Orderly hs (applyAgentConfig V me raw) := by
  refine (orderly_act _).bind fun current => (orderly_guardConfig _ _).bind fun r => ?_
  cases r with
  | error _ => exact orderly_pure _
  | ok newCfg => exact orderly_swapTo h newCfg

theorem orderly_reportCommand (id : String) (status : Status) (output : String) :
    Orderly hs (reportCommand id status output) :=
  orderly_act _

theorem orderly_updatePipeline (h : OnlyOps hs) (cmd : UpdatePipelineCommand) : Orderly hs (updatePipeline V me cmd) := by
  refine .ite (orderly_reportCommand ..) (Orderly.bind (.locked h.ranked ?_) fun _ =>
    .ite (orderly_reportCommand ..) (orderly_reportCommand ..))
  refine (Orderly.lockedSelf h.cons.beforeSelf (orderly_act _)).bind fun _ => .ite (orderly_startPipeline h.cons _ _) ?_
  refine Orderly.bind (Orderly.lockedSelf h.cons.beforeSelf ?_) fun _ => orderly_pure _
  exact (orderly_act _).bind fun _ => orderly_act _

theorem orderly_removeConfig (h : BeforeSelf hs) (id pid : String) (filename extension : Option String) :
    Orderly hs (removeConfig id pid filename extension) := by
  refine Orderly.lockedSelf h ((orderly_act _).bind fun cfg => (orderly_act _).bind fun cwd => (orderly_act _).bind fun configs => ?_)
  split
  · exact (orderly_reportCommand ..).bind fun _ => orderly_pure _
  · exact (orderly_act _).bind fun _ => (orderly_act _).bind fun _ => orderly_pure _

theorem orderly_deleteArtifact (artifact : Option Path) : Orderly hs (deleteArtifact artifact) := by
  rcases artifact with _ | p
  · exact orderly_pure _
  · refine (orderly_act _).bind fun node => ?_
    split
    · exact (orderly_act _).bind fun _ => orderly_pure _
    · exact orderly_pure _

theorem orderly_postUninstallReport (pid : String) : Orderly hs (postUninstallReport pid) :=
  (orderly_act _).bind fun _ => .ite (orderly_pure _) (.ite (orderly_act _) (orderly_pure _))

theorem orderly_undelivered : ∀ l : List String, Orderly hs (undelivered l)
  | [] => orderly_pure _
  | pid :: l => (orderly_postUninstallReport pid).bind fun _ => (orderly_undelivered l).bind fun _ => orderly_pure _

/-- The lock of the pending reports is taken alone. -/
theorem ranked_pendingReports : Ranked (σ := procSig) mayRetake rank ([].map .rt) (.rt .pendingReports) :=
  ranked_of_lt fun _ h => by cases h

theorem orderly_flushPendingUninstallReports : Orderly [] flushPendingUninstallReports := by
  refine .locked ranked_pendingReports ((orderly_act _).bind fun ids => .ite (orderly_pure _) ?_)
  exact (orderly_undelivered ids).bind fun remaining => .ite (orderly_pure _) (orderly_act _)

theorem orderly_queuePendingUninstall (pid : String) : Orderly [] (queuePendingUninstall pid) :=
  .locked ranked_pendingReports ((orderly_act _).bind fun _ => .ite (orderly_pure _) (orderly_act _))

theorem orderly_finishUninstall (id pid : String) (artifact : Option Path) : Orderly [] (finishUninstall id pid artifact) := by
  refine (orderly_deleteArtifact artifact).bind fun deleted => (orderly_act _).bind fun _ => ?_
  refine (orderly_reportCommand ..).bind fun _ => .ite ?_ (orderly_pure _)
  exact (orderly_postUninstallReport pid).bind fun _ => .ite (orderly_pure _) (orderly_queuePendingUninstall pid)

theorem orderly_uninstallCommand (cmd : UninstallModelCommand) : Orderly [] (uninstallCommand me cmd) := by
  refine .ite (orderly_reportCommand ..) (.ite (orderly_reportCommand ..) ?_)
  refine (orderly_act _).bind fun pipe => .ite (orderly_reportCommand ..) ?_
  refine (orderly_stopIfRunning onlyOps_nil _ _).bind fun _ => .ite ?_ (orderly_reportCommand ..)
  refine (orderly_removeConfig beforeSelf_nil ..).bind fun r => ?_
  cases r with
  | error _ => exact orderly_pure _
  | ok artifact => exact orderly_finishUninstall ..

theorem orderly_configureServing (h : BeforeSelf hs) (cmd : StartServingCommand) : Orderly hs (configureServing cmd) := by
  refine Orderly.lockedSelf h ((orderly_act _).bind fun c => ?_)
  cases c with
  | none => exact (orderly_reportCommand ..).bind fun _ => orderly_pure _
  | some _ =>
    refine (orderly_act _).bind fun config => ?_
    cases config with
    | none => exact orderly_pure _
    | some _ => exact (orderly_act _).bind fun _ => orderly_pure _

theorem orderly_startServing (h : OnlyOps hs) (cmd : StartServingCommand) : Orderly hs (startServing V me cmd) := by
  refine (orderly_configureServing h.beforeSelf cmd).bind fun _ => .ite ?_ (orderly_pure _)
  refine (orderly_startPipeline h _ _).bind fun _ => .ite ?_ (orderly_reportCommand ..)
  exact (orderly_reportCommand ..).bind fun _ => (orderly_act _).bind fun _ => orderly_act _

theorem orderly_reportOutcome (id pid : String) (success : Bool) (done failed : String) (running : Bool) :
    Orderly hs (reportOutcome id pid success done failed running) :=
  .ite ((orderly_reportCommand ..).bind fun _ => orderly_act _) (orderly_reportCommand ..)

theorem orderly_stopServing (h : OnlyOps hs) (id pid : String) : Orderly hs (stopServing me id pid) := by
  refine (orderly_stopPipeline h pid).bind fun _ => (orderly_reportOutcome ..).bind fun _ => .ite ?_ (orderly_pure _)
  exact (orderly_act _).bind fun _ => .ite (orderly_act _) (orderly_pure _)

theorem orderly_updateAgent (id : String) : Orderly hs (updateAgent id) :=
  (orderly_act _).bind fun _ => .ite ((orderly_reportCommand ..).bind fun _ => orderly_act _) (orderly_reportCommand ..)

end Commands

/-! ### Deploys -/

section Deploys

variable {hs : List Lock} {j : ℕ} {cmd : DeployModelCommand}

theorem orderly_liveWorker (pid : String) : Orderly hs (liveWorker pid) := by
  refine (orderly_act _).bind fun w => ?_
  cases w with
  | none => exact orderly_pure _
  | some _ => exact (orderly_act _).bind fun _ => orderly_pure _

theorem orderly_deployModel (h : BeforeSelf hs) : Orderly hs (deployModel cmd) := by
  unfold deployModel
  split
  · exact orderly_reportCommand ..
  · refine .ite (orderly_reportCommand ..) (Orderly.lockedSelf h ((orderly_liveWorker _).bind fun w => ?_))
    cases w with
    | some _ => exact orderly_reportCommand ..
    | none => exact (orderly_act _).bind fun _ => orderly_act _

theorem orderly_reportCancelled (cmd : DeployModelCommand) : Orderly hs (reportCancelled cmd) :=
  (orderly_act _).bind fun _ => (orderly_act _).bind fun _ => orderly_reportCommand ..

theorem orderly_cleanupPartial (p : Path) : Orderly hs (cleanupPartial p) :=
  (orderly_act _).bind fun _ => .ite ((orderly_act _).bind fun _ => orderly_pure _) (orderly_pure _)

theorem orderly_attachResponse (h : BeforeSelf hs) (pid commandId : String) (r : Option ℕ) :
    Orderly hs (attachResponse pid commandId r) :=
  Orderly.lockedSelf h (orderly_act _)

theorem orderly_writeChunks (p : Path) (total : ℕ) : ∀ (chunks : List Bytes) (done : ℕ) (lastReported : ℤ),
    Orderly hs (writeChunks j cmd p total chunks done lastReported).run
  | [], _, _ => orderly_pure _
  | chunk :: chunks, done, lastReported => by
    refine .raising (orderly_lift (orderly_act _)) fun cancelled => ?_
    cases cancelled with
    | true => exact orderly_pure _
    | false =>
      refine .raising (orderly_raise (orderly_act _)) fun _ => ?_
      simp only
      split
      · refine .raising (orderly_lift (orderly_act _)) fun _ => .raising (orderly_lift (orderly_act _)) fun _ => ?_
        exact orderly_writeChunks p total chunks _ _
      · exact orderly_writeChunks p total chunks _ _

theorem orderly_fetch (h : BeforeSelf hs) (url : String) (p : Path) : Orderly hs (fetch j cmd url p).run := by
  refine .raising (orderly_act (.download url)) fun r => ?_
  refine .raising (orderly_lift (orderly_attachResponse h ..)) fun _ => ?_
  refine .raising (orderly_raise (orderly_pure _)) fun _ => ?_
  refine .raising (orderly_pure r.length) fun total => ?_
  refine .raising (orderly_lift (orderly_act _)) fun _ => .raising (orderly_lift (orderly_act _)) fun _ => ?_
  refine .raising (orderly_raise (orderly_act _)) fun _ => ?_
  refine .raising (orderly_writeChunks ..) fun w => ?_
  obtain ⟨cancelled, done⟩ := w
  cases cancelled with
  | true => exact orderly_pure _
  | false => exact .raising (orderly_raise (orderly_pure _)) fun _ => orderly_pure _

theorem orderly_downloadAndPublish (h : BeforeSelf hs) (url : String) (target p : Path) :
    Orderly hs (downloadAndPublish j cmd url target p).run := by
  have hclean : Orderly hs (cleanupPartial p) := orderly_cleanupPartial p
  have hattach : Orderly hs (attachResponse cmd.pipelineId cmd.id none) := orderly_attachResponse h ..
  have hcancelled : Orderly hs (reportCancelled cmd) := orderly_reportCancelled cmd
  have hfailed (e : String) : Orderly hs (reportCommand cmd.id .failed e) := orderly_reportCommand ..
  refine .raising (orderly_lift hclean) fun _ => .raising (orderly_lift (orderly_fetch h url p)) fun r => ?_
  cases r with
  | error e =>
    refine .raising (orderly_lift (orderly_act _)) fun c => ?_
    cases c with
    | true =>
      refine .raising (orderly_lift hattach) fun _ => .raising (orderly_lift hclean) fun _ => ?_
      exact .raising (orderly_lift hcancelled) fun _ => orderly_pure _
    | false =>
      refine .raising (orderly_lift hclean) fun _ => .raising (orderly_lift (hfailed _)) fun _ => ?_
      exact .raising (orderly_lift (orderly_act _)) fun _ => .raising (orderly_lift hattach) fun _ => orderly_pure _
  | ok r =>
    obtain ⟨cancelled, total, done⟩ := r
    refine .raising (orderly_lift hattach) fun _ => ?_
    cases cancelled with
    | true => exact .raising (orderly_lift hclean) fun _ => .raising (orderly_lift hcancelled) fun _ => orderly_pure _
    | false =>
      simp only [Bool.false_eq_true, if_false]
      split
      · refine .raising (orderly_lift hclean) fun _ => .raising (orderly_lift (hfailed _)) fun _ => ?_
        exact .raising (orderly_lift (orderly_act _)) fun _ => orderly_pure _
      · refine .raising (orderly_lift (orderly_act _)) fun c => ?_
        cases c with
        | true => exact .raising (orderly_lift hclean) fun _ => .raising (orderly_lift hcancelled) fun _ => orderly_pure _
        | false => exact .raising (orderly_raise (orderly_act _)) fun _ => orderly_pure _

theorem orderly_commitDeploy (h : OnlyOps hs) : Orderly hs (commitDeploy j cmd) := by
  refine (orderly_act _).bind fun _ => (orderly_act _).bind fun _ => .locked h.ranked ?_
  refine Orderly.lockedSelf h.cons.beforeSelf ((orderly_act _).bind fun _ => .ite (orderly_pure _) ?_)
  exact (orderly_act _).bind fun _ => (orderly_act _).bind fun _ => orderly_pure _

theorem beforeSelf_download (name : String) : BeforeSelf [.download name] := by
  intro l hl
  rw [List.mem_singleton.mp hl]
  simp [rank]

/-- Under the guard the lock of the file name is made. -/
theorem Orderly.withLockFor {α : Type} {name : String} {f : Lock → Raising α} (h : Orderly [] (f (.download name)).run) :
    Orderly [] ((liftM (downloadLockFor name) : Raising Lock) >>= f).run := by
  have hguard : Ranked (σ := procSig) mayRetake rank [] (.rt .downloadsGuard) := .inr fun _ h => by cases h
  exact ⟨.lock hguard (.unlock trivial h.inOrder)⟩

/-- The download lock is given back before the config is committed. -/
theorem orderly_deploySteps : Orderly [] (deploySteps j cmd).run := by
  refine .raising (orderly_lift (orderly_act _)) fun cwd => .raising (orderly_raise (orderly_act _)) fun _ => ?_
  simp only
  split
  · exact orderly_pure _
  rename_i partialPath _
  refine .raising (orderly_lift (orderly_act _)) fun current => Orderly.withLockFor ?_
  have hdownload := beforeSelf_download cmd.modelName
  refine Orderly.raising (x := lockedRaising (.download cmd.modelName) _)
    (.locked (ranked_of_lt fun _ h => by cases h) ?_) fun there => ?_
  · refine .raising (orderly_lift (orderly_act _)) fun cancelled => ?_
    cases cancelled with
    | true => exact .raising (orderly_lift (orderly_reportCancelled cmd)) fun _ => orderly_pure _
    | false =>
      refine .raising (orderly_lift (orderly_act _)) fun node => ?_
      cases node with
      | some _ => exact orderly_pure _
      | none => exact orderly_downloadAndPublish hdownload ..
  · cases there with
    | false => exact orderly_pure _
    | true =>
      refine .raising (orderly_lift (orderly_commitDeploy onlyOps_nil)) fun done => ?_
      cases done with
      | false => exact orderly_lift (orderly_reportCancelled cmd)
      | true =>
        refine .raising (orderly_lift (orderly_act _)) fun _ => .raising (orderly_lift (orderly_act _)) fun _ => ?_
        exact orderly_lift (orderly_reportCommand ..)

theorem orderly_deployWorker : Orderly [] (deployWorker j cmd) := by
  refine orderly_deploySteps.bind fun r => ?_
  have hdrop : Orderly [] (locked .self (act (.dropWorker cmd.pipelineId cmd.id))) :=
    Orderly.lockedSelf beforeSelf_nil (orderly_act _)
  cases r with
  | ok _ => exact hdrop.bind fun _ => orderly_act _
  | error _ => exact (orderly_reportCommand ..).bind fun _ => (orderly_act _).bind fun _ => hdrop.bind fun _ => orderly_act _

theorem orderly_cancelDeploy (h : BeforeSelf hs) (id pid : String) : Orderly hs (cancelDeploy id pid) := by
  refine Orderly.bind (Orderly.lockedSelf h ((orderly_liveWorker pid).bind fun w => ?_)) fun cancelled => ?_
  · cases w with
    | none => exact (orderly_reportCommand ..).bind fun _ => orderly_pure _
    | some _ => exact (orderly_act _).bind fun _ => orderly_pure _
  · cases cancelled with
    | none => exact orderly_pure _
    | some w =>
      refine Orderly.bind ?_ fun _ => orderly_reportCommand ..
      rcases w.response with _ | k
      · exact orderly_pure _
      · exact orderly_act _

end Deploys

/-! ### The threads -/

section Threads

variable {V : Validator} {me : Option ℕ}

theorem orderly_dispatch (cmd : Command) : Orderly [] (dispatch V me cmd) := by
  cases cmd with
  | deployModel cmd => exact orderly_deployModel beforeSelf_nil
  | cancelDeploy id pid => exact orderly_cancelDeploy beforeSelf_nil id pid
  | startModel id pid config =>
    exact (orderly_startPipeline onlyOps_nil _ _).bind fun _ => .ite (orderly_reportCommand ..) (orderly_reportCommand ..)
  | startModelInference id pid => exact (orderly_startPipeline onlyOps_nil _ _).bind fun _ => orderly_reportOutcome ..
  | stopModelInference id pid => exact (orderly_stopPipeline onlyOps_nil _).bind fun _ => orderly_reportOutcome ..
  | startServing cmd => exact orderly_startServing onlyOps_nil cmd
  | stopServing id pid => exact orderly_stopServing onlyOps_nil id pid
  | uninstallModel cmd => exact orderly_uninstallCommand cmd
  | updatePipeline cmd => exact orderly_updatePipeline onlyOps_nil cmd
  | status _ => exact orderly_pure _
  | updateAgent id => exact orderly_updateAgent id
  | updateAgentConfig id config => exact (orderly_applyAgentConfig onlyOps_nil _).bind fun _ => orderly_reportCommand ..

theorem orderly_handleCommand (data : Json) : Orderly [] (handleCommand V me data) := by
  refine (orderly_act _).bind fun current => ?_
  split
  · exact orderly_dispatch _
  · split
    · exact .ite (orderly_pure _) (orderly_reportCommand ..)
    · exact orderly_pure _

theorem orderly_recoverConfigs : ∀ l : List PipelineConfig, Orderly [] (recoverConfigs l)
  | [] => orderly_pure _
  | _ :: l => (orderly_act _).bind fun _ => orderly_recoverConfigs l

theorem orderly_reannounce (pid : String) : Orderly [] (reannounce pid) := by
  refine (orderly_act _).bind fun c => .ite ?_ (.ite (orderly_act _) (orderly_pure _))
  exact (orderly_act _).bind fun _ => orderly_act _

theorem orderly_recoverActive : ∀ l : List String, Orderly [] (recoverActive V l)
  | [] => orderly_pure _
  | pid :: l => by
    refine Orderly.bind ?_ fun _ => orderly_recoverActive l
    exact (orderly_startPipeline onlyOps_nil _ _).bind fun _ => .ite (orderly_reannounce pid) (orderly_pure _)

theorem orderly_run : Orderly [] (run V) := by
  have hend : Orderly [] (do
      act (.report (.lifecycle true))
      flushPendingUninstallReports) :=
    (orderly_act _).bind fun _ => orderly_flushPendingUninstallReports
  refine (orderly_act _).bind fun saved => ?_
  cases saved with
  | none => exact hend
  | some saved => exact (orderly_recoverConfigs _).bind fun _ => (orderly_recoverActive _).bind fun _ => hend

theorem orderly_modelRows : ∀ l : List (String × Stored), Orderly [.self] (modelRows l)
  | [] => orderly_pure _
  | (pid, c) :: l => by
    refine .ite ?_ (orderly_modelRows l)
    exact (orderly_act _).bind fun _ => (orderly_modelRows l).bind fun _ => orderly_pure _

theorem orderly_listModels : Orderly [] listModels :=
  Orderly.lockedSelf beforeSelf_nil ((orderly_act _).bind fun _ => orderly_modelRows _)

theorem orderly_actOnShown (action : ModelAction) (id pid : String) : Orderly [] (actOnShown V action id pid) := by
  refine orderly_listModels.bind fun rows => ?_
  split
  · exact orderly_pure _
  · exact orderly_handleCommand _

theorem orderly_postModelAction (action : ModelAction) (id pid : String) : Orderly [] (postModelAction V action id pid) := by
  cases action with
  | cancelDeploy => exact orderly_handleCommand _
  | serve | stopServing | uninstall => exact orderly_actOnShown _ id pid

theorem orderly_postUpdate (id : String) : Orderly [] (postUpdate V id) :=
  (orderly_act _).bind fun _ => .ite (orderly_handleCommand _) (orderly_pure _)

/-- Code of the process that takes its locks in order, where these are held. -/
abbrev Takes (hs : List ProcLock) {α : Type} (p : ProcCode α) : Prop := InOrder (σ := procSig) mayRetake rank hs p

theorem takes_act {hs : List ProcLock} (a : ProcAct) : Takes hs (ProcCode.act a) := inOrder_call (σ := procSig) a

theorem takes_pure {hs : List ProcLock} {α : Type} (a : α) : Takes hs (pure a : ProcCode α) := inOrder_pure (σ := procSig) a

/-- A lock that is taken where none is held. -/
theorem Takes.alone {l : ProcLock} {α : Type} {p : ProcCode α} (h : Takes [l] p) : Takes [] (ProcCode.locked l p) :=
  InOrder.locked (.inr fun _ hk => by cases hk) h

theorem takes_mainLoop : ∀ rounds : List Bool, Takes [] (mainLoop rounds)
  | [] => takes_pure _
  | due :: rounds => by
    have hrest := takes_mainLoop rounds
    refine InOrder.bind (takes_act _) fun running => ?_
    cases running with
    | false => exact takes_pure _
    | true =>
      cases due with
      | false => exact hrest
      | true => exact InOrder.bind orderly_flushPendingUninstallReports.inOrder fun _ => hrest

theorem takes_cancelWorkers : ∀ ws : List AgentWorker, Takes [] (cancelWorkers ws)
  | [] => takes_pure _
  | _ :: ws => InOrder.bind (takes_act _) fun _ => takes_cancelWorkers ws

theorem takes_joinWorkers : ∀ ws : List AgentWorker, Takes [] (joinWorkers ws)
  | [] => takes_pure _
  | _ :: ws => InOrder.bind (takes_act _) fun _ => takes_joinWorkers ws

theorem takes_stopPipes {hs : List ProcLock} : ∀ l : List Pipe, Takes hs (stopPipes l)
  | [] => takes_pure _
  | _ :: l => InOrder.bind (takes_act _) fun _ => takes_stopPipes l

theorem takes_joinPipes {hs : List ProcLock} : ∀ l : List Pipe, Takes hs (joinPipes l)
  | [] => takes_pure _
  | pipe :: l => by
    have hrest : Takes hs (joinPipes l) := takes_joinPipes l
    refine InOrder.bind (takes_act _) fun alive => ?_
    cases alive with
    | false => exact hrest
    | true => exact InOrder.bind (takes_act _) fun _ => hrest

theorem takes_shutdown : Takes [] shutdown := by
  refine InOrder.bind (Takes.alone (takes_act _)) fun workers => ?_
  refine InOrder.bind (takes_cancelWorkers workers) fun _ => InOrder.bind (takes_joinWorkers workers) fun _ => ?_
  refine InOrder.bind (Takes.alone (InOrder.bind (takes_act _) fun pipes => ?_)) fun _ => ?_
  · exact InOrder.bind (takes_stopPipes pipes) fun _ => InOrder.bind (takes_joinPipes pipes) fun _ => takes_act _
  · exact InOrder.bind (takes_act _) fun _ => takes_act _

theorem takes_lifetime (rounds : List Bool) : Takes [] (lifetime V rounds) := by
  refine InOrder.bind (takes_act _) fun _ => InOrder.bind orderly_run.inOrder fun _ => ?_
  refine InOrder.bind (takes_mainLoop rounds) fun _ => InOrder.bind takes_shutdown fun _ => takes_act _

theorem takes_healthSnapshot : Takes [] healthSnapshot := by
  refine InOrder.bind (takes_act _) fun _ => InOrder.bind (Takes.alone (takes_act _)) fun _ => ?_
  exact InOrder.bind (takes_act _) fun _ => takes_pure _

/-- Whatever a client asks for. -/
theorem takes_answer {α : Type} {s s' : Proc} {p : ProcCode α} {q : ProcCode Unit} (h : Takes [] p)
    (ha : answer s p = some (q, s')) : Takes [] q := by
  obtain ⟨-, ha⟩ := Option.ite_none_right_eq_some.mp ha
  obtain ⟨rfl, -⟩ := Prod.mk.inj (Option.some.inj ha)
  exact InOrder.bind h fun _ => takes_pure _

/-- Every thread that enters takes its locks in order. -/
theorem takes_arrive {x : Arrival} {s s' : Proc} {p : ProcCode Unit} (hx : arrive V x s = some (p, s')) : Takes [] p := by
  cases x with
  | main rounds =>
    obtain ⟨rfl, -⟩ := Prod.mk.inj (Option.some.inj hx)
    exact takes_lifetime rounds
  | signal =>
    obtain ⟨rfl, -⟩ := Prod.mk.inj (Option.some.inj hx)
    exact takes_pure _
  | runtime e =>
    obtain ⟨⟨q, rt⟩, hq, hp⟩ := Option.map_eq_some_iff.mp hx
    obtain ⟨rfl, -⟩ := Prod.mk.inj hp
    cases e with
    | command me data =>
      obtain ⟨-, hq⟩ := Option.ite_none_right_eq_some.mp hq
      obtain ⟨rfl, -⟩ := Prod.mk.inj (Option.some.inj hq)
      exact (orderly_handleCommand data).inOrder
    | worker j =>
      obtain ⟨-, hq⟩ := Option.ite_none_right_eq_some.mp hq
      obtain ⟨rfl, -⟩ := Prod.mk.inj (Option.some.inj hq)
      exact orderly_deployWorker.inOrder
  | getModels => exact takes_answer orderly_listModels.inOrder hx
  | getHealth => exact takes_answer takes_healthSnapshot hx
  | modelAction action id pid => exact takes_answer (orderly_postModelAction action id pid).inOrder hx
  | update id => exact takes_answer (orderly_postUpdate id).inOrder hx
  | pending pid name =>
    have hset : Orderly [] (postPending pid name) := orderly_act _
    exact takes_answer hset.inOrder hx

/-- **No deadlock.** Whatever threads the process has had, none wait for each other's
locks in a circle. -/
theorem never_deadlocked (V : Validator) {s : Proc} {es : List (Ev Arrival)} {c : Sys procSig Proc}
    (he : (process V).exec (launched s) es = some c) (i : ℕ) : ¬Relation.TransGen ((process V).Blocks c) i i :=
  exec_no_cycle (M := process V) (fun _ _ _ _ hx => takes_arrive hx) he i

/-- A client asks for the models while the command pipeline is stopped. -/
def clientWaits : List (Ev Arrival) :=
  .enter .getModels :: .enter (.runtime (.command (some 0) (command "STOP_MODEL_INFERENCE"
    [("pipeline_id", .str "command_center")]))) :: List.replicate 3 (.step 1)

/-- The first of the threads waits for the lock that the second holds. -/
def ClientWaits (c : Sys procSig Proc) : Prop :=
  (process .strict).Waits c 0 (ProcLock.rt .self) ∧ Holding (σ := procSig) c.held (.rt .self) 1

instance (c : Sys procSig Proc) : Decidable (ClientWaits c) :=
  @instDecidableAnd _ _ (decidableWaits (σ := procSig) _ _ _) (decidableHolding (σ := procSig) _ _ _)

/-- The client waits for the other thread, and that one for none. -/
theorem never_deadlocked_client : ∃ c, (process .strict).exec (launched ⟨bootedDevice, none, true, fun _ _ => false, 0⟩)
    clientWaits = some c ∧ (process .strict).Blocks c 0 1 ∧ ¬Relation.TransGen ((process .strict).Blocks c) 0 0 := by
  have hrun : ((process .strict).exec (launched ⟨bootedDevice, none, true, fun _ _ => false, 0⟩) clientWaits).any
      (fun c => ClientWaits c) = true := by
    decide +kernel
  obtain ⟨c, hc, hwait⟩ := (Option.any_eq_true _ _).mp hrun
  have hclient : ClientWaits c := of_decide_eq_true hwait
  exact ⟨c, hc, ⟨ProcLock.rt .self, hclient⟩, never_deadlocked .strict hc 0⟩

end Threads

end AgentRuntime
end LocaiLink
