/-
# What a reported start stands for

`_start_pipeline` answers True when it has started an instance, and when it finds
the config it is given to be the stored one of a pipeline it tracks. There it
looks neither at the config the tracked instance was built from nor at its
thread, so it reports a real start exactly when both are right
(`reported_start_iff`). A start that fails leaves the stored config as it is, but
`START_SERVING` merges its arguments into it, and persists them, before it starts
anything (`failed_start_keeps_iff`).
-/
import LocaiLink.Runtime.Answers
import LocaiLink.Runtime.Push
import LocaiLink.Runtime.Served
import LocaiLink.Runtime.Threads

namespace LocaiLink
namespace AgentRuntime

open Rt Code

/-! ### What runs after a start that is reported -/

/-- The config a start is called with, when it validates. -/
def calledWith (V : Validator) (pid : String) : Option Json → Option PipelineConfig
  | some (.obj (e :: l)) => V.pipelineConfig (withId pid (.obj (e :: l)))
  | _ => none

/-- The config a start is asked to run: the one it is called with, else the stored one. -/
def wanted (V : Validator) (pid : String) (data : Option Json) (stored : Option PipelineConfig) : Option PipelineConfig :=
  match data with
  | some (.obj (_ :: _)) => calledWith V pid data
  | _ => stored

/-- A thread that was started, and has neither ended nor been told to stop. -/
def Live (t : PipeThread) : Prop := t.started = true ∧ t.ended = false ∧ t.running = true

/-- The id is tracked with a live instance that was built from the config. -/
def Runs (pid : String) (c : PipelineConfig) (s : Rt) : Prop :=
  ∃ pipe, s.pipelines.get? pid = some pipe ∧ pipe.conf.eq c = true ∧ Live (s.threads pipe.thread)

/-- If the start is reported, the config that was wanted runs. -/
def ReportedStartIsReal (V : Validator) (me : Option ℕ) (pid : String) (data : Option Json) (s : Rt) : Prop :=
  (s.run (startPipeline V me pid data)).1 = true →
    ∃ c, wanted V pid data (s.stored pid) = some c ∧ Runs pid c (s.run (startPipeline V me pid data)).2

/-- What is tracked under the id runs the given config, if that is the stored one. -/
def SkipsLive (V : Validator) (pid : String) (data : Option Json) (s : Rt) : Prop :=
  ∀ c, calledWith V pid data = some c → (s.stored pid).any c.eq = true → (s.pipelines.get? pid).isSome = true → Runs pid c s

/-- A start that is called with no config, or an empty one, goes by the stored config. -/
theorem uncalled (V : Validator) (pid : String) {data : Option Json} (stored : Option PipelineConfig) (running : Bool)
    (h : ∀ e l, data ≠ some (.obj (e :: l))) :
    calledWith V pid data = none ∧ wanted V pid data stored = stored ∧
      planOf V pid data stored running = planOf V pid none stored running := by
  cases data with
  | none => exact ⟨rfl, rfl, rfl⟩
  | some j =>
    cases j with
    | obj l =>
      cases l with
      | nil => exact ⟨rfl, rfl, rfl⟩
      | cons e l => exact absurd rfl (h e l)
    | _ => exact ⟨rfl, rfl, rfl⟩

theorem planOf_skips {V : Validator} {pid : String} {data : Option Json} {stored : Option PipelineConfig} {running : Bool} :
    planOf V pid data stored running = .error true ↔
      ∃ c, calledWith V pid data = some c ∧ stored.any c.eq = true ∧ running = true := by
  by_cases hdata : ∃ e l, data = some (.obj (e :: l))
  · obtain ⟨e, l, rfl⟩ := hdata
    simp only [planOf, calledWith]
    generalize V.pipelineConfig (withId pid (.obj (e :: l))) = conf
    cases conf with
    | none => simp
    | some c => cases running <;> cases ha : stored.any c.eq <;> simp [ha]
  · obtain ⟨hcalled, -, hplan⟩ := uncalled V pid stored running fun e l heq => hdata ⟨e, l, heq⟩
    rw [hcalled, hplan]
    cases stored <;> simp [planOf]

theorem wanted_of_planOf {V : Validator} {pid : String} {data : Option Json} {stored : Option PipelineConfig}
    {running : Bool} {plan : Plan} (h : planOf V pid data stored running = .ok plan) :
    wanted V pid data stored = some plan.conf := by
  by_cases hdata : ∃ e l, data = some (.obj (e :: l))
  · obtain ⟨e, l, rfl⟩ := hdata
    simp only [planOf, wanted, calledWith] at h ⊢
    generalize V.pipelineConfig (withId pid (.obj (e :: l))) = conf at h ⊢
    cases conf with
    | none => cases h
    | some c =>
      simp only at h
      split_ifs at h
      obtain rfl := Except.ok.inj h
      rfl
  · obtain ⟨-, hwanted, hplan⟩ := uncalled V pid stored running fun e l heq => hdata ⟨e, l, heq⟩
    rw [hwanted]
    rw [hplan] at h
    cases stored with
    | none => cases h
    | some c =>
      obtain rfl := Except.ok.inj h
      rfl

theorem wanted_of_calledWith {V : Validator} {pid : String} {data : Option Json} {stored : Option PipelineConfig}
    {c : PipelineConfig} (h : calledWith V pid data = some c) : wanted V pid data stored = some c := by
  by_cases hdata : ∃ e l, data = some (.obj (e :: l))
  · obtain ⟨e, l, rfl⟩ := hdata
    exact h
  · rw [(uncalled V pid stored true fun e l heq => hdata ⟨e, l, heq⟩).1] at h
    cases h

/-- The instance a commit enters is live. -/
theorem runs_commitStart (pid : String) (plan : Plan) (s : Rt) : Runs pid plan.conf (commitStart pid plan s) := by
  have hthread : (commitStart pid plan s).threads s.nextThread = { started := true } := by
    have hstore (op : Store.Op) (t : Rt) : (t.performStore op).threads = t.threads := by
      unfold performStore
      split <;> rfl
    unfold commitStart
    simp only [hstore]
    cases plan.pending <;> simp [perform, setThread]
  refine ⟨⟨plan.conf, s.nextThread⟩, ?_, by simp, ?_⟩
  · rw [get?_commitStart_pipelines, Dict.get?_set_self]
  · rw [hthread]
    exact ⟨rfl, rfl, rfl⟩

/-- A start answers at once, or what it carries out ends in a commit when it succeeds. -/
theorem startPipeline_true (V : Validator) (me : Option ℕ) (pid : String) (data : Option Json) (s : Rt)
    (h : (s.run (startPipeline V me pid data)).1 = true) :
    (planOf V pid data (s.stored pid) (s.built pid).isSome = .error true ∧
        (s.run (startPipeline V me pid data)).2 = s) ∨
      ∃ plan u, planOf V pid data (s.stored pid) (s.built pid).isSome = .ok plan ∧
        (s.run (startPipeline V me pid data)).2 = commitStart pid plan u := by
  unfold startPipeline at h ⊢
  simp only [run_locked, run_bind, run_planStart] at h ⊢
  cases hplan : planOf V pid data (s.stored pid) (s.built pid).isSome with
  | error b =>
    simp only [hplan] at h ⊢
    obtain rfl : b = true := h
    exact .inl ⟨rfl, rfl⟩
  | ok plan =>
    simp only [hplan, run_carryOut] at h ⊢
    split_ifs at h ⊢
    exact .inr ⟨plan, _, rfl, rfl⟩

/-- **A reported start is real, exactly.** When `_start_pipeline` answers True a
live instance of the wanted config is tracked, just if the given config is not
the stored one of a tracked id, or the tracked instance is live and was built from it. -/
theorem reported_start_iff (V : Validator) (me : Option ℕ) (pid : String) (data : Option Json) (s : Rt) :
    ReportedStartIsReal V me pid data s ↔ SkipsLive V pid data s := by
  have hbuilt : (s.built pid).isSome = (s.pipelines.get? pid).isSome := by rw [Rt.built, Option.isSome_map]
  constructor
  · intro h c hc hstored htracked
    have hplan : planOf V pid data (s.stored pid) (s.built pid).isSome = .error true :=
      planOf_skips.mpr ⟨c, hc, hstored, hbuilt.trans htracked⟩
    have hrun : s.run (startPipeline V me pid data) = (true, s) := by
      unfold startPipeline
      simp only [run_locked, run_bind, run_planStart, hplan]
      rfl
    obtain ⟨c', hc', hruns⟩ := h (congrArg Prod.fst hrun)
    rw [hrun] at hruns
    obtain rfl := Option.some.inj ((wanted_of_calledWith hc).symm.trans hc')
    exact hruns
  · intro h htrue
    rcases startPipeline_true V me pid data s htrue with ⟨hplan, hsame⟩ | ⟨plan, u, hplan, hcommit⟩
    · obtain ⟨c, hc, hstored, hrunning⟩ := planOf_skips.mp hplan
      refine ⟨c, wanted_of_calledWith hc, ?_⟩
      rw [hsame]
      exact h c hc hstored (hbuilt.symm.trans hrunning)
    · refine ⟨plan.conf, wanted_of_planOf hplan, ?_⟩
      rw [hcommit]
      exact runs_commitStart pid plan u

/-- A device on which no thread ends in time has started `m`, and failed to stop it. -/
def stoppedSlowly : Rt :=
  let booted := ((device [commandCenter] fun q _ => { yes := q ≠ .thread }).run (run .strict)).2
  let started := (booted.run (handleCommand .strict none (startModelCommand "m" (modelConfig "m" false)))).2
  (started.run (handleCommand .strict none (command "STOP_MODEL_INFERENCE" [("pipeline_id", .str "m")]))).2

/-- Starting `m` again with its config is reported, and what is tracked was told to stop. -/
theorem stopped_reported_started :
    ¬ReportedStartIsReal .strict none "m" (some (modelConfig "m" false).modelDump) stoppedSlowly := by
  rw [reported_start_iff]
  intro h
  have hstate : (stoppedSlowly.stored "m").any (modelConfig "m" false).eq = true ∧
      (stoppedSlowly.pipelines.get? "m").any (fun pipe => !(stoppedSlowly.threads pipe.thread).running) = true := by
    decide +kernel
  obtain ⟨pipe, hpipe, hstopped⟩ := (Option.any_eq_true _ _).mp hstate.2
  obtain ⟨pipe', hpipe', -, -, -, hrunning⟩ := h (modelConfig "m" false) rfl hstate.1 (hpipe ▸ rfl)
  obtain rfl := Option.some.inj (hpipe.symm.trans hpipe')
  rw [hrunning] at hstopped
  cases hstopped

/-! ### What a start that is reported failed leaves stored -/

/-- A config but for its active flag. -/
def dormant (c : PipelineConfig) : PipelineConfig := { c with active := false }

/-- The entries of an id in a document, but for their active flags. -/
def entries (pid : String) (d : Option AgentConfig) : Option (List PipelineConfig) :=
  d.map fun d => (Store.occ pid d.pipelines).map dormant

/-- What the session file reads back as. -/
def onDisk (s : Rt) : Option AgentConfig := s.store.bind (·.disk)

/-- The config of an id is as before: in memory, in the session document and,
where its writes succeed and it was in step, in the session file. -/
structure ConfigKept (pid : String) (s t : Rt) : Prop where
  stored : t.stored pid = s.stored pid
  persisted : entries pid t.doc = entries pid s.doc
  file : s.FlushOk → s.Synced → entries pid (onDisk t) = entries pid (onDisk s)

/-- A command was reported failed on the way from a state to another. -/
def ReportedFailed (s t : Rt) : Prop :=
  ∃ l id output, t.reports = s.reports ++ l ∧ .command id .failed output ∈ l

/-- The pipeline a command starts, if it is one of the three that do. -/
def startedBy : Command → Option String
  | .startModel _ pid _ => some pid
  | .startServing cmd => some cmd.pipelineId
  | .updatePipeline cmd => some cmd.pipelineId
  | _ => none

/-- What the device validates a command's payload to. -/
def commandOf (V : Validator) (s : Rt) (data : Json) : Option Command :=
  V.command (Templating.resolveTemplates (identityContext s.agentConfig.identity) data)

/-- The arguments of `START_SERVING` are in the stored config already, if there is
one, and the first persisted entry of its id is that config. -/
def MergesNothing (s : Rt) : Command → Prop
  | .startServing cmd => ∀ c, s.stored cmd.pipelineId = some c →
      Rt.updateArgs (servingArgs cmd) c = c ∧ (c.id = cmd.pipelineId → ∀ d, s.doc = some d →
        (Store.occ cmd.pipelineId d.pipelines).head?.map dormant = some (dormant c))
  | _ => True

theorem file_of_persisted {pid : String} {s t : Rt} (hs : s.Synced) (ht : t.Synced) (h : entries pid t.doc = entries pid s.doc) :
    entries pid (onDisk t) = entries pid (onDisk s) := by
  have hdisk (u : Rt) (hu : u.Synced) : onDisk u = u.doc := by
    unfold onDisk doc
    cases hstore : u.store with
    | none => rfl
    | some st => exact hu st hstore
  rw [hdisk t ht, hdisk s hs, h]

theorem entries_eq (pid : String) (s : Rt) : entries pid s.doc = (s.occ pid).map (List.map dormant) := by
  unfold entries Rt.occ
  rw [Option.map_map]
  rfl

theorem map_dormant_setHead (b : Bool) (l : List PipelineConfig) : (Store.setHead b l).map dormant = l.map dormant := by
  cases l <;> rfl

theorem map_dormant_upsertHead (c : PipelineConfig) (l : List PipelineConfig) :
    (Store.upsertHead c l).map dormant = l.map dormant ↔ l.head?.map dormant = some (dormant c) := by
  cases l with
  | nil => simp [Store.upsertHead]
  | cons p l =>
    have hc : dormant { c with active := p.active } = dormant c := rfl
    simp [Store.upsertHead, hc, eq_comm]

/-- A start that failed has touched the flag of the first entry at most. -/
theorem StartFailed.kept {pid : String} {s t : Rt} (h : StartFailed pid s t) :
    t.stored pid = s.stored pid ∧ entries pid t.doc = entries pid s.doc := by
  rw [entries_eq, entries_eq]
  rcases h with h | ⟨-, h⟩
  · have hloc := h.loc pid
    exact ⟨congrArg Loc.stored hloc, congrArg (fun l => l.occ.map (List.map dormant)) hloc⟩
  · refine ⟨congrArg Loc.stored h.loc, ?_⟩
    rw [show t.occ pid = _ from congrArg Loc.occ h.loc, Option.map_map]
    exact congrArg (fun f => (s.occ pid).map f) (funext fun l => map_dormant_setHead false l)

/-! ### Which report a start ends in -/

theorem reports_perform {a : Act} (h : ∀ r, a ≠ .report r) (s : Rt) : (perform a s).2.reports = s.reports := by
  have hfile {fails : Option String} {f : Rt → Rt} (hf : ∀ t, (f t).reports = t.reports) :
      (s.fileOp fails f).2.reports = s.reports := by
    unfold fileOp
    split
    · rfl
    · exact hf s.tock
  cases a <;> simp only [perform] <;> try rfl
  case report r => exact absurd rfl (h r)
  case updateArgs => unfold modifyStored; split <;> rfl
  case createComponent => split <;> rfl
  case join => unfold Rt.join; split_ifs <;> rfl
  case store => unfold performStore; split <;> rfl
  case attachResponse => split <;> [split; skip] <;> rfl
  case dropWorker => split <;> [split; skip] <;> rfl
  case mkdir p => exact hfile (f := setNode p _) fun _ => rfl
  case unlink p => exact hfile (f := setNode p _) fun _ => rfl
  case create p => exact hfile (f := setNode p _) fun _ => rfl
  case append p chunk => exact hfile fun t => by unfold appendTo; split <;> rfl
  case replace p q => exact hfile (f := fun t => (t.setNode p none).setNode q (s.node p)) fun _ => rfl
  case savePending => split <;> rfl
  case setDeployment => unfold setDeployment; split <;> [skip; split] <;> rfl

/-- What starts, stops and configures reports nothing. -/
theorem reports_inner {α : Type} {p : Code α} (h : Does Inner p) (s : Rt) : (s.run p).2.reports = s.reports := by
  refine Prog.Only.run_keeps perform (σ := rtSig) (I := fun t => t.reports = s.reports) (fun a t ha ht => ?_) h.only rfl
  refine (reports_perform (fun r hr => ?_) t).trans ht
  subst hr
  exact ha

theorem reports_report (r : Report) (s : Rt) :
    (perform (.report r) s).2.reports = s.reports ++ if r.isSent then [r] else [] := by
  simp only [perform]
  split <;> simp

/-- No failure of a command was reported on the way. -/
def Untroubled (s t : Rt) : Prop := ∃ l, t.reports = s.reports ++ l ∧ ∀ id output, .command id .failed output ∉ l

theorem Untroubled.not_failed {s t : Rt} (h : Untroubled s t) : ¬ReportedFailed s t := by
  obtain ⟨l, hl, hnone⟩ := h
  rintro ⟨l', id, output, hl', hmem⟩
  obtain rfl := List.append_cancel_left (hl.symm.trans hl')
  exact hnone id output hmem

theorem untroubled_of_reports {s t : Rt} (h : t.reports = s.reports) : Untroubled s t :=
  ⟨[], by rw [h, List.append_nil], fun _ _ => List.not_mem_nil⟩

/-- A report of anything else. -/
theorem Untroubled.report {s t : Rt} {r : Report} (h : Untroubled s t) (hr : ∀ id output, r ≠ .command id .failed output) :
    Untroubled s (perform (.report r) t).2 := by
  obtain ⟨l, hl, hnone⟩ := h
  refine ⟨l ++ if r.isSent then [r] else [], ?_, fun id output hmem => ?_⟩
  · rw [reports_report, hl, List.append_assoc]
  · rcases List.mem_append.mp hmem with hmem | hmem
    · exact hnone id output hmem
    · split_ifs at hmem
      · exact hr id output (List.mem_singleton.mp hmem).symm
      · cases hmem

/-! ### The three commands -/

/-- The same stored config and persisted entries, for what only the flags and the
reports notice. -/
def Unmoved (pid : String) (s t : Rt) : Prop := t.stored pid = s.stored pid ∧ entries pid t.doc = entries pid s.doc

theorem SameViews.kept {s t : Rt} (h : SameViews s t) (pid : String) : Unmoved pid s t :=
  StartFailed.kept (.inl h)

theorem Unmoved.same {pid : String} {s t u : Rt} (h : Unmoved pid s t) (h' : SameViews t u) : Unmoved pid s u := by
  obtain ⟨hstored, hentries⟩ := SameViews.kept h' pid
  exact ⟨hstored.trans h.1, hentries.trans h.2⟩

/-- A start that did not succeed failed. -/
theorem kept_startPipeline (V : Validator) (me : Option ℕ) (pid : String) (data : Option Json) (s : Rt)
    (h : (s.run (startPipeline V me pid data)).1 = false) : Unmoved pid s (s.run (startPipeline V me pid data)).2 := by
  rcases startPipeline_cases V me pid data s with ⟨b, -, hrun⟩ | ⟨t, hrun, hfailed⟩ | ⟨plan, t, -, hrun, -⟩
  · rw [hrun]
    exact SameViews.kept (.refl s) pid
  · rw [hrun]
    exact hfailed.kept
  · rw [hrun] at h
    cases h

/-- A command that reports how a start went, from a state in which nothing was reported yet. -/
theorem kept_of_outcome {s x t : Rt} {pid id completed failed : String} {success : Bool} (hreports : t.reports = s.reports)
    (hkept : success = false → Unmoved pid x t)
    (hfailed : ReportedFailed s (t.run (if success = true then reportCommand id .completed completed
      else reportCommand id .failed failed)).2) :
    Unmoved pid x (t.run (if success = true then reportCommand id .completed completed
      else reportCommand id .failed failed)).2 := by
  cases success with
  | true => exact absurd hfailed ((untroubled_of_reports hreports).report (by simp)).not_failed
  | false => exact (hkept rfl).same ((quietly_reportCommand ..).same t)

theorem kept_startModel (V : Validator) (me : Option ℕ) (id pid : String) (config : PipelineConfig) (s : Rt)
    (h : ReportedFailed s (s.run (dispatch V me (.startModel id pid config))).2) :
    Unmoved pid s (s.run (dispatch V me (.startModel id pid config))).2 := by
  have hreports := reports_inner (does_startPipeline V me pid (some config.modelDump)) s
  have hkept := kept_startPipeline V me pid (some config.modelDump) s
  unfold dispatch at h ⊢
  simp only [run_bind] at h ⊢
  exact kept_of_outcome hreports hkept h

theorem kept_updatePipeline (V : Validator) (me : Option ℕ) (cmd : UpdatePipelineCommand) (s : Rt)
    (h : ReportedFailed s (s.run (updatePipeline V me cmd)).2) : Unmoved cmd.pipelineId s (s.run (updatePipeline V me cmd)).2 := by
  unfold updatePipeline at h ⊢
  simp only at h ⊢
  split_ifs at h ⊢ with hid
  · exact SameViews.kept ((quietly_reportCommand ..).same s) _
  simp only [run_bind, run_locked] at h ⊢
  refine kept_of_outcome ?_ (fun hfalse => ?_) h
  · change (s.run (if (s.pipelines.get? cmd.pipelineId).isSome = true then _ else _)).2.reports = s.reports
    split
    · exact reports_inner (does_startPipeline ..) s
    · have hset : (perform (.setConfig cmd.pipelineId cmd.config) s).2.reports = s.reports := rfl
      exact (reports_perform (a := .store (.updatePipelineConfig cmd.config)) (by simp) _).trans hset
  · change Unmoved cmd.pipelineId s (s.run (if (s.pipelines.get? cmd.pipelineId).isSome = true then _ else _)).2
    change (s.run (if (s.pipelines.get? cmd.pipelineId).isSome = true then _ else _)).1 = false at hfalse
    split at hfalse <;> rename_i hrunning
    · rw [if_pos hrunning]
      exact kept_startPipeline V me cmd.pipelineId _ s hfalse
    · cases hfalse

/-- What `START_SERVING` does before it starts a pipeline that has a config. -/
theorem run_configureServing {cmd : StartServingCommand} {s : Rt} {c : PipelineConfig}
    (h : s.stored cmd.pipelineId = some c) : s.run (configureServing cmd) =
      (true, (s.modifyStored cmd.pipelineId (Rt.updateArgs (servingArgs cmd))).performStore
        (.updatePipelineConfig (Rt.updateArgs (servingArgs cmd) c))) := by
  have hmod := stored_modifyStored s cmd.pipelineId (Rt.updateArgs (servingArgs cmd)) cmd.pipelineId
  rw [if_pos rfl, h, Option.map_some] at hmod
  unfold configureServing
  simp only [run_locked, run_bind, run_act]
  rw [show perform (.getConfig cmd.pipelineId) s = (s.stored cmd.pipelineId, s) from rfl, h]
  simp only [run_bind, run_act]
  rw [show perform (.updateArgs cmd.pipelineId (servingArgs cmd)) s =
    ((s.modifyStored cmd.pipelineId (Rt.updateArgs (servingArgs cmd))).stored cmd.pipelineId,
      s.modifyStored cmd.pipelineId (Rt.updateArgs (servingArgs cmd))) from rfl, hmod]
  rfl

/-- The merge leaves the config as it is just if it merges nothing. -/
theorem kept_configureServing_iff {cmd : StartServingCommand} {s : Rt} {c : PipelineConfig}
    (h : s.stored cmd.pipelineId = some c) :
    Unmoved cmd.pipelineId s (s.run (configureServing cmd)).2 ↔ MergesNothing s (.startServing cmd) := by
  have hmod := stored_modifyStored s cmd.pipelineId (Rt.updateArgs (servingArgs cmd)) cmd.pipelineId
  rw [if_pos rfl, h, Option.map_some] at hmod
  have hid : (Rt.updateArgs (servingArgs cmd) c).id = c.id := rfl
  have hstored : (s.run (configureServing cmd)).2.stored cmd.pipelineId = some (Rt.updateArgs (servingArgs cmd) c) := by
    rw [run_configureServing h]
    exact (stored_congr (performStore_configs _ _) _).trans hmod
  have hdoc : (s.modifyStored cmd.pipelineId (Rt.updateArgs (servingArgs cmd))).occ cmd.pipelineId = s.occ cmd.pipelineId := by
    unfold modifyStored
    split <;> rfl
  have hocc : (s.run (configureServing cmd)).2.occ cmd.pipelineId = if cmd.pipelineId = c.id then
      (s.occ cmd.pipelineId).map (Store.upsertHead (Rt.updateArgs (servingArgs cmd) c)) else s.occ cmd.pipelineId := by
    rw [run_configureServing h]
    refine (occ_updatePipelineConfig _ _ _).trans ?_
    rw [hid, hdoc]
  unfold Unmoved
  rw [hstored, h, Option.some.injEq, entries_eq, entries_eq, hocc]
  simp only [MergesNothing, h, Option.some.injEq, forall_eq']
  refine and_congr_right fun hsame => ?_
  rw [hsame]
  by_cases heq : cmd.pipelineId = c.id
  · rw [if_pos heq]
    simp only [heq.symm, forall_const]
    unfold Rt.occ
    cases s.doc with
    | none => simp
    | some d => simpa using map_dormant_upsertHead c (Store.occ cmd.pipelineId d.pipelines)
  · rw [if_neg heq]
    exact iff_of_true rfl fun he => absurd he.symm heq

theorem kept_startServing_iff (V : Validator) (me : Option ℕ) (cmd : StartServingCommand) (s : Rt)
    (h : ReportedFailed s (s.run (startServing V me cmd)).2) :
    Unmoved cmd.pipelineId s (s.run (startServing V me cmd)).2 ↔ MergesNothing s (.startServing cmd) := by
  unfold startServing at h ⊢
  simp only [run_bind] at h ⊢
  cases hc : s.stored cmd.pipelineId with
  | none =>
    have hconf := configureServing_run cmd s
    rw [hc] at hconf
    obtain ⟨hfound, hsame⟩ := hconf
    rw [hfound]
    refine iff_of_true (SameViews.kept hsame _) fun c hc' => ?_
    rw [hc] at hc'
    cases hc'
  | some c =>
    have hiff := kept_configureServing_iff hc
    have hx : (s.run (configureServing cmd)).2.reports = s.reports := by
      rw [run_configureServing hc]
      refine (reports_perform (a := .store (.updatePipelineConfig (Rt.updateArgs (servingArgs cmd) c))) (by simp) _).trans ?_
      exact reports_perform (a := .updateArgs cmd.pipelineId (servingArgs cmd)) (by simp) s
    have hfound : (s.run (configureServing cmd)).1 = true := by rw [run_configureServing hc]
    generalize s.run (configureServing cmd) = r at h hiff hx hfound ⊢
    obtain ⟨found, x⟩ := r
    obtain rfl : found = true := hfound
    have hreports := (reports_inner (does_startPipeline V me cmd.pipelineId none) x).trans hx
    have hkept := kept_startPipeline V me cmd.pipelineId none x
    simp only [↓reduceIte, run_bind] at h ⊢
    generalize x.run (startPipeline V me cmd.pipelineId none) = r at h hreports hkept ⊢
    obtain ⟨success, t⟩ := r
    cases success with
    | true =>
      have hserving : Untroubled s (t.run (do
          reportCommand cmd.id .completed s!"Serving started for {cmd.pipelineId} on {cmd.host}:{cmd.port}"
          act (.report (.model cmd.pipelineId none false 0 true 1 (.int cmd.port))))).2 :=
        ((untroubled_of_reports hreports).report (by simp)).report (by simp)
      exact absurd h (Untroubled.not_failed hserving)
    | false =>
      rw [← hiff]
      have hend : Unmoved cmd.pipelineId x (t.run (reportCommand cmd.id .failed s!"Failed to start serving {cmd.pipelineId}")).2 :=
        (hkept rfl).same ((quietly_reportCommand ..).same t)
      unfold Unmoved at hend ⊢
      simp only [Bool.false_eq_true, ↓reduceIte]
      rw [hend.1, hend.2]

/-- What is done about a dict, by the command it validates as. -/
def handled (V : Validator) (me : Option ℕ) (data : Json) : Option Command → Code Unit
  | some cmd => dispatch V me cmd
  | none => rejectInvalid data

theorem run_handled (V : Validator) (me : Option ℕ) (data : Json) (s : Rt) :
    s.run (handleCommand V me data) = s.run (handled V me data (commandOf V s data)) := rfl

theorem same_rejectInvalid (data : Json) (s : Rt) : SameViews s (s.run (rejectInvalid data)).2 := by
  unfold rejectInvalid
  split
  · split_ifs
    · exact .refl s
    · exact (quietly_reportCommand ..).same s
  · exact .refl s

/-- **A failed start keeps the config, exactly.** When a command that starts a
pipeline is reported failed, the stored config and the persisted one are as
before, just if the command is not a `START_SERVING` with arguments to merge. -/
theorem failed_start_keeps_iff (V : Validator) (me : Option ℕ) (data : Json) (pid : String) (s : Rt)
    (hpid : ∀ cmd, commandOf V s data = some cmd → startedBy cmd = some pid)
    (hfailed : ReportedFailed s (s.run (handleCommand V me data)).2) :
    ConfigKept pid s (s.run (handleCommand V me data)).2 ↔ ∀ cmd, commandOf V s data = some cmd → MergesNothing s cmd := by
  have hfile (hk : Unmoved pid s (s.run (handleCommand V me data)).2) : ConfigKept pid s (s.run (handleCommand V me data)).2 := by
    refine ⟨hk.1, hk.2, fun hflush hsynced => ?_⟩
    exact file_of_persisted hsynced (run_synced (handleCommand V me data) s ⟨hflush, hsynced⟩).2 hk.2
  have hiff : ConfigKept pid s (s.run (handleCommand V me data)).2 ↔ Unmoved pid s (s.run (handleCommand V me data)).2 :=
    ⟨fun h => ⟨h.stored, h.persisted⟩, hfile⟩
  rw [hiff]
  rw [run_handled] at hfailed ⊢
  cases hcmd : commandOf V s data with
  | none => exact iff_of_true (SameViews.kept (same_rejectInvalid data s) pid) (by simp)
  | some cmd =>
    simp only [Option.some.injEq, forall_eq']
    rw [hcmd] at hfailed
    have hstarted := hpid cmd hcmd
    cases cmd with
    | startModel id pid' config =>
      obtain rfl := Option.some.inj hstarted
      exact iff_of_true (kept_startModel V me id pid' config s hfailed) trivial
    | startServing cmd =>
      obtain rfl := Option.some.inj hstarted
      exact kept_startServing_iff V me cmd s hfailed
    | updatePipeline cmd =>
      obtain rfl := Option.some.inj hstarted
      exact iff_of_true (kept_updatePipeline V me cmd s hfailed) trivial
    | _ => cases hstarted

/-- A device with the model `m`, on which no component can be built. -/
def brokenDevice : Rt :=
  ((device [modelConfig "m" false] fun q _ => { error := if q = .component then some "no engine" else none }).run (run .strict)).2

/-- The device is told to start `m`, which fails and leaves its config. -/
theorem failed_start_keeps_model :
    ConfigKept "m" brokenDevice (brokenDevice.run
      (handleCommand .strict none (startModelCommand "m" (modelConfig "m" true)))).2 := by
  refine (failed_start_keeps_iff .strict none _ "m" brokenDevice (fun cmd hcmd => ?_) ?_).mpr fun cmd hcmd => ?_
  · obtain rfl := Option.some.inj hcmd
    rfl
  · exact ⟨[.command "c1" .failed "Failed to start m"], "c1", "Failed to start m", rfl, List.mem_singleton_self _⟩
  · obtain rfl := Option.some.inj hcmd
    trivial

def serveModel : Json := command "START_SERVING" [("pipeline_id", .str "m")]

/-- The device is told to serve `m`, which fails, and `m` is left in the serve mode. -/
theorem failed_serving_changes_config :
    (∃ cmd, commandOf .strict brokenDevice serveModel = some (.startServing cmd) ∧ cmd.pipelineId = "m") ∧
      ReportedFailed brokenDevice (brokenDevice.run (handleCommand .strict none serveModel)).2 ∧
      ¬ConfigKept "m" brokenDevice (brokenDevice.run (handleCommand .strict none serveModel)).2 := by
  refine ⟨⟨_, rfl, rfl⟩, ⟨[.command "c1" .failed "Failed to start serving m"], "c1", "Failed to start serving m", rfl,
    List.mem_singleton_self _⟩, fun h => ?_⟩
  have hmode : (brokenDevice.stored "m").any serveMode = false ∧
      ((brokenDevice.run (handleCommand .strict none serveModel)).2.stored "m").any serveMode = true := by
    decide +kernel
  rw [h.stored, hmode.1] at hmode
  cases hmode.2

end AgentRuntime
end LocaiLink
