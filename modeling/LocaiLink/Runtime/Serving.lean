/-
# What is served, and where it shows

A pipeline is served when it runs and its stored config has the serve mode
(`serves`). Three places say so: the health server's flag and model id, the models
reported to Control, and the snapshot for `GET /models`. The first two are kept by
hand in the handlers (`InStep`). Each function is described by what it stores and
runs for its own id (`At`); of a start that is its `startOutcome`.
-/
import LocaiLink.Runtime.Actions
import LocaiLink.Runtime.Quiet

namespace LocaiLink
namespace AgentRuntime

open Rt Code

/-! ### The views -/

/-- `args.get("mode") == "serve"`. -/
def serveMode (c : PipelineConfig) : Bool := ((c.source.args.get? "mode").getD .null).eq (.str "serve")

/-- `pid in self.pipelines` and the stored config has the serve mode. -/
def serves (s : Rt) (pid : String) : Bool := (s.built pid).isSome && (s.stored pid).any serveMode

/-- The health server's `currently_serving`. -/
def currentlyServing (s : Rt) : Bool := s.serving.isSome

/-- The serving flag of a model after one more report. -/
def hearModel (pid : String) (flag : Bool) : Report → Bool
  | .model id _ _ _ serving _ _ => if id = pid then serving else flag
  | _ => flag

/-- The serving flag of the last `report_model` for an id, false when there is none. -/
def lastServing (l : List Report) (pid : String) : Bool := l.foldl (hearModel pid) false

/-- An entry of `GET /models`. -/
structure ModelEntry where
  id : String
  aliasName : Json
  port : Json
  host : Json
  isServing : Bool

/-- `_snapshot_models`. -/
def snapshotModels (s : Rt) : List ModelEntry :=
  s.configs.entries.filterMap fun e =>
    let args := e.2.conf.source.args
    if (args.get? "model_path").isSome then
      let aliasName := (args.get? "alias").getD .null
      let active := (s.pipelines.get? e.1).isSome
      some ⟨e.1, if truthy aliasName then aliasName else .str e.1, (args.get? "port").getD .null,
        (args.get? "host").getD (.str "127.0.0.1"), active && serveMode e.2.conf⟩
    else none

/-- The three places agree with what is served. -/
structure ViewsAgree (s : Rt) : Prop where
  flag : currentlyServing s = true ↔ ∃ pid, serves s pid = true
  modelId : ∀ pid, s.serving = some pid → serves s pid = true
  reports : ∀ pid, lastServing s.reports pid = serves s pid
  snapshot : ∀ m ∈ snapshotModels s, m.isServing = serves s m.id

/-- The snapshot is taken from the maps themselves. -/
theorem snapshot_serves (s : Rt) : ∀ m ∈ snapshotModels s, m.isServing = serves s m.id := by
  intro m hm
  obtain ⟨⟨pid, st⟩, he, hm⟩ := List.mem_filterMap.mp hm
  have hst : s.configs.get? pid = some st := Dict.get?_of_mem he
  simp only [Option.ite_none_right_eq_some, Option.some.injEq] at hm
  obtain ⟨-, rfl⟩ := hm
  simp only [serves, Rt.built, Rt.stored, hst, Option.isSome_map, Option.map_some, Option.any_some]

/-- What the handlers keep: the model id is served, and without one nothing is, and
each model's last report says whether it is. Nothing is reported without an id. -/
structure InStep (s : Rt) : Prop where
  someone : ∀ pid, s.serving = some pid → serves s pid = true
  nobody : s.serving = none → ∀ pid, serves s pid = false
  told : ∀ pid, lastServing s.reports pid = serves s pid
  silent : lastServing s.reports "" = false

theorem InStep.viewsAgree {s : Rt} (h : InStep s) : ViewsAgree s where
  flag := by
    unfold currentlyServing
    constructor
    · intro hs
      obtain ⟨pid, hpid⟩ := Option.isSome_iff_exists.mp hs
      exact ⟨pid, h.someone pid hpid⟩
    · rintro ⟨pid, hpid⟩
      cases hs : s.serving with
      | some q => rfl
      | none => rw [h.nobody hs pid] at hpid; cases hpid
  modelId := h.someone
  reports := h.told
  snapshot := snapshot_serves s

/-! ### What a step changes -/

/-- The stored config and the instance of one id are these, the others are as before. -/
structure At (pid : String) (s t : Rt) (c b : Option PipelineConfig) : Prop where
  stored : ∀ q, t.stored q = if q = pid then c else s.stored q
  built : ∀ q, t.built q = if q = pid then b else s.built q

theorem At.serves {pid : String} {s t : Rt} {c b : Option PipelineConfig} (h : At pid s t c b) (q : String) :
    serves t q = if q = pid then b.isSome && c.any serveMode else serves s q := by
  unfold AgentRuntime.serves
  rw [h.stored, h.built]
  split_ifs <;> rfl

/-- Nothing is announced and the health server is told nothing. -/
structure Unheard (s t : Rt) : Prop where
  serving : t.serving = s.serving
  told : ∀ q, lastServing t.reports q = lastServing s.reports q

theorem Unheard.refl (s : Rt) : Unheard s s := ⟨rfl, fun _ => rfl⟩

theorem Unheard.trans {s t u : Rt} (h : Unheard s t) (h' : Unheard t u) : Unheard s u :=
  ⟨h'.serving.trans h.serving, fun q => (h'.told q).trans (h.told q)⟩

/-- The state after a report of a model. -/
def reported (r : Report) (s : Rt) : Rt := (perform (.report r) s).2

theorem lastServing_reported (r : Report) (s : Rt) (q : String) :
    lastServing (reported r s).reports q = if r.isSent then hearModel q (lastServing s.reports q) r
      else lastServing s.reports q := by
  unfold reported perform
  simp only
  split_ifs
  · exact List.foldl_append ..
  · rfl

/-- A model's report sets the flag of that model, if it has an id. -/
theorem lastServing_model (s : Rt) (pid : String) (installed : Option Bool) (running : Bool) (n : ℕ) (serving : Bool)
    (m : ℕ) (port : Json) (q : String) :
    lastServing (reported (.model pid installed running n serving m port) s).reports q =
      if q = pid ∧ pid ≠ "" then serving else lastServing s.reports q := by
  rw [lastServing_reported]
  unfold hearModel Report.isSent
  by_cases hpid : pid = "" <;> by_cases hq : q = pid <;> grind

/-- A step that leaves the health server alone, and reports of one id what it is. -/
theorem InStep.at {s t : Rt} (h : InStep s) (pid : String) (hserves : ∀ q, q ≠ pid → serves t q = serves s q)
    (htold : ∀ q, q ≠ pid → lastServing t.reports q = lastServing s.reports q)
    (hpid : lastServing t.reports pid = serves t pid) (hempty : lastServing t.reports "" = false)
    (hserving : t.serving = s.serving) (hsome : s.serving = some pid → serves t pid = true)
    (hnone : s.serving = none → serves t pid = false) : InStep t where
  someone q hq := by
    by_cases he : q = pid
    · subst he
      exact hsome (hserving ▸ hq)
    · rw [hserves q he]
      exact h.someone q (hserving ▸ hq)
  nobody hn q := by
    by_cases he : q = pid
    · subst he
      exact hnone (hserving ▸ hn)
    · rw [hserves q he]
      exact h.nobody (hserving ▸ hn) q
  told q := by
    by_cases he : q = pid
    · rw [he, hpid]
    · rw [htold q he, hserves q he, h.told]
  silent := hempty

/-- A step that nobody hears of and that leaves what is served as it is. -/
theorem InStep.unheard {s t : Rt} (h : InStep s) (ht : Unheard s t) (hserves : ∀ q, serves t q = serves s q) : InStep t where
  someone q hq := by
    rw [hserves]
    exact h.someone q (ht.serving ▸ hq)
  nobody hn q := by
    rw [hserves]
    exact h.nobody (ht.serving ▸ hn) q
  told q := by rw [ht.told, hserves, h.told]
  silent := by rw [ht.told, h.silent]

theorem serves_same {s t : Rt} (h : SameViews s t) (q : String) : serves t q = serves s q := by
  have hloc := h.loc q
  unfold serves
  rw [show t.built q = s.built q from congrArg Loc.built hloc, show t.stored q = s.stored q from congrArg Loc.stored hloc]

/-- The actions that are not heard. -/
def Silent : Act → Prop
  | .setServing _ | .report (.model _ _ _ _ _ _ _) => False
  | _ => True

@[simp] theorem unheard_fileOp {fails : Option String} {f : Rt → Rt} (h : ∀ s, Unheard s (f s)) (s : Rt) :
    Unheard s (s.fileOp fails f).2 := by
  unfold fileOp
  split
  · exact ⟨rfl, fun _ => rfl⟩
  · exact Unheard.trans (t := s.tock) ⟨rfl, fun _ => rfl⟩ (h s.tock)

theorem unheard_perform {a : Act} (h : Silent a) (s : Rt) : Unheard s (perform a s).2 := by
  have hsame : ∀ {t : Rt}, t.serving = s.serving → t.reports = s.reports → Unheard s t := fun hs hr =>
    ⟨hs, fun q => by rw [hr]⟩
  cases a <;> simp only [perform] <;> try exact hsame rfl rfl
  case updateArgs pid args =>
    unfold modifyStored
    split <;> exact hsame rfl rfl
  case createComponent => split <;> exact hsame rfl rfl
  case join => unfold Rt.join; split_ifs <;> exact hsame rfl rfl
  case store => unfold performStore; split <;> exact hsame rfl rfl
  case attachResponse => split <;> [split; skip] <;> exact hsame rfl rfl
  case dropWorker => split <;> [split; skip] <;> exact hsame rfl rfl
  case mkdir p => exact unheard_fileOp (f := setNode p _) (fun _ => ⟨rfl, fun _ => rfl⟩) s
  case unlink p => exact unheard_fileOp (f := setNode p _) (fun _ => ⟨rfl, fun _ => rfl⟩) s
  case create p => exact unheard_fileOp (f := setNode p _) (fun _ => ⟨rfl, fun _ => rfl⟩) s
  case append p chunk =>
    refine unheard_fileOp (fun u => ?_) s
    unfold appendTo
    split <;> exact ⟨rfl, fun _ => rfl⟩
  case replace p q =>
    exact unheard_fileOp (f := fun t => (t.setNode p none).setNode q (s.node p)) (fun _ => ⟨rfl, fun _ => rfl⟩) s
  case savePending => split <;> exact hsame rfl rfl
  case report r =>
    refine ⟨?_, fun q => (lastServing_reported r s q).trans ?_⟩
    · split <;> rfl
    · cases r <;> first | exact h.elim | exact ite_self _
  case setServing => exact h.elim
  case setDeployment => unfold setDeployment; split <;> [skip; split] <;> exact hsame rfl rfl

theorem Does.unheard {P : Act → Prop} {α : Type} {p : Code α} (h : Does P p) (hP : ∀ a, P a → Silent a) (s : Rt) :
    Unheard s (s.run p).2 :=
  Prog.Only.run_keeps perform (σ := rtSig) (I := Unheard s)
    (fun a t ha ht => ht.trans (unheard_perform (hP a ha) t)) h.only (Unheard.refl s)

theorem inner_unheard (a : Act) (h : Inner a) : Silent a := by
  cases a with
  | report r => exact h.elim
  | setServing p => exact h.elim
  | _ => trivial

/-- What starts, stops and configures is not heard. -/
theorem unheard_inner {α : Type} {p : Code α} (h : Does Inner p) (s : Rt) : Unheard s (s.run p).2 :=
  h.unheard inner_unheard s

/-! ### Stops and starts -/

/-- The instance that runs for an id does not end in time. -/
def Stuck (me : Option ℕ) (pid : String) (s : Rt) : Prop :=
  ∃ pipe, s.pipelines.get? pid = some pipe ∧ stillAlive me pipe s = true

theorem Stopped.at {pid : String} {s t : Rt} (h : Stopped pid s t) : At pid s t (s.stored pid) none where
  stored q := by
    split_ifs with hq
    · rw [hq]
      exact congrArg Loc.stored h.loc
    · exact congrArg Loc.stored (h.touches.loc q hq)
  built q := by
    split_ifs with hq
    · rw [hq]
      exact congrArg Loc.built h.loc
    · exact congrArg Loc.built (h.touches.loc q hq)

theorem At.trans_same {pid : String} {s t u : Rt} {c b : Option PipelineConfig} (h : At pid s t c b)
    (h' : SameViews t u) : At pid s u c b where
  stored q := (congrArg Loc.stored (h'.loc q)).trans (h.stored q)
  built q := (congrArg Loc.built (h'.loc q)).trans (h.built q)

/-- A stop: nothing ran, or the instance did not end in time, or it is gone. -/
inductive StopEffect (me : Option ℕ) (pid : String) (s : Rt) : Bool → Rt → Prop
  | idle (hb : s.built pid = none) : StopEffect me pid s true s
  | stuck {t : Rt} (hs : Stuck me pid s) (ht : SameViews s t) : StopEffect me pid s false t
  | stopped {t : Rt} (hs : ¬Stuck me pid s) (hb : (s.built pid).isSome = true) (ht : At pid s t (s.stored pid) none) :
      StopEffect me pid s true t

theorem stopPipeline_effect (me : Option ℕ) (pid : String) (s : Rt) :
    StopEffect me pid s (s.run (stopPipeline me pid)).1 (s.run (stopPipeline me pid)).2 := by
  rw [run_stopPipeline]
  cases hp : s.pipelines.get? pid with
  | none => exact .idle (by rw [Rt.built, hp, Option.map_none])
  | some pipe =>
    simp only
    cases ha : stillAlive me pipe s with
    | true => exact .stuck ⟨pipe, hp, ha⟩ (told_same me pipe s)
    | false =>
      refine .stopped ?_ (by rw [Rt.built, hp]; rfl) (stopped_spec me pid pipe s).at
      rintro ⟨pipe', hp', ha'⟩
      rw [hp, Option.some.injEq] at hp'
      rw [← hp', ha] at ha'
      cases ha'

/-- How a start ends: with all as it was, with the instance stopped and no new one
built, or with an instance of a config, which is stored then. -/
inductive StartOutcome
  | kept (result : Bool)
  | lost
  | started (conf : PipelineConfig)

/-- How `_start_pipeline` ends, from what is stored, what runs, whether that ends in
time and whether the components can be created then. -/
def startOutcome (V : Validator) (me : Option ℕ) (pid : String) (data : Option Json) (s : Rt) : StartOutcome :=
  match planOf V pid data (s.stored pid) (s.built pid).isSome with
  | .error result => .kept result
  | .ok plan =>
    let r := s.run (stopIfRunning me pid plan.needsRestart)
    if r.1 then
      if (r.2.run (createComponents plan.conf)).1.isSome then .lost else .started plan.conf
    else .kept false

/-- What a start has done when it ends so. -/
inductive StartEffect (pid : String) (s : Rt) : StartOutcome → Bool → Rt → Prop
  | kept {b : Bool} {t : Rt} (ht : SameViews s t) : StartEffect pid s (.kept b) b t
  | lost {t : Rt} (ht : At pid s t (s.stored pid) none) : StartEffect pid s .lost false t
  | started {conf : PipelineConfig} {t : Rt} (ht : At pid s t (some conf) (some conf)) :
      StartEffect pid s (.started conf) true t

theorem planOf_needsRestart {V : Validator} {pid : String} {data : Option Json} {c : Option PipelineConfig} {b : Bool}
    {plan : Plan} (h : planOf V pid data c b = .ok plan) : plan.needsRestart = b := by
  unfold planOf at h
  repeat' split at h
  all_goals first | cases h; rfl | cases h

/-- A plan is for the config that will be stored. -/
theorem planOf_conf {V : Validator} {pid : String} {data : Option Json} {c : Option PipelineConfig} {b : Bool}
    {plan : Plan} (h : planOf V pid data c b = .ok plan) : plan.pending.or c = some plan.conf := by
  unfold planOf at h
  repeat' split at h
  all_goals first | cases h; rfl | cases h

theorem At.commitStart {pid : String} {plan : Plan} {s t : Rt} {c b : Option PipelineConfig} (h : At pid s t c b) :
    At pid s (commitStart pid plan t) (plan.pending.or c) (some plan.conf) where
  stored q := by
    rw [commitStart_stored, h.stored pid, if_pos rfl]
    split_ifs with hq
    · rfl
    · rw [h.stored, if_neg hq]
  built q := by
    rw [Rt.built, get?_commitStart_pipelines, Dict.get?_set]
    split_ifs with hq
    · rfl
    · exact (h.built q).trans (if_neg hq)

theorem At.refl (pid : String) (s : Rt) : At pid s s (s.stored pid) (s.built pid) where
  stored q := by split_ifs with hq <;> [rw [hq]; rfl]
  built q := by split_ifs with hq <;> [rw [hq]; rfl]

theorem startPipeline_effect (V : Validator) (me : Option ℕ) (pid : String) (data : Option Json) (s : Rt) :
    StartEffect pid s (startOutcome V me pid data s) (s.run (startPipeline V me pid data)).1
      (s.run (startPipeline V me pid data)).2 := by
  unfold startPipeline startOutcome
  simp only [run_locked, run_bind, run_planStart]
  cases hplan : planOf V pid data (s.stored pid) (s.built pid).isSome with
  | error result => exact .kept (SameViews.refl s)
  | ok plan =>
    have hneeds := planOf_needsRestart hplan
    simp only [run_carryOut]
    -- after the stop: as before, or without the instance
    have hstop : ((s.run (stopIfRunning me pid plan.needsRestart)).1 = false ∧
        SameViews s (s.run (stopIfRunning me pid plan.needsRestart)).2) ∨
        ((s.run (stopIfRunning me pid plan.needsRestart)).1 = true ∧
          At pid s (s.run (stopIfRunning me pid plan.needsRestart)).2 (s.stored pid) none) := by
      rw [hneeds]
      unfold stopIfRunning
      cases hb : s.built pid with
      | none =>
        have hrefl := At.refl pid s
        rw [hb] at hrefl
        exact .inr ⟨rfl, hrefl⟩
      | some c =>
        simp only [Option.isSome_some, ↓reduceIte]
        have heff := stopPipeline_effect me pid s
        generalize s.run (stopPipeline me pid) = r at heff
        obtain ⟨done, t⟩ := r
        cases heff with
        | idle hidle => exact .inr ⟨rfl, hidle ▸ At.refl pid _⟩
        | stuck _ ht => exact .inl ⟨rfl, ht⟩
        | stopped _ _ ht => exact .inr ⟨rfl, ht⟩
    generalize s.run (stopIfRunning me pid plan.needsRestart) = r at hstop ⊢
    obtain ⟨done, t⟩ := r
    rcases hstop with ⟨rfl, ht⟩ | ⟨rfl, ht⟩
    · exact .kept ht
    · have hsame := ht.trans_same (createComponents_same plan.conf t)
      simp only [↓reduceIte]
      cases (t.run (createComponents plan.conf)).1 with
      | some e => exact .lost hsame
      | none => exact .started (planOf_conf hplan ▸ hsame.commitStart)

/-- A start of what is stored is kept only as a failure. -/
theorem startOutcome_stored (V : Validator) (me : Option ℕ) (pid : String) (s : Rt) :
    match startOutcome V me pid none s with
    | .kept b => b = false
    | .lost => True
    | .started conf => s.stored pid = some conf := by
  unfold startOutcome planOf
  cases s.stored pid with
  | none => rfl
  | some c =>
    simp only
    cases (s.run (stopIfRunning me pid (s.built pid).isSome)).1 with
    | false => rfl
    | true =>
      simp only [↓reduceIte]
      cases ((s.run (stopIfRunning me pid (s.built pid).isSome)).2.run (createComponents c)).1 with
      | none => rfl
      | some e => trivial

end AgentRuntime
end LocaiLink
