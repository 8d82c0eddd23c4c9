/-
# The persisted state along a history

A boot recovers what the session file says: the configs first, then the active
pipelines one after another, so on the way the document is ahead of the maps
(`Recovering`). A history of commands, deploys and boots keeps the relation
(`persisted_refines`) as long as it stays clear of what the code does not look
at (`Event.Keeps`): besides the commands of `CommandKeeps`, a deploy over an
instance that lost its config, and a boot that cannot start what was running.
`start_under_other_id` does not stay clear.
-/
import LocaiLink.Runtime.Persistence

namespace LocaiLink
namespace AgentRuntime

open Rt Code

/-! ### Boots -/

/-- A start from the stored config, where nothing runs and the components can be built. -/
theorem startPipeline_created (V : Validator) (me : Option ℕ) {pid : String} {s : Rt} {c : PipelineConfig}
    (hc : s.stored pid = some c) (hb : s.built pid = none) (hcreate : (s.run (createComponents c)).1 = none) :
    ∃ t, s.run (startPipeline V me pid none) = (true, t) ∧ Started pid ⟨none, c, false⟩ s t := by
  refine ⟨_, ?_, commitStart_spec (createComponents_same c s) (.inl rfl)⟩
  unfold startPipeline
  simp only [run_locked, run_bind, run_planStart, hc, hb]
  change s.run (carryOut me pid ⟨none, c, false⟩) = _
  rw [run_carryOut]
  change (if ((s.run (createComponents c)).1).isSome = true then _ else _) = _
  rw [hcreate]
  rfl

/-- The pipelines that were active can be built again, each when its turn comes. -/
def Recovers (V : Validator) : List String → Rt → Prop
  | [], _ => True
  | pid :: l, s => (∀ c, s.stored pid = some c → (s.run (createComponents c)).1 = none) ∧
      Recovers V l (s.run (recoverOne V pid)).2

/-- During the recovery: the document has the active flags of the pipelines that
are still to be started. -/
structure Recovering (l : List String) (s : Rt) : Prop where
  entries : ∀ q, RefinedAs (decide (q ∈ l) || (s.built q).isSome) (s.loc q)
  stopped : ∀ q ∈ l, s.built q = none

theorem RefinedAs.of_not_stored {b b' : Bool} {x : Loc} (h : RefinedAs b x) (hx : x.stored = none) :
    RefinedAs b' x := by
  obtain ⟨l, hl, hr⟩ := h
  rw [hx] at hr
  refine ⟨l, hl, ?_⟩
  rw [hx]
  exact hr

theorem Recovering.allRefined {s : Rt} (h : Recovering [] s) : AllRefined s := fun q => by
  have hq := h.entries q
  rwa [decide_eq_false List.not_mem_nil, Bool.false_or] at hq

theorem Recovering.step {V : Validator} {pid : String} {l : List String} {s : Rt} (h : Recovering (pid :: l) s)
    (hpid : pid ∉ l) (hcreate : ∀ c, s.stored pid = some c → (s.run (createComponents c)).1 = none) :
    Recovering l (s.run (recoverOne V pid)).2 := by
  have hb : s.built pid = none := h.stopped pid List.mem_cons_self
  have hmem : ∀ q, q ≠ pid → decide (q ∈ pid :: l) = decide (q ∈ l) := fun q hq => by simp [hq]
  unfold recoverOne
  rw [run_bind]
  cases hc : s.stored pid with
  | none =>
    -- no config, no entry: the start answers at once that there is nothing to start
    have hrun : s.run (startPipeline V none pid none) = (false, s) := by
      unfold startPipeline
      simp only [run_locked, run_bind, run_planStart, hc, planOf]
      rfl
    rw [hrun]
    refine ⟨fun q => ?_, fun q hq => h.stopped q (List.mem_cons_of_mem _ hq)⟩
    by_cases hq : q = pid
    · subst hq
      exact (h.entries q).of_not_stored hc
    · have hentry := h.entries q
      rw [hmem q hq] at hentry
      exact hentry
  | some c =>
    obtain ⟨t, hrun, hs⟩ := startPipeline_created V none hc hb (hcreate c hc)
    have hid : c.id = pid := (h.entries pid).stored_id hc
    have hsame := (quietly_reannounce pid).same t
    rw [hrun]
    refine ⟨fun q => ?_, fun q hq => ?_⟩
    · change RefinedAs (_ || ((t.run (reannounce pid)).2.loc q).built.isSome) ((t.run (reannounce pid)).2.loc q)
      rw [hsame.loc q]
      by_cases hq : q = pid
      · subst hq
        have hstart := (h.entries q).started c
        rw [hs.loc hid, hc, decide_eq_false hpid]
        exact hstart
      · have hentry := h.entries q
        rw [hmem q hq] at hentry
        rw [(hs.touches hid).loc q hq]
        exact hentry
    · have hne : q ≠ pid := fun he => hpid (he ▸ hq)
      have hloc : (t.run (reannounce pid)).2.loc q = s.loc q := (hsame.loc q).trans ((hs.touches hid).loc q hne)
      exact (congrArg Loc.built hloc).trans (h.stopped q (List.mem_cons_of_mem _ hq))

theorem Recovering.recoverActive {V : Validator} : ∀ {l : List String} {s : Rt}, Recovering l s → l.Nodup →
    Recovers V l s → AllRefined (s.run (recoverActive V l)).2
  | [], _, h, _, _ => h.allRefined
  | pid :: l, s, h, hl, hr => by
    rw [List.nodup_cons] at hl
    simp only [AgentRuntime.recoverActive, run_bind]
    exact (h.step hl.1 hr.1).recoverActive hl.2 hr.2

/-- The saved configs, entered one after another. -/
theorem recoverConfigs_spec : ∀ (l : List PipelineConfig) (s : Rt),
    (s.run (recoverConfigs l)).2.doc = s.doc ∧ (s.run (recoverConfigs l)).2.pipelines = s.pipelines ∧
      ∀ q, (s.run (recoverConfigs l)).2.stored q = (Store.occ q l).getLast?.or (s.stored q)
  | [], s => ⟨rfl, rfl, fun _ => rfl⟩
  | p :: l, s => by
    obtain ⟨h1, h2, h3⟩ := recoverConfigs_spec l (perform (.setConfig p.id p) s).2
    refine ⟨h1, h2, fun q => (h3 q).trans ?_⟩
    rw [stored_setConfig, Store.occ_cons]
    by_cases hq : p.id = q
    · rw [if_pos hq.symm, if_pos hq, List.getLast?_cons]
      cases (Store.occ q l).getLast? <;> rfl
    · rw [if_neg (Ne.symm hq), if_neg hq]

/-- The state of a booting process once the saved configs are entered. -/
def entered (dev : Device) (session : AgentConfig) : Rt :=
  ((boot dev session).run (recoverConfigs session.pipelines)).2

/-- A boot that keeps the relation: its writes succeed, and what was active can
be started again. -/
structure BootKeeps (V : Validator) (dev : Device) (session : AgentConfig) : Prop where
  flush : ∀ n, (dev.oracle .flush n).written = .whole
  recovers : Recovers V (activeIds session) (entered dev session)

theorem nodup_activeIds {c : AgentConfig} (h : (ids c).Nodup) : (activeIds c).Nodup :=
  h.sublist (List.filter_sublist.map _)

theorem recovering_entered (dev : Device) {session : AgentConfig} (hids : (ids session).Nodup) :
    Recovering (activeIds session) (entered dev session) := by
  obtain ⟨hdoc, hpipes, hstored⟩ := recoverConfigs_spec session.pipelines (boot dev session)
  have hbuilt : ∀ q, (entered dev session).built q = none := fun q => by
    rw [entered, Rt.built, hpipes]
    rfl
  have hinit : ∀ q, (boot dev session).stored q = (Store.occ q session.pipelines).getLast? :=
    stored_publish session.pipelines
  have hocc : ∀ q, (entered dev session).occ q = some (Store.occ q session.pipelines) := fun q => by
    rw [entered, Rt.occ, hdoc]
    rfl
  refine ⟨fun q => ⟨_, hocc q, ?_⟩, fun q _ => hbuilt q⟩
  change EntriesRefine ((entered dev session).stored q) _ _
  rw [hbuilt, entered, hstored, hinit, Option.or_self]
  by_cases hq : q ∈ ids session
  · obtain ⟨p, hp, rfl⟩ := List.mem_map.mp hq
    rw [Store.occ_of_nodup hids p hp]
    refine ⟨p, rfl, rfl, rfl, rfl, ?_⟩
    -- an entry of that id is active exactly if this one is
    have hactive : p.id ∈ activeIds session ↔ p.active = true := by
      refine ⟨fun h => ?_, fun h => List.mem_map.mpr ⟨p, List.mem_filter.mpr ⟨hp, h⟩, rfl⟩⟩
      obtain ⟨p', hp', hid⟩ := List.mem_map.mp h
      obtain ⟨hmem, hact⟩ := List.mem_filter.mp hp'
      have heq : p' ∈ Store.occ p.id session.pipelines := List.mem_filter.mpr ⟨hmem, by simpa using hid⟩
      rw [Store.occ_of_nodup hids p hp, List.mem_singleton] at heq
      exact heq ▸ hact
    cases ha : p.active with
    | true => simp [hactive.mpr ha]
    | false =>
      have hnot : p.id ∉ activeIds session := fun h => by
        rw [hactive.mp h] at ha
        cases ha
      simp [hnot]
  · rw [Store.occ_of_not_mem hq]
    rfl

theorem allRefined_resume {V : Validator} {dev : Device} {session : AgentConfig} (hids : (ids session).Nodup)
    (hboot : BootKeeps V dev session) : AllRefined (resume V dev session) := by
  have hrec := (recovering_entered dev hids).recoverActive (nodup_activeIds hids) hboot.recovers
  unfold resume AgentRuntime.run
  rw [run_bind]
  change AllRefined ((boot dev session).run (do
    recoverConfigs session.pipelines
    recoverActive V (activeIds session)
    act (.report (.lifecycle true))
    flushPendingUninstallReports)).2
  simp only [run_bind]
  refine hrec.same (Quietly.same (p := do
    act (.report (.lifecycle true))
    flushPendingUninstallReports) ?_ _)
  exact .bind (quietly_act trivial) fun _ => quietly_flushPendingUninstallReports

/-- A document with at most one entry of each id has no id twice. -/
theorem nodup_of_occ : ∀ {l : List PipelineConfig}, (∀ q, (Store.occ q l).length ≤ 1) → (l.map (·.id)).Nodup
  | [], _ => List.nodup_nil
  | p :: l, h => by
    have hp := h p.id
    rw [Store.occ_cons, if_pos rfl, List.length_cons] at hp
    have hnil : Store.occ p.id l = [] := List.length_eq_zero_iff.mp (by omega)
    rw [List.map_cons, List.nodup_cons]
    refine ⟨fun hmem => Store.occ_ne_nil hmem hnil, nodup_of_occ fun q => ?_⟩
    have hq := h q
    rw [Store.occ_cons] at hq
    split_ifs at hq
    · rw [List.length_cons] at hq
      omega
    · exact hq

theorem PersistedRefines.nodup {s : Rt} (h : PersistedRefines s) {d : AgentConfig}
    (hd : s.store.bind (·.disk) = some d) : (ids d).Nodup := by
  obtain ⟨d', hs, hentries⟩ := h
  rw [hs, Option.bind_some, Option.some.injEq] at hd
  subst hd
  refine nodup_of_occ fun q => ?_
  have hq := hentries q
  cases hc : s.stored q with
  | none =>
    rw [hc] at hq
    rw [show Store.occ q d'.pipelines = [] from hq]
    exact Nat.zero_le 1
  | some c =>
    rw [hc] at hq
    obtain ⟨e, he, -⟩ := hq
    rw [he]
    exact Nat.le_refl 1

/-! ### Histories -/

/-- An event that keeps the relation, in the state before it. -/
def Event.Keeps (V : Validator) : Event → Rt → Prop
  | .command me data, s => ∀ cmd, V.command
      (Templating.resolveTemplates (identityContext s.agentConfig.identity) data) = some cmd → CommandKeeps V me s cmd
  | .worker j, s =>
    (s.built (s.jobs j).cmd.pipelineId).isSome = true → (s.stored (s.jobs j).cmd.pipelineId).isSome = true
  | .boot zenoh oracle, s => ∀ session, s.store.bind (·.disk) = some session →
      BootKeeps V ⟨zenoh, s.files, s.cwd, s.pending, oracle⟩ session

def Keeps (V : Validator) : Rt → List Event → Prop
  | _, [] => True
  | s, e :: es => e.Keeps V s ∧ ∀ t, e.apply V s = some t → Keeps V t es

/-- The relation, with what keeps the file in step with the document. -/
structure Refining (s : Rt) : Prop where
  entries : AllRefined s
  flush : s.FlushOk
  synced : s.Synced

theorem refining_resume {V : Validator} {dev : Device} {session : AgentConfig} (hids : (ids session).Nodup)
    (hboot : BootKeeps V dev session) : Refining (resume V dev session) := by
  have hsynced : (boot dev session).Synced := fun st hst => by
    cases hst
    rfl
  obtain ⟨hflush, hsynced'⟩ := run_synced (AgentRuntime.run V) (boot dev session) ⟨hboot.flush, hsynced⟩
  exact ⟨allRefined_resume hids hboot, hflush, hsynced'⟩

/-- One event. -/
theorem Refining.event {V : Validator} {e : Event} {s t : Rt} (h : Refining s) (hkeeps : e.Keeps V s)
    (ht : e.apply V s = some t) : Refining t := by
  cases e with
  | command me data =>
    obtain rfl := Option.some.inj ht
    obtain ⟨hflush, hsynced⟩ := run_synced (AgentRuntime.handleCommand V me data) s ⟨h.flush, h.synced⟩
    exact ⟨h.entries.handleCommand V me data hkeeps, hflush, hsynced⟩
  | worker j =>
    simp only [Event.apply, Option.ite_none_right_eq_some, Option.some.injEq] at ht
    obtain ⟨-, rfl⟩ := ht
    have hentries : AllRefined (s.setJob j fun t => { t with entered := true }) := h.entries
    obtain ⟨hflush, hsynced⟩ := run_synced (AgentRuntime.deployWorker j (s.jobs j).cmd)
      (s.setJob j fun t => { t with entered := true }) ⟨h.flush, h.synced⟩
    exact ⟨hentries.deployWorker j (s.jobs j).sameId hkeeps, hflush, hsynced⟩
  | boot zenoh oracle =>
    obtain ⟨session, hsession, rfl⟩ := Option.map_eq_some_iff.mp ht
    exact refining_resume ((persistedRefines_of h.entries h.synced).nodup hsession) (hkeeps session hsession)

theorem Refining.history {V : Validator} : ∀ {es : List Event} {s t : Rt}, Refining s → Keeps V s es →
    history V s es = some t → Refining t
  | [], _, _, h, _, ht => Option.some.inj ht ▸ h
  | e :: es, s, t, h, hk, ht => by
    obtain ⟨u, hu, ht⟩ := Option.bind_eq_some_iff.mp ht
    exact (h.event hk.1 hu).history (hk.2 u hu) ht

/-- **What is persisted refines the runtime**: after every history of commands,
deploys and boots that stays clear of the steps that lose it, the session file
has exactly one entry for each stored config, with its id, source and sink, and
active exactly if the pipeline runs. -/
theorem persisted_refines (V : Validator) (dev : Device) (session : AgentConfig) (hids : (ids session).Nodup)
    (hboot : BootKeeps V dev session) (es : List Event) (hkeeps : Keeps V (resume V dev session) es) (s : Rt)
    (hist : AgentRuntime.history V (resume V dev session) es = some s) : PersistedRefines s := by
  have h := (refining_resume hids hboot).history hkeeps hist
  exact persistedRefines_of h.entries h.synced

/-- The device boots, model `m` is started from an inline config, and it boots again. -/
theorem persisted_refines_restart : ∃ s, history .strict (resume .strict plainDevice (deviceConfig [commandCenter]))
      [.command (some 0) (startModelCommand "m" (modelConfig "m" false)), .boot false fun _ _ => {}] = some s ∧
    PersistedRefines s := by
  refine ⟨_, rfl, persisted_refines .strict plainDevice (deviceConfig [commandCenter]) (by decide) ⟨fun _ => rfl, ?_⟩
    [.command (some 0) (startModelCommand "m" (modelConfig "m" false)), .boot false fun _ _ => {}] ?_ _ rfl⟩
  · exact ⟨fun c hc => Option.some.inj hc ▸ rfl, trivial⟩
  · refine ⟨fun cmd hcmd => Option.some.inj hcmd ▸ rfl, fun t ht => ⟨fun session hsession => ?_, fun _ _ => trivial⟩⟩
    obtain rfl := Option.some.inj ht
    obtain rfl := Option.some.inj hsession
    refine ⟨fun _ => rfl, ⟨fun c hc => Option.some.inj hc ▸ rfl, fun c hc => Option.some.inj hc ▸ rfl, trivial⟩⟩

/-- The device boots, and a start for `m` carries the config of `n`. -/
theorem start_under_other_id : ∃ s, history .strict (resume .strict plainDevice (deviceConfig [commandCenter]))
      [.command (some 0) (startModelCommand "m" (modelConfig "n" false))] = some s ∧
    ¬PersistedRefines s := by
  refine ⟨_, rfl, fun h => ?_⟩
  obtain ⟨d, -, hentries⟩ := h
  obtain ⟨e, hl, hid, -⟩ := hentries "m"
  have hn : e.id = "n" := hid
  have he : e ∈ Store.occ "m" d.pipelines := by
    rw [hl]
    exact List.mem_singleton_self e
  have hm : e.id = "m" := by simpa using (List.mem_filter.mp he).2
  exact absurd (hn.symm.trans hm) (by decide)

end AgentRuntime
end LocaiLink
