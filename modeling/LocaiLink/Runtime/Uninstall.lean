/-
# What an uninstall deletes

An uninstall changes the files in one place: where the artifact lies, if it gets
that far (`Deletes`). The check for another pipeline that uses the artifact
compares the paths as they are spelled, so a pipeline that spells the same place
otherwise loses its file (`uninstall_spares_iff`).
-/
import LocaiLink.Runtime.History
import LocaiLink.Runtime.Served

namespace LocaiLink
namespace AgentRuntime

open Rt Code

/-! ### Code that does not touch the files -/

/-- The actions that leave the files as they are. -/
def Fileless : Act → Prop
  | .mkdir _ | .unlink _ | .create _ | .append _ _ | .replace _ _ => False
  | _ => True

theorem perform_files {a : Act} (h : Fileless a) (s : Rt) : (perform a s).2.files = s.files := by
  cases a <;> simp only [perform] <;> try rfl
  case updateArgs => unfold modifyStored; split <;> rfl
  case createComponent => split <;> rfl
  case join => unfold Rt.join; split_ifs <;> rfl
  case store => unfold performStore; split <;> rfl
  case attachResponse => split <;> [split; skip] <;> rfl
  case dropWorker => split <;> [split; skip] <;> rfl
  case savePending => split <;> rfl
  case report => split <;> rfl
  case setDeployment => unfold setDeployment; split <;> [skip; split] <;> rfl
  all_goals exact h.elim

theorem Does.files {P : Act → Prop} {α : Type} {p : Code α} (h : Does P p) (hP : ∀ a, P a → Fileless a) (s : Rt) :
    (s.run p).2.files = s.files :=
  Prog.Only.run_keeps perform (σ := rtSig) (I := fun t => t.files = s.files)
    (fun a t ha ht => (perform_files (hP a ha) t).trans ht) h.only rfl

theorem reportCommand_files (cid : String) (status : Status) (output : String) (s : Rt) :
    (s.run (reportCommand cid status output)).2.files = s.files :=
  perform_files (a := .report (.command cid status output)) trivial s

/-! ### The deletion -/

/-- The state in which the artifact is deleted: the pipeline is stopped if it ran,
and its config is gone. -/
def configGone (me : Option ℕ) (cmd : UninstallModelCommand) (s : Rt) : Rt :=
  ((s.run (stopIfRunning me cmd.pipelineId (s.built cmd.pipelineId).isSome)).2.run
    (removeConfig cmd.id cmd.pipelineId (given cmd.filenameOnServer) (given cmd.fileExtension))).2

/-- The uninstall deletes the artifact at this path: nothing refuses it before, and
the path is a file's that can be unlinked. -/
structure Deletes (me : Option ℕ) (cmd : UninstallModelCommand) (s : Rt) (p : Path) : Prop where
  filename : (given cmd.filenameOnServer).all isSafeBasename = true
  extension : (given cmd.fileExtension).all isSafeExtension = true
  stops : (s.built cmd.pipelineId).isSome = true → cmd.forceStop = true ∧ ¬Stuck me cmd.pipelineId s
  artifact : artifactPath ⟨1, s.cwd⟩ (s.stored cmd.pipelineId) (given cmd.filenameOnServer) (given cmd.fileExtension) =
    some p
  unshared : sharer cmd.pipelineId p s.configs = none
  isFile : ∃ b, s.node p = some (.file b)
  allowed : ((configGone me cmd s).ask .file).error = none

/-- What an uninstall does to the files. -/
inductive FileEffect (me : Option ℕ) (cmd : UninstallModelCommand) (s t : Rt) : Prop
  | kept (hno : ∀ p, ¬Deletes me cmd s p) (hfiles : t.files = s.files)
  | deleted {p : Path} (h : Deletes me cmd s p) (hfiles : t.files = Function.update s.files (p.resolve s.cwd) none)

theorem Deletes.unique {me : Option ℕ} {cmd : UninstallModelCommand} {s : Rt} {p q : Path} (h : Deletes me cmd s p)
    (h' : Deletes me cmd s q) : p = q :=
  Option.some.inj (h.artifact.symm.trans h'.artifact)

/-- A file that can be unlinked is gone. -/
theorem deleteArtifact_deleted {p : Path} {s : Rt} {b : Bytes} (hfile : s.node p = some (.file b))
    (hallowed : (s.ask .file).error = none) :
    (s.run (deleteArtifact (some p))).2.files = Function.update s.files (p.resolve s.cwd) none := by
  have hlookup : perform (.lookup p) s = (some (.file b), s) := by
    rw [← hfile]
    rfl
  have hunlink : perform (.unlink p) s = (none, s.tock.setNode p none) := by
    have hfails : (s.isThere p).or (s.notDir p) = none := by
      rw [isThere, notDir, hfile]
      rfl
    simp only [perform, fileOp, hfails, hallowed, Option.none_or]
  unfold deleteArtifact
  rw [run_bind, run_act, hlookup]
  change (s.run (act (.unlink p) >>= fun r => pure r.isNone)).2.files = _
  rw [run_bind, run_act, hunlink]
  rfl

/-- What is no file, or cannot be unlinked, stays. -/
theorem deleteArtifact_kept {p : Path} {s : Rt} (h : ¬((∃ b, s.node p = some (.file b)) ∧ (s.ask .file).error = none)) :
    (s.run (deleteArtifact (some p))).2.files = s.files := by
  have hlookup : perform (.lookup p) s = (s.node p, s) := rfl
  unfold deleteArtifact
  rw [run_bind, run_act, hlookup]
  cases hn : s.node p with
  | none => rfl
  | some n =>
    cases n with
    | dir => rfl
    | file b =>
      have hfails : (s.ask .file).error ≠ none := fun he => h ⟨⟨b, hn⟩, he⟩
      obtain ⟨e, he⟩ := Option.ne_none_iff_exists'.mp hfails
      have hunlink : (perform (.unlink p) s).2 = s.tock := by
        have hok : (s.isThere p).or (s.notDir p) = none := by
          rw [isThere, notDir, hn]
          rfl
        simp only [perform, fileOp, hok, he, Option.none_or]
      change (s.run (act (.unlink p) >>= fun r => pure r.isNone)).2.files = _
      exact (congrArg Rt.files hunlink : ((perform (.unlink p) s).2).files = s.tock.files)

theorem finishUninstall_files (cid pid : String) (artifact : Option Path) (s : Rt) :
    (s.run (finishUninstall cid pid artifact)).2.files = (s.run (deleteArtifact artifact)).2.files := by
  have hnotice (u : Rt) : (u.run (reportModelUninstalledToControl pid)).2.files = u.files :=
    (does_reportModelUninstalledToControl pid).files (fun a ha => by cases a <;> trivial) u
  unfold finishUninstall
  simp only [run_bind]
  generalize s.run (deleteArtifact artifact) = r
  obtain ⟨deleted, t⟩ := r
  have hmodel : (reported (.model pid (some false) false 0 false 0 (.int 0)) t).files = t.files :=
    perform_files (a := .report _) trivial t
  have hcmd (output : String) := (reportCommand_files cid .completed output _).trans hmodel
  by_cases hloop : Text.startsWith cid "loopback-" = true
  · simp only [if_pos hloop]
    exact (hnotice _).trans (hcmd _)
  · simp only [if_neg hloop]
    exact hcmd _

/-- Up to the deletion: with the config gone, the artifact and the files are those
of the state before. -/
theorem configGone_spec (me : Option ℕ) (cmd : UninstallModelCommand) (s : Rt) :
    (configGone me cmd s).files = s.files ∧ (configGone me cmd s).cwd = s.cwd := by
  have hstop : (s.run (stopIfRunning me cmd.pipelineId (s.built cmd.pipelineId).isSome)).2.files = s.files :=
    (does_stopIfRunning me cmd.pipelineId _).files (fun a ha => by cases a <;> trivial) s
  have hremove (u : Rt) := (does_removeConfig cmd.id cmd.pipelineId (given cmd.filenameOnServer)
    (given cmd.fileExtension)).files (fun a ha => by cases a <;> trivial) u
  exact ⟨(hremove _).trans hstop, (run_cwd _ _).trans (run_cwd _ s)⟩

/-- The locked part answers the artifact the configs say, or that it is shared. -/
theorem removeConfig_answer (cid pid : String) (filename extension : Option String) (s : Rt) :
    (s.run (removeConfig cid pid filename extension)).1 =
      if (sharedWith pid filename extension s).isSome then .error ()
      else .ok (artifactPath ⟨1, s.cwd⟩ (s.stored pid) filename extension) := by
  unfold removeConfig
  simp only [run_locked, run_bind, run_act]
  split
  · rename_i p other hsome
    have hshared : sharedWith pid filename extension s = some (p, other) := hsome
    rw [hshared]
    rfl
  · rename_i hnone
    have hfree : sharedWith pid filename extension s = none := hnone
    rw [hfree]
    rfl

theorem sharedWith_eq_none {pid : String} {filename extension : Option String} {s : Rt} {p : Path}
    (h : artifactPath ⟨1, s.cwd⟩ (s.stored pid) filename extension = some p) :
    sharedWith pid filename extension s = none ↔ sharer pid p s.configs = none := by
  rw [sharedWith, h, Option.bind_some, Option.map_eq_none_iff]

/-- The part of an uninstall after the stop. -/
theorem removeAndFinish_effect (me : Option ℕ) (cmd : UninstallModelCommand) {s : Rt}
    (hname : (given cmd.filenameOnServer).all isSafeBasename = true)
    (hext : (given cmd.fileExtension).all isSafeExtension = true)
    (hstops : (s.built cmd.pipelineId).isSome = true → cmd.forceStop = true ∧ ¬Stuck me cmd.pipelineId s)
    {x : Rt} (hx : (s.run (stopIfRunning me cmd.pipelineId (s.built cmd.pipelineId).isSome)).2 = x)
    (hstored : x.stored cmd.pipelineId = s.stored cmd.pipelineId) (hconfigs : x.configs = s.configs) :
    FileEffect me cmd s (x.run (removeAndFinish cmd.id cmd.pipelineId (given cmd.filenameOnServer)
      (given cmd.fileExtension))).2 := by
  obtain ⟨hfiles, hcwd⟩ := configGone_spec me cmd s
  have hgone : configGone me cmd s = (x.run (removeConfig cmd.id cmd.pipelineId (given cmd.filenameOnServer)
      (given cmd.fileExtension))).2 := by rw [configGone, hx]
  have hxcwd : x.cwd = s.cwd := by
    rw [← hx]
    exact run_cwd _ s
  have hanswer := removeConfig_answer cmd.id cmd.pipelineId (given cmd.filenameOnServer) (given cmd.fileExtension) x
  have hshare : sharedWith cmd.pipelineId (given cmd.filenameOnServer) (given cmd.fileExtension) x =
      sharedWith cmd.pipelineId (given cmd.filenameOnServer) (given cmd.fileExtension) s := by
    rw [sharedWith, sharedWith, hstored, hxcwd, hconfigs]
  rw [hshare, hstored, hxcwd] at hanswer
  unfold removeAndFinish
  rw [run_bind, hanswer, ← hgone]
  cases hshared : sharedWith cmd.pipelineId (given cmd.filenameOnServer) (given cmd.fileExtension) s with
  | some found =>
    refine .kept (fun p hp => ?_) hfiles
    rw [(sharedWith_eq_none hp.artifact).mpr hp.unshared] at hshared
    cases hshared
  | none =>
    simp only [Option.isSome_none, Bool.false_eq_true, ↓reduceIte]
    cases hart : artifactPath ⟨1, s.cwd⟩ (s.stored cmd.pipelineId) (given cmd.filenameOnServer)
        (given cmd.fileExtension) with
    | none =>
      refine .kept (fun p hp => ?_) ((finishUninstall_files ..).trans hfiles)
      rw [hp.artifact] at hart
      cases hart
    | some p =>
      have hnode : (configGone me cmd s).node p = s.node p := by rw [node, node, hfiles, hcwd]
      by_cases hgo : (∃ b, s.node p = some (.file b)) ∧ ((configGone me cmd s).ask .file).error = none
      · obtain ⟨⟨b, hb⟩, hallowed⟩ := hgo
        have hdel : Deletes me cmd s p :=
          ⟨hname, hext, hstops, hart, (sharedWith_eq_none hart).mp hshared, ⟨b, hb⟩, hallowed⟩
        refine .deleted hdel ((finishUninstall_files ..).trans ?_)
        rw [deleteArtifact_deleted (hnode.trans hb) hallowed, hfiles, hcwd]
      · refine .kept (fun q hq => hgo ?_) ((finishUninstall_files ..).trans ?_)
        · obtain rfl : p = q := Option.some.inj (hart.symm.trans hq.artifact)
          exact ⟨hq.isFile, hq.allowed⟩
        · rw [deleteArtifact_kept (by rw [hnode]; exact hgo), hfiles]

theorem uninstallModel_effect (me : Option ℕ) (cmd : UninstallModelCommand) (s : Rt)
    (hname : (given cmd.filenameOnServer).all isSafeBasename = true)
    (hext : (given cmd.fileExtension).all isSafeExtension = true) :
    FileEffect me cmd s (s.run (uninstallModel me cmd.id cmd.pipelineId cmd.forceStop (given cmd.filenameOnServer)
      (given cmd.fileExtension))).2 := by
  have hbuilt : (s.built cmd.pipelineId).isSome = (s.pipelines.get? cmd.pipelineId).isSome := by
    rw [Rt.built, Option.isSome_map]
  unfold uninstallModel
  rw [run_bind]
  change FileEffect me cmd s (s.run (if ((s.pipelines.get? cmd.pipelineId).isSome && !cmd.forceStop) = true then _
    else stopIfRunning me cmd.pipelineId (s.pipelines.get? cmd.pipelineId).isSome >>= _)).2
  rw [← hbuilt]
  split
  · rename_i hrefused
    refine .kept (fun p hp => ?_) (reportCommand_files ..)
    rw [Bool.and_eq_true] at hrefused
    rw [(hp.stops hrefused.1).1] at hrefused
    cases hrefused.2
  · rename_i hforce
    rw [run_bind]
    cases hb : (s.built cmd.pipelineId).isSome with
    | false =>
      refine removeAndFinish_effect me cmd hname hext (fun h => ?_) (x := s) ?_ rfl rfl
      · rw [hb] at h
        cases h
      · rw [hb]
        rfl
    | true =>
      rw [hb, Bool.true_and, Bool.not_eq_true', Bool.not_eq_false] at hforce
      have heff := stopPipeline_effect me cmd.pipelineId s
      have hconfigs := stopPipeline_configs me cmd.pipelineId s
      have hfiles := (does_stopPipeline me cmd.pipelineId).files (fun a ha => by cases a <;> trivial) s
      have hx : (s.run (stopIfRunning me cmd.pipelineId (s.built cmd.pipelineId).isSome)).2 =
          (s.run (stopPipeline me cmd.pipelineId)).2 := by
        rw [hb]
        rfl
      simp only [stopIfRunning, ↓reduceIte]
      generalize s.run (stopPipeline me cmd.pipelineId) = r at heff hconfigs hfiles hx ⊢
      obtain ⟨done, t⟩ := r
      cases heff with
      | idle hidle =>
        rw [hidle] at hb
        cases hb
      | stuck hs ht =>
        exact .kept (fun p hp => (hp.stops hb).2 hs) ((reportCommand_files ..).trans hfiles)
      | stopped hs _ ht =>
        refine removeAndFinish_effect me cmd hname hext (fun _ => ⟨hforce, hs⟩) hx ?_ hconfigs
        rw [ht.stored, if_pos rfl]

theorem not_all_of_any {x : Option String} {f : String → Bool} (h : (x.any fun n => !f n) = true) : ¬x.all f = true := by
  cases x with
  | none => cases h
  | some n => simpa using h

theorem uninstallCommand_effect (me : Option ℕ) (cmd : UninstallModelCommand) (s : Rt) :
    FileEffect me cmd s (s.run (uninstallCommand me cmd)).2 := by
  unfold uninstallCommand
  simp only
  split
  · rename_i hname
    refine .kept (fun p hp => ?_) (reportCommand_files ..)
    exact not_all_of_any hname hp.filename
  rename_i hname
  split
  · rename_i hext
    refine .kept (fun p hp => ?_) (reportCommand_files ..)
    exact not_all_of_any hext hp.extension
  rename_i hext
  exact uninstallModel_effect me cmd s (all_of_not_any hname) (all_of_not_any hext)

/-! ### The files of the other pipelines -/

/-- A file was there and is not any more. -/
def Destroyed (s t : Rt) (place : List String) : Prop :=
  (∃ b, s.files place = some (.file b)) ∧ t.files place = none

/-- The file of no other configured pipeline is destroyed: a `model_path` means what
it resolves to from the working directory. -/
def Spares (pid : String) (s t : Rt) : Prop :=
  ∀ place, Destroyed s t place → ∀ q c p, q ≠ pid → s.stored q = some c → modelPath c = some p →
    p.resolve s.cwd ≠ place

/-- No other pipeline with this very path. -/
theorem sharer_eq_none {pid : String} {p : Path} {s : Rt} (h : sharer pid p s.configs = none) {q : String}
    {c : PipelineConfig} (hq : q ≠ pid) (hc : s.stored q = some c) : modelPath c ≠ some p := by
  obtain ⟨st, hst, rfl⟩ := Option.map_eq_some_iff.mp hc
  rw [sharer, Option.map_eq_none_iff, List.find?_eq_none] at h
  intro hp
  exact h (q, st) (Dict.mem_of_get? hst) (by simpa using ⟨hq, hp⟩)

/-- **Which uninstalls spare the other pipelines' files**: those that, where they
delete an artifact, find no other pipeline that spells its place in another way. -/
theorem uninstall_spares_iff (V : Validator) (me : Option ℕ) (cmd : UninstallModelCommand) (s : Rt) :
    Spares cmd.pipelineId s (s.run (dispatch V me (.uninstallModel cmd))).2 ↔
      ∀ p, Deletes me cmd s p → ∀ q c p', q ≠ cmd.pipelineId → s.stored q = some c → modelPath c = some p' →
        p' ≠ p → p'.resolve s.cwd ≠ p.resolve s.cwd := by
  have heff := uninstallCommand_effect me cmd s
  change Spares cmd.pipelineId s (s.run (uninstallCommand me cmd)).2 ↔ _
  generalize (s.run (uninstallCommand me cmd)).2 = t at heff
  constructor
  · intro h p hp q c p' hq hc hp' _ heq
    obtain ⟨b, hb⟩ := hp.isFile
    refine h (p.resolve s.cwd) ⟨⟨b, hb⟩, ?_⟩ q c p' hq hc hp' heq
    cases heff with
    | kept hno _ => exact absurd hp (hno p)
    | deleted hp'' hfiles => rw [hfiles, hp.unique hp'', Function.update_self]
  · rintro h place ⟨⟨b, hb⟩, hgone⟩ q c p' hq hc hp' heq
    cases heff with
    | kept _ hfiles =>
      rw [hfiles, hb] at hgone
      cases hgone
    | @deleted p hp hfiles =>
      have hplace : place = p.resolve s.cwd := by
        by_contra hne
        rw [hfiles, Function.update_of_ne hne, hb] at hgone
        cases hgone
      have hne : p' ≠ p := fun he => sharer_eq_none hp.unshared hq hc (he ▸ hp')
      exact h p hp q c p' hq hc hp' hne (heq.trans hplace)

/-- A device with the model `a`, whose artifact is named from the working directory. -/
def artifactDevice : Rt :=
  boot { plainDevice with files := fun l => if l = ["locai", "models", "m.gguf"] then some (.file []) else none }
    (deviceConfig [⟨"a", false, ⟨"language_model", .ofList [("model_path", .str "models/m.gguf")]⟩, none⟩])

/-- An uninstall without a stored config names the same file. -/
theorem uninstall_takes_relative : ¬Spares "b" artifactDevice
    (artifactDevice.run (dispatch .strict none (.uninstallModel ⟨"c1", "b", false, some "m.gguf", none⟩))).2 := by
  intro h
  exact h ["locai", "models", "m.gguf"] ⟨⟨[], by decide +kernel⟩, by decide +kernel⟩ "a" _ _ (by decide) rfl rfl
    (by decide +kernel)

end AgentRuntime
end LocaiLink
