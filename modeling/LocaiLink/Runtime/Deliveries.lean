/-
# Accepted names, and what came for them

Every job has the name that its deploy was accepted for (`Accepted`), and a worker's notes
are about the file of that name: it knows where the models lie, its reply is a true one, and
while it is inside the lock of the name it holds it (`Minded`). `Delivered` is what a completed
deploy promises, `Fair` and `Apart` are the conditions on a run.
-/
import LocaiLink.Runtime.Couriers

namespace LocaiLink
namespace AgentRuntime

open Code Rt Machine

/-! ### Where the files lie -/

theorem single_of_safe {name : String} (h : isSafeBasename name = true) : Path.Single name := by
  simp only [isSafeBasename, Bool.and_eq_true, decide_eq_true_eq, Bool.not_eq_true', List.contains_eq_mem,
    decide_eq_false_iff_not] at h
  obtain ⟨⟨⟨⟨⟨⟨hne, hdot⟩, hdots⟩, hslash⟩, -⟩, -⟩, -⟩ := h
  exact ⟨hne, hdot, hdots, hslash⟩

theorem single_stage {name : String} (h : Path.Single name) : Path.Single (name ++ ".partial") := by
  have hlong {s : String} (hs : s.length < 8) : name ++ ".partial" ≠ s := fun heq => by
    have hlength := congrArg String.length heq
    rw [String.length_append, show ".partial".length = 8 from rfl] at hlength
    omega
  refine ⟨hlong (by decide), hlong (by decide), hlong (by decide), fun hmem => ?_⟩
  rw [String.toList_append, List.mem_append] at hmem
  rcases hmem with hmem | hmem
  · exact h.slash hmem
  · exact absurd hmem (by decide)

theorem stage_injective {name other : String} (h : name ++ ".partial" = other ++ ".partial") : name = other := by
  have htexts := congrArg String.toList h
  rw [String.toList_append, String.toList_append] at htexts
  exact String.toList_injective (List.append_cancel_right htexts)

theorem ne_stage (name : String) : name ≠ name ++ ".partial" := fun h => by
  have hlength := congrArg String.length h
  rw [String.length_append, show ".partial".length = 8 from rfl] at hlength
  omega

/-- The directory of the models. -/
def modelsDir (wd : List String) : Path := (⟨1, wd⟩ : Path).div "models"

theorem place_eq {name : String} (h : Path.Single name) (wd : List String) :
    place wd name = (modelsDir wd).resolve wd ++ [name] :=
  Path.resolve_div h ..

theorem place_injective {name other : String} (hn : Path.Single name) (ho : Path.Single other) {wd : List String}
    (h : place wd name = place wd other) : name = other := by
  rw [place_eq hn, place_eq ho] at h
  exact List.singleton_injective (List.append_cancel_left h)

theorem place_ne_modelsDir {name : String} (h : Path.Single name) (wd : List String) :
    place wd name ≠ (modelsDir wd).resolve wd := fun heq => by
  rw [place_eq h] at heq
  simpa using congrArg List.length heq

/-! ### What was asked for, and what came -/

/-- The names that deploys were accepted for, and the replies that workers came to put in
the places of their names. -/
structure Ledger where
  names : List String := []
  fetched : List (String × Response) := []

namespace Ledger

def mark (n : Ledger) (g : Courier) : Act → Ledger
  | .register cmd _ => { n with names := n.names ++ [cmd.modelName] }
  | .replace _ _ => match g.job, g.reply with
    | some job, some r => { n with fetched := n.fetched ++ [(job.2.modelName, r)] }
    | _, _ => n
  | _ => n

theorem mark_names {a : Act} (ha : ∀ cmd h, a ≠ .register cmd h) (n : Ledger) (g : Courier) :
    (n.mark g a).names = n.names := by
  unfold mark
  split
  · rename_i cmd h
    exact absurd rfl (ha cmd h)
  · split <;> rfl
  · rfl

theorem mark_fetched (n : Ledger) (g : Courier) (a : Act) : n.fetched ⊆ (n.mark g a).fetched := by
  unfold mark
  split
  · exact List.Subset.refl _
  · split
    · exact List.subset_append_left ..
    · exact List.Subset.refl _
  · exact List.Subset.refl _

end Ledger

/-- What a thread starts with: a worker's thread has its job. -/
def Courier.born : Entry → Rt → Courier
  | .command _ _, _ => {}
  | .worker j, s => { job := some (j, (s.jobs j).cmd) }

/-- What the threads of a run have done about files. -/
def couriers (V : Validator) (s : Rt) (es : List (Ev Entry)) : Notes Courier Ledger :=
  (machine V).notes Courier.note Courier.born Ledger.mark (start V s) ⟨[{}], {}⟩ es

/-- The server announces the length of a file and sends it from its start. -/
def Truthful (r : Response) : Prop := ∃ body : Bytes, r.length = .ok body.length ∧ r.chunks.flatten <+: body

/-- No model is uninstalled, and servers announce the true length. -/
structure Fair (s : Rt) (g : Courier) (a : Act) : Prop where
  spared : g.job = none → Fileless a
  truthful : ∀ url r, a = .download url → (s.ask .download).response = .ok r → Truthful r

/-- A deploy is accepted for a name that is not empty, that no directory has, and that is no
other accepted name with `.partial` after it, nor the other way. -/
structure Apart (s : Rt) (l : Ledger) (name : String) : Prop where
  nonempty : name ≠ ""
  plain : s.files (place s.cwd name) ≠ some .dir
  after : ∀ other ∈ l.names, name ≠ other ++ ".partial"
  before : ∀ other ∈ l.names, other ≠ name ++ ".partial"

/-- The content is that of the file that was there at the start, or all that a server sent
for the name. -/
def Whole (s₀ : Rt) (l : Ledger) (name : String) (b : Bytes) : Prop :=
  s₀.files (place s₀.cwd name) = some (.file b) ∨ ∃ r, (name, r) ∈ l.fetched ∧ Entire r ∧ b = r.chunks.flatten

/-- Every deploy that was reported completed has its file. -/
def Delivered (s₀ s : Rt) (n : Notes Courier Ledger) : Prop :=
  ∀ g ∈ n.each, ∀ j cmd, g.job = some (j, cmd) → g.reported = true →
    ∃ b, s.files (place s₀.cwd cmd.modelName) = some (.file b) ∧ Whole s₀ n.all cmd.modelName b

/-! ### The accepted names -/

/-- Every job that is made, started or worked on has an accepted name; and accepted names
are names of files, none of which lies beside another's target. -/
structure Accepted (s : Rt) (n : Notes Courier Ledger) : Prop where
  made : ∀ g ∈ n.each, ∀ j, g.made = some j → j < s.nextJob ∧ (s.jobs j).cmd.modelName ∈ n.all.names
  started : ∀ j, (s.jobs j).started = true → (s.jobs j).cmd.modelName ∈ n.all.names
  job : ∀ g ∈ n.each, ∀ j cmd, g.job = some (j, cmd) → cmd.modelName ∈ n.all.names
  safe : ∀ name ∈ n.all.names, isSafeBasename name = true
  apart : ∀ name ∈ n.all.names, ∀ other ∈ n.all.names, name ≠ other ++ ".partial"

/-- What all actions but a registration do to the jobs. -/
theorem jobs_perform {a : Act} (ha : ∀ cmd h, a ≠ .register cmd h) (s : Rt) :
    (perform a s).2.nextJob = s.nextJob ∧ ∀ j, ((perform a s).2.jobs j).cmd = (s.jobs j).cmd ∧
      (((perform a s).2.jobs j).started = true → (s.jobs j).started = true ∨ a = .startJob j) := by
  have hset {i : ℕ} {f : Job → Job} (hcmd : ∀ t, (f t).cmd = t.cmd) (hstarted : ∀ t, (f t).started = t.started) (j : ℕ) :
      ((s.setJob i f).jobs j).cmd = (s.jobs j).cmd ∧ (((s.setJob i f).jobs j).started = true → (s.jobs j).started = true) := by
    have hupdate : (s.setJob i f).jobs j = if j = i then f (s.jobs i) else s.jobs j := Function.update_apply ..
    rw [hupdate]
    split_ifs with hj
    · subst hj
      exact ⟨hcmd _, fun h => (hstarted _).symm.trans h⟩
    · exact ⟨rfl, id⟩
  by_cases henrols : Enrols a
  swap
  · have hsame := roster_perform henrols s
    have hnext : (perform a s).2.nextJob = s.nextJob := congrArg Roster.nextJob hsame
    have hjobs : (perform a s).2.jobs = s.jobs := congrArg Roster.jobs hsame
    rw [hjobs]
    exact ⟨hnext, fun j => ⟨rfl, .inl⟩⟩
  cases a with
  | register cmd h => exact absurd rfl (ha cmd h)
  | startJob i =>
    refine ⟨rfl, fun j => ?_⟩
    have hupdate : (perform (.startJob i) s).2.jobs j = if j = i then { s.jobs i with started := true } else s.jobs j :=
      Function.update_apply ..
    rw [hupdate]
    split_ifs with hj
    · subst hj
      exact ⟨rfl, fun _ => .inr rfl⟩
    · exact ⟨rfl, .inl⟩
  | endJob i =>
    have hset := hset (i := i) (f := fun t => { t with ended := true }) (fun _ => rfl) fun _ => rfl
    exact ⟨rfl, fun j => ⟨(hset j).1, fun h => .inl ((hset j).2 h)⟩⟩
  | cancelJob i =>
    have hset := hset (i := i) (f := fun t => { t with cancelled := true }) (fun _ => rfl) fun _ => rfl
    exact ⟨rfl, fun j => ⟨(hset j).1, fun h => .inl ((hset j).2 h)⟩⟩
  | closeResponse i =>
    have hset := hset (i := i) (f := fun t => { t with closed := true }) (fun _ => rfl) fun _ => rfl
    exact ⟨rfl, fun j => ⟨(hset j).1, fun h => .inl ((hset j).2 h)⟩⟩
  | attachResponse | dropWorker =>
    simp only [perform]
    split <;> [split_ifs; skip] <;> exact ⟨rfl, fun j => ⟨rfl, .inl⟩⟩
  | _ => exact henrols.elim

/-- Only a registration makes a job. -/
theorem noteAct_made {a : Act} (ha : ∀ cmd h, a ≠ .register cmd h) (r : a.Resp) (g : Courier) :
    (Courier.noteAct a r g).made = g.made := by
  unfold Courier.noteAct
  split <;> try rfl
  · rename_i cmd h _
    exact absurd rfl (ha cmd h)
  · split <;> rfl

section Accepted

variable {s : Rt} {n : Notes Courier Ledger} {i : ℕ} {g : Courier}

theorem Accepted.register (h : Accepted s n) (hi : n.each[i]? = some g) {cmd : DeployModelCommand}
    (hid : cmd.config.id = cmd.pipelineId) (ha : g.Permits (.register cmd hid)) (hapart : Apart s n.all cmd.modelName) :
    Accepted (perform (.register cmd hid) s).2
      (n.deed Courier.note Ledger.mark i g (.act (.register cmd hid) s.nextJob)) := by
  have hg : g ∈ n.each := List.mem_of_getElem? hi
  have hnames : n.all.names ⊆ n.all.names ++ [cmd.modelName] := List.subset_append_left ..
  have hnew : cmd.modelName ∈ n.all.names ++ [cmd.modelName] := by simp
  have hjobs (j : ℕ) : (perform (.register cmd hid) s).2.jobs j = if j = s.nextJob then { cmd, sameId := hid } else s.jobs j :=
    Function.update_apply ..
  refine ⟨fun x hx j hj => ?_, fun j hj => ?_, fun x hx j c hj => ?_, fun name hname => ?_, fun name hname other ho => ?_⟩
  · have hold {x : Courier} (hx : x ∈ n.each) (hj : x.made = some j) : j < s.nextJob + 1 ∧
        ((perform (.register cmd hid) s).2.jobs j).cmd.modelName ∈ n.all.names ++ [cmd.modelName] := by
      obtain ⟨hlt, hmem⟩ := h.made x hx j hj
      rw [hjobs, if_neg (Nat.ne_of_lt hlt)]
      exact ⟨Nat.lt_succ_of_lt hlt, hnames hmem⟩
    rcases List.mem_or_eq_of_mem_set hx with hx | rfl
    · exact hold hx hj
    · have hj : j = s.nextJob := (Option.some.inj hj).symm
      rw [hjobs, if_pos hj, hj]
      exact ⟨Nat.lt_succ_self _, hnew⟩
  · rw [hjobs] at hj ⊢
    by_cases heq : j = s.nextJob
    · rw [if_pos heq]
      exact hnew
    · rw [if_neg heq] at hj ⊢
      exact hnames (h.started j hj)
  · rcases List.mem_or_eq_of_mem_set hx with hx | rfl
    · exact hnames (h.job x hx j c hj)
    · exact hnames (h.job g hg j c hj)
  · rcases List.mem_append.mp hname with hold | hthis
    · exact h.safe name hold
    · rw [List.mem_singleton.mp hthis]
      exact ha hapart.nonempty
  · rcases List.mem_append.mp hname with hold | hthis <;> rcases List.mem_append.mp ho with hold' | hthis'
    · exact h.apart name hold other hold'
    · rw [List.mem_singleton.mp hthis']
      exact hapart.before name hold
    · rw [List.mem_singleton.mp hthis]
      exact hapart.after other hold'
    · rw [List.mem_singleton.mp hthis, List.mem_singleton.mp hthis']
      exact ne_stage _

theorem Accepted.act (h : Accepted s n) (hi : n.each[i]? = some g) {a : Act} (ha : g.Permits a)
    (hapart : ∀ cmd hid, a = .register cmd hid → Apart s n.all cmd.modelName) :
    Accepted (perform a s).2 (n.deed Courier.note Ledger.mark i g (.act a (perform a s).1)) := by
  by_cases hreg : ∃ cmd hid, a = .register cmd hid
  · obtain ⟨cmd, hid, rfl⟩ := hreg
    exact h.register hi hid ha (hapart cmd hid rfl)
  have hreg : ∀ cmd hid, a ≠ .register cmd hid := fun cmd hid heq => hreg ⟨cmd, hid, heq⟩
  have hg : g ∈ n.each := List.mem_of_getElem? hi
  obtain ⟨hnext, hjobs⟩ := jobs_perform hreg s
  have hnames : (n.deed Courier.note Ledger.mark i g (.act a (perform a s).1)).all.names = n.all.names :=
    Ledger.mark_names hreg ..
  have hmade {x : Courier} (hx : x ∈ n.each) {j : ℕ} (hj : x.made = some j) :
      j < (perform a s).2.nextJob ∧ ((perform a s).2.jobs j).cmd.modelName ∈ n.all.names := by
    rw [hnext, (hjobs j).1]
    exact h.made x hx j hj
  refine ⟨fun x hx j hj => ?_, fun j hj => ?_, fun x hx j c hj => ?_, ?_, ?_⟩
  · rw [hnames]
    rcases List.mem_or_eq_of_mem_set hx with hx | rfl
    · exact hmade hx hj
    · exact hmade hg ((noteAct_made hreg ..).symm.trans hj)
  · rw [hnames, (hjobs j).1]
    rcases (hjobs j).2 hj with hold | rfl
    · exact h.started j hold
    · exact (h.made g hg j ha).2
  · rw [hnames]
    rcases List.mem_or_eq_of_mem_set hx with hx | rfl
    · exact h.job x hx j c hj
    · exact h.job g hg j c ((Courier.noteAct_job ..).symm.trans hj)
  · rw [hnames]
    exact h.safe
  · rw [hnames]
    exact h.apart

/-- A lock is about no name. -/
theorem Accepted.deed (h : Accepted s n) (hi : n.each[i]? = some g) {g' : Courier} (hmade : g'.made = g.made)
    (hjob : g'.job = g.job) : Accepted s ⟨n.each.set i g', n.all⟩ := by
  have hg : g ∈ n.each := List.mem_of_getElem? hi
  refine ⟨fun x hx j hj => ?_, h.started, fun x hx j c hj => ?_, h.safe, h.apart⟩
  · rcases List.mem_or_eq_of_mem_set hx with hx | rfl
    · exact h.made x hx j hj
    · exact h.made g hg j (hmade.symm.trans hj)
  · rcases List.mem_or_eq_of_mem_set hx with hx | rfl
    · exact h.job x hx j c hj
    · exact h.job g hg j c (hjob.symm.trans hj)

theorem Accepted.enter {V : Validator} {e : Entry} {p : Code Unit} {s' : Rt} (h : Accepted s n)
    (he : enter V e s = some (p, s')) : Accepted s' ⟨n.each ++ [Courier.born e s], n.all⟩ := by
  cases e with
  | command me data =>
    simp only [AgentRuntime.enter, Option.ite_none_right_eq_some, Option.some.injEq, Prod.mk.injEq] at he
    obtain ⟨-, -, rfl⟩ := he
    refine ⟨fun x hx j hj => ?_, h.started, fun x hx j c hj => ?_, h.safe, h.apart⟩
    · rcases List.mem_append.mp hx with hx | hx
      · exact h.made x hx j hj
      · rw [List.mem_singleton.mp hx] at hj
        cases hj
    · rcases List.mem_append.mp hx with hx | hx
      · exact h.job x hx j c hj
      · rw [List.mem_singleton.mp hx] at hj
        cases hj
  | worker k =>
    simp only [AgentRuntime.enter, Option.ite_none_right_eq_some, Option.some.injEq, Prod.mk.injEq, Bool.and_eq_true] at he
    obtain ⟨⟨hstarted, -⟩, -, rfl⟩ := he
    have hjobs (j : ℕ) : ((s.setJob k fun t => { t with entered := true }).jobs j).cmd = (s.jobs j).cmd ∧
        ((s.setJob k fun t => { t with entered := true }).jobs j).started = (s.jobs j).started := by
      have hupdate : (s.setJob k fun t => { t with entered := true }).jobs j =
          if j = k then { s.jobs k with entered := true } else s.jobs j := Function.update_apply ..
      rw [hupdate]
      split_ifs with hj
      · subst hj
        exact ⟨rfl, rfl⟩
      · exact ⟨rfl, rfl⟩
    refine ⟨fun x hx j hj => ?_, fun j hj => ?_, fun x hx j c hj => ?_, h.safe, h.apart⟩
    · rw [(hjobs j).1]
      rcases List.mem_append.mp hx with hx | hx
      · exact h.made x hx j hj
      · rw [List.mem_singleton.mp hx] at hj
        cases hj
    · rw [(hjobs j).1]
      exact h.started j ((hjobs j).2.symm.trans hj)
    · rcases List.mem_append.mp hx with hx | hx
      · exact h.job x hx j c hj
      · rw [List.mem_singleton.mp hx] at hj
        obtain ⟨rfl, rfl⟩ := Prod.mk.inj (Option.some.inj hj)
        exact h.started _ hstarted

end Accepted

/-! ### What the threads' notes are about -/

namespace Courier

theorem noteAct_inside (a : Act) (r : a.Resp) (g : Courier) : (noteAct a r g).inside = g.inside := by
  unfold noteAct
  split <;> try rfl
  split <;> rfl

theorem noteAct_dir {a : Act} (ha : a ≠ .cwd) (r : a.Resp) (g : Courier) : (noteAct a r g).dir = g.dir := by
  unfold noteAct
  split <;> try rfl
  · exact absurd rfl ha
  · split <;> rfl

theorem noteAct_reply {a : Act} (ha : ∀ url, a ≠ .download url) (r : a.Resp) (g : Courier) :
    (noteAct a r g).reply = g.reply := by
  unfold noteAct
  split <;> try rfl
  · split <;> rfl
  · rename_i url _
    exact absurd rfl (ha url)

theorem noteAct_placed {a : Act} (r : a.Resp) {g : Courier} (h : g.placed = true) : (noteAct a r g).placed = true := by
  unfold noteAct
  split <;> try exact h
  · split_ifs
    · rfl
    · exact h
  · rfl

theorem noteAct_reported {a : Act} {r : a.Resp} {g : Courier} (h : (noteAct a r g).reported = true) :
    g.reported = true ∨ ∃ told, a = .report told ∧ Completes told := by
  unfold noteAct at h
  split at h <;> try exact .inl h
  · split_ifs at h <;> exact .inl h
  · exact .inr ⟨_, rfl, trivial⟩

end Courier

/-- A thread that knows the models' directory has the right one, its reply is a true one, it
holds the lock that it is inside of, and what it reported completed is in its place. -/
structure Minded (wd : List String) (held : Lock → Option (ℕ × ℕ)) (gs : List Courier) : Prop where
  dir : ∀ g ∈ gs, ∀ d, g.dir = some d → d = modelsDir wd
  reply : ∀ g ∈ gs, ∀ r, g.reply = some r → Truthful r
  inside : ∀ i g j cmd, gs[i]? = some g → g.job = some (j, cmd) → g.inside = true →
    Holding (σ := rtSig) held (.download cmd.modelName) i
  reported : ∀ g ∈ gs, ∀ j cmd, g.job = some (j, cmd) → g.reported = true → g.placed = true

section Minded

variable {wd : List String} {s : Rt} {held held' : Lock → Option (ℕ × ℕ)} {gs : List Courier} {i : ℕ} {g : Courier}

theorem Minded.act (h : Minded s.cwd held gs) (hi : gs[i]? = some g) {a : Act} (ha : g.Permits a) (hfair : Fair s g a) :
    Minded s.cwd held (gs.set i (Courier.noteAct a (perform a s).1 g)) := by
  have hg : g ∈ gs := List.mem_of_getElem? hi
  refine ⟨fun x hx d hd => ?_, fun x hx r hr => ?_, fun m x j cmd hm hj hin => ?_, fun x hx j cmd hj hr => ?_⟩
  · rcases List.mem_or_eq_of_mem_set hx with hx | rfl
    · exact h.dir x hx d hd
    · by_cases hcwd : a = .cwd
      · subst hcwd
        exact (Option.some.inj hd).symm
      · exact h.dir g hg d ((Courier.noteAct_dir hcwd ..).symm.trans hd)
  · rcases List.mem_or_eq_of_mem_set hx with hx | rfl
    · exact h.reply x hx r hr
    · by_cases hget : ∃ url, a = .download url
      · obtain ⟨url, rfl⟩ := hget
        change (Courier.noteAct (.download url) (s.ask .download).response g).reply = some r at hr
        cases hanswer : (s.ask .download).response with
        | error e =>
          rw [hanswer] at hr
          exact h.reply g hg r hr
        | ok reply =>
          rw [hanswer] at hr
          exact hfair.truthful url r rfl (hanswer.trans (congrArg Except.ok (Option.some.inj hr)))
      · exact h.reply g hg r ((Courier.noteAct_reply (fun url heq => hget ⟨url, heq⟩) ..).symm.trans hr)
  · rcases getElem?_set_cases hm with ⟨rfl, rfl⟩ | ⟨-, hm⟩
    · exact h.inside m g j cmd hi ((Courier.noteAct_job ..).symm.trans hj) ((Courier.noteAct_inside ..).symm.trans hin)
    · exact h.inside m x j cmd hm hj hin
  · rcases List.mem_or_eq_of_mem_set hx with hx | rfl
    · exact h.reported x hx j cmd hj hr
    · replace hj : g.job = some (j, cmd) := (Courier.noteAct_job ..).symm.trans hj
      rcases Courier.noteAct_reported hr with hold | ⟨told, rfl, hcompletes⟩
      · exact Courier.noteAct_placed _ (h.reported g hg j cmd hj hold)
      · exact Courier.noteAct_placed _ (ha hcompletes (j, cmd) hj)

/-- A lock is taken or released, and who is inside still holds it. -/
theorem Minded.deed (h : Minded wd held gs) (hi : gs[i]? = some g) {g' : Courier}
    (hsame : g' = { g with inside := g'.inside, staged := g'.staged })
    (hother : ∀ m x j cmd, m ≠ i → gs[m]? = some x → x.job = some (j, cmd) → x.inside = true →
      Holding (σ := rtSig) held' (.download cmd.modelName) m)
    (hown : ∀ j cmd, g.job = some (j, cmd) → g'.inside = true → Holding (σ := rtSig) held' (.download cmd.modelName) i) :
    Minded wd held' (gs.set i g') := by
  have hg : g ∈ gs := List.mem_of_getElem? hi
  have hdir : g'.dir = g.dir := by rw [hsame]
  have hreply : g'.reply = g.reply := by rw [hsame]
  have hjob : g'.job = g.job := by rw [hsame]
  have hreported : g'.reported = g.reported := by rw [hsame]
  have hplaced : g'.placed = g.placed := by rw [hsame]
  refine ⟨fun x hx d hd => ?_, fun x hx r hr => ?_, fun m x j cmd hm hj hin => ?_, fun x hx j cmd hj hr => ?_⟩
  · rcases List.mem_or_eq_of_mem_set hx with hx | rfl
    · exact h.dir x hx d hd
    · exact h.dir g hg d (hdir.symm.trans hd)
  · rcases List.mem_or_eq_of_mem_set hx with hx | rfl
    · exact h.reply x hx r hr
    · exact h.reply g hg r (hreply.symm.trans hr)
  · rcases getElem?_set_cases hm with ⟨rfl, rfl⟩ | ⟨hne, hm⟩
    · exact hown j cmd (hjob.symm.trans hj) hin
    · exact hother m x j cmd hne hm hj hin
  · rcases List.mem_or_eq_of_mem_set hx with hx | rfl
    · exact h.reported x hx j cmd hj hr
    · exact hplaced.trans (h.reported g hg j cmd (hjob.symm.trans hj) (hreported.symm.trans hr))

theorem Minded.lock {V : Validator} (h : Minded wd held gs) (hi : gs[i]? = some g) {l : Lock}
    (hl : (machine V).acquire held l i = some held') : Minded wd held' (gs.set i (g.note (.lock l))) := by
  refine h.deed hi (Courier.note_lock ..) (fun m x j cmd _ hm hj hin => (h.inside m x j cmd hm hj hin).acquire hl)
    fun j cmd hj hin => ?_
  rcases Courier.inside_lock g l with hsame | ⟨-, job, hjob, rfl⟩
  · rw [hsame] at hin
    exact (h.inside i g j cmd hi hj hin).acquire hl
  · obtain rfl := Option.some.inj (hj.symm.trans hjob)
    exact holding_acquire hl

theorem Minded.unlock (h : Minded wd held gs) (hi : gs[i]? = some g) {l : Lock}
    (hl : release (σ := rtSig) held l i = some held') : Minded wd held' (gs.set i (g.note (.unlock l))) := by
  refine h.deed hi (Courier.note_unlock ..) (fun m x j cmd hne hm hj hin => ?_) fun j cmd hj hin => ?_
  · exact (h.inside m x j cmd hm hj hin).release hl fun _ => hne
  · obtain ⟨hsame, hother⟩ := Courier.inside_unlock hin
    rw [hsame] at hin
    exact (h.inside i g j cmd hi hj hin).release hl fun heq => absurd heq.symm (hother _ hj)

theorem Minded.enter (h : Minded wd held gs) (e : Entry) (s : Rt) : Minded wd held (gs ++ [Courier.born e s]) := by
  have hborn : (Courier.born e s).dir = none ∧ (Courier.born e s).reply = none ∧ (Courier.born e s).inside = false ∧
      (Courier.born e s).reported = false := by
    cases e <;> exact ⟨rfl, rfl, rfl, rfl⟩
  obtain ⟨hdir, hreply, hinside, hreported⟩ := hborn
  refine ⟨fun x hx d hd => ?_, fun x hx r hr => ?_, fun m x j cmd hm hj hin => ?_, fun x hx j cmd hj hr => ?_⟩
  · rcases List.mem_append.mp hx with hx | hx
    · exact h.dir x hx d hd
    · rw [List.mem_singleton.mp hx, hdir] at hd
      cases hd
  · rcases List.mem_append.mp hx with hx | hx
    · exact h.reply x hx r hr
    · rw [List.mem_singleton.mp hx, hreply] at hr
      cases hr
  · rcases getElem?_concat_cases hm with hm | ⟨-, rfl⟩
    · exact h.inside m x j cmd hm hj hin
    · rw [hinside] at hin
      cases hin
  · rcases List.mem_append.mp hx with hx | hx
    · exact h.reported x hx j cmd hj hr
    · rw [List.mem_singleton.mp hx, hreported] at hr
      cases hr

end Minded

end AgentRuntime
end LocaiLink
