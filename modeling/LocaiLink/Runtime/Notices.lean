/-
# Notices of removals

A removal that was started on the device is told to Control. A notice that fails is queued
in a file and sent again, later and in later lives of the process. As long as nothing is
configured while its notice is on the way or queued, every notice that is sent is
of a model that is not configured (`no_stale_notice`). A model that is deployed again
meanwhile is told to be removed (`redeployed_told_removed`).
-/
import LocaiLink.Runtime.Actions
import LocaiLink.Runtime.Process

namespace LocaiLink
namespace AgentRuntime
namespace Notices

open Code Machine

/-! ### What a thread has to tell -/

/-- A thread that has not read its command yet has its `data`. With `loopback` its command's
removal is told; `owed` is the removal it still has to tell. Inside the lock of the queue it
knows what it has loaded. -/
structure Telling where
  data : Option Json := none
  loopback : Bool := false
  owed : Option String := none
  inside : Bool := false
  loaded : List String := []

/-- The command is an uninstall that was started on the device. -/
def isLocalRemoval (V : Validator) (c : AgentConfig) (data : Json) : Bool :=
  match V.command (Templating.resolveTemplates (identityContext c.identity) data) with
  | some (.uninstallModel cmd) => Text.startsWith cmd.id "loopback-"
  | _ => false

/-- Nothing can be told without an identity, or but over HTTPS. -/
def canTell (c : IdentityConfig) : Prop :=
  ¬(c.apiUrl.getD "" = "" ∨ c.apiKey.getD "" = "" ∨ c.deviceId = "") ∧
    Text.startsWith (String.ofList (rstripSlash (c.apiUrl.getD "").toList)) "https://" = true

instance (c : IdentityConfig) : Decidable (canTell c) := inferInstanceAs (Decidable (_ ∧ _))

namespace Telling

variable (V : Validator)

/-- What an action and its answer change. -/
def noteAct : (a : Act) → a.Resp → Telling → Telling
  | .getAgentConfig, c, g => match g.data with
    | some data => { g with data := none, loopback := isLocalRemoval V c data }
    | none => if canTell c.identity then g else { g with owed := none }
  | .popConfig pid, _, g => if g.loopback then { g with owed := some pid } else g
  | .report (.command id _ _), _, g => if Text.startsWith id "loopback-" then g else { g with owed := none }
  | .postUninstalled pid, told, g => if told = true ∧ g.owed = some pid then { g with owed := none } else g
  | .loadPending, ids, g => { g with loaded := ids, owed := g.owed.filter fun pid => pid ∉ ids }
  | .savePending _, _, g => { g with loaded := [], owed := none }
  | _, _, g => g

def note (g : Telling) : Deed rtSig → Telling
  | .act a r => noteAct V a r g
  | .lock .pendingReports => { g with inside := true, loaded := [] }
  | .unlock .pendingReports => { g with inside := false }
  | .lock _ | .unlock _ => g

/-- A thread tells what it owes, or what it has loaded; the queue is for who holds its lock. -/
def Permits (g : Telling) : Act → Prop
  | .postUninstalled pid => g.owed = some pid ∨ (g.inside = true ∧ pid ∈ g.loaded)
  | .loadPending => g.inside = true
  | .savePending ids => g.inside = true ∧ ∀ pid ∈ ids, pid ∈ g.loaded ∨ g.owed = some pid
  | _ => True

/-- The thread has read its command, and owes this. -/
structure Owes (o : Option String) (b : Bool) (g : Telling) : Prop where
  read : g.data = none
  owed : g.owed = o
  loopback : g.loopback = b

section Owes

variable {V} {o : Option String} {b : Bool} {g : Telling}

theorem Owes.lock (h : g.Owes o b) (l : Lock) : (g.note V (.lock l)).Owes o b := by
  cases l <;> exact ⟨h.read, h.owed, h.loopback⟩

theorem Owes.unlock (h : g.Owes o b) (l : Lock) : (g.note V (.unlock l)).Owes o b := by
  cases l <;> exact ⟨h.read, h.owed, h.loopback⟩

/-- A notice that cannot be sent is not owed. -/
theorem Owes.identity (h : g.Owes o b) (c : AgentConfig) :
    (noteAct V .getAgentConfig c g).Owes (if canTell c.identity then o else none) b := by
  rw [noteAct, h.read]
  simp only
  split_ifs
  · exact h
  · exact ⟨rfl, rfl, h.loopback⟩

theorem Owes.report (h : g.Owes o b) (id : String) (status : Status) (output : String) :
    (noteAct V (.report (.command id status output)) () g).Owes (if Text.startsWith id "loopback-" then o else none) b := by
  rw [noteAct]
  split_ifs
  · exact h
  · exact ⟨h.read, rfl, h.loopback⟩

theorem Owes.remove (h : g.Owes none b) (pid : String) :
    (noteAct V (.popConfig pid) () g).Owes (if b then some pid else none) b := by
  rw [noteAct, h.loopback]
  split_ifs
  · exact ⟨h.read, rfl, rfl⟩
  · exact h

theorem Owes.tell {pid : String} (h : g.Owes (some pid) b) (told : Bool) :
    (noteAct V (.postUninstalled pid) told g).Owes (if told then none else some pid) b := by
  cases told with
  | true =>
    have hnote : noteAct V (.postUninstalled pid) true g = { g with owed := none } := if_pos ⟨rfl, h.owed⟩
    rw [hnote]
    exact ⟨h.read, rfl, h.loopback⟩
  | false =>
    rw [noteAct, if_neg (by simp)]
    exact h

/-- What is queued already is not owed. -/
theorem Owes.load {pid : String} (h : g.Owes (some pid) b) (ids : List String) :
    (noteAct V .loadPending ids g).Owes (if pid ∈ ids then none else some pid) b := by
  refine ⟨h.read, ?_, h.loopback⟩
  change g.owed.filter (fun pid => decide (pid ∉ ids)) = _
  rw [h.owed]
  by_cases hmem : pid ∈ ids
  · rw [if_pos hmem]
    exact Option.filter_some_neg (by simpa using hmem)
  · rw [if_neg hmem]
    exact Option.filter_some_pos (by simpa using hmem)

end Owes

end Telling

open Telling

/-! ### What the code tells -/

/-- The code keeps to that, and ends in `Q`. -/
abbrev Tells (V : Validator) {α : Type} (Q : Telling → α → Prop) (g : Telling) (p : Code α) : Prop :=
  Prog.Follows (σ := rtSig) (note V) Permits Q g p

/-- What tells Control nothing and removes no config. -/
def Other : Act → Prop
  | .popConfig _ | .postUninstalled _ | .loadPending | .savePending _ => False
  | _ => True

/-- What touches no notice at all. -/
def Mute : Act → Prop
  | .getAgentConfig | .report (.command _ _ _) => False
  | a => Other a

section Tells

variable {V : Validator} {α β : Type} {g : Telling} {o : Option String} {b : Bool}

theorem tells_pure {Q : Telling → α → Prop} {a : α} (h : Q g a) : Tells V Q g (pure a : Code α) := .ret h

theorem tells_act {a : Act} {Q : Telling → a.Resp → Prop} (hP : g.Permits a) (h : ∀ r, Q (noteAct V a r g) r) :
    Tells V Q g (act a) :=
  Prog.follows_call (σ := rtSig) hP h

theorem Tells.locked {Q R : Telling → α → Prop} {l : Lock} {p : Code α} (h : Tells V Q (g.note V (.lock l)) p)
    (hR : ∀ g a, Q g a → R (g.note V (.unlock l)) a) : Tells V R g (Code.locked l p) :=
  Prog.Follows.locked h hR

theorem Tells.ite {c : Prop} [Decidable c] {Q : Telling → α → Prop} {p q : Code α} (hp : c → Tells V Q g p)
    (hq : ¬c → Tells V Q g q) : Tells V Q g (if c then p else q) := by
  split_ifs with hc
  · exact hp hc
  · exact hq hc

theorem noteAct_mute {a : Act} (h : Mute a) (r : a.Resp) (g : Telling) : noteAct V a r g = g := by
  cases a with
  | report rep => cases rep <;> first | rfl | exact h.elim
  | _ => first | rfl | exact h.elim

theorem Owes.mute {a : Act} (ha : Mute a) (h : g.Owes o b) (r : a.Resp) : (noteAct V a r g).Owes o b := by
  rw [noteAct_mute ha]
  exact h

theorem Owes.other {a : Act} (ha : Other a) (h : g.Owes none b) (r : a.Resp) : (noteAct V a r g).Owes none b := by
  cases a with
  | getAgentConfig =>
    have hread := h.identity (V := V) r
    rw [ite_self] at hread
    exact hread
  | report rep =>
    cases rep with
    | command id status output =>
      have hreport := h.report (V := V) id status output
      rw [ite_self] at hreport
      exact hreport
    | _ => exact h
  | _ => first | exact h | exact ha.elim

/-- Who owes nothing owes nothing after what does not concern notices. -/
theorem tells_other {p : Code α} (hp : Does Other p) (h : g.Owes none b) : Tells V (fun g _ => g.Owes none b) g p :=
  hp.only.follows (fun _ a ha _ => by cases a <;> trivial) (fun _ _ r ha hg => Owes.other ha hg r)
    (fun _ l hg => hg.lock l) (fun _ l hg => hg.unlock l) h

theorem tells_mute {p : Code α} (hp : Does Mute p) (h : g.Owes o b) : Tells V (fun g _ => g.Owes o b) g p := by
  refine hp.only.follows (fun g a ha _ => ?_) (fun g a r ha hg => ?_) (fun _ l hg => hg.lock l)
    (fun _ l hg => hg.unlock l) h
  · cases a <;> trivial
  · exact Owes.mute ha hg r

theorem other_of_common (a : Act) (h : Common a) : Other a := by
  cases a <;> trivial

theorem mute_of_deleting (a : Act) (h : Deleting a) : Mute a := by
  cases a <;> trivial

/-! ### A removal -/

theorem tells_postUninstallReport {pid : String} (h : g.Owes (some pid) b) :
    Tells V (fun g told => g.Owes (if told then none else some pid) b) g (postUninstallReport pid) := by
  refine Prog.Follows.bind (Q := fun g c => g.Owes (if canTell c.identity then some pid else none) b)
    (tells_act (a := .getAgentConfig) trivial fun c => h.identity c) fun g c hg => ?_
  have hcannot (hc : ¬canTell c.identity) : g.Owes none b := by
    rwa [if_neg hc] at hg
  refine Tells.ite (fun hmissing => tells_pure (hcannot fun hc => hc.1 hmissing)) fun hmissing =>
    Tells.ite (fun hsecure => ?_) fun hsecure => tells_pure (hcannot fun hc => hsecure hc.2)
  rw [if_pos ⟨hmissing, hsecure⟩] at hg
  exact tells_act (a := .postUninstalled pid) (.inl hg.owed) fun told => hg.tell told

theorem tells_queuePendingUninstall {pid : String} (h : g.Owes (some pid) b) :
    Tells V (fun g _ => g.Owes none b) g (queuePendingUninstall pid) := by
  refine Tells.locked (Q := fun g _ => g.Owes none b) ?_ fun g _ hg => hg.unlock .pendingReports
  have hin := h.lock (V := V) .pendingReports
  refine Prog.Follows.bind (Q := fun g ids => g.inside = true ∧ g.loaded = ids ∧
    g.Owes (if pid ∈ ids then none else some pid) b)
    (tells_act (a := .loadPending) rfl fun ids => ⟨rfl, rfl, hin.load ids⟩) fun g ids hg => ?_
  obtain ⟨hinside, hloaded, hg⟩ := hg
  refine Tells.ite (fun hmem => ?_) fun hmem => ?_
  · rw [if_pos hmem] at hg
    exact tells_pure hg
  · rw [if_neg hmem] at hg
    refine tells_act (a := .savePending _) ⟨hinside, fun x hx => ?_⟩ fun _ => ⟨hg.read, rfl, hg.loopback⟩
    rcases List.mem_append.mp hx with hx | hx
    · exact .inl (hloaded ▸ hx)
    · exact .inr (List.mem_singleton.mp hx ▸ hg.owed)

theorem tells_reportModelUninstalledToControl {pid : String} (h : g.Owes (some pid) b) :
    Tells V (fun g _ => g.Owes none b) g (reportModelUninstalledToControl pid) := by
  refine (tells_postUninstallReport h).bind fun g told hg => ?_
  cases told with
  | true => exact tells_pure hg
  | false => exact tells_queuePendingUninstall hg

theorem tells_finishUninstall {id pid : String} {artifact : Option Path} (hb : Text.startsWith id "loopback-" = true → b = true)
    (h : g.Owes (if b then some pid else none) b) : Tells V (fun g _ => g.Owes none b) g (finishUninstall id pid artifact) := by
  refine (tells_mute ((does_deleteArtifact artifact).mono mute_of_deleting) h).bind fun g deleted hg => ?_
  refine (tells_mute (does_act (a := .report (.model ..)) trivial) hg).bind fun g _ hg => ?_
  refine Prog.Follows.bind (Q := fun g _ => g.Owes (if Text.startsWith id "loopback-" then if b then some pid else none else none) b)
    (tells_act (a := .report (.command ..)) trivial fun _ => hg.report ..) fun g _ hg => ?_
  refine Tells.ite (fun hid => ?_) fun hid => ?_
  · rw [if_pos hid, if_pos (hb hid)] at hg
    exact tells_reportModelUninstalledToControl hg
  · rw [if_neg hid] at hg
    exact tells_pure hg

theorem tells_removeConfig {id pid : String} {filename extension : Option String} (h : g.Owes none b) :
    Tells V (fun g r => g.Owes (if r.isOk && b then some pid else none) b) g (removeConfig id pid filename extension) := by
  refine Tells.locked (Q := fun g r => g.Owes (if r.isOk && b then some pid else none) b) ?_ fun g r hg => hg.unlock .self
  have hin := h.lock (V := V) .self
  refine (tells_mute (does_act (a := .getConfig pid) trivial) hin).bind fun g cfg hg => ?_
  refine (tells_mute (does_act (a := .cwd) trivial) hg).bind fun g cwd hg => ?_
  refine (tells_mute (does_act (a := .getConfigs) trivial) hg).bind fun g configs hg => ?_
  split
  · refine (tells_other (does_act (a := .report _) trivial) hg).bind fun g _ hg => ?_
    exact tells_pure hg
  · refine Prog.Follows.bind (Q := fun g _ => g.Owes (if b then some pid else none) b)
      (tells_act (a := .popConfig pid) trivial fun _ => hg.remove pid) fun g _ hg => ?_
    refine (tells_mute (does_act (a := .store _) trivial) hg).bind fun g _ hg => tells_pure ?_
    rw [Except.isOk, Except.toBool, Bool.true_and]
    exact hg

/-- A command that has been read. -/
theorem tells_uninstallCommand {me : Option ℕ} {cmd : UninstallModelCommand}
    (hb : Text.startsWith cmd.id "loopback-" = true → b = true) (h : g.Owes none b) :
    Tells V (fun _ _ => True) g (uninstallCommand me cmd) := by
  have hreport {g : Telling} (hg : g.Owes none b) (status : Status) (output : String) :
      Tells V (fun _ _ => True) g (reportCommand cmd.id status output) :=
    (tells_other (does_act (a := .report _) trivial) hg).mono fun _ _ _ => trivial
  refine Tells.ite (fun _ => hreport h ..) fun _ => Tells.ite (fun _ => hreport h ..) fun _ => ?_
  refine (tells_mute (does_act (a := .getPipe _) trivial) h).bind fun g pipe hg => ?_
  refine Tells.ite (fun _ => hreport hg ..) fun _ => ?_
  refine (tells_other ((does_stopIfRunning ..).mono fun a ha => other_of_common a (ha.common a)) hg).bind fun g stopped hg => ?_
  refine Tells.ite (fun _ => (tells_removeConfig hg).bind fun g r hg => ?_) fun _ => hreport hg ..
  cases r with
  | error _ => exact tells_pure trivial
  | ok artifact =>
    rw [Except.isOk, Except.toBool, Bool.true_and] at hg
    exact (tells_finishUninstall hb hg).mono fun _ _ _ => trivial

/-! ### The queue -/

/-- The thread owes nothing and sends what it has loaded. -/
structure Sends (ids : List String) (b : Bool) (g : Telling) : Prop extends Owes none b g where
  inside : g.inside = true
  loaded : g.loaded = ids

variable {ids : List String}

theorem Sends.identity (h : Sends ids b g) (c : AgentConfig) : Sends ids b (noteAct V .getAgentConfig c g) := by
  have howes := h.toOwes.identity (V := V) c
  rw [ite_self] at howes
  rw [noteAct, h.read] at howes ⊢
  simp only at howes ⊢
  refine ⟨howes, ?_, ?_⟩ <;> split_ifs
  · exact h.inside
  · exact h.inside
  · exact h.loaded
  · exact h.loaded

theorem Sends.tell (h : Sends ids b g) (pid : String) (told : Bool) : Sends ids b (noteAct V (.postUninstalled pid) told g) := by
  have howed : ¬(told = true ∧ g.owed = some pid) := by
    rw [h.owed]
    simp
  rw [noteAct, if_neg howed]
  exact h

theorem tells_resend {pid : String} (h : Sends ids b g) (hpid : pid ∈ ids) :
    Tells V (fun g _ => Sends ids b g) g (postUninstallReport pid) := by
  refine Prog.Follows.bind (Q := fun g _ => Sends ids b g)
    (tells_act (a := .getAgentConfig) trivial fun c => h.identity c) fun g c hg => ?_
  refine Tells.ite (fun _ => tells_pure hg) fun _ => Tells.ite (fun _ => ?_) fun _ => tells_pure hg
  exact tells_act (a := .postUninstalled pid) (.inr ⟨hg.inside, hg.loaded ▸ hpid⟩) fun told => hg.tell pid told

theorem tells_undelivered : ∀ {l : List String} {g : Telling}, Sends ids b g → l ⊆ ids →
    Tells V (fun g rest => Sends ids b g ∧ rest ⊆ l) g (undelivered l)
  | [], _, h, _ => tells_pure ⟨h, List.Subset.refl _⟩
  | pid :: l, _, h, hl => by
    refine (tells_resend h (hl List.mem_cons_self)).bind fun g delivered hg => ?_
    refine (tells_undelivered hg fun x hx => hl (List.mem_cons_of_mem pid hx)).bind fun g rest hg => tells_pure ⟨hg.1, ?_⟩
    cases delivered with
    | true => exact List.subset_cons_of_subset pid hg.2
    | false => exact List.cons_subset_cons pid hg.2

theorem tells_flushPendingUninstallReports (h : g.Owes none b) :
    Tells V (fun g _ => g.Owes none b) g flushPendingUninstallReports := by
  refine Tells.locked (Q := fun g _ => g.Owes none b) ?_ fun g _ hg => hg.unlock .pendingReports
  have hin := h.lock (V := V) .pendingReports
  have hload (ids : List String) : Sends ids b (noteAct V .loadPending ids (g.note V (.lock .pendingReports))) := by
    refine ⟨⟨hin.read, ?_, hin.loopback⟩, rfl, rfl⟩
    change Option.filter _ (g.note V (.lock .pendingReports)).owed = none
    rw [hin.owed]
    rfl
  refine Prog.Follows.bind (Q := fun g ids => Sends ids b g) (tells_act (a := .loadPending) rfl hload) fun g ids hg => ?_
  refine Tells.ite (fun _ => tells_pure hg.toOwes) fun _ => ?_
  refine (tells_undelivered hg (List.Subset.refl _)).bind fun g rest hg => ?_
  refine Tells.ite (fun _ => tells_pure hg.1.toOwes) fun _ => ?_
  refine tells_act (a := .savePending rest) ⟨hg.1.inside, fun x hx => .inl ?_⟩ fun _ => ⟨hg.1.read, rfl, hg.1.loopback⟩
  rw [hg.1.loaded]
  exact hg.2 hx

/-! ### Commands, workers and the main thread -/

theorem tells_dispatch {me : Option ℕ} {cmd : Command}
    (hb : ∀ c, cmd = .uninstallModel c → Text.startsWith c.id "loopback-" = true → b = true) (h : g.Owes none b) :
    Tells V (fun _ _ => True) g (dispatch V me cmd) := by
  have hother {p : Code Unit} (hp : Does Other p) : Tells V (fun _ _ => True) g p :=
    (tells_other hp h).mono fun _ _ _ => trivial
  cases cmd with
  | uninstallModel c => exact tells_uninstallCommand (hb c rfl) h
  | deployModel c => exact hother ((does_deployModel c).mono fun a ha => by cases a <;> trivial)
  | cancelDeploy id pid => exact hother ((does_cancelDeploy id pid).mono fun a ha => by cases a <;> trivial)
  | _ =>
    exact hother ((does_common_dispatch V me _ (fun _ => by simp) (fun _ _ => by simp) fun _ => by simp).mono other_of_common)

/-- The thread of a command, which it has or has not read. -/
theorem tells_handleCommand {me : Option ℕ} {data : Json} (howed : g.owed = none)
    (h : g.data = some data ∨ (g.data = none ∧ g.loopback = true)) : Tells V (fun _ _ => True) g (handleCommand V me data) := by
  refine Prog.Follows.bind (Q := fun g c => ∃ b, g.Owes none b ∧ (isLocalRemoval V c data = true → b = true))
    (tells_act (a := .getAgentConfig) trivial fun c => ?_) fun g current hg => ?_
  · rcases h with hdata | ⟨hread, hloop⟩
    · refine ⟨isLocalRemoval V c data, ?_, id⟩
      rw [noteAct, hdata]
      exact ⟨rfl, howed, rfl⟩
    · refine ⟨true, ?_, fun _ => rfl⟩
      have hall : g.Owes none true := ⟨hread, howed, hloop⟩
      have hread := hall.identity (V := V) c
      rw [ite_self] at hread
      exact hread
  · obtain ⟨b, hg, hlocal⟩ := hg
    split
    · rename_i cmd hcmd
      refine tells_dispatch (fun c hc hid => hlocal ?_) hg
      rw [isLocalRemoval, hcmd, hc]
      exact hid
    · split
      · refine Tells.ite (fun _ => tells_pure trivial) fun _ => ?_
        exact (tells_other (does_act (a := .report _) trivial) hg).mono fun _ _ _ => trivial
      · exact tells_pure trivial

theorem tells_deployWorker {j : ℕ} {cmd : DeployModelCommand} (h : g.Owes none b) :
    Tells V (fun _ _ => True) g (deployWorker j cmd) :=
  (tells_other ((does_deployWorker j cmd).mono fun a ha => by cases a <;> trivial) h).mono fun _ _ _ => trivial

theorem tells_run (h : g.Owes none b) : Tells V (fun g _ => g.Owes none b) g (run V) := by
  have hlast {g : Telling} (hg : g.Owes none b) : Tells V (fun g _ => g.Owes none b) g (do
      act (.report (.lifecycle true))
      flushPendingUninstallReports) :=
    (tells_other (does_act (a := .report _) trivial) hg).bind fun _ _ hg => tells_flushPendingUninstallReports hg
  refine (tells_other (does_act (a := .snapshot) trivial) h).bind fun g saved hg => ?_
  cases saved with
  | none => exact hlast hg
  | some saved =>
    refine (tells_other ((does_recoverConfigs _).mono other_of_common) hg).bind fun g _ hg => ?_
    exact (tells_other ((does_recoverActive V _).mono other_of_common) hg).bind fun g _ hg => hlast hg

end Tells

/-! ### The threads of the process -/

/-- Code of the process that keeps to it. -/
abbrev ProcTells (V : Validator) {α : Type} (Q : Telling → α → Prop) (g : Telling) (p : ProcCode α) : Prop :=
  Prog.Follows (σ := procSig) (noteWithin (note V)) (permitsWithin Permits) Q g p

def OtherInProc : ProcAct → Prop
  | .rt a => Other a
  | _ => True

section Process

variable {V : Validator} {α β : Type} {g : Telling} {b : Bool}

theorem procTells_other {p : ProcCode α} (hp : Prog.Only (σ := procSig) OtherInProc p) (h : g.Owes none b) :
    ProcTells V (fun g _ => g.Owes none b) g p := by
  refine hp.follows (fun g a ha _ => ?_) (fun g a r ha hg => ?_) (fun g l hg => ?_) (fun g l hg => ?_) h
  · cases a with
    | rt a => cases a <;> trivial
    | _ => trivial
  · cases a with
    | rt a => exact Owes.other ha hg r
    | _ => exact hg
  · cases l with
    | rt l => exact hg.lock l
    | deployments => exact hg
  · cases l with
    | rt l => exact hg.unlock l
    | deployments => exact hg

theorem only_act {a : ProcAct} (h : OtherInProc a) : Prog.Only (σ := procSig) OtherInProc (ProcCode.act a) :=
  (Prog.only_call (σ := procSig) a).mpr h

theorem only_cancelWorkers : ∀ ws : List AgentWorker, Prog.Only (σ := procSig) OtherInProc (cancelWorkers ws)
  | [] => trivial
  | _ :: ws => Prog.Only.bind (only_act (a := .rt (.cancelJob _)) trivial) fun _ => only_cancelWorkers ws

theorem only_joinWorkers : ∀ ws : List AgentWorker, Prog.Only (σ := procSig) OtherInProc (joinWorkers ws)
  | [] => trivial
  | _ :: ws => Prog.Only.bind (only_act (a := .joinJob _) trivial) fun _ => only_joinWorkers ws

theorem only_stopPipes : ∀ l : List Pipe, Prog.Only (σ := procSig) OtherInProc (stopPipes l)
  | [] => trivial
  | _ :: l => Prog.Only.bind (only_act (a := .rt (.stop _)) trivial) fun _ => only_stopPipes l

theorem only_joinPipes : ∀ l : List Pipe, Prog.Only (σ := procSig) OtherInProc (joinPipes l)
  | [] => trivial
  | pipe :: l => by
    refine Prog.Only.bind (only_act (a := .rt (.isAlive _)) trivial) fun alive => ?_
    cases alive with
    | false => exact only_joinPipes l
    | true => exact Prog.Only.bind (only_act (a := .rt (.join _ _)) trivial) fun _ => only_joinPipes l

theorem only_shutdown : Prog.Only (σ := procSig) OtherInProc shutdown := by
  refine Prog.Only.bind (Prog.Only.locked (σ := procSig) (only_act (a := .getWorkers) trivial) _) fun workers => ?_
  refine Prog.Only.bind (only_cancelWorkers workers) fun _ => Prog.Only.bind (only_joinWorkers workers) fun _ => ?_
  refine Prog.Only.bind (Prog.Only.locked (σ := procSig) ?_ _) fun _ => ?_
  · refine Prog.Only.bind (only_act (a := .getPipes) trivial) fun pipes => Prog.Only.bind (only_stopPipes pipes) fun _ => ?_
    exact Prog.Only.bind (only_joinPipes pipes) fun _ => only_act (a := .clearPipes) trivial
  · exact Prog.Only.bind (only_act (a := .disconnect) trivial) fun _ => only_act (a := .stopHealth) trivial

theorem procTells_mainLoop : ∀ (rounds : List Bool) {g : Telling}, g.Owes none b →
    ProcTells V (fun g _ => g.Owes none b) g (mainLoop rounds)
  | [], _, h => .ret h
  | due :: rounds, _, h => by
    refine Prog.Follows.bind (procTells_other (only_act (a := .isRunning) trivial) h) fun g running hg => ?_
    cases running with
    | false => exact .ret hg
    | true =>
      cases due with
      | false => exact procTells_mainLoop rounds hg
      | true =>
        exact Prog.Follows.bind (follows_within (tells_flushPendingUninstallReports hg)) fun g _ hg =>
          procTells_mainLoop rounds hg

theorem procTells_lifetime (rounds : List Bool) (h : g.Owes none b) : ProcTells V (fun _ _ => True) g (lifetime V rounds) := by
  refine Prog.Follows.bind (procTells_other (only_act (a := .startHealth) trivial) h) fun g _ hg => ?_
  refine Prog.Follows.bind (follows_within (tells_run hg)) fun g _ hg => ?_
  refine Prog.Follows.bind (procTells_mainLoop rounds hg) fun g _ hg => ?_
  refine Prog.Follows.bind (procTells_other only_shutdown hg) fun g _ hg => ?_
  exact (procTells_other (only_act (a := .rt (.report _)) trivial) hg).mono fun _ _ _ => trivial

theorem does_modelRows : ∀ l : List (String × Stored), Does Other (modelRows l)
  | [] => does_pure _
  | (pid, c) :: l => by
    refine .ite (.bind (does_act (a := .getPipe pid) trivial) fun _ => ?_) (does_modelRows l)
    exact .bind (does_modelRows l) fun _ => does_pure _

theorem does_listModels : Does Other listModels :=
  .locked (.bind (does_act (a := .getConfigs) trivial) fun _ => does_modelRows _) _

theorem tells_postModelAction {action : ModelAction} {id pid : String} (h : g.Owes none true) :
    Tells V (fun _ _ => True) g (postModelAction V action id pid) := by
  have hcommand {g : Telling} (hg : g.Owes none true) (data : Json) :
      Tells V (fun _ _ => True) g (handleCommand V none data) :=
    tells_handleCommand hg.owed (.inr ⟨hg.read, hg.loopback⟩)
  have hshown : Tells V (fun _ _ => True) g (actOnShown V action id pid) := by
    refine (tells_other does_listModels h).bind fun g rows hg => ?_
    split
    · exact tells_pure trivial
    · exact hcommand hg _
  cases action with
  | cancelDeploy => exact hcommand h _
  | serve | stopServing | uninstall => exact hshown

theorem tells_postUpdate {id : String} (h : g.Owes none true) : Tells V (fun _ _ => True) g (postUpdate V id) := by
  refine (tells_other (does_act (a := .canUpdate) trivial) h).bind fun g _ hg => ?_
  exact Tells.ite (fun _ => tells_handleCommand hg.owed (.inr ⟨hg.read, hg.loopback⟩)) fun _ => tells_pure trivial

/-- What a thread starts with. The commands of clients are local. -/
def born : Arrival → Proc → Telling
  | .runtime (.command _ data), _ => { data := some data }
  | .modelAction _ _ _, _ | .update _, _ => { loopback := true }
  | _, _ => {}

theorem procTells_answer {s s' : Proc} {p : ProcCode α} {q : ProcCode Unit} (h : ProcTells V (fun _ _ => True) g p)
    (ha : answer s p = some (q, s')) : s' = s ∧ ProcTells V (fun _ _ => True) g q := by
  obtain ⟨-, ha⟩ := Option.ite_none_right_eq_some.mp ha
  obtain ⟨rfl, rfl⟩ := Prod.mk.inj (Option.some.inj ha)
  exact ⟨rfl, Prog.Follows.bind h fun _ _ _ => .ret trivial⟩

/-- What arriving leaves as it is. -/
def SameQueue (s s' : Proc) : Prop := s'.rt.configs = s.rt.configs ∧ s'.rt.pending = s.rt.pending

/-- Every thread that enters keeps to it. -/
theorem procTells_arrive {x : Arrival} {s s' : Proc} {p : ProcCode Unit} (hx : arrive V x s = some (p, s')) :
    SameQueue s s' ∧ ProcTells V (fun _ _ => True) (born x s) p := by
  have hidle (b : Bool) : Telling.Owes none b { loopback := b } := ⟨rfl, rfl, rfl⟩
  cases x with
  | main rounds =>
    obtain ⟨rfl, rfl⟩ := Prod.mk.inj (Option.some.inj hx)
    exact ⟨⟨rfl, rfl⟩, procTells_lifetime rounds (hidle false)⟩
  | signal =>
    obtain ⟨rfl, rfl⟩ := Prod.mk.inj (Option.some.inj hx)
    exact ⟨⟨rfl, rfl⟩, .ret trivial⟩
  | runtime e =>
    obtain ⟨⟨q, rt⟩, hq, hp⟩ := Option.map_eq_some_iff.mp hx
    obtain ⟨rfl, rfl⟩ := Prod.mk.inj hp
    cases e with
    | command me data =>
      obtain ⟨-, hq⟩ := Option.ite_none_right_eq_some.mp hq
      obtain ⟨rfl, rfl⟩ := Prod.mk.inj (Option.some.inj hq)
      exact ⟨⟨rfl, rfl⟩, follows_within (tells_handleCommand rfl (.inl rfl))⟩
    | worker j =>
      obtain ⟨-, hq⟩ := Option.ite_none_right_eq_some.mp hq
      obtain ⟨rfl, rfl⟩ := Prod.mk.inj (Option.some.inj hq)
      exact ⟨⟨rfl, rfl⟩, follows_within (tells_deployWorker (hidle false))⟩
  | getModels =>
    obtain ⟨rfl, hp⟩ := procTells_answer (follows_within ((tells_other does_listModels (hidle false)).mono
      fun _ _ _ => trivial)) hx
    exact ⟨⟨rfl, rfl⟩, hp⟩
  | getHealth =>
    have hhealth : Prog.Only (σ := procSig) OtherInProc healthSnapshot := by
      refine Prog.Only.bind (only_act (a := .getTransport) trivial) fun _ => ?_
      refine Prog.Only.bind (Prog.Only.locked (σ := procSig) (only_act (a := .sweep) trivial) _) fun _ => ?_
      exact Prog.Only.bind (only_act (a := .rt .getServing) trivial) fun _ => Prog.only_pure _
    obtain ⟨rfl, hp⟩ := procTells_answer ((procTells_other hhealth (hidle false)).mono fun _ _ _ => trivial) hx
    exact ⟨⟨rfl, rfl⟩, hp⟩
  | modelAction action id pid =>
    obtain ⟨rfl, hp⟩ := procTells_answer (follows_within (tells_postModelAction (hidle true))) hx
    exact ⟨⟨rfl, rfl⟩, hp⟩
  | update id =>
    obtain ⟨rfl, hp⟩ := procTells_answer (follows_within (tells_postUpdate (hidle true))) hx
    exact ⟨⟨rfl, rfl⟩, hp⟩
  | pending pid name =>
    have hset : Does Other (postPending pid name) := does_act (a := .setDeployment ..) trivial
    obtain ⟨rfl, hp⟩ := procTells_answer (follows_within ((tells_other hset (hidle false)).mono fun _ _ _ => trivial)) hx
    exact ⟨⟨rfl, rfl⟩, hp⟩

end Process

/-! ### What is configured and what is queued -/

section Frame

variable {a : Act} {pid : String} {s : Rt}

theorem perform_pending (h : ∀ ids, a ≠ .savePending ids) : (Rt.perform a s).2.pending = s.pending := by
  cases a <;> simp only [Rt.perform] <;> try rfl
  case updateArgs => unfold Rt.modifyStored; split <;> rfl
  case createComponent => split <;> rfl
  case join => unfold Rt.join; split_ifs <;> rfl
  case store => unfold Rt.performStore; split <;> rfl
  case attachResponse => split <;> [split; skip] <;> rfl
  case dropWorker => split <;> [split; skip] <;> rfl
  case mkdir => unfold Rt.fileOp; split <;> rfl
  case unlink => unfold Rt.fileOp; split <;> rfl
  case create => unfold Rt.fileOp; split <;> rfl
  case append => unfold Rt.fileOp Rt.appendTo; split <;> [rfl; (split <;> rfl)]
  case replace => unfold Rt.fileOp; split <;> rfl
  case savePending ids => exact absurd rfl (h ids)
  case report => split <;> rfl
  case setDeployment => unfold Rt.setDeployment; split <;> [skip; split] <;> rfl

theorem publish_unconfigured {l : List PipelineConfig} (h : ∀ p ∈ l, p.id ≠ pid) : (Rt.publish l).get? pid = none := by
  rw [Rt.publish, Dict.get?_ofList, Option.map_eq_none_iff, List.find?_eq_none]
  intro e he
  obtain ⟨p, hp, rfl⟩ := List.mem_map.mp (List.mem_reverse.mp he)
  simpa using h p hp

/-- What is not configured is not configured by anything but a commit under its id. -/
theorem perform_unconfigured (h : s.configs.get? pid = none) (hset : ∀ c, a ≠ .setConfig pid c)
    (hpublish : ∀ c, a = .publishConfigs c → ∀ p ∈ c.pipelines, p.id ≠ pid) : (Rt.perform a s).2.configs.get? pid = none := by
  by_cases hq : Rt.Quiet a
  · have hsame : (Rt.perform a s).2.configs = s.configs := congrArg Rt.Core.configs (Rt.core_perform hq s)
    rw [hsame]
    exact h
  cases a with
  | setConfig pid' c =>
    have hne : pid ≠ pid' := by
      rintro rfl
      exact hset c rfl
    exact (Dict.get?_set_of_ne _ _ hne).trans h
  | updateArgs pid' args =>
    change (s.modifyStored pid' _).configs.get? pid = none
    unfold Rt.modifyStored
    split
    · exact h
    · rename_i c hc
      have hne : pid ≠ pid' := by
        rintro rfl
        rw [h] at hc
        cases hc
      exact (Dict.get?_set_of_ne _ _ hne).trans h
  | popConfig pid' =>
    change (s.configs.erase pid').get? pid = none
    rw [Dict.get?_erase]
    split_ifs
    · rfl
    · exact h
  | publishConfigs c => exact publish_unconfigured (hpublish c rfl)
  | join i me =>
    change (s.join i me).configs.get? pid = none
    unfold Rt.join
    split_ifs <;> exact h
  | store op =>
    change (s.performStore op).configs.get? pid = none
    unfold Rt.performStore
    split <;> exact h
  | _ => first | exact h | exact absurd trivial hq

end Frame

/-- No notice of the id is queued, or owed by a thread. -/
def Told (s : Proc) (n : Notes Telling Unit) (pid : String) : Prop :=
  pid ∉ s.rt.pending ∧ ∀ g ∈ n.each, g.owed ≠ some pid

instance (s : Proc) (n : Notes Telling Unit) (pid : String) : Decidable (Told s n pid) :=
  inferInstanceAs (Decidable (_ ∧ _))

/-- What is configured is told: nothing comes under an id whose notice is queued or owed. -/
def Settled (s : Proc) (n : Notes Telling Unit) (_ : Telling) : ProcAct → Prop
  | .rt (.setConfig pid _) => Told s n pid
  | .rt (.publishConfigs c) => ∀ p ∈ c.pipelines, Told s n p.id
  | _ => True

/-- A notice that is sent is of a model that is not configured: Control may accept it, whether
its answer arrives or not. -/
def Truthful : ProcAct → Proc → Prop
  | .rt (.postUninstalled pid), s => s.rt.configs.get? pid = none
  | _, _ => True

/-- Nothing is configured that is queued or owed; who holds the queue's lock knows the queue. -/
structure Unstale (s : Proc) (held : procSig.Lock → Option (ℕ × ℕ)) (n : Notes Telling Unit) : Prop where
  queued : ∀ pid ∈ s.rt.pending, s.rt.configs.get? pid = none
  owed : ∀ g ∈ n.each, ∀ pid, g.owed = some pid → s.rt.configs.get? pid = none
  loaded : ∀ g ∈ n.each, g.inside = true → ∀ pid ∈ g.loaded, pid ∈ s.rt.pending
  inside : ∀ i g, n.each[i]? = some g → g.inside = true → Holding held (ProcLock.rt .pendingReports) i

section Steps

variable {V : Validator} {s s' : Proc} {held held' : procSig.Lock → Option (ℕ × ℕ)} {n : Notes Telling Unit} {i : ℕ} {g g' : Telling}

/-- What a thread owes and knows changes, and the state: the rest follows. -/
theorem Unstale.change (h : Unstale s held n) (hg : n.each[i]? = some g)
    (hqueued : ∀ pid ∈ s'.rt.pending, s'.rt.configs.get? pid = none)
    (hconfigs : ∀ x ∈ n.each, ∀ pid, x.owed = some pid → s'.rt.configs.get? pid = none)
    (howed : ∀ pid, g'.owed = some pid → s'.rt.configs.get? pid = none)
    (hpending : ∀ j x, j ≠ i → n.each[j]? = some x → x.inside = true → ∀ pid ∈ x.loaded, pid ∈ s'.rt.pending)
    (hloaded : g'.inside = true → ∀ pid ∈ g'.loaded, pid ∈ s'.rt.pending)
    (hinside : g'.inside = true → Holding held' (ProcLock.rt .pendingReports) i)
    (hheld : ∀ j, j ≠ i → Holding held (ProcLock.rt .pendingReports) j → Holding held' (ProcLock.rt .pendingReports) j) :
    Unstale s' held' ⟨n.each.set i g', ()⟩ := by
  refine ⟨hqueued, ?_, ?_, ?_⟩
  · intro x hx pid hpid
    rcases List.mem_or_eq_of_mem_set hx with hx | rfl
    · exact hconfigs x hx pid hpid
    · exact howed pid hpid
  · intro x hx hin
    obtain ⟨j, hj⟩ := List.mem_iff_getElem?.mp hx
    rcases getElem?_set_cases hj with ⟨-, rfl⟩ | ⟨hne, hj⟩
    · exact hloaded hin
    · exact hpending j x hne hj hin
  · intro j x hj hin
    rcases getElem?_set_cases hj with ⟨rfl, rfl⟩ | ⟨hne, hj⟩
    · exact hinside hin
    · exact hheld j hne (h.inside j x hj hin)

/-- Only one thread is inside the queue's lock. -/
theorem Unstale.alone (h : Unstale s held n) (hg : n.each[i]? = some g) (hin : g.inside = true) {j : ℕ} {x : Telling}
    (hj : n.each[j]? = some x) (hx : x.inside = true) : j = i :=
  (h.inside j x hj hx).unique (h.inside i g hg hin)

/-- An action that leaves the queue as it is, and what its thread notes. -/
theorem Unstale.frame (h : Unstale s held n) (hg : n.each[i]? = some g) (hpending : s'.rt.pending = s.rt.pending)
    (hconfigs : ∀ pid, (pid ∈ s.rt.pending ∨ ∃ x ∈ n.each, x.owed = some pid) → s'.rt.configs.get? pid = none)
    (howed : ∀ pid, g'.owed = some pid → g.owed = some pid ∨ s'.rt.configs.get? pid = none) (hinside : g'.inside = g.inside)
    (hloaded : g'.loaded = g.loaded ∨ ∀ pid ∈ g'.loaded, pid ∈ s.rt.pending) : Unstale s' held ⟨n.each.set i g', ()⟩ := by
  have hmem := List.mem_of_getElem? hg
  refine h.change hg ?_ (fun x hx pid hpid => hconfigs pid (.inr ⟨x, hx, hpid⟩)) ?_ ?_ ?_ ?_ fun _ _ hj => hj
  · rw [hpending]
    exact fun pid hpid => hconfigs pid (.inl hpid)
  · intro pid hpid
    rcases howed pid hpid with hold | hnew
    · exact hconfigs pid (.inr ⟨g, hmem, hold⟩)
    · exact hnew
  · rw [hpending]
    exact fun j x _ hj hin => h.loaded x (List.mem_of_getElem? hj) hin
  · rw [hpending, hinside]
    intro hin pid hpid
    rcases hloaded with hsame | hsub
    · exact h.loaded g hmem hin pid (hsame ▸ hpid)
    · exact hsub pid hpid
  · rw [hinside]
    exact h.inside i g hg

theorem noteAct_inside (a : Act) (r : a.Resp) (g : Telling) : (noteAct V a r g).inside = g.inside := by
  unfold noteAct
  split
  · split
    · rfl
    · split_ifs <;> rfl
  all_goals first | rfl | (split_ifs <;> rfl)

theorem noteAct_owed {a : Act} {r : a.Resp} {pid : String} (h : (noteAct V a r g).owed = some pid) :
    g.owed = some pid ∨ a = .popConfig pid := by
  unfold noteAct at h
  split at h
  · split at h
    · exact .inl h
    · split_ifs at h
      exact .inl h
  · split_ifs at h
    · exact .inr (congrArg Act.popConfig (Option.some.inj h))
    · exact .inl h
  · split_ifs at h
    exact .inl h
  · split_ifs at h
    exact .inl h
  · exact .inl (Option.filter_eq_some_iff.mp h).1
  · cases h
  · exact .inl h

theorem noteAct_loaded {a : Act} (r : a.Resp) (g : Telling) (hload : a ≠ .loadPending) (hsave : ∀ ids, a ≠ .savePending ids) :
    (noteAct V a r g).loaded = g.loaded := by
  unfold noteAct
  split
  · split
    · rfl
    · split_ifs <;> rfl
  · split_ifs <;> rfl
  · split_ifs <;> rfl
  · split_ifs <;> rfl
  · exact absurd rfl hload
  · exact absurd rfl (hsave _)
  · rfl

/-- What is queued, or owed, stays unconfigured where the condition is met. -/
theorem Unstale.unconfigured (h : Unstale s held n) {a : Act} (hC : Settled s n g (.rt a)) {pid : String}
    (hpid : pid ∈ s.rt.pending ∨ ∃ x ∈ n.each, x.owed = some pid) : (Rt.perform a s.rt).2.configs.get? pid = none := by
  have hnot {pid' : String} (ht : Told s n pid') : pid' ≠ pid := by
    rintro rfl
    rcases hpid with hpid | ⟨x, hx, hpid⟩
    · exact ht.1 hpid
    · exact ht.2 x hx hpid
  refine perform_unconfigured ?_ ?_ ?_
  · rcases hpid with hpid | ⟨x, hx, hpid⟩
    · exact h.queued pid hpid
    · exact h.owed x hx pid hpid
  · rintro c rfl
    exact hnot hC rfl
  · rintro c rfl p hp
    exact hnot (hC p hp)

theorem Unstale.save (h : Unstale s held n) (hg : n.each[i]? = some g) {ids : List String} (hP : g.Permits (.savePending ids)) :
    Unstale (Proc.perform (.rt (.savePending ids)) s).2 held ⟨n.each.set i (noteAct V (.savePending ids) () g), ()⟩ := by
  obtain ⟨hin, hids⟩ := hP
  have hmem := List.mem_of_getElem? hg
  have hnew : ∀ pid ∈ ids, s.rt.configs.get? pid = none := by
    intro pid hpid
    rcases hids pid hpid with hloaded | howed
    · exact h.queued pid (h.loaded g hmem hin pid hloaded)
    · exact h.owed g hmem pid howed
  have hconfigs : (Proc.perform (.rt (.savePending ids)) s).2.rt.configs = s.rt.configs := by
    change (if (s.rt.ask .file).error = none then _ else _ : Rt).configs = _
    split_ifs <;> rfl
  refine h.change hg ?_ ?_ (fun pid hpid => by cases hpid) ?_ (fun _ pid hpid => by cases hpid) (fun _ => h.inside i g hg hin)
    fun _ _ hj => hj
  · rw [hconfigs]
    change ∀ pid ∈ (if (s.rt.ask .file).error = none then _ else _ : Rt).pending, _
    split_ifs
    · exact hnew
    · exact h.queued
  · rw [hconfigs]
    exact h.owed
  · intro j x hne hj hx
    exact absurd (h.alone hg hin hj hx) hne

theorem Unstale.load (h : Unstale s held n) (hg : n.each[i]? = some g) :
    Unstale (Proc.perform (.rt .loadPending) s).2 held
      ⟨n.each.set i (noteAct V .loadPending (Proc.perform (.rt .loadPending) s).1 g), ()⟩ := by
  refine h.frame hg rfl (fun pid hpid => h.unconfigured (g := g) (a := .loadPending) trivial hpid) ?_ rfl (.inr ?_)
  · intro pid hpid
    exact .inl (Option.filter_eq_some_iff.mp hpid).1
  · intro pid hpid
    change pid ∈ (if (s.rt.ask .file).error = none then s.rt.pending else []) at hpid
    split_ifs at hpid
    · exact hpid
    · cases hpid

theorem Unstale.rt (h : Unstale s held n) (hg : n.each[i]? = some g) {a : Act} (hP : g.Permits a)
    (hC : Settled s n g (.rt a)) :
    Unstale (Proc.perform (.rt a) s).2 held ⟨n.each.set i (noteAct V a (Proc.perform (.rt a) s).1 g), ()⟩ := by
  by_cases hsave : ∃ ids, a = .savePending ids
  · obtain ⟨ids, rfl⟩ := hsave
    exact h.save hg hP
  by_cases hload : a = .loadPending
  · subst hload
    exact h.load hg
  have hsave' : ∀ ids, a ≠ .savePending ids := fun ids ha => hsave ⟨ids, ha⟩
  refine h.frame hg (perform_pending hsave') (fun pid hpid => h.unconfigured hC hpid) ?_ (noteAct_inside a _ g)
    (.inl (noteAct_loaded _ g hload hsave'))
  intro pid hpid
  rcases noteAct_owed hpid with hold | rfl
  · exact .inl hold
  · exact .inr (Dict.get?_erase_self _ _)

/-- What an action of the process keeps. -/
theorem Unstale.act (h : Unstale s held n) (hg : n.each[i]? = some g) {a : ProcAct} (hP : permitsWithin Permits g a)
    (hC : Settled s n g a) : Unstale (Proc.perform a s).2 held
      ⟨n.each.set i (noteWithin (note V) g (.act (σ := procSig) a (Proc.perform a s).1)), ()⟩ := by
  have hother {s' : Proc} (hsame : SameQueue s s') : Unstale s' held ⟨n.each.set i g, ()⟩ := by
    refine h.frame hg hsame.2 (fun pid hpid => ?_) (fun _ h => .inl h) rfl (.inl rfl)
    rw [hsame.1]
    exact h.unconfigured (a := .cwd) (g := g) trivial hpid
  cases a with
  | rt a => exact h.rt hg hP hC
  | _ => exact hother ⟨rfl, rfl⟩

theorem Unstale.lock (h : Unstale s held n) (hg : n.each[i]? = some g) {l : procSig.Lock}
    (hl : (process V).acquire held l i = some held') : Unstale s held' ⟨n.each.set i (noteWithin (note V) g (.lock l)), ()⟩ := by
  have hmem := List.mem_of_getElem? hg
  have hkeep (j : ℕ) (hj : Holding held (ProcLock.rt .pendingReports) j) : Holding held' (ProcLock.rt .pendingReports) j :=
    hj.acquire hl
  by_cases hqueue : l = ProcLock.rt .pendingReports
  · subst hqueue
    refine h.change hg h.queued h.owed (h.owed g hmem) (fun j x _ hj hx => h.loaded x (List.mem_of_getElem? hj) hx)
      (fun _ pid hpid => by cases hpid) (fun _ => holding_acquire hl) fun j _ => hkeep j
  · have hsame : noteWithin (note V) g (.lock (σ := procSig) l) = g := by
      rcases l with l | -
      · cases l <;> first | rfl | exact absurd rfl hqueue
      · rfl
    rw [hsame]
    exact h.change hg h.queued h.owed (h.owed g hmem) (fun j x _ hj hx => h.loaded x (List.mem_of_getElem? hj) hx)
      (h.loaded g hmem) (fun hin => hkeep i (h.inside i g hg hin)) fun j _ => hkeep j

theorem Unstale.unlock (h : Unstale s held n) (hg : n.each[i]? = some g) {l : procSig.Lock}
    (hl : release held l i = some held') : Unstale s held' ⟨n.each.set i (noteWithin (note V) g (.unlock l)), ()⟩ := by
  have hmem := List.mem_of_getElem? hg
  by_cases hqueue : l = ProcLock.rt .pendingReports
  · subst hqueue
    exact h.change hg h.queued h.owed (h.owed g hmem) (fun j x _ hj hx => h.loaded x (List.mem_of_getElem? hj) hx)
      (fun hin => by cases hin) (fun hin => by cases hin) fun j hne hj => hj.release hl fun _ => hne
  · have hsame : noteWithin (note V) g (.unlock (σ := procSig) l) = g := by
      rcases l with l | -
      · cases l <;> first | rfl | exact absurd rfl hqueue
      · rfl
    rw [hsame]
    exact h.change hg h.queued h.owed (h.owed g hmem) (fun j x _ hj hx => h.loaded x (List.mem_of_getElem? hj) hx)
      (h.loaded g hmem) (fun hin => (h.inside i g hg hin).release hl fun heq => absurd heq.symm hqueue)
      fun j hne hj => hj.release hl fun _ => hne

theorem Unstale.enter (h : Unstale s held n) (hsame : SameQueue s s') (x : Arrival) :
    Unstale s' held ⟨n.each ++ [born x s], ()⟩ := by
  have hborn : (born x s).owed = none ∧ (born x s).inside = false := by
    cases x with
    | runtime e => cases e <;> exact ⟨rfl, rfl⟩
    | _ => exact ⟨rfl, rfl⟩
  have hcases {g : Telling} (hg : g ∈ n.each ++ [born x s]) : g ∈ n.each ∨ g = born x s := by simpa using hg
  refine ⟨?_, ?_, ?_, ?_⟩
  · rw [hsame.1, hsame.2]
    exact h.queued
  · intro g hg pid hpid
    rw [hsame.1]
    rcases hcases hg with hg | rfl
    · exact h.owed g hg pid hpid
    · rw [hborn.1] at hpid
      cases hpid
  · intro g hg hin
    rw [hsame.2]
    rcases hcases hg with hg | rfl
    · exact h.loaded g hg hin
    · rw [hborn.2] at hin
      cases hin
  · intro j g hj hin
    rcases Nat.lt_or_ge j n.each.length with hlt | hge
    · rw [List.getElem?_append_left hlt] at hj
      exact h.inside j g hj hin
    · rw [List.getElem?_append_right hge] at hj
      obtain rfl := List.mem_singleton.mp (List.mem_of_getElem? hj)
      rw [hborn.2] at hin
      cases hin

end Steps

/-! ### Lives of the process -/

/-- A life of the process: what it starts with besides the queue, and what happens in it.
It may end anywhere. -/
structure Life where
  agentConfig : AgentConfig
  store : Option Store
  zenoh : Bool
  files : List String → Option Node
  cwd : List String
  oracle : Query → ℕ → Answer
  connected : Option Bool
  overdue : ℕ → String → Bool
  events : List (Ev Arrival)

/-- The process as a life starts it on the queue that it finds. -/
def Life.start (l : Life) (pending : List String) : Sys procSig Proc :=
  launched ⟨init l.agentConfig l.store l.zenoh l.files l.cwd pending l.oracle, l.connected, false, l.overdue, 0⟩

/-- Each life meets the condition, and starts on the queue that the one before it left. -/
def Lives (V : Validator) (P : Life → List String → Prop) : List String → List Life → Prop
  | _, [] => True
  | pending, l :: ls => P l pending ∧
      ∀ c, (process V).exec (l.start pending) l.events = some c → Lives V P c.shared.rt.pending ls

theorem Lives.mono {V : Validator} {P Q : Life → List String → Prop} (h : ∀ l pending, P l pending → Q l pending) :
    ∀ {ls : List Life} {pending : List String}, Lives V P pending ls → Lives V Q pending ls
  | [], _, _ => trivial
  | l :: _, _, hl => ⟨h l _ hl.1, fun c hc => (hl.2 c hc).mono h⟩

def unmarked (u : Unit) (_ : Telling) (_ : procSig.Act) : Unit := u

/-- What a life starts with is told, and what it configures. -/
structure Settles (V : Validator) (l : Life) (pending : List String) : Prop where
  boot : ∀ p ∈ l.agentConfig.pipelines, p.id ∉ pending
  steps : (process V).MeetsNoted (noteWithin (note V)) born unmarked Settled (l.start pending) ⟨[], ()⟩ l.events

section Lives

variable {V : Validator}

theorem unstale_start {l : Life} {pending : List String} (h : ∀ p ∈ l.agentConfig.pipelines, p.id ∉ pending) :
    Unstale (l.start pending).shared (l.start pending).held ⟨[], ()⟩ := by
  refine ⟨?_, ?_, ?_, ?_⟩
  · intro pid hpid
    exact publish_unconfigured fun p hp heq => h p hp (heq ▸ hpid)
  · intro g hg
    cases hg
  · intro g hg
    cases hg
  · intro i g hg
    cases hg

/-- A thread that tells Control of a removal has it owed, or has it from the queue. -/
theorem Unstale.truthful {s : Proc} {held : procSig.Lock → Option (ℕ × ℕ)} {n : Notes Telling Unit} {i : ℕ} {g : Telling}
    (h : Unstale s held n) (hg : n.each[i]? = some g) {a : ProcAct} (hP : permitsWithin Permits g a) : Truthful a s := by
  have hmem := List.mem_of_getElem? hg
  cases a with
  | rt a =>
    cases a with
    | postUninstalled pid =>
      rcases hP with howed | ⟨hin, hloaded⟩
      · exact h.owed g hmem pid howed
      · exact h.queued pid (h.loaded g hmem hin pid hloaded)
    | _ => trivial
  | _ => trivial

theorem truthful_of_settles {l : Life} {pending : List String} (h : Settles V l pending) :
    (process V).Meets Truthful (l.start pending) l.events := by
  have htied : Tied (noteWithin (note V)) (permitsWithin Permits) (l.start pending) [] := .nil
  refine meets_of_follows (I := Unstale) ?_ ?_ ?_ ?_ ?_ htied (unstale_start h.boot) h.steps
  · exact fun hI hg hP hC => hI.act hg hP hC
  · exact fun hI hg hl => hI.lock hg hl
  · exact fun hI hg hl => hI.unlock hg hl
  · exact fun hI hx => ⟨(procTells_arrive hx).2, hI.enter (procTells_arrive hx).1 _⟩
  · exact fun hI hg hP _ => hI.truthful hg hP

end Lives

/-! ### A check of lives -/

section Checks

variable {V : Validator}

def checkSettled (s : Proc) (n : Notes Telling Unit) (_ : Telling) : ProcAct → Bool
  | .rt (.setConfig pid _) => Told s n pid
  | .rt (.publishConfigs c) => c.pipelines.all fun p => Told s n p.id
  | _ => true

theorem settled_of_check (s : Proc) (n : Notes Telling Unit) (g : Telling) (a : ProcAct) (h : checkSettled s n g a = true) :
    Settled s n g a := by
  cases a with
  | rt a =>
    cases a with
    | setConfig pid c => exact of_decide_eq_true (p := Told s n pid) h
    | publishConfigs c =>
      intro p hp
      exact of_decide_eq_true (List.all_eq_true.mp h p hp)
    | _ => trivial
  | _ => trivial

def checkLife (V : Validator) (l : Life) (pending : List String) : Bool :=
  l.agentConfig.pipelines.all (fun p => p.id ∉ pending) &&
    (process V).checksNoted (noteWithin (note V)) born unmarked checkSettled (l.start pending) ⟨[], ()⟩ l.events

/-- The lives meet the check, and are runs. -/
def checkLives (V : Validator) : List String → List Life → Bool
  | _, [] => true
  | pending, l :: ls => checkLife V l pending &&
      ((process V).exec (l.start pending) l.events).any fun c => checkLives V c.shared.rt.pending ls

theorem settles_of_check {l : Life} {pending : List String} (h : checkLife V l pending = true) : Settles V l pending := by
  rw [checkLife, Bool.and_eq_true] at h
  exact ⟨fun p hp => of_decide_eq_true (List.all_eq_true.mp h.1 p hp), meetsNoted_of_checks settled_of_check h.2⟩

theorem lives_of_check : ∀ {ls : List Life} {pending : List String}, checkLives V pending ls = true →
    Lives V (Settles V) pending ls
  | [], _, _ => trivial
  | l :: ls, pending, h => by
    rw [checkLives, Bool.and_eq_true] at h
    refine ⟨settles_of_check h.1, fun c hc => lives_of_check ?_⟩
    have hrest := h.2
    rw [hc] at hrest
    exact hrest

end Checks

/-- **No stale notice.** Over the lives of the process, any threads and any outcomes of the
deliveries: while nothing is configured whose notice is queued or owed, every notice that
is sent to Control is of a model that is not configured. -/
theorem no_stale_notice (V : Validator) {pending : List String} {ls : List Life} (h : Lives V (Settles V) pending ls) :
    Lives V (fun l pending => (process V).Meets Truthful (l.start pending) l.events) pending ls :=
  h.mono fun _ _ => truthful_of_settles

/-! ### Removed offline, deployed again -/

/-- A device that Control knows, with these pipelines; Control is reached once the time has come. -/
def offlineUntil (t : ℕ) (pipelines : List PipelineConfig) (events : List (Ev Arrival)) : Life where
  agentConfig := { deviceConfig pipelines with identity := ⟨"dev1", "unknown", some "https://control", some "key"⟩ }
  store := some ⟨deviceConfig pipelines, some (deviceConfig pipelines)⟩
  zenoh := false
  files _ := none
  cwd := ["locai"]
  oracle
    | .http, now => { yes := decide (t ≤ now) }
    | _, _ => { response := .ok ⟨none, .ok 0, [[1, 2, 3]], none⟩ }
  connected := none
  overdue _ _ := false
  events

/-- A model with an artifact, so that a client is shown it. -/
def shownModel : PipelineConfig := ⟨"m", false, ⟨"language_model", Dict.empty.set "model_path" (.str "m.gguf")⟩, none⟩

/-- The process starts, and a client has the model removed. -/
def removedByClient : List (Ev Arrival) :=
  .enter (.main [true]) :: List.replicate 7 (.step 0) ++ .enter (.modelAction .uninstall "1" "m") :: List.replicate 22 (.step 1)

def deployAgain : Json :=
  command "DEPLOY_MODEL" [("pipeline_id", .str "m"), ("model_name", .str "m.gguf"), ("config", shownModel.modelDump)]

/-- The next process sends the notice that is queued, and then the model is configured again. -/
def flushedAtBoot : List (Ev Arrival) :=
  .enter (.main []) :: List.replicate 9 (.step 0) ++
    .enter (.runtime (.command none (startModelCommand "m" shownModel))) :: List.replicate 17 (.step 1)

/-- A removal that is told in the next life, before the model is configured again. -/
theorem no_stale_notice_restarted : Lives .strict (fun l pending => (process .strict).Meets Truthful (l.start pending) l.events) []
    [offlineUntil 10 [shownModel] removedByClient, offlineUntil 0 [] flushedAtBoot] :=
  no_stale_notice .strict (lives_of_check (by decide +kernel))

/-- It is deployed again, and then the main thread comes to the flush that is due. -/
def deployedAgain : List (Ev Arrival) :=
  removedByClient ++ .enter (.runtime (.command none deployAgain)) :: List.replicate 6 (.step 2) ++
    .enter (.runtime (.worker 0)) :: List.replicate 46 (.step 3) ++ List.replicate 4 (.step 0)

/-- The main thread is about to send the notice of the model, which Control will accept, and
the model is configured. -/
def SendsStale (c : Sys procSig Proc) : Prop :=
  performs c (.step 0 : Ev Arrival) = some (.rt (.postUninstalled "m")) ∧ (c.shared.rt.ask .http).yes = true ∧
    (c.shared.rt.configs.get? "m").isSome = true

def sendsNotice : Option ProcAct → Bool
  | some (.rt (.postUninstalled pid)) => pid = "m"
  | _ => false

theorem sendsNotice_iff {a : Option ProcAct} : sendsNotice a = true ↔ a = some (.rt (.postUninstalled "m")) := by
  constructor
  · intro h
    unfold sendsNotice at h
    split at h
    · rw [of_decide_eq_true h]
    · cases h
  · rintro rfl
    rfl

/-- A model that is deployed again after it was removed offline is told to be removed. -/
theorem redeployed_told_removed : ∃ c, (process .strict).exec ((offlineUntil 10 [shownModel] []).start []) deployedAgain = some c ∧
    SendsStale c := by
  have hrun : ((process .strict).exec ((offlineUntil 10 [shownModel] []).start []) deployedAgain).any (fun c =>
      sendsNotice (performs c (.step 0 : Ev Arrival)) && (c.shared.rt.ask .http).yes && (c.shared.rt.configs.get? "m").isSome) = true := by
    decide +kernel
  obtain ⟨c, hc, hend⟩ := (Option.any_eq_true _ _).mp hrun
  rw [Bool.and_eq_true, Bool.and_eq_true] at hend
  exact ⟨c, hc, sendsNotice_iff.mp hend.1.1, hend.1.2, hend.2⟩

end Notices
end AgentRuntime
end LocaiLink
