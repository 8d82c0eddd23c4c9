/-
# What threads do with managers

`Doing` is what a thread has done so far: the locks it holds, what it has seen of the
registry under its lock, how far the construction of its adapter has come, and how far
it is with taking a manager's last model out. `terms` is what it may do then; the code of
every thread keeps to that (`obeys_enter`).
-/
import LocaiLink.Base.LockOrder
import LocaiLink.Serving.SwapManager

namespace LocaiLink
namespace LanguageModel

/-- The adapter a thread constructs: its number, address, model and idle time. -/
structure Making where
  a : ℕ
  key : Key
  id : String
  path : String
  ttl : Option ℤ

/-- What a thread has seen of the registry since it took its lock. -/
inductive Seen
  | nothing
  | absent (key : Key)
  | made (key : Key) (m : ℕ)
  | found (key : Key) (m : ℕ)

def Seen.manager : Seen → Option ℕ
  | .made _ m | .found _ m => some m
  | .nothing | .absent _ => none

/-- How far a construction has come: its callback is registered, the manager is its own,
its model is entered, and it is done or has failed. -/
inductive Stage
  | idle
  | using (m : ℕ)
  | attached (m : ℕ)
  | added (m : ℕ)
  | over
  deriving DecidableEq

/-- How far a removal has come: the manager has the model, it is taken out, no other is
left, and the process has ended. -/
inductive Leaving
  | no
  | having (m : ℕ)
  | taking (m : ℕ)
  | emptied (m : ℕ)
  | downed (m : ℕ)
  deriving DecidableEq

/-- Where a thread is. `known` are the managers it has a reference to, `asks` that it is to
register a callback, `direct` that it calls a manager without an adapter. -/
structure Place where
  locks : List Lock := []
  known : List ℕ := []
  asks : Bool := false
  direct : Bool := false
  making : Option Making := none
  seen : Seen := .nothing
  stage : Stage := .idle
  leaving : Leaving := .no

/-- `up` is that the manager of its adapter is in service, `spawned` that it has started a
manager's process, `outside` that an engine is missing or a process failed. -/
structure Doing extends Place where
  up : Bool := false
  spawned : Option ℕ := none
  outside : Bool := false

/-- An idle time that `add_model` refuses. -/
def badTtl (ttl : Option ℤ) : Bool := ttl.any fun t => t < -1

/-- The id the model of an adapter gets. -/
def idOf (spec : Spec) (path : String) : String := if spec.modelAlias = "" then stem path else spec.modelAlias

namespace Leaving

def down (m : ℕ) (l : Leaving) : Leaving := if l = .emptied m then .downed m else l

end Leaving

namespace Doing

/-- The construction has failed or is done. -/
def giveUp (g : Doing) : Doing := { g with making := none, stage := .over }

/-- What an action and its answer add. -/
def noteAct : (a : Act) → a.Resp → Doing → Doing
  | .instanceOf key, none, g => { g with seen := .absent key }
  | .instanceOf key, some m, g => { g with seen := .found key m, known := m :: g.known }
  | .newManager key _ _ _, m, g => { g with seen := .made key m, known := m :: g.known }
  | .setInstance key m, _, g => { g with seen := .found key m }
  | .addCallback m _, _, g => { g with stage := .using m }
  | .newAdapter spec path, a, g =>
    { g with making := some ⟨a, (spec.host, spec.port), idOf spec path, path, spec.ttl⟩ }
  | .adapter _, x, g => { g with known := x.swapManager.toList ++ g.known }
  | .swapBinary, none, g | .serverBinary, none, g => { g with outside := true }
  | .attach _ m, _, g => { g with stage := .attached m }
  | .serveEnv _, _, g => if g.making.any fun k => badTtl k.ttl then g.giveUp else g
  | .setModel m _ _, _, g => if g.making.isSome then { g with stage := .added m, up := false } else g
  | .hasModel m _, true, g => { g with leaving := .having m }
  | .delModel m _, _, g => { g with leaving := .taking m }
  | .isEmpty m, r, g => { g with leaving := if r then .emptied m else .no }
  | .isRunning m, true, g => { g with up := g.up || g.stage = .added m }
  | .isRunning m, false, g => { g with outside := g.outside || g.spawned = some m, leaving := g.leaving.down m }
  | .spawn m, none, g => { g with up := g.up || g.stage = .added m, spawned := some m }
  | .terminate m, none, g => { g with spawned := none, leaving := g.leaving.down m }
  | .terminate _, some _, g => { g with outside := true }
  | .spawn _, some _, g | .writeConfig _, some _, g | .openLog _, some _, g | .writePid _, some _, g
  | .sighup _, some _, g | .startProxy _, some _, g | .binExists _, false, g | .portInUse _, true, g => g.giveUp
  | .readPid _, some pid, g => if pid < 0 then g.giveUp else g
  | .registerAtexit _, _, g => g.giveUp
  | .popInstance _, _, g => { g with leaving := .no }
  | _, _, g => g

/-- What a deed adds. What was seen of the registry ends with its lock. -/
def note (g : Doing) : Deed swapSig → Doing
  | .act a r => noteAct a r g
  | .lock l => { g with locks := l :: g.locks }
  | .unlock .global => { g with locks := g.locks.erase .global, seen := .nothing }
  | .unlock (.manager m) => { g with locks := g.locks.erase (.manager m), leaving := .no, spawned := none }

/-- A reference is used where it is had. -/
def Knows (g : Doing) : Act → Prop
  | .setInstance key m => m ∈ g.known ∧ g.seen = .made key m
  | .isEmpty m | .attach _ m => m ∈ g.known
  | _ => True

/-- What a thread of an adapter does, and when. -/
def Permits (g : Doing) : Act → Prop
  | .instanceOf key => .global ∈ g.locks ∧ ∀ k, g.making = some k → k.key = key
  | .newManager key _ _ _ => g.seen = .absent key
  | .addCallback m _ => .manager m ∈ g.locks ∧ g.leaving = .no ∧ ∀ k, g.making = some k → g.seen = .found k.key m
  | .attach a m => g.stage = .using m ∧ ∃ k, g.making = some k ∧ k.a = a
  | .setModel m id x => .manager m ∈ g.locks ∧
      ∃ k, g.making = some k ∧ g.stage = .attached m ∧ k.id = id ∧ k.path = x.path
  | .registerAtexit a => g.up = true ∧ ∃ k m, g.making = some k ∧ k.a = a ∧ g.stage = .added m
  | .newAdapter _ _ => g.stage = .idle
  | .hasModel m _ => .manager m ∈ g.locks ∧ g.leaving = .no
  | .delModel m _ => g.leaving = .having m
  | .isEmpty m => g.leaving = .taking m
  | .stopProxy m => g.leaving = .emptied m
  | .isRunning m => g.stage = .added m → .manager m ∈ g.locks
  | .spawn m => .manager m ∈ g.locks ∧ g.leaving = .no
  | .terminate m => .manager m ∈ g.locks
  | .popInstance m => g.leaving = .downed m ∧ .global ∈ g.locks ∧ g.seen = .nothing
  | _ => True

/-- A manager's lock is taken where the manager is known, under the registry's only when it
was found there; the registry's under a manager's only when that one is stopped. -/
def MayLock (g : Doing) : Lock → Prop
  | .global => .global ∉ g.locks ∧ ∀ m, .manager m ∈ g.locks → g.leaving = .downed m
  | .manager m => m ∈ g.known ∧ (.global ∈ g.locks → g.asks = true ∧ g.stage = .idle ∧ ∃ key, g.seen = .found key m)

/-- A manager that is to be stopped is stopped before its lock is released. -/
def MayUnlock (g : Doing) : Lock → Prop
  | .global => True
  | .manager _ => g.outside = false → g.direct = false → ∀ m, g.leaving ≠ .emptied m

def terms : Prog.Terms swapSig Doing where
  act g a := g.Knows a ∧ (g.outside = false → g.direct = false → g.Permits a)
  lock g l := g.MayLock l
  unlock g l := g.MayUnlock l

end Doing

/-! ### Code that keeps to the terms -/

/-- From what its thread has done, the code keeps to the terms, and ends in `Q`, or in `R`
when it raises. -/
abbrev Heeds {α : Type} (Q : Doing → α → Prop) (R : Doing → Prop) (g : Doing) (x : Raising α) : Prop :=
  Prog.Tries (σ := swapSig) Doing.note Doing.terms Q (fun g (_ : String) => R g) g x

section Heeds

variable {α β : Type} {g : Doing} {R : Doing → Prop}

theorem heeds_pure {Q : Doing → α → Prop} {a : α} (h : Q g a) : Heeds Q R g (pure a) := Prog.tries_pure h

theorem heeds_throw {Q : Doing → α → Prop} {e : String} (h : R g) : Heeds Q R g (throw e) := Prog.tries_throw h

theorem heeds_act {a : Act} {Q : Doing → a.Resp → Prop} (hk : g.Knows a)
    (hp : g.outside = false → g.direct = false → g.Permits a) (h : ∀ r, Q (Doing.noteAct a r g) r) :
    Heeds Q R g (liftM (act a) : Raising a.Resp) :=
  Prog.tries_lift (Prog.obeys_call (σ := swapSig) ⟨hk, hp⟩ h)

theorem Heeds.locked {l : Lock} {x : Raising α} {Q Q' : Doing → α → Prop} {R' : Doing → Prop} (hl : g.MayLock l)
    (h : Heeds Q R (g.note (.lock l)) x) (hQ : ∀ g a, Q g a → g.MayUnlock l ∧ Q' (g.note (.unlock l)) a)
    (hR : ∀ g, R g → g.MayUnlock l ∧ R' (g.note (.unlock l))) : Heeds Q' R' g (LanguageModel.locked l x) :=
  Prog.Tries.locked (σ := swapSig) hl h hQ fun g _ hg => hR g hg

/-- An answer that is an error is raised. -/
theorem heeds_raise {p : Code (Option String)} {P : Doing → Option String → Prop} {Q : Doing → Unit → Prop}
    (h : Prog.Obeys (σ := swapSig) Doing.note Doing.terms P g p) (hQ : ∀ g, P g none → Q g ())
    (hR : ∀ g e, P g (some e) → R g) : Heeds Q R g (raise p) :=
  Prog.Tries.bind (Prog.tries_lift h) fun g r hg => match r with
    | none => heeds_pure (hQ g hg)
    | some e => heeds_throw (hR g e hg)

end Heeds

namespace Doing

/-- The thread is where it was. -/
def Same (g g' : Doing) : Prop := g'.toPlace = g.toPlace ∧ (g.up = true → g'.up = true)

theorem Same.refl (g : Doing) : Same g g := ⟨rfl, id⟩

theorem Same.trans {g g' g'' : Doing} (h : Same g g') (h' : Same g' g'') : Same g g'' :=
  ⟨h'.1.trans h.1, fun hup => h'.2 (h.2 hup)⟩

theorem Same.leaving {g g' : Doing} (h : Same g g') (hno : g.leaving = .no) : g'.leaving = .no := by
  rw [h.1]
  exact hno

/-- No manager is left half stopped. -/
def Safe (g : Doing) : Prop := g.outside = false → g.direct = false → ∀ m, g.leaving ≠ .emptied m

/-- In a manager's lock, with no removal under way. -/
structure Ready (m : ℕ) (g : Doing) : Prop where
  known : m ∈ g.known
  inside : .manager m ∈ g.locks
  alone : .global ∉ g.locks
  leaving : g.leaving = .no

theorem Ready.same {m : ℕ} {g g' : Doing} (h : Ready m g) (hs : Same g g') : Ready m g' := by
  obtain ⟨hplace, -⟩ := hs
  refine ⟨?_, ?_, ?_, ?_⟩
  · rw [hplace]; exact h.known
  · rw [hplace]; exact h.inside
  · rw [hplace]; exact h.alone
  · rw [hplace]; exact h.leaving

/-- The actions of a removal. -/
def Removes : Act → Prop
  | .hasModel _ _ | .delModel _ _ | .isEmpty _ => True
  | _ => False

/-- Nothing else begins one. -/
theorem noteAct_leaving {g : Doing} (h : g.leaving = .no) {a : Act} (ha : ¬Removes a) (r : a.Resp) :
    (noteAct a r g).leaving = .no := by
  unfold noteAct
  split <;> try exact h
  all_goals first
    | exact absurd trivial ha
    | exact rfl
    | (split_ifs <;> exact h)
    | simp [Leaving.down, h]

theorem safe_of_no {g : Doing} (h : g.leaving = .no) : Safe g := fun _ _ _ => by
  rw [h]
  simp

end Doing

open Doing

section Quiet

variable {α : Type} {g₀ g : Doing} {m : ℕ} {R : Doing → Prop}

/-- An action that leaves the thread where it is. -/
theorem heeds_quiet (h : Same g₀ g) {a : Act} (hk : g.Knows a) (hp : g.outside = false → g.direct = false → g.Permits a)
    (hn : ∀ r, Same g (noteAct a r g)) : Heeds (fun g _ => Same g₀ g) R g (liftM (act a) : Raising a.Resp) :=
  heeds_act hk hp fun r => h.trans (hn r)

/-- The actions that nothing depends on. -/
def Idle : Act → Prop
  | .manager _ | .cwd | .inspect _ | .endProcess _ | .clearPid _ | .makeProxy _ | .isWindows | .returnCode _
  | .callbacks _ | .deliver _ _ | .removeCallback _ _ | .answersHealth _ | .findModel _ | .startHeartbeat _
  | .endRunning _ | .stopServer _ | .serverRunning _ | .startServer _ => True
  | _ => False

theorem Idle.note {a : Act} (ha : Idle a) (r : a.Resp) (g : Doing) : noteAct a r g = g := by
  cases a <;> first | rfl | exact ha.elim

theorem Idle.allowed {a : Act} (ha : Idle a) (g : Doing) : g.Knows a ∧ g.Permits a := by
  cases a <;> first | exact ⟨trivial, trivial⟩ | exact ha.elim

theorem heeds_idle (h : Same g₀ g) {a : Act} (ha : Idle a) :
    Heeds (fun g _ => Same g₀ g) R g (liftM (act a) : Raising a.Resp) :=
  heeds_act (ha.allowed g).1 (fun _ _ => (ha.allowed g).2) fun r => by rwa [ha.note]

/-- A question whose other answer ends the construction. -/
theorem obeys_asked (h : Same g₀ g) {a : Act} {Q : a.Resp → Prop} (hk : g.Knows a)
    (hp : g.outside = false → g.direct = false → g.Permits a) (hn : ∀ r, Q r → Same g (noteAct a r g))
    (hs : ∀ r, Safe (noteAct a r g)) :
    Prog.Obeys (σ := swapSig) note terms (fun g (r : a.Resp) => (Q r → Same g₀ g) ∧ Safe g) g (act a) :=
  Prog.obeys_call (σ := swapSig) ⟨hk, hp⟩ fun r => ⟨fun hr => h.trans (hn r hr), hs r⟩

/-- An operation whose failure ends the construction. -/
theorem heeds_check {p : Code (Option String)}
    (h : Prog.Obeys (σ := swapSig) note terms (fun g r => (r = none → Same g₀ g) ∧ Safe g) g p) :
    Heeds (fun g _ => Same g₀ g) Safe g (raise p) :=
  heeds_raise h (fun _ hg => hg.1 rfl) fun _ _ hg => hg.2

theorem heeds_reclaim (h : Same g₀ g) (hr : Ready m g₀) :
    Heeds (fun g _ => Same g₀ g) Safe g (reclaimPreviousInstance m) := by
  unfold reclaimPreviousInstance
  have hclear {g : Doing} (h : Same g₀ g) : Heeds (fun g _ => Same g₀ g) Safe g (liftM (act (.clearPid m)) : Raising Unit) :=
    heeds_idle h (a := .clearPid m) trivial
  refine Prog.Tries.bind (Prog.tries_lift (obeys_asked h (a := .readPid m) (Q := fun r => ∀ p, r = some p → ¬p < 0)
    trivial (fun _ _ => trivial) (fun r hgood => ?_) fun r => ?_)) fun g pid hg => ?_
  · cases r with
    | none => exact .refl _
    | some p =>
      simp only [noteAct, if_neg (hgood p rfl)]
      exact .refl _
  · exact safe_of_no (noteAct_leaving (h.leaving hr.leaving) id r)
  · cases pid with
    | none => exact heeds_pure (hg.1 fun p hp => by cases hp)
    | some pid =>
      by_cases hneg : pid < 0
      · simp only [if_pos hneg]
        exact heeds_throw hg.2
      · have h : Same g₀ g := hg.1 fun p hp => Option.some.inj hp ▸ hneg
        simp only [if_neg hneg]
        refine Prog.Tries.bind (heeds_idle h (a := .inspect pid) trivial) fun g info h => ?_
        cases info with
        | gone => exact hclear h
        | denied => exact hclear h
        | found info =>
          refine Prog.Tries.bind (heeds_idle h (a := .manager m) trivial) fun g x h => ?_
          refine Prog.Tries.bind (heeds_idle h (a := .cwd) trivial) fun g cwd h => ?_
          split
          · refine Prog.Tries.bind (heeds_idle h (a := .endProcess pid) trivial)
              fun g ended h => ?_
            cases ended with
            | done => exact hclear h
            | gone => exact hclear h
            | failed => exact heeds_pure h
          · exact hclear h

theorem same_isRunning {g : Doing} (h : g.leaving = .no) (m : ℕ) (r : Bool) : Same g (noteAct (.isRunning m) r g) := by
  cases r with
  | true => exact ⟨rfl, fun hup => by simp [noteAct, hup]⟩
  | false =>
    refine ⟨?_, id⟩
    simp only [noteAct, Leaving.down, h, reduceCtorEq, if_false]
    rw [← h]

/-- The lock of a manager is taken and released again. -/
theorem heeds_lockManager {α : Type} {x : Raising α} (hm : m ∈ g.known) (halone : .global ∉ g.locks) (hno : g.leaving = .no)
    (hx : Heeds (fun g' _ => Same { g with locks := .manager m :: g.locks } g') Safe
      { g with locks := .manager m :: g.locks } x) : Heeds (fun g' _ => Same g g') Safe g (locked (.manager m) x) := by
  refine Heeds.locked ⟨hm, fun hin => absurd hin halone⟩ hx (fun g' _ hs => ?_) fun g' hs => ⟨hs, safe_of_no rfl⟩
  obtain ⟨hplace, hup⟩ := hs
  have hleaving : g'.leaving = .no := by rw [hplace]; exact hno
  refine ⟨safe_of_no hleaving, ?_, hup⟩
  change { g'.toPlace with locks := g'.locks.erase (.manager m), leaving := .no } = _
  rw [hplace]
  simp only [List.erase_cons_head]
  rw [← hno]

theorem heeds_ensureProxy (hm : m ∈ g.known) (halone : .global ∉ g.locks) (hno : g.leaving = .no) :
    Heeds (fun g' _ => Same g g') Safe g (ensureProxy m) := by
  refine heeds_lockManager hm halone hno ?_
  generalize hg' : { g with locks := Lock.manager m :: g.locks } = g'
  have hno : g'.leaving = .no := by rw [← hg']; exact hno
  have hin : Lock.manager m ∈ g'.locks := by rw [← hg']; exact List.mem_cons_self
  refine Prog.Tries.bind (heeds_quiet (.refl _) (a := .isRunning m) trivial (fun _ _ _ => hin)
    fun r => same_isRunning hno m r) fun g r h => ?_
  cases r with
  | false => exact heeds_pure h
  | true =>
    refine Prog.Tries.bind (heeds_idle h (a := .makeProxy m) trivial) fun g _ h => ?_
    refine heeds_check (obeys_asked h (a := .startProxy m) (Q := (· = none)) trivial (fun _ _ => trivial) ?_ ?_)
    · rintro _ rfl
      exact .refl _
    · exact fun r => safe_of_no (noteAct_leaving (h.leaving hno) id r)

/-- What the start of a process needs and does. -/
theorem heeds_start (h : Same g₀ g) (hr : Ready m g₀) :
    Heeds (fun g _ => Same g₀ g ∧ (g₀.stage = .added m → g.up = true)) Safe g (start m) := by
  have hmild {g : Doing} (h : Same g₀ g) {a : Act} (ha : ¬Removes a) (r : a.Resp) : Safe (noteAct a r g) :=
    safe_of_no (noteAct_leaving (h.leaving hr.leaving) ha r)
  unfold start
  refine Prog.Tries.bind (heeds_idle h (a := .manager m) trivial) fun g x h => ?_
  refine Prog.Tries.bind (Prog.tries_lift (obeys_asked h (a := .binExists m) (Q := (· = true)) trivial (fun _ _ => trivial)
    (by rintro _ rfl; exact .refl _) (hmild h id))) fun g there hg => ?_
  cases there with
  | false => exact heeds_throw hg.2
  | true =>
    have h := hg.1 rfl
    refine Prog.Tries.bind (heeds_reclaim h hr) fun g _ h => ?_
    refine Prog.Tries.bind (Prog.tries_lift (obeys_asked h (a := .portInUse m) (Q := (· = false)) trivial
      (fun _ _ => trivial) (by rintro _ rfl; exact .refl _) (hmild h id))) fun g busy hg => ?_
    cases busy with
    | true => exact heeds_throw hg.2
    | false =>
      have h := hg.1 rfl
      refine Prog.Tries.bind (heeds_check (obeys_asked h (a := .openLog m) (Q := (· = none)) trivial (fun _ _ => trivial)
        (by rintro _ rfl; exact .refl _) (hmild h id))) fun g _ h => ?_
      -- the process is started: from here the manager is in service
      refine Prog.Tries.bind (Q := fun g _ => Same g₀ g ∧ (g₀.stage = .added m → g.up = true))
        (heeds_raise (P := fun g r => (r = none → Same g₀ g ∧ (g₀.stage = .added m → g.up = true)) ∧ Safe g)
          (Prog.obeys_call (σ := swapSig) (a := Act.spawn m) ?_ fun r => ⟨?_, hmild h (a := .spawn m) id r⟩) (fun g hg => hg.1 rfl)
          fun g e hg => hg.2) fun g _ hg => ?_
      · exact ⟨trivial, fun _ _ => ⟨(hr.same h).inside, (hr.same h).leaving⟩⟩
      · rintro rfl
        refine ⟨h.trans ⟨rfl, fun hup => by simp [note, noteAct, hup]⟩, fun hstage => ?_⟩
        have hstage' : g.stage = .added m := by rw [h.1]; exact hstage
        simp [note, noteAct, hstage']
      obtain ⟨h, hup⟩ := hg
      refine Prog.Tries.bind (heeds_check (obeys_asked (.refl _) (a := .writePid m) (Q := (· = none)) trivial
        (fun _ _ => trivial) (by rintro _ rfl; exact .refl _) (hmild h id))) fun g' _ h' => ?_
      refine Prog.Tries.bind (heeds_quiet h' (a := .isRunning m) trivial (fun _ _ _ => ((hr.same h).same h').inside) fun r =>
        same_isRunning ((hr.same h).same h').leaving m r) fun g' alive h' => ?_
      have h₁ : Same g₀ g' ∧ (g₀.stage = .added m → g'.up = true) := ⟨h.trans h', fun hs => h'.2 (hup hs)⟩
      cases alive with
      | false =>
        refine Prog.Tries.bind (heeds_idle h₁.1 (a := .clearPid m) trivial) fun g _ h => ?_
        refine Prog.Tries.bind (heeds_idle h (a := .returnCode m) trivial) fun g _ h => ?_
        exact heeds_throw (safe_of_no (h.leaving hr.leaving))
      | true =>
        refine (heeds_ensureProxy (hr.same h₁.1).known (hr.same h₁.1).alone (hr.same h₁.1).leaving).mono (fun g h => ?_) fun _ _ hs => hs
        exact fun hsame => ⟨h₁.1.trans hsame, fun hs => hsame.2 (h₁.2 hs)⟩

/-- What `_stop` does to a removal: the process has ended. -/
theorem heeds_stop (hin : .manager m ∈ g.locks) :
    Heeds (fun g' _ => g'.toPlace = { g.toPlace with leaving := g.leaving.down m } ∧ (g.up = true → g'.up = true))
      (fun g' => g'.outside = true) g (stop m) := by
  unfold stop
  refine Prog.Tries.bind (Q := fun g' (r : Bool) =>
    g'.toPlace = { g.toPlace with leaving := if r then g.leaving else g.leaving.down m } ∧ (g.up = true → g'.up = true))
    (heeds_act (a := .isRunning m) trivial (fun _ _ _ => hin) fun r => ?_) fun g' r hg => ?_
  · cases r with
    | true => exact ⟨rfl, fun hup => by simp [noteAct, hup]⟩
    | false => exact ⟨rfl, id⟩
  · cases r with
    | false => exact heeds_pure hg
    | true =>
      obtain ⟨hplace, hup⟩ := hg
      refine Prog.Tries.bind (Q := fun g' _ =>
        g'.toPlace = { g.toPlace with leaving := g.leaving.down m } ∧ (g.up = true → g'.up = true))
        (heeds_raise (P := fun g' r => (r = none →
            g'.toPlace = { g.toPlace with leaving := g.leaving.down m } ∧ (g.up = true → g'.up = true)) ∧
            (r.isSome → g'.outside = true))
          (Prog.obeys_call (σ := swapSig) (a := Act.terminate m) ?_ fun r => ?_) (fun g hg => hg.1 rfl)
          fun g e hg => hg.2 rfl) fun g' _ hg => ?_
      · refine ⟨trivial, fun _ _ => ?_⟩
        change Lock.manager m ∈ g'.locks
        rw [hplace]
        exact hin
      · cases r with
        | none =>
          refine ⟨fun _ => ⟨?_, hup⟩, fun h => by cases h⟩
          change { g'.toPlace with leaving := g'.leaving.down m } = _
          rw [hplace]
          rfl
        | some e => exact ⟨fun h => (by cases h), fun _ => rfl⟩
      · refine (heeds_idle (.refl _) (a := .clearPid m) trivial).mono (fun g'' _ h => ?_) fun _ _ h => h
        exact ⟨h.1.trans hg.1, fun hu => h.2 (hg.2 hu)⟩

theorem heeds_reload (hr : Ready m g) (hup : g.stage = .added m → g.up = true) :
    Heeds (fun g' _ => Same g g' ∧ (g.stage = .added m → g'.up = true)) Safe g (reload m) := by
  unfold reload
  refine Prog.Tries.bind (heeds_idle (.refl _) (a := .isWindows) trivial) fun g₁ windows h => ?_
  cases windows with
  | true =>
    refine Prog.Tries.bind ((heeds_stop (m := m) (hr.same h).inside).mono (fun g₂ _ h₂ => ?_)
      fun g₂ _ ho => ?_) fun g₂ _ h => heeds_start h hr
    · refine h.trans ⟨?_, h₂.2⟩
      have hno : g₁.leaving = .no := h.leaving hr.leaving
      rw [h₂.1, Leaving.down, hno]
      simp only [reduceCtorEq, if_false]
      rw [← hno]
    · exact fun hf => by rw [ho] at hf; cases hf
  | false =>
    refine (heeds_check (obeys_asked h (a := .sighup m) (Q := (· = none)) trivial (fun _ _ => trivial)
      (by rintro _ rfl; exact .refl _) fun r => safe_of_no (noteAct_leaving (h.leaving hr.leaving) id r))).mono
      (fun g' _ h' => ⟨h', fun hs => h'.2 (hup hs)⟩) fun _ _ hs => hs

end Quiet

/-! ### A model enters and leaves -/

section Models

variable {g : Doing} {m : ℕ} {R : Doing → Prop}

/-- No lock is held, and nothing is under way. -/
structure Doing.Out (g : Doing) : Prop where
  locks : g.locks = []
  seen : g.seen = .nothing
  leaving : g.leaving = .no

theorem Doing.Out.alone (h : g.Out) (l : Lock) : l ∉ g.locks := by
  rw [h.locks]
  exact List.not_mem_nil

theorem Doing.Out.same {g' : Doing} (h : g.Out) (hs : Same g g') : g'.Out := by
  obtain ⟨hplace, -⟩ := hs
  refine ⟨?_, ?_, ?_⟩
  · rw [hplace]; exact h.locks
  · rw [hplace]; exact h.seen
  · rw [hplace]; exact h.leaving

/-- A caller of `add_model`: one without an adapter, or the construction of one that has
the manager. -/
def Doing.Adds (id path : String) (m : ℕ) (g : Doing) : Prop :=
  (g.direct = true ∧ g.making = none) ∨
    ∃ k, g.making = some k ∧ g.stage = .attached m ∧ k.id = id ∧ k.path = path

/-- The model is entered and its manager in service. -/
def Doing.Entered (m : ℕ) (g g' : Doing) : Prop :=
  g'.Out ∧ g'.direct = g.direct ∧ g'.making = g.making ∧ (g.making.isSome → g'.stage = .added m ∧ g'.up = true)

theorem heeds_addModel {id path : String} {args : List String} {env : Dict String String} {ttl : Option ℤ} (ho : g.Out)
    (hm : m ∈ g.known) (ha : badTtl ttl = false → g.Adds id path m) :
    Heeds (fun g' _ => badTtl ttl = false ∧ g.Entered m g') Safe g (addModel m id path args env ttl) := by
  unfold addModel
  have hcode (ha : g.Adds id path m) : Heeds (fun g' _ => g.Entered m g') Safe g
      (locked (.manager m) (putIn m id ⟨path, args, env, ttl.getD MODEL_TTL⟩)) := by
    refine Heeds.locked ⟨hm, fun hin => absurd hin (ho.alone _)⟩ (Q := fun g' _ => Ready m g' ∧ g'.locks = [.manager m] ∧
      g'.seen = .nothing ∧ g'.direct = g.direct ∧ g'.making = g.making ∧ (g.making.isSome → g'.stage = .added m ∧ g'.up = true))
      (R := Safe) ?_ (fun g' _ hg => ?_) fun g' hs => ⟨hs, safe_of_no rfl⟩
    · have hno : g.leaving = .no := ho.leaving
      refine Prog.Tries.bind (Q := fun g' _ => Ready m g' ∧ g'.locks = [.manager m] ∧ g'.seen = .nothing ∧
        g'.direct = g.direct ∧ g'.making = g.making ∧ (g.making.isSome → g'.stage = .added m))
        (heeds_act (a := .setModel m id _) trivial (fun _ hd => ⟨List.mem_cons_self, ?_⟩) fun _ => ?_) fun g₁ _ hg => ?_
      · rcases ha with ⟨hdirect, -⟩ | hk
        · exact absurd (hdirect.symm.trans hd) (by simp)
        · exact hk
      · have hlocks : (g.note (.lock (.manager m))).locks = [.manager m] := by
          change Lock.manager m :: g.locks = _
          rw [ho.locks]
        by_cases hk : g.making.isSome
        · have hnote : noteAct (.setModel m id ⟨path, args, env, ttl.getD MODEL_TTL⟩) () (g.note (.lock (.manager m))) =
              { g.note (.lock (.manager m)) with stage := .added m, up := false } := if_pos hk
          rw [hnote]
          exact ⟨⟨hm, List.mem_cons_self, by rw [hlocks]; simp, hno⟩, hlocks, ho.seen, rfl, rfl, fun _ => rfl⟩
        · have hnote : noteAct (.setModel m id ⟨path, args, env, ttl.getD MODEL_TTL⟩) () (g.note (.lock (.manager m))) = g.note (.lock (.manager m)) := if_neg hk
          rw [hnote]
          exact ⟨⟨hm, List.mem_cons_self, by rw [hlocks]; simp, hno⟩, hlocks, ho.seen, rfl, rfl, fun h => absurd h hk⟩
      · obtain ⟨hr, hlocks, hseen, hdirect, hmaking, hstage⟩ := hg
        have hdone {g' : Doing} (h : Same g₁ g' ∧ (g₁.stage = .added m → g'.up = true)) : Ready m g' ∧
            g'.locks = [.manager m] ∧ g'.seen = .nothing ∧ g'.direct = g.direct ∧ g'.making = g.making ∧
              (g.making.isSome → g'.stage = .added m ∧ g'.up = true) := by
          refine ⟨hr.same h.1, ?_, ?_, ?_, ?_, fun hk => ⟨?_, h.2 (hstage hk)⟩⟩
          · rw [h.1.1]; exact hlocks
          · rw [h.1.1]; exact hseen
          · rw [h.1.1]; exact hdirect
          · rw [h.1.1]; exact hmaking
          · rw [h.1.1]; exact hstage hk
        refine Prog.Tries.bind (heeds_check (obeys_asked (.refl g₁) (a := .writeConfig m) (Q := (· = none)) trivial
          (fun _ _ => trivial) (by rintro _ rfl; exact .refl _) fun r =>
            safe_of_no (noteAct_leaving hr.leaving (a := .writeConfig m) (fun h => h) r))) fun g₂ _ h => ?_
        refine Prog.Tries.bind (Q := fun g' (r : Bool) => Same g₁ g' ∧ (r = true → g₁.stage = .added m → g'.up = true))
          (heeds_act (a := .isRunning m) trivial (fun _ _ _ => (hr.same h).inside) fun r =>
            ⟨h.trans (same_isRunning (hr.same h).leaving m r), ?_⟩) fun g₃ r hg => ?_
        · rintro rfl hs
          have hs' : g₂.stage = .added m := by rw [h.1]; exact hs
          simp [noteAct, hs']
        · obtain ⟨h, hup⟩ := hg
          cases r with
          | true =>
            have hsame : g₃.stage = g₁.stage := by rw [h.1]
            refine (heeds_reload (hr.same h) fun hs => hup rfl (hsame ▸ hs)).mono (fun g' _ h' => ?_) fun _ _ hs => hs
            exact hdone ⟨h.trans h'.1, fun hs => h'.2 (hsame ▸ hs)⟩
          | false => exact (heeds_start h hr).mono (fun g' _ h' => hdone h') fun _ _ hs => hs
    · obtain ⟨hr, hlocks, hseen, hdirect, hmaking, hstage⟩ := hg
      refine ⟨safe_of_no hr.leaving, ⟨?_, hseen, rfl⟩, hdirect, hmaking, hstage⟩
      change g'.locks.erase (.manager m) = []
      rw [hlocks, List.erase_cons_head]
  by_cases hbad : (ttl.any fun t => t < -1) = true
  · rw [if_pos hbad]
    exact heeds_throw (safe_of_no ho.leaving)
  · rw [if_neg hbad]
    have hgood : badTtl ttl = false := Bool.eq_false_iff.mpr hbad
    exact (hcode (ha hgood)).mono (fun _ _ h => ⟨hgood, h⟩) fun _ _ hs => hs

/-- In the lock of a manager, with a removal as far as it is, else where it was. -/
def Doing.At (m : ℕ) (g : Doing) (l : Leaving) (g' : Doing) : Prop :=
  g'.toPlace = { g.toPlace with locks := [.manager m], leaving := l }

theorem Doing.Out.at (ho : g.Out) : g.At m .no (g.note (.lock (.manager m))) := by
  rcases g with ⟨⟨locks, known, asks, direct, making, seen, stage, leaving⟩, up, spawned, outside⟩
  obtain rfl : locks = [] := ho.locks
  obtain rfl : leaving = .no := ho.leaving
  rfl

/-- The deeds of a removal, in order. -/
theorem heeds_takeOut {id : String} {g₀ : Doing} (hg : g₀.At m .no g) (hidle : g₀.stage = .idle) (hseen : g₀.seen = .nothing)
    (hm : m ∈ g₀.known) : Heeds (fun g' _ => ∃ l, g₀.At m l g' ∧ ∀ m, l ≠ .emptied m) Safe g (takeOut m id) := by
  have hin {l : Leaving} {g' : Doing} (h : g₀.At m l g') : Lock.manager m ∈ g'.locks := by
    rw [h]
    exact List.mem_singleton_self _
  have hready {g' : Doing} (h : g₀.At m .no g') : Ready m g' := ⟨by rw [h]; exact hm, hin h, by rw [h]; simp, by rw [h]⟩
  refine Prog.Tries.bind (Q := fun g' (r : Bool) => g₀.At m (if r then .having m else .no) g')
    (heeds_act (a := .hasModel m id) trivial (fun _ _ => ⟨hin hg, by rw [hg]⟩) fun r => ?_) fun g r h => ?_
  · cases r with
    | true =>
      change { g.toPlace with leaving := Leaving.having m } = _
      rw [hg]
      rfl
    | false => exact hg
  cases r with
  | false => exact heeds_pure ⟨.no, h, by simp⟩
  | true =>
    refine Prog.Tries.bind (Q := fun g' _ => g₀.At m (.taking m) g')
      (heeds_act (a := .delModel m id) trivial (fun _ _ => ?_) fun _ => ?_) fun g _ h => ?_
    · change g.leaving = _
      rw [h]
      rfl
    · change { g.toPlace with leaving := Leaving.taking m } = _
      rw [h]
    refine Prog.Tries.bind (Q := fun g' (r : Bool) => g₀.At m (if r then .emptied m else .no) g')
      (heeds_act (a := .isEmpty m) ?_ (fun _ _ => ?_) fun r => ?_) fun g r h => ?_
    · change m ∈ g.known
      rw [h]
      exact hm
    · change g.leaving = _
      rw [h]
    · change { g.toPlace with leaving := if r then Leaving.emptied m else .no } = _
      rw [h]
    cases r with
    | true =>
      refine Prog.Tries.bind (Q := fun g' _ => g₀.At m (.emptied m) g')
        (heeds_act (a := .stopProxy m) trivial (fun _ _ => ?_) fun _ => h) fun g _ h => ?_
      · change g.leaving = _
        rw [h]
        rfl
      refine Prog.Tries.bind (Q := fun g' _ => g₀.At m (.downed m) g') ((heeds_stop (hin h)).mono (fun g' _ h' => ?_)
        fun g' _ hf ho => absurd (hf.symm.trans ho) (by simp)) fun g _ h => ?_
      · rw [Doing.At, h'.1, h]
        simp [Leaving.down]
      refine Prog.Tries.bind (Q := fun g' _ => g₀.At m (.downed m) g')
        (heeds_raise (P := fun g' _ => g₀.At m (.downed m) g')
          (Prog.obeys_call (σ := swapSig) (a := Act.unlinkConfig m) ⟨trivial, fun _ _ => trivial⟩ fun r => ?_)
          (fun _ hg => hg) fun g _ hg _ _ m' => ?_) fun g _ h => ?_
      · cases r with
        | none => exact h
        | some e => exact h
      · rw [hg]
        simp
      -- the registry's lock, under the manager's
      have hmay : g.MayLock .global := by
        refine ⟨?_, fun m' hm' => ?_⟩
        · rw [h]
          simp
        · rw [h] at hm' ⊢
          rw [show m' = m by simpa using hm']
      refine Heeds.locked hmay (Q := fun g' _ => g'.toPlace =
        { g₀.toPlace with locks := [.global, .manager m], leaving := .no }) (R := Safe) ?_ (fun g' _ hg => ⟨trivial, .no, ?_, by simp⟩)
        fun g' hs => ⟨trivial, hs⟩
      · refine heeds_act (a := .popInstance m) trivial (fun _ _ => ⟨?_, List.mem_cons_self, ?_⟩) fun _ => ?_
        · change g.leaving = _
          rw [h]
        · change g.seen = _
          rw [h, hseen]
        · change { g.toPlace with locks := Lock.global :: g.locks, leaving := Leaving.no } = _
          rw [h]
      · change { g'.toPlace with locks := g'.locks.erase .global, seen := Seen.nothing } = _
        rw [hg]
        simp only [List.erase_cons_head]
        rw [← hseen]
    | false =>
      refine Prog.Tries.bind (heeds_check (obeys_asked (.refl g) (a := .writeConfig m) (Q := (· = none)) trivial
        (fun _ _ => trivial) (by rintro _ rfl; exact .refl _) fun r =>
          safe_of_no (noteAct_leaving (hready h).leaving (a := .writeConfig m) (fun h => h) r))) fun g' _ hs => ?_
      refine Prog.Tries.bind (heeds_quiet hs (a := .isRunning m) trivial (fun _ _ _ => ((hready h).same hs).inside) fun r =>
        same_isRunning ((hready h).same hs).leaving m r) fun g' r hs => ?_
      cases r with
      | false => exact heeds_pure ⟨.no, hs.1.trans h, by simp⟩
      | true =>
        have hstage : g'.stage ≠ .added m := by
          rw [hs.1, h, hidle]
          simp
        refine (heeds_reload ((hready h).same hs) fun h => absurd h hstage).mono (fun g'' _ h' => ?_) fun _ _ hs => hs
        exact ⟨.no, h'.1.1.trans (hs.1.trans h), by simp⟩

theorem heeds_removeModel {id : String} (ho : g.Out) (hidle : g.stage = .idle) (hm : m ∈ g.known) :
    Heeds (fun g' _ => g'.Out ∧ g'.direct = g.direct ∧ g'.making = g.making ∧ g'.stage = .idle) Safe g (removeModel m id) := by
  refine Heeds.locked ⟨hm, fun hin => absurd hin (ho.alone _)⟩ (heeds_takeOut ho.at hidle ho.seen hm) (fun g' _ hg => ?_)
    fun g' hs => ⟨hs, safe_of_no rfl⟩
  obtain ⟨l, hat, hne⟩ := hg
  refine ⟨fun _ _ m' => by rw [hat]; exact hne m', ⟨?_, ?_, rfl⟩, ?_, ?_, ?_⟩
  · change g'.locks.erase (.manager m) = []
    rw [hat, List.erase_cons_head]
  · change g'.seen = .nothing
    rw [hat, ho.seen]
  · change g'.direct = _
    rw [hat]
  · change g'.making = _
    rw [hat]
  · change g'.stage = _
    rw [hat, hidle]

/-- What the thread of `get_swap_manager` has seen: it holds the registry's lock and has
found the manager. -/
def Doing.Finds (key : Key) (m : ℕ) (stage : Stage) (g g' : Doing) : Prop :=
  g'.toPlace = { g.toPlace with locks := [.global], known := m :: g.known, seen := .found key m, stage }

/-- What it has seen once it has looked. -/
def Doing.Looked (key : Key) (g g' : Doing) : Option ℕ → Prop
  | some m => g.Finds key m g.stage g'
  | none => g'.toPlace = { g.toPlace with locks := [.global], seen := .absent key }

/-- The manager is found, or made and entered. -/
theorem heeds_lookup {key : Key} {origins : List String} {swapBin serverBin : String} (ho : g.Out)
    (hkey : ∀ k, g.making = some k → k.key = key) :
    Heeds (fun g' m => g.Finds key m g.stage g') Safe (g.note (.lock .global)) (lookup key origins swapBin serverBin) := by
  have hstart : (g.note (.lock .global)).toPlace = { g.toPlace with locks := [.global] } := by
    change { g.toPlace with locks := Lock.global :: g.locks } = _
    rw [ho.locks]
  generalize g.note (.lock .global) = g₁ at hstart
  unfold lookup
  refine Prog.Tries.bind (Q := fun g' r => g.Looked key g' r)
    (heeds_act (a := .instanceOf key) trivial (fun _ _ => ⟨?_, ?_⟩) fun r => ?_) fun g₂ r hg => ?_
  · rw [hstart]
    exact List.mem_singleton_self _
  · rw [hstart]
    exact hkey
  · cases r with
    | some m =>
      change { g₁.toPlace with seen := Seen.found key m, known := m :: g₁.known } = _
      rw [hstart]
    | none =>
      change { g₁.toPlace with seen := Seen.absent key } = _
      rw [hstart]
  cases r with
  | some m => exact heeds_pure hg
  | none =>
    refine Prog.Tries.bind (Q := fun g' (m : ℕ) => g'.toPlace =
        { g.toPlace with locks := [.global], known := m :: g.known, seen := .made key m })
      (heeds_act (a := .newManager key origins swapBin serverBin) trivial (fun _ _ => ?_) fun m => ?_) fun g₃ m hg => ?_
    · change g₂.seen = _
      rw [hg]
    · change { g₂.toPlace with seen := Seen.made key m, known := m :: g₂.known } = _
      rw [hg]
    refine Prog.Tries.bind (Q := fun g' _ => g.Finds key m g.stage g')
      (heeds_act (a := .setInstance key m) ⟨?_, ?_⟩ (fun _ _ => trivial) fun _ => ?_) fun g₄ _ hg => heeds_pure hg
    · rw [hg]
      exact List.mem_cons_self
    · rw [hg]
    · change { g₃.toPlace with seen := Seen.found key m } = _
      rw [hg]

theorem heeds_addTelemetryCallback {key : Key} {cb : ℕ} {g₀ : Doing} (hg : g₀.Finds key m .idle g)
    (hno : g₀.leaving = .no) (hasks : g₀.asks = true) (hkey : ∀ k, g₀.making = some k → k.key = key) :
    Heeds (fun g' _ => g₀.Finds key m (.using m) g') Safe g (addTelemetryCallback m cb) := by
  have hseen : g.seen = .found key m := by rw [hg]
  have hmay : g.MayLock (.manager m) :=
    ⟨by rw [hg]; exact List.mem_cons_self, fun _ => ⟨by rw [hg]; exact hasks, by rw [hg], key, hseen⟩⟩
  refine Heeds.locked hmay (Q := fun g' _ => g'.toPlace =
      { g₀.toPlace with locks := [.manager m, .global], known := m :: g₀.known, seen := .found key m, stage := .using m })
    (R := Safe) (heeds_act (a := .addCallback m cb) trivial (fun _ _ => ⟨List.mem_cons_self, ?_, fun k hk => ?_⟩) fun _ => ?_)
    (fun g' _ hg' => ?_) fun g' hs => ⟨hs, safe_of_no rfl⟩
  · change g.leaving = _
    rw [hg, hno]
  · have hk' : g₀.making = some k := by
      have hmaking : g.making = g₀.making := by rw [hg]
      rw [← hmaking]
      exact hk
    rw [hkey k hk']
    exact hseen
  · change { g.toPlace with locks := Lock.manager m :: g.locks, stage := Stage.using m } = _
    rw [hg]
  · refine ⟨safe_of_no (by rw [hg']; exact hno), ?_⟩
    change { g'.toPlace with locks := g'.locks.erase (.manager m), leaving := Leaving.no } = _
    rw [hg']
    simp only [List.erase_cons_head]
    rw [← hno]

/-- The manager a caller gets. -/
def Doing.Got (m : ℕ) (g g' : Doing) : Prop :=
  g'.Out ∧ g'.direct = g.direct ∧ g'.making = g.making ∧ m ∈ g'.known ∧ (g.making.isSome → g'.stage = .using m)

theorem heeds_getSwapManager {key : Key} {origins : List String} {swapBin serverBin : String} {cb : Option ℕ} (ho : g.Out)
    (hidle : g.stage = .idle) (hasks : cb.isSome → g.asks = true) (hkey : ∀ k, g.making = some k → k.key = key ∧ cb.isSome) :
    Heeds (fun g' m => g.Got m g') Safe g (getSwapManager key origins swapBin serverBin cb) := by
  have hmay : g.MayLock .global := ⟨ho.alone _, fun m hm => absurd hm (ho.alone _)⟩
  refine Heeds.locked hmay (Q := fun g' m => ∃ stage, g.Finds key m stage g' ∧ (g.making.isSome → stage = .using m))
    (R := Safe) ?_ (fun g' m hg => ⟨trivial, ?_⟩) fun g' hs => ⟨trivial, hs⟩
  · refine Prog.Tries.bind (heeds_lookup ho fun k hk => (hkey k hk).1) fun g₁ m hg => ?_
    rw [hidle] at hg
    cases cb with
    | none =>
      refine heeds_pure ⟨_, hg, fun hk => ?_⟩
      obtain ⟨k, hk⟩ := Option.isSome_iff_exists.mp hk
      cases (hkey k hk).2
    | some cb =>
      refine Prog.Tries.bind (heeds_addTelemetryCallback hg ho.leaving (hasks rfl) fun k hk => (hkey k hk).1)
        fun g₂ _ hg => ?_
      exact heeds_pure ⟨_, hg, fun _ => rfl⟩
  · obtain ⟨stage, hg, hstage⟩ := hg
    refine ⟨⟨?_, rfl, ?_⟩, ?_, ?_, ?_, fun hk => ?_⟩
    · change g'.locks.erase .global = []
      rw [hg, List.erase_cons_head]
    · change g'.leaving = _
      rw [hg, ho.leaving]
    · change g'.direct = _
      rw [hg]
    · change g'.making = _
      rw [hg]
    · change m ∈ g'.known
      rw [hg]
      exact List.mem_cons_self
    · change g'.stage = _
      rw [hg, hstage hk]

/-- A callback is taken out, or the callbacks are read. -/
theorem heeds_inLock {a : Act} (ho : g.Out) (hm : m ∈ g.known) (ha : Idle a) :
    Heeds (fun g' _ => Same g g') Safe g (locked (.manager m) (act a)) :=
  heeds_lockManager hm (ho.alone _) ho.leaving (heeds_idle (.refl _) ha)

theorem heeds_isHealthy (hidle : g.stage = .idle) (hno : g.leaving = .no) :
    Heeds (fun g' _ => Same g g') R g (isHealthy m) := by
  unfold isHealthy
  refine Prog.Tries.bind (heeds_quiet (.refl g) (a := .isRunning m) trivial (fun _ _ h => ?_) fun r =>
    same_isRunning hno m r) fun g' r h => ?_
  · rw [hidle] at h
    cases h
  cases r with
  | true => exact heeds_idle h (a := .answersHealth m) trivial
  | false => exact heeds_pure h

end Models

/-! ### The threads -/

section Threads

variable {g : Doing}

/-- A thread at its start. -/
structure Doing.Starts (g : Doing) : Prop extends g.Out where
  making : g.making = none
  stage : g.stage = .idle

theorem Doing.Starts.same {g' : Doing} (h : g.Starts) (hs : Same g g') : g'.Starts := by
  refine ⟨h.toOut.same hs, ?_, ?_⟩
  · rw [hs.1]; exact h.making
  · rw [hs.1]; exact h.stage

/-- A construction that is done: its model is entered, or it has a server of its own. -/
def Doing.Serves (a : ℕ) (g : Doing) : Prop :=
  g.outside = true ∨ (g.up = true ∧ ∃ k m, g.making = some k ∧ k.a = a ∧ g.stage = .added m)

theorem heeds_engines {g : Doing} :
    Heeds (fun g' r => g'.toPlace = g.toPlace ∧ (r = none → g'.outside = true)) Safe g engines := by
  have hask {g : Doing} {a : Act} (ha : a = .swapBinary ∨ a = .serverBinary) (r : a.Resp) :
      (noteAct a r g).toPlace = g.toPlace := by
    rcases ha with rfl | rfl
    · cases r <;> rfl
    · cases r <;> rfl
  unfold engines
  refine Prog.Tries.bind (Q := fun g' (r : Option String) => g'.toPlace = g.toPlace ∧ (r = none → g'.outside = true))
    (heeds_act (a := .swapBinary) trivial (fun _ _ => trivial) fun r => ⟨hask (.inl rfl) r, ?_⟩) fun g₁ r hg => ?_
  · rintro rfl
    rfl
  cases r with
  | none => exact heeds_pure ⟨hg.1, fun _ => hg.2 rfl⟩
  | some swapBin =>
    refine Prog.Tries.bind (Q := fun g' (r : Option String) => g'.toPlace = g.toPlace ∧ (r = none → g'.outside = true))
      (heeds_act (a := .serverBinary) trivial (fun _ _ => trivial) fun r => ⟨(hask (.inr rfl) r).trans hg.1, ?_⟩)
      fun g₂ r hg => ?_
    · rintro rfl
      rfl
    cases r with
    | none => exact heeds_pure ⟨hg.1, fun _ => hg.2 rfl⟩
    | some serverBin => exact heeds_pure ⟨hg.1, fun h => by cases h⟩

theorem heeds_serve {a : ℕ} {spec : Spec} {path : String} (ho : g.Out) (hidle : g.stage = .idle) (hasks : g.asks = true)
    (hk : g.making = some ⟨a, (spec.host, spec.port), idOf spec path, path, spec.ttl⟩) :
    Heeds (fun g' _ => g'.Out ∧ g'.Serves a) Safe g (serve a spec path) := by
  unfold serve
  refine Prog.Tries.bind heeds_engines fun g₁ r hg => ?_
  have ho₁ : g₁.Out := ⟨by rw [hg.1]; exact ho.locks, by rw [hg.1]; exact ho.seen, by rw [hg.1]; exact ho.leaving⟩
  have hk₁ : g₁.making = some ⟨a, (spec.host, spec.port), idOf spec path, path, spec.ttl⟩ := by rw [hg.1]; exact hk
  cases r with
  | none =>
    refine heeds_raise (P := fun g' _ => g'.Out ∧ g'.Serves a) (Prog.obeys_call (σ := swapSig) (a := Act.startServer a)
      ⟨trivial, fun _ _ => trivial⟩ fun r => ?_) (fun _ hg => hg) fun _ _ hg => safe_of_no hg.1.leaving
    change (noteAct (.startServer a) r g₁).Out ∧ _
    exact ⟨ho₁, .inl (hg.2 rfl)⟩
  | some engines =>
    obtain ⟨swapBin, serverBin⟩ := engines
    refine Prog.Tries.bind (heeds_getSwapManager ho₁ (by rw [hg.1]; exact hidle) (fun _ => by rw [hg.1]; exact hasks)
      fun k h => ⟨?_, rfl⟩) fun g₂ m hg => ?_
    · rw [hk₁, Option.some.injEq] at h
      rw [← h]
    obtain ⟨ho₂, -, hk₂, hm, hstage⟩ := hg
    have hstage : g₂.stage = .using m := hstage (by rw [hk₁]; rfl)
    rw [hk₁] at hk₂
    refine Prog.Tries.bind (Q := fun g' _ => g'.Out ∧ m ∈ g'.known ∧
        g'.making = some ⟨a, (spec.host, spec.port), idOf spec path, path, spec.ttl⟩ ∧ g'.stage = .attached m)
      (heeds_act (a := .attach a m) hm (fun _ _ => ⟨hstage, _, hk₂, rfl⟩) fun _ =>
        ⟨⟨ho₂.locks, ho₂.seen, ho₂.leaving⟩, hm, hk₂, rfl⟩) fun g₃ _ hg => ?_
    obtain ⟨ho₃, hm₃, hk₃, hstage₃⟩ := hg
    refine Prog.Tries.bind (Q := fun g' _ => g'.Out ∧ m ∈ g'.known ∧ (badTtl spec.ttl = false →
        g'.making = some ⟨a, (spec.host, spec.port), idOf spec path, path, spec.ttl⟩ ∧ g'.stage = .attached m))
      (heeds_act (a := .serveEnv serverBin) trivial (fun _ _ => trivial) fun env => ?_) fun g₄ env hg => ?_
    · by_cases hbad : badTtl spec.ttl = true
      · have hnote : noteAct (.serveEnv serverBin) env g₃ = g₃.giveUp := by
          simp [noteAct, hk₃, hbad]
        rw [hnote]
        exact ⟨⟨ho₃.locks, ho₃.seen, ho₃.leaving⟩, hm₃, fun hf => absurd (hbad.symm.trans hf) (by simp)⟩
      · have hnote : noteAct (.serveEnv serverBin) env g₃ = g₃ := by
          simp [noteAct, hk₃, hbad]
        rw [hnote]
        exact ⟨ho₃, hm₃, fun _ => ⟨hk₃, hstage₃⟩⟩
    · obtain ⟨ho₄, hm₄, hgood₄⟩ := hg
      refine (heeds_addModel ho₄ hm₄ fun hgood => .inr ⟨_, (hgood₄ hgood).1, (hgood₄ hgood).2, rfl, rfl⟩).mono
        (fun g₅ _ h => ?_) fun _ _ hs => hs
      obtain ⟨hgood, ho₅, -, hk₅, hup⟩ := h
      have hk₄ := (hgood₄ hgood).1
      obtain ⟨hstage₅, hup⟩ := hup (by rw [hk₄]; rfl)
      exact ⟨ho₅, .inr ⟨hup, _, m, hk₅.trans hk₄, rfl, hstage₅⟩⟩

theorem heeds_create {spec : Spec} (hg : g.Starts) (hasks : g.asks = true) :
    Heeds (fun _ _ => True) (fun _ => True) g (create spec) := by
  unfold create
  refine Prog.Tries.bind (heeds_idle (.refl g) (a := .findModel spec.modelPath) trivial) fun g₁ r h => ?_
  have hg₁ := hg.same h
  cases r with
  | none => exact heeds_throw trivial
  | some path =>
    refine Prog.Tries.bind (Q := fun g' (a : ℕ) => g'.Out ∧ g'.stage = .idle ∧ g'.asks = true ∧
        g'.making = some ⟨a, (spec.host, spec.port), idOf spec path, path, spec.ttl⟩)
      (heeds_act (a := .newAdapter spec path) trivial (fun _ _ => hg₁.stage) fun a =>
        ⟨⟨hg₁.locks, hg₁.seen, hg₁.leaving⟩, hg₁.stage, ?_, rfl⟩) fun g₂ a hg => ?_
    · change g₁.asks = true
      rw [h.1]
      exact hasks
    obtain ⟨ho, hidle, hasks, hk⟩ := hg
    refine Prog.Tries.bind ((heeds_serve ho hidle hasks hk).mono (fun _ _ h => h.2) fun _ _ _ => trivial) fun g₃ _ hs => ?_
    refine Prog.Tries.bind (Q := fun g' _ => g'.Serves a)
      (heeds_act (a := .startHeartbeat a) trivial (fun _ _ => trivial) fun _ => hs) fun g₄ _ hs => ?_
    refine heeds_act (a := .registerAtexit a) trivial (fun ho _ => ?_) fun _ => trivial
    rcases hs with hout | hs
    · exact absurd (hout.symm.trans ho) (by simp)
    · exact hs

/-- What is read of an adapter gives its manager. -/
theorem known_adapter {a m : ℕ} {x : Adapter} (hm : x.swapManager = some m) : m ∈ (noteAct (.adapter a) x g).known := by
  change m ∈ x.swapManager.toList ++ g.known
  rw [hm]
  exact List.mem_cons_self

theorem heeds_stopAdapter {a : ℕ} (hg : g.Starts) : Heeds (fun _ _ => True) (fun _ => True) g (stopAdapter a) := by
  unfold stopAdapter
  refine Prog.Tries.bind (heeds_idle (.refl g) (a := .endRunning a) trivial) fun g₁ _ h => ?_
  have hg₁ := hg.same h
  refine Prog.Tries.bind (Q := fun g' (x : Adapter) => g'.Starts ∧ ∀ m, x.swapManager = some m → m ∈ g'.known)
    (heeds_act (a := .adapter a) trivial (fun _ _ => trivial) fun x => ⟨⟨⟨hg₁.locks, hg₁.seen, hg₁.leaving⟩, hg₁.making,
      hg₁.stage⟩, fun m hm => known_adapter hm⟩) fun g₂ x hg => ?_
  obtain ⟨hg₂, hknown⟩ := hg
  have hend {g : Doing} : Heeds (fun _ _ => True) (fun _ => True) g
      (if x.server then (act (.stopServer a) : Raising Unit) else pure ()) := by
    split_ifs
    · exact heeds_act (a := .stopServer a) trivial (fun _ _ => trivial) fun _ => trivial
    · exact heeds_pure trivial
  cases hm : x.swapManager with
  | none => exact hend
  | some m =>
    refine Prog.Tries.bind ((heeds_inLock hg₂.toOut (hknown m hm) (a := .removeCallback m a) trivial).mono (fun _ _ h => h)
      fun _ _ _ => trivial) fun g₃ _ h => ?_
    have hknown' : m ∈ g₃.known := by
      rw [h.1]
      exact hknown m hm
    have hg₃ := hg₂.same h
    exact Prog.Tries.bind ((heeds_removeModel hg₃.toOut hg₃.stage hknown').mono (fun _ _ _ => trivial) fun _ _ _ => trivial)
      fun _ _ (_ : True) => hend

theorem heeds_heartbeat {a : ℕ} (hg : g.Starts) : Heeds (fun _ _ => True) (fun _ => True) g (heartbeat a) := by
  unfold heartbeat
  refine Prog.Tries.bind (Q := fun g' (x : Adapter) => g'.Starts ∧ ∀ m, x.swapManager = some m → m ∈ g'.known)
    (heeds_act (a := .adapter a) trivial (fun _ _ => trivial) fun x =>
      ⟨⟨⟨hg.locks, hg.seen, hg.leaving⟩, hg.making, hg.stage⟩, fun m hm => known_adapter hm⟩) fun g₁ x hg => ?_
  obtain ⟨hg, hknown⟩ := hg
  cases x.running with
  | false => exact heeds_pure trivial
  | true =>
    cases hm : x.swapManager with
    | some m =>
      refine Prog.Tries.bind (heeds_isHealthy hg.stage hg.leaving) fun g₂ r h => ?_
      have hg₂ := hg.same h
      cases r with
      | true =>
        have hknown₂ : m ∈ g₂.known := by
          rw [h.1]
          exact hknown m hm
        exact (heeds_ensureProxy hknown₂ (hg₂.toOut.alone _) hg₂.leaving).mono (fun _ _ _ => trivial) fun _ _ _ => trivial
      | false => exact heeds_pure trivial
    | none =>
      cases x.server with
      | false => exact heeds_pure trivial
      | true =>
        refine Prog.Tries.bind (Q := fun _ _ => True)
          (heeds_act (a := .serverRunning a) trivial (fun _ _ => trivial) fun _ => trivial) fun g₂ r _ => ?_
        cases r with
        | true => exact heeds_pure trivial
        | false => exact heeds_act (a := .endRunning a) trivial (fun _ _ => trivial) fun _ => trivial

theorem heeds_shutdown {m : ℕ} (hg : g.Starts) (hm : m ∈ g.known) (hd : g.direct = true) :
    Heeds (fun _ _ => True) (fun _ => True) g (shutdown m) := by
  unfold shutdown
  refine Prog.Tries.bind (Heeds.locked ⟨hm, fun hin => absurd hin (hg.toOut.alone _)⟩
    (Q := fun g' _ => g'.toPlace = { g.toPlace with locks := [.manager m] }) (R := fun g' => g'.outside = true) ?_
    (fun g' _ h => ⟨fun _ _ => ?_, ?_⟩) fun g' h => ⟨fun hf => absurd (h.symm.trans hf) (by simp), trivial⟩)
    fun g' _ (h : g'.locks = [] ∧ g'.direct = true) => ?_
  · have hat : (g.note (.lock (.manager m))).toPlace = { g.toPlace with locks := [.manager m] } := by
      change { g.toPlace with locks := Lock.manager m :: g.locks } = _
      rw [hg.locks]
    refine Prog.Tries.bind (Q := fun g' _ => g'.toPlace = { g.toPlace with locks := [.manager m] })
      (heeds_act (a := .stopProxy m) trivial (fun _ hf => absurd (hd.symm.trans hf) (by simp)) fun _ => hat) fun g' _ h => ?_
    refine (heeds_stop (by rw [h]; exact List.mem_singleton_self _)).mono (fun g'' _ h' => ?_) fun _ _ h => h
    rw [h'.1, h, hg.leaving]
    simp only [Leaving.down, reduceCtorEq, if_false]
    rw [← hg.leaving]
  · rw [h, hg.leaving]
    simp
  · refine ⟨?_, ?_⟩
    · change g'.locks.erase (.manager m) = []
      rw [h, List.erase_cons_head]
    · change g'.direct = true
      rw [h, hd]
  · obtain ⟨hlocks, hd'⟩ := h
    have hmay : g'.MayLock .global := by
      refine ⟨?_, fun m' hm' => ?_⟩
      · rw [hlocks]
        simp
      · rw [hlocks] at hm'
        cases hm'
    exact Heeds.locked hmay (Q := fun _ _ => True) (R := fun _ => True)
      (heeds_act (a := .popInstance m) trivial (fun _ hf => absurd (hd'.symm.trans hf) (by simp)) fun _ => trivial)
      (fun _ _ _ => ⟨trivial, trivial⟩) fun _ _ => ⟨trivial, trivial⟩

theorem heeds_fanoutTelemetry {m : ℕ} {record : Json} (hg : g.Starts) (hm : m ∈ g.known) :
    Heeds (fun _ _ => True) (fun _ => True) g (fanoutTelemetry m record) := by
  have hall : ∀ (l : List ℕ) (g : Doing), Heeds (fun _ _ => True) (fun _ => True) g
      (l.forM fun cb => (act (.deliver cb record) : Raising Unit)) := by
    intro l
    induction l with
    | nil => exact fun _ => heeds_pure trivial
    | cons cb l ih =>
      intro g
      refine Prog.Tries.bind (Q := fun _ _ => True)
        (heeds_act (a := .deliver cb record) trivial (fun _ _ => trivial) fun _ => trivial) fun g' _ _ => ih g'
  refine Prog.Tries.bind ((heeds_inLock hg.toOut hm (a := .callbacks m) trivial).mono (fun _ _ h => h)
    fun _ _ _ => trivial) fun g' l _ => hall l g'

/-- What a thread starts with. -/
def born : Entry → Plugin → Doing
  | .getSwapManager _ _ _ _ cb, _ => { asks := cb.isSome, direct := true }
  | .addModel m _ _ _ _ _, _ | .removeModel m _, _ | .shutdown m, _ | .removeTelemetryCallback m _, _
  | .fanoutTelemetry m _, _ => { direct := true, known := [m] }
  | .create _, _ => { asks := true }
  | .stop _, _ | .heartbeat _, _ => {}

theorem born_starts (x : Entry) (s : Plugin) : (born x s).Starts := by
  cases x <;> exact ⟨⟨rfl, rfl, rfl⟩, rfl, rfl⟩

/-- The code of every thread keeps to the terms. -/
theorem obeys_enter {x : Entry} {s s' : Plugin} {p : Code Unit} (h : enter x s = some (p, s')) :
    s' = s ∧ Prog.Obeys (σ := swapSig) note terms (fun _ _ => True) (born x s) p := by
  have hthread {α : Type} {x : Raising α} {g : Doing} {Q : Doing → α → Prop} {R : Doing → Prop} (h : Heeds Q R g x) :
      Prog.Obeys (σ := swapSig) note terms (fun _ _ => True) g (thread x) :=
    Prog.Obeys.bind h fun _ _ _ => .ret trivial
  have hs := born_starts x s
  cases x with
  | getSwapManager key origins swapBin serverBin cb =>
    obtain ⟨rfl, rfl⟩ := Prod.mk.inj (Option.some.inj h)
    exact ⟨rfl, hthread (heeds_getSwapManager hs.toOut hs.stage id fun k hk => by cases hk)⟩
  | create spec =>
    obtain ⟨rfl, rfl⟩ := Prod.mk.inj (Option.some.inj h)
    exact ⟨rfl, hthread (heeds_create hs rfl)⟩
  | addModel m id path args env ttl =>
    obtain ⟨-, h⟩ := Option.ite_none_right_eq_some.mp h
    obtain ⟨rfl, rfl⟩ := Prod.mk.inj (Option.some.inj h)
    exact ⟨rfl, hthread (heeds_addModel hs.toOut (List.mem_singleton_self m) fun _ => .inl ⟨rfl, rfl⟩)⟩
  | removeModel m id =>
    obtain ⟨-, h⟩ := Option.ite_none_right_eq_some.mp h
    obtain ⟨rfl, rfl⟩ := Prod.mk.inj (Option.some.inj h)
    exact ⟨rfl, hthread (heeds_removeModel hs.toOut hs.stage (List.mem_singleton_self m))⟩
  | shutdown m =>
    obtain ⟨-, h⟩ := Option.ite_none_right_eq_some.mp h
    obtain ⟨rfl, rfl⟩ := Prod.mk.inj (Option.some.inj h)
    exact ⟨rfl, hthread (heeds_shutdown hs (List.mem_singleton_self m) rfl)⟩
  | removeTelemetryCallback m cb =>
    obtain ⟨-, h⟩ := Option.ite_none_right_eq_some.mp h
    obtain ⟨rfl, rfl⟩ := Prod.mk.inj (Option.some.inj h)
    exact ⟨rfl, hthread (heeds_inLock hs.toOut (List.mem_singleton_self m) (a := .removeCallback m cb) trivial)⟩
  | fanoutTelemetry m record =>
    obtain ⟨-, h⟩ := Option.ite_none_right_eq_some.mp h
    obtain ⟨rfl, rfl⟩ := Prod.mk.inj (Option.some.inj h)
    exact ⟨rfl, hthread (heeds_fanoutTelemetry hs (List.mem_singleton_self m))⟩
  | stop a =>
    obtain ⟨-, h⟩ := Option.ite_none_right_eq_some.mp h
    obtain ⟨rfl, rfl⟩ := Prod.mk.inj (Option.some.inj h)
    exact ⟨rfl, hthread (heeds_stopAdapter hs)⟩
  | heartbeat a =>
    obtain ⟨-, h⟩ := Option.ite_none_right_eq_some.mp h
    obtain ⟨rfl, rfl⟩ := Prod.mk.inj (Option.some.inj h)
    exact ⟨rfl, hthread (heeds_heartbeat hs)⟩

end Threads

end LanguageModel
end LocaiLink
