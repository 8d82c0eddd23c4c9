/-
# What becomes of a report

A report is handed on or counted as dropped exactly if one of the handlers it passes took it
while it could: its emit found the stop event not set and a template it could format, and
put the record where the queue was full, or where the worker had not yet looked for the last
time (`report_kept_iff`). A report that comes while the handlers are replaced is lost, though
the config before and the one after have a template for it (`report_lost`).
-/
import LocaiLink.Base.LockOrder
import LocaiLink.Utils.Logger

namespace LocaiLink
namespace Logger

open Machine

/-! ### Where a thread is -/

/-- Of a report: it passes the handlers, it has found a queue full, its call has returned. -/
inductive Passing | passing | owes | done
  deriving DecidableEq

/-- Of a worker: it goes to its queue, it has got something there, it has ended. -/
inductive Working
  | idle
  | got (x : Item)
  | done

def Working.item : Working → Option Item
  | .got x => some x
  | _ => none

/-- The thread of a report, of a handler's worker, or another one. -/
inductive At
  | report (record : ℕ) (phase : Passing)
  | worker (h : ℕ) (phase : Working)
  | other

namespace At

def noteAct : (a : Act) → a.Resp → At → At
  | .put _ _, taken, .report m _ => .report m (if taken then .passing else .owes)
  | .countDropped _ _, _, .report m _ => .report m .passing
  | .returned _, _, .report m _ => .report m .done
  | .get _, x, .worker h _ => .worker h (x.elim .idle .got)
  | .getNowait _, x, .worker h _ => .worker h (x.elim .done .got)
  | .transport _ _, _, .worker h _ => .worker h .idle
  | _, _, g => g

def note (g : At) : Deed logSig → At
  | .act a r => noteAct a r g
  | .lock _ | .unlock _ => g

/-- Who queues, who counts, who goes to a queue and who hands on. -/
def Permits (g : At) : Act → Prop
  | .put _ x => g = .report x.record .passing
  | .countDropped _ m => g = .report m .owes
  | .returned m => g = .report m .passing
  | .get h | .getNowait h => g = .worker h .idle
  | .transport h x => g = .worker h (.got x)
  | _ => True

end At

open At

/-- From there the code keeps to that, and ends in `Q`. -/
abbrev Keeps {α : Type} (Q : At → α → Prop) (g : At) (p : Code α) : Prop :=
  Prog.Follows (σ := logSig) note Permits Q g p

/-- What changes nothing for a record. -/
def Plain : Act → Prop
  | .put _ _ | .countDropped _ _ | .returned _ | .get _ | .getNowait _ | .transport _ _ => False
  | _ => True

section Keeps

variable {py : Py} {zenoh : Bool} {g : At}

theorem noteAct_plain {a : Act} (h : Plain a) (r : a.Resp) (g : At) : noteAct a r g = g := by
  cases a <;> first | rfl | exact h.elim

theorem permits_plain {a : Act} (h : Plain a) (g : At) : g.Permits a := by
  cases a <;> trivial

theorem keeps_act {a : Act} {Q : At → a.Resp → Prop} (hP : g.Permits a) (hQ : ∀ r, Q (noteAct a r g) r) :
    Keeps Q g (act a) :=
  Prog.follows_call (σ := logSig) hP hQ

theorem keeps_plain {a : Act} (h : Plain a) : Keeps (fun g' _ => g' = g) g (act a) :=
  keeps_act (permits_plain h g) fun r => noteAct_plain h r g

theorem keeps_pure {α : Type} {Q : At → α → Prop} {a : α} (h : Q g a) : Keeps Q g (pure a : Code α) := .ret h

theorem Keeps.locked {α : Type} {Q : At → α → Prop} {l : Lock} {p : Code α} (h : Keeps Q g p) : Keeps Q g (locked l p) :=
  Prog.Follows.locked h fun _ _ hg => hg

/-- Code that does nothing but what is plain. -/
theorem keeps_only {α : Type} {p : Code α} (hp : Prog.Only (σ := logSig) Plain p) : Keeps (fun g' _ => g' = g) g p :=
  hp.follows (K := fun g' => g' = g) (fun g' _ ha _ => permits_plain ha g')
    (fun g' _ r ha hg => (noteAct_plain ha r g').trans hg) (fun _ _ hg => hg) (fun _ _ hg => hg) rfl

/-! What the threads do -/

theorem keeps_emit {n : ℕ} {r : LogRecord} {h : ℕ} {templates : Dict String String} :
    Keeps (fun g _ => g = .report n .passing) (.report n .passing) (emit py n r h templates) := by
  refine Prog.Follows.bind (Q := fun g _ => g = .report n .passing) (keeps_plain (a := .isStopped h) trivial) fun g stopped hg => ?_
  subst hg
  cases stopped with
  | true => exact keeps_pure rfl
  | false =>
    simp only [Bool.false_eq_true, if_false]
    split_ifs
    · exact keeps_pure rfl
    · unfold emitTo
      split
      · exact keeps_pure rfl
      · rename_i target _
        refine Prog.Follows.bind (Q := fun g (taken : Bool) => g = .report n (if taken then .passing else .owes))
          (keeps_act (a := .put h ⟨n, target, r.msg, r.routeKey⟩) rfl fun _ => rfl) fun g taken hg => ?_
        subst hg
        cases taken with
        | true => exact keeps_pure rfl
        | false => exact Keeps.locked (keeps_act (a := .countDropped h n) rfl fun _ => rfl)

theorem keeps_handle {n : ℕ} {r : LogRecord} {h : ℕ} :
    Keeps (fun g _ => g = .report n .passing) (.report n .passing) (handle py n r h) := by
  refine Prog.Follows.bind (Q := fun g _ => g = .report n .passing) (keeps_plain (a := .made h) trivial) fun g made hg => ?_
  subst hg
  split_ifs
  · exact keeps_pure rfl
  · exact Keeps.locked (keeps_pure rfl)
  · exact Keeps.locked keeps_emit

theorem keeps_callHandlers {n : ℕ} {r : LogRecord} : ∀ visits i : ℕ,
    Keeps (fun _ _ => True) (.report n .passing) (callHandlers py n r visits i)
  | 0, _ => keeps_pure trivial
  | visits + 1, i => by
    refine Prog.Follows.bind (Q := fun g _ => g = .report n .passing) (keeps_plain (a := .handlerAt i) trivial) fun g h hg => ?_
    subst hg
    cases h with
    | none => exact keeps_act (a := .returned n) rfl fun _ => trivial
    | some h =>
      refine Prog.Follows.bind (Q := fun g _ => g = .report n .passing) keeps_handle fun g _ hg => ?_
      subst hg
      exact keeps_callHandlers visits (i + 1)

theorem keeps_drain {h : ℕ} : ∀ rounds : ℕ, Keeps (fun _ _ => True) (.worker h .idle) (drain h rounds)
  | 0 => keeps_pure trivial
  | rounds + 1 => by
    refine Prog.Follows.bind (Q := fun g (x : Option Item) => g = .worker h (x.elim .done .got))
      (keeps_act (a := .getNowait h) rfl fun _ => rfl) fun g x hg => ?_
    subst hg
    cases x with
    | none => exact keeps_pure trivial
    | some x =>
      refine Prog.Follows.bind (Q := fun g _ => g = .worker h .idle) (keeps_act (a := .transport h x) rfl fun _ => rfl)
        fun g _ hg => ?_
      subst hg
      exact keeps_drain rounds

theorem keeps_workerLoop {h : ℕ} : ∀ rounds : ℕ, Keeps (fun _ _ => True) (.worker h .idle) (workerLoop h rounds)
  | 0 => keeps_pure trivial
  | rounds + 1 => by
    refine Prog.Follows.bind (Q := fun g _ => g = .worker h .idle) (keeps_plain (a := .isStopped h) trivial) fun g stopped hg => ?_
    subst hg
    cases stopped with
    | true => exact keeps_drain rounds
    | false =>
      refine Prog.Follows.bind (Q := fun g (x : Option Item) => g = .worker h (x.elim .idle .got))
        (keeps_act (a := .get h) rfl fun _ => rfl) fun g x hg => ?_
      subst hg
      cases x with
      | none => exact keeps_workerLoop rounds
      | some x =>
        refine Prog.Follows.bind (Q := fun g _ => g = .worker h .idle) (keeps_act (a := .transport h x) rfl fun _ => rfl)
          fun g _ hg => ?_
        subst hg
        exact keeps_workerLoop rounds

theorem only_act {a : Act} (h : Plain a) : Prog.Only (σ := logSig) Plain (act a) := (Prog.only_call (σ := logSig) a).mpr h

theorem only_attach {name : Name} {kind : Kind} {args : Dict String Json} {level : Option ℕ} :
    Prog.Only (σ := logSig) Plain (attach name kind args level) := by
  refine Prog.Only.bind (only_act trivial) fun h => ?_
  cases level with
  | none => exact Prog.only_pure _
  | some level => exact Prog.Only.bind (only_act trivial) fun _ => Prog.Only.bind (only_act trivial) fun _ => Prog.only_pure _

theorem only_configureHandler {name : Name} {target : ℕ} {c : GenericConfig} :
    Prog.Only (σ := logSig) Plain (configureHandler py zenoh name target c) := by
  refine .ite only_attach (.ite only_attach (.ite (.ite only_attach ?_) ?_))
  · exact Prog.only_pure _
  · exact Prog.only_pure _

theorem only_configureHandlers {name : Name} {target : ℕ} : ∀ l : List GenericConfig,
    Prog.Only (σ := logSig) Plain (configureHandlers py zenoh name target l)
  | [] => Prog.only_pure _
  | _ :: l => Prog.Only.bind only_configureHandler fun _ => .ite (only_configureHandlers l) (Prog.only_pure _)

theorem only_configureLogger {name : Name} {target : ℕ} {l : List GenericConfig} :
    Prog.Only (σ := logSig) Plain (configureLogger py zenoh name target l) :=
  Prog.Only.bind (only_act trivial) fun _ => only_configureHandlers _

theorem only_setupLogging {logging : LoggingConfig} {reporting : ReportingConfig} :
    Prog.Only (σ := logSig) Plain (setupLogging py zenoh logging reporting) :=
  Prog.Only.bind only_configureLogger fun _ => .ite (Prog.Only.bind only_configureLogger fun _ => Prog.only_pure _)
    (Prog.only_pure _)

theorem only_close {h : ℕ} : Prog.Only (σ := logSig) Plain (close h) := by
  refine Prog.Only.bind (only_act trivial) fun made => .ite (Prog.only_pure _) ?_
  exact Prog.Only.bind (only_act trivial) fun _ => only_act trivial

theorem only_closeAll : ∀ l : List ℕ, Prog.Only (σ := logSig) Plain (closeAll l)
  | [] => Prog.only_pure _
  | _ :: l => Prog.Only.bind only_close fun _ => only_closeAll l

theorem only_tearDown {name : Name} : Prog.Only (σ := logSig) Plain (tearDown name) :=
  Prog.Only.bind (only_act trivial) fun l => Prog.Only.bind (only_closeAll l) fun _ => only_act trivial

theorem only_rebuildHandlers {logging : LoggingConfig} {reporting : ReportingConfig} :
    Prog.Only (σ := logSig) Plain (rebuildHandlers py zenoh logging reporting) :=
  Prog.Only.locked (Prog.Only.bind only_tearDown fun _ => Prog.Only.bind only_tearDown fun _ => only_setupLogging) _

theorem only_shutdown : ∀ h : ℕ, Prog.Only (σ := logSig) Plain (shutdown h)
  | 0 => Prog.only_pure _
  | h + 1 => Prog.Only.bind (Prog.Only.locked only_close _) fun _ => only_shutdown h

/-- Where a thread that enters is. -/
def born : Entry → Logging → At
  | .report _ _, s => .report s.nextRecord .passing
  | .worker h _, _ => .worker h .idle
  | _, _ => .other

theorem keeps_enter {e : Entry} {s s' : Logging} {p : Code Unit} (h : enter py zenoh e s = some (p, s')) :
    Keeps (fun _ _ => True) (born e s) p := by
  have hplain {q : Code Unit} (hq : Prog.Only (σ := logSig) Plain q) : Keeps (fun _ _ => True) .other q :=
    (keeps_only hq).mono fun _ _ _ => trivial
  cases e with
  | setup logging reporting =>
    obtain ⟨rfl, -⟩ := Prod.mk.inj (Option.some.inj h)
    exact hplain only_setupLogging
  | rebuild logging reporting =>
    obtain ⟨rfl, -⟩ := Prod.mk.inj (Option.some.inj h)
    exact hplain only_rebuildHandlers
  | report call visits =>
    obtain ⟨r, -, h⟩ := Option.map_eq_some_iff.mp h
    obtain ⟨rfl, -⟩ := Prod.mk.inj h
    exact keeps_callHandlers visits 0
  | worker k rounds =>
    obtain ⟨-, h⟩ := Option.ite_none_right_eq_some.mp h
    obtain ⟨rfl, -⟩ := Prod.mk.inj (Option.some.inj h)
    exact keeps_workerLoop rounds
  | close k =>
    obtain ⟨-, h⟩ := Option.ite_none_right_eq_some.mp h
    obtain ⟨rfl, -⟩ := Prod.mk.inj (Option.some.inj h)
    exact hplain only_close
  | shutdown =>
    obtain ⟨rfl, -⟩ := Prod.mk.inj (Option.some.inj h)
    exact hplain (only_shutdown _)

end Keeps

/-! ### What is offered is kept -/

/-- What the handler has of records: the worker's own, and what is queued. -/
def Handler.items (x : Handler) : List Item := x.current.toList ++ x.queue

/-- The record is with a handler whose worker will still look. -/
def OnItsWay (s : Logging) (m : ℕ) : Prop :=
  ∃ h, (s.handlers h).drained = false ∧ ∃ x ∈ (s.handlers h).items, x.record = m

/-- The record was handed to a transport, or counted as dropped, or it is on its way. -/
def Kept (s : Logging) (m : ℕ) : Prop := .handed m ∈ s.history ∨ .dropped m ∈ s.history ∨ OnItsWay s m

/-- Where thread `i` is. -/
abbrev IsAt (n : Notes At Unit) (i : ℕ) (g : At) : Prop := n.each[i]? = some g

/-- A handler and its worker. -/
structure Attended (s : Logging) (n : Notes At Unit) : Prop where
  unmade : ∀ h, s.nextHandler ≤ h → (s.handlers h).drained = true ∧ (s.handlers h).started = false
  waiting : ∀ h, h < s.nextHandler → (s.handlers h).started = false →
    (s.handlers h).drained = false ∧ (s.handlers h).current = none
  one : ∀ i j h p q, IsAt n i (.worker h p) → IsAt n j (.worker h q) → i = j
  started : ∀ i h p, IsAt n i (.worker h p) → (s.handlers h).started = true
  drained : ∀ i h p, IsAt n i (.worker h p) → ((s.handlers h).drained = true ↔ p = .done)
  current : ∀ i h p, IsAt n i (.worker h p) → (s.handlers h).current = p.item

/-- The reports and what has come of them. -/
structure Followed (s : Logging) (n : Notes At Unit) : Prop where
  numbered : ∀ i m p, IsAt n i (.report m p) → m < s.nextRecord
  apart : ∀ i j m p q, IsAt n i (.report m p) → IsAt n j (.report m q) → i = j
  past : ∀ m, .returned m ∈ s.history → m < s.nextRecord
  done : ∀ i m p, .returned m ∈ s.history → IsAt n i (.report m p) → p = .done
  handed : ∀ m, .handed m ∈ s.history → .offered m true ∈ s.history
  dropped : ∀ m, .dropped m ∈ s.history → .offered m true ∈ s.history
  owing : ∀ i m, IsAt n i (.report m .owes) → .offered m true ∈ s.history
  queued : ∀ h, (s.handlers h).drained = false → ∀ x ∈ (s.handlers h).items, .offered x.record true ∈ s.history
  kept : ∀ m, .offered m true ∈ s.history → Kept s m ∨ ∃ i, IsAt n i (.report m .owes)

section Invariant

variable {s t : Logging} {n : Notes At Unit} {i : ℕ} {g : At} {h m : ℕ}

/-- What a worker knows of its handler is the same. -/
def Handler.Tended (x y : Handler) : Prop := x.current = y.current ∧ x.started = y.started ∧ x.drained = y.drained

/-- What two handlers have in common of records. -/
def Handler.Alike (x y : Handler) : Prop := x.queue = y.queue ∧ x.Tended y

theorem Handler.Alike.items {x y : Handler} (h : x.Alike y) : x.items = y.items := by
  rw [Handler.items, Handler.items, h.1, h.2.1]

theorem handlers_setHandler_self {f : Handler → Handler} : (s.setHandler h f).handlers h = f (s.handlers h) :=
  Function.update_self ..

theorem handlers_setHandler_ne {f : Handler → Handler} {k : ℕ} (hk : k ≠ h) : (s.setHandler h f).handlers k = s.handlers k :=
  Function.update_of_ne hk ..

/-- What a change of one handler leaves of each, it leaves of all. -/
theorem forall_setHandler {f : Handler → Handler} {R : Handler → Handler → Prop} (hrefl : ∀ x, R x x)
    (hf : R (f (s.handlers h)) (s.handlers h)) (k : ℕ) : R ((s.setHandler h f).handlers k) (s.handlers k) := by
  by_cases hk : k = h
  · subst hk
    rw [handlers_setHandler_self]
    exact hf
  · rw [handlers_setHandler_ne hk]
    exact hrefl _

theorem OnItsWay.alike (ha : ∀ h, (t.handlers h).Alike (s.handlers h)) (h : OnItsWay s m) : OnItsWay t m := by
  obtain ⟨k, hk, x, hx, hm⟩ := h
  exact ⟨k, (ha k).2.2.2.trans hk, x, (ha k).items ▸ hx, hm⟩

/-! The workers -/

theorem Attended.tended (h : Attended s n) (hnext : t.nextHandler = s.nextHandler)
    (ht : ∀ h, (t.handlers h).Tended (s.handlers h)) : Attended t n := by
  refine ⟨fun k hk => ?_, fun k hk hs => ?_, h.one, fun i k p hi => ?_, fun i k p hi => ?_, fun i k p hi => ?_⟩
  · rw [(ht k).2.1, (ht k).2.2]
    exact h.unmade k (hnext ▸ hk)
  · rw [(ht k).2.1] at hs
    rw [(ht k).1, (ht k).2.2]
    exact h.waiting k (hnext ▸ hk) hs
  · rw [(ht k).2.1]
    exact h.started i k p hi
  · rw [(ht k).2.2]
    exact h.drained i k p hi
  · rw [(ht k).1]
    exact h.current i k p hi

/-- A thread of a report goes on. -/
theorem Attended.report {p p' : Passing} (h : Attended s n) (hg : IsAt n i (.report m p)) :
    Attended s ⟨n.each.set i (.report m p'), ()⟩ := by
  have hsame (j k : ℕ) (q : Working) : (n.each.set i (.report m p'))[j]? = some (At.worker k q) ↔ IsAt n j (.worker k q) :=
    getElem?_set_iff hg (by simp) (by simp)
  refine ⟨h.unmade, h.waiting, fun j j' k q q' hj hj' => ?_, fun j k q hj => ?_, fun j k q hj => ?_, fun j k q hj => ?_⟩
  · exact h.one j j' k q q' ((hsame ..).mp hj) ((hsame ..).mp hj')
  · exact h.started j k q ((hsame ..).mp hj)
  · exact h.drained j k q ((hsame ..).mp hj)
  · exact h.current j k q ((hsame ..).mp hj)

/-- A worker goes on, and its handler with it. -/
theorem Attended.worker {p p' : Working} (hA : Attended s n) (hg : IsAt n i (.worker h p)) (hnext : t.nextHandler = s.nextHandler)
    (hother : ∀ k, k ≠ h → (t.handlers k).Tended (s.handlers k)) (hstarted : (t.handlers h).started = (s.handlers h).started)
    (hdrained : (t.handlers h).drained = true ↔ p' = .done) (hcurrent : (t.handlers h).current = p'.item) :
    Attended t ⟨n.each.set i (.worker h p'), ()⟩ := by
  have hup : (s.handlers h).started = true := hA.started i h p hg
  have hcases {j k : ℕ} {q : Working} (hj : (n.each.set i (.worker h p'))[j]? = some (At.worker k q)) :
      (j = i ∧ k = h ∧ q = p') ∨ (j ≠ i ∧ k ≠ h ∧ IsAt n j (.worker k q)) := by
    rcases getElem?_set_cases hj with ⟨rfl, heq⟩ | ⟨hne, hold⟩
    · cases heq
      exact .inl ⟨rfl, rfl, rfl⟩
    · refine .inr ⟨hne, ?_, hold⟩
      rintro rfl
      exact hne (hA.one j i k q p hold hg)
  refine ⟨fun k hk => ?_, fun k hk hs => ?_, fun j j' k q q' hj hj' => ?_, fun j k q hj => ?_, fun j k q hj => ?_,
    fun j k q hj => ?_⟩
  · have hne : k ≠ h := by
      rintro rfl
      rw [(hA.unmade k (hnext ▸ hk)).2] at hup
      cases hup
    rw [(hother k hne).2.1, (hother k hne).2.2]
    exact hA.unmade k (hnext ▸ hk)
  · have hne : k ≠ h := by
      rintro rfl
      rw [hstarted, hup] at hs
      cases hs
    rw [(hother k hne).2.1] at hs
    rw [(hother k hne).1, (hother k hne).2.2]
    exact hA.waiting k (hnext ▸ hk) hs
  · rcases hcases hj with ⟨rfl, rfl, -⟩ | ⟨-, hk, hj⟩
    · rcases hcases hj' with ⟨rfl, -, -⟩ | ⟨-, hk', -⟩
      · rfl
      · exact absurd rfl hk'
    · rcases hcases hj' with ⟨-, rfl, -⟩ | ⟨-, -, hj'⟩
      · exact absurd rfl hk
      · exact hA.one j j' k q q' hj hj'
  · rcases hcases hj with ⟨-, rfl, -⟩ | ⟨-, hk, hj⟩
    · exact hstarted.trans hup
    · rw [(hother k hk).2.1]
      exact hA.started j k q hj
  · rcases hcases hj with ⟨-, rfl, rfl⟩ | ⟨-, hk, hj⟩
    · exact hdrained
    · rw [(hother k hk).2.2]
      exact hA.drained j k q hj
  · rcases hcases hj with ⟨-, rfl, rfl⟩ | ⟨-, hk, hj⟩
    · exact hcurrent
    · rw [(hother k hk).1]
      exact hA.current j k q hj

/-! The reports -/

theorem Followed.alike (h : Followed s n) (hnext : t.nextRecord = s.nextRecord) (hhistory : t.history = s.history)
    (ha : ∀ h, (t.handlers h).Alike (s.handlers h)) : Followed t n := by
  refine ⟨?_, h.apart, ?_, ?_, ?_, ?_, ?_, fun k hk x hx => ?_, fun m hm => ?_⟩
  · rw [hnext]
    exact h.numbered
  · rw [hnext, hhistory]
    exact h.past
  · rw [hhistory]
    exact h.done
  · rw [hhistory]
    exact h.handed
  · rw [hhistory]
    exact h.dropped
  · rw [hhistory]
    exact h.owing
  · rw [hhistory]
    rw [(ha k).2.2.2] at hk
    exact h.queued k hk x ((ha k).items ▸ hx)
  · rw [hhistory] at hm
    rcases h.kept m hm with hkept | howes
    · rw [Kept, hhistory]
      exact .inl (hkept.imp_right fun hk => hk.imp_right fun hk => hk.alike ha)
    · exact .inr howes

/-- A worker goes on. -/
theorem Followed.worker {p p' : Working} (hF : Followed s n) (hg : IsAt n i (.worker h p)) :
    Followed s ⟨n.each.set i (.worker h p'), ()⟩ := by
  have hsame (j k : ℕ) (q : Passing) : (n.each.set i (.worker h p'))[j]? = some (At.report k q) ↔ IsAt n j (.report k q) :=
    getElem?_set_iff hg (by simp) (by simp)
  refine ⟨fun j k q hj => ?_, fun j j' k q q' hj hj' => ?_, hF.past, fun j k q hk hj => ?_, hF.handed, hF.dropped,
    fun j k hj => ?_, hF.queued, fun k hk => ?_⟩
  · exact hF.numbered j k q ((hsame ..).mp hj)
  · exact hF.apart j j' k q q' ((hsame ..).mp hj) ((hsame ..).mp hj')
  · exact hF.done j k q hk ((hsame ..).mp hj)
  · exact hF.owing j k ((hsame ..).mp hj)
  · exact (hF.kept k hk).imp_right fun ⟨j, hj⟩ => ⟨j, (hsame ..).mpr hj⟩

/-! What each action does to them -/

theorem Kept.mono (hhistory : s.history ⊆ t.history) (hway : OnItsWay s m → Kept t m) (h : Kept s m) : Kept t m := by
  rcases h with hhanded | hdropped | h
  · exact .inl (hhistory hhanded)
  · exact .inr (.inl (hhistory hdropped))
  · exact hway h

/-- Both parts of the invariant. -/
structure Delivers (s : Logging) (n : Notes At Unit) : Prop where
  attended : Attended s n
  followed : Followed s n

theorem delivers_newHandler (hD : Delivers s n) (kind : Kind) (templates : Dict String String) :
    Delivers (Logging.perform (.newHandler kind templates) s).2 n := by
  have hne {k : ℕ} (hk : (s.handlers k).drained = false ∨ (s.handlers k).started = true) : k ≠ s.nextHandler := by
    rintro rfl
    obtain ⟨hdrained, hstarted⟩ := hD.attended.unmade _ (le_refl _)
    rcases hk with hk | hk
    · rw [hdrained] at hk
      cases hk
    · rw [hstarted] at hk
      cases hk
  have hold {k : ℕ} (hk : k ≠ s.nextHandler) :
      (Logging.perform (.newHandler kind templates) s).2.handlers k = s.handlers k := Function.update_of_ne hk ..
  have hnew : (Logging.perform (.newHandler kind templates) s).2.handlers s.nextHandler = { made := ⟨kind, templates, 0⟩ } :=
    Function.update_self ..
  have hworker {j k : ℕ} {p : Working} (hj : IsAt n j (.worker k p)) := hold (hne (.inr (hD.attended.started j k p hj)))
  refine ⟨⟨fun k hk => ?_, fun k hk hs => ?_, hD.attended.one, fun j k p hj => ?_, fun j k p hj => ?_, fun j k p hj => ?_⟩,
    ⟨hD.followed.numbered, hD.followed.apart, hD.followed.past, hD.followed.done, hD.followed.handed, hD.followed.dropped,
      hD.followed.owing, fun k hk x hx => ?_, fun m hm => ?_⟩⟩
  · have hk' : s.nextHandler + 1 ≤ k := hk
    rw [hold (by omega)]
    exact hD.attended.unmade k (by omega)
  · have hk' : k < s.nextHandler + 1 := hk
    by_cases hlast : k = s.nextHandler
    · rw [hlast, hnew]
      exact ⟨rfl, rfl⟩
    · rw [hold hlast] at hs ⊢
      exact hD.attended.waiting k (by omega) hs
  · rw [hworker hj]
    exact hD.attended.started j k p hj
  · rw [hworker hj]
    exact hD.attended.drained j k p hj
  · rw [hworker hj]
    exact hD.attended.current j k p hj
  · by_cases hlast : k = s.nextHandler
    · rw [hlast, hnew] at hx
      cases hx
    · rw [hold hlast] at hk hx
      exact hD.followed.queued k hk x hx
  · refine (hD.followed.kept m hm).imp_left fun hkept => Kept.mono (s := s) (List.Subset.refl _) (fun hway => ?_) hkept
    obtain ⟨k, hk, x, hx, hxm⟩ := hway
    have hsame := hold (hne (.inl hk))
    exact .inr (.inr ⟨k, hsame ▸ hk, x, hsame ▸ hx, hxm⟩)

theorem delivers_alike (hD : Delivers s n) (hnext : t.nextHandler = s.nextHandler) (hrecord : t.nextRecord = s.nextRecord)
    (hhistory : t.history = s.history) (ha : ∀ h, (t.handlers h).Alike (s.handlers h)) : Delivers t n :=
  ⟨hD.attended.tended hnext fun k => (ha k).2, hD.followed.alike hrecord hhistory ha⟩

theorem delivers_plain {a : Act} (ha : Plain a) (hD : Delivers s n) : Delivers (Logging.perform a s).2 n := by
  have hrefl (x : Handler) : x.Alike x := ⟨rfl, rfl, rfl, rfl⟩
  cases a with
  | newHandler kind templates => exact delivers_newHandler hD kind templates
  | setLevel h level =>
    have hset := forall_setHandler (s := s) (h := h) (f := fun x => { x with made := { x.made with level } }) hrefl
      ⟨rfl, rfl, rfl, rfl⟩
    exact delivers_alike hD rfl rfl rfl hset
  | setStop h =>
    have hset := forall_setHandler (s := s) (h := h) (f := fun x => { x with stopped := true }) hrefl ⟨rfl, rfl, rfl, rfl⟩
    exact delivers_alike hD rfl rfl rfl hset
  | put | countDropped | returned | get | getNowait | transport => exact ha.elim
  | _ => exact delivers_alike hD rfl rfl rfl fun k => hrefl _

/-- A report goes on, and something comes of it. -/
theorem Followed.report {p p' : Passing} {x : Mark} (hF : Followed s n) (hg : IsAt n i (.report m p)) (hp : p ≠ .done)
    (hrecord : t.nextRecord = s.nextRecord) (hhistory : t.history = x :: s.history) (hhanded : ∀ k, x ≠ .handed k)
    (hreturned : ∀ k, x = .returned k → k = m ∧ p' = .done) (hdropped : ∀ k, x = .dropped k → .offered k true ∈ s.history)
    (howes : p' = .owes → .offered m true ∈ t.history)
    (hqueued : ∀ h, (t.handlers h).drained = false → ∀ y ∈ (t.handlers h).items, .offered y.record true ∈ t.history)
    (hkept : ∀ k, .offered k true ∈ t.history → Kept t k ∨ (k = m ∧ p' = .owes) ∨ ∃ j, j ≠ i ∧ IsAt n j (.report k .owes)) :
    Followed t ⟨n.each.set i (.report m p'), ()⟩ := by
  have hlt : i < n.each.length := (List.getElem?_eq_some_iff.mp hg).1
  have hcases {j k : ℕ} {q : Passing} (hj : (n.each.set i (.report m p'))[j]? = some (At.report k q)) :
      (j = i ∧ k = m ∧ q = p') ∨ (j ≠ i ∧ IsAt n j (.report k q)) := by
    rcases getElem?_set_cases hj with ⟨rfl, heq⟩ | hold
    · cases heq
      exact .inl ⟨rfl, rfl, rfl⟩
    · exact .inr hold
  have hmark {k : Mark} (hk : k ∈ t.history) : k = x ∨ k ∈ s.history := by
    rw [hhistory] at hk
    exact List.mem_cons.mp hk
  have hmono {k : Mark} (hk : k ∈ s.history) : k ∈ t.history := hhistory ▸ List.mem_cons_of_mem _ hk
  refine ⟨fun j k q hj => ?_, fun j j' k q q' hj hj' => ?_, fun k hk => ?_, fun j k q hk hj => ?_, fun k hk => ?_, fun k hk => ?_,
    fun j k hj => ?_, hqueued, fun k hk => ?_⟩
  · rw [hrecord]
    rcases hcases hj with ⟨-, rfl, -⟩ | ⟨-, hold⟩
    · exact hF.numbered i _ _ hg
    · exact hF.numbered j k q hold
  · rcases hcases hj with ⟨rfl, rfl, -⟩ | ⟨-, hold⟩
    · rcases hcases hj' with ⟨rfl, -, -⟩ | ⟨-, hold'⟩
      · rfl
      · exact hF.apart j j' _ _ _ hg hold'
    · rcases hcases hj' with ⟨rfl, rfl, -⟩ | ⟨-, hold'⟩
      · exact hF.apart j j' _ _ _ hold hg
      · exact hF.apart j j' k q q' hold hold'
  · rw [hrecord]
    rcases hmark hk with hk | hk
    · obtain ⟨rfl, -⟩ := hreturned k hk.symm
      exact hF.numbered i _ _ hg
    · exact hF.past k hk
  · rcases hmark hk with hk | hk
    · obtain ⟨rfl, hdone⟩ := hreturned k hk.symm
      rcases hcases hj with ⟨-, -, rfl⟩ | ⟨hne, hold⟩
      · exact hdone
      · exact absurd (hF.apart j i _ _ _ hold hg) hne
    · rcases hcases hj with ⟨-, rfl, -⟩ | ⟨-, hold⟩
      · exact absurd (hF.done i _ _ hk hg) hp
      · exact hF.done j k q hk hold
  · rcases hmark hk with hk | hk
    · exact absurd hk.symm (hhanded k)
    · exact hmono (hF.handed k hk)
  · rcases hmark hk with hk | hk
    · exact hmono (hdropped k hk.symm)
    · exact hmono (hF.dropped k hk)
  · rcases hcases hj with ⟨-, rfl, hq⟩ | ⟨-, hold⟩
    · exact howes hq.symm
    · exact hmono (hF.owing j k hold)
  · rcases hkept k hk with hkept | ⟨rfl, rfl⟩ | ⟨j, hne, hj⟩
    · exact .inl hkept
    · exact .inr ⟨i, List.getElem?_set_self hlt⟩
    · exact .inr ⟨j, (List.getElem?_set_ne hne.symm).trans hj⟩

/-- A record that was offered before is kept, or is owed by another thread. -/
theorem Followed.kept_other {p : Passing} (hF : Followed s n) (hg : IsAt n i (.report m p)) (hp : p ≠ .owes)
    (hhistory : s.history ⊆ t.history) (hway : ∀ k, OnItsWay s k → OnItsWay t k) {k : ℕ} (hk : .offered k true ∈ s.history) :
    Kept t k ∨ ∃ j, j ≠ i ∧ IsAt n j (.report k .owes) := by
  rcases hF.kept k hk with hkept | ⟨j, hj⟩
  · exact .inl (hkept.mono hhistory fun h => .inr (.inr (hway k h)))
  · refine .inr ⟨j, ?_, hj⟩
    rintro rfl
    rw [IsAt, hg] at hj
    cases hj
    exact hp rfl

/-- The queue is full. -/
theorem followed_refused {x : Item} (hF : Followed s n) (hg : IsAt n i (.report x.record .passing)) :
    Followed (s.mark (.offered x.record true)) ⟨n.each.set i (.report x.record .owes), ()⟩ := by
  refine hF.report (x := .offered x.record true) hg (by simp) rfl rfl (by simp) (by simp) (by simp)
    (fun _ => List.mem_cons_self) (fun k hk y hy => ?_) fun k hk => ?_
  · exact List.mem_cons_of_mem _ (hF.queued k hk y hy)
  · rcases List.mem_cons.mp hk with hk | hk
    · cases hk
      exact .inr (.inl ⟨rfl, rfl⟩)
    · have hother := hF.kept_other (t := s.mark (.offered x.record true)) hg (by simp) (List.subset_cons_self _ _)
        (fun _ h => h) hk
      exact hother.imp_right .inr

/-- What the queue has more of is offered to a handler that is live unless its worker has ended. -/
theorem followed_taken {x : Item} (hF : Followed s n) (hg : IsAt n i (.report x.record .passing)) {live : Bool}
    (hlive : live = !(s.handlers h).drained) :
    Followed ((s.setHandler h fun y => { y with queue := y.queue ++ [x] }).mark (.offered x.record live))
      ⟨n.each.set i (.report x.record .passing), ()⟩ := by
  have hself : ((s.setHandler h fun y => { y with queue := y.queue ++ [x] }).handlers h).items = (s.handlers h).items ++ [x] := by
    rw [handlers_setHandler_self, Handler.items, Handler.items, List.append_assoc]
  have hdrained (k : ℕ) : ((s.setHandler h fun y => { y with queue := y.queue ++ [x] }).handlers k).drained =
      (s.handlers k).drained :=
    forall_setHandler (R := fun y z => y.drained = z.drained) (fun _ => rfl) rfl k
  have hway (k : ℕ) (hk : OnItsWay s k) : OnItsWay ((s.setHandler h fun y => { y with queue := y.queue ++ [x] }).mark
      (.offered x.record live)) k := by
    obtain ⟨j, hj, y, hy, hyk⟩ := hk
    refine ⟨j, (hdrained j).trans hj, y, ?_, hyk⟩
    by_cases hjh : j = h
    · subst hjh
      exact hself ▸ List.mem_append_left _ hy
    · exact (handlers_setHandler_ne (s := s) (f := fun y => { y with queue := y.queue ++ [x] }) hjh).symm ▸ hy
  refine hF.report (x := .offered x.record live) hg (by simp) rfl rfl (by simp) (by simp) (by simp) (by simp)
    (fun k hk y hy => ?_) fun k hk => ?_
  · have hk' : (s.handlers k).drained = false := (hdrained k).symm.trans hk
    by_cases hkh : k = h
    · subst hkh
      have hy' : y ∈ (s.handlers k).items ++ [x] := hself ▸ hy
      rcases List.mem_append.mp hy' with hy' | hy'
      · exact List.mem_cons_of_mem _ (hF.queued k hk' y hy')
      · obtain rfl := List.mem_singleton.mp hy'
        rw [hlive, hk']
        exact List.mem_cons_self
    · have hy' : y ∈ (s.handlers k).items :=
        (handlers_setHandler_ne (s := s) (f := fun y => { y with queue := y.queue ++ [x] }) hkh) ▸ hy
      exact List.mem_cons_of_mem _ (hF.queued k hk' y hy')
  · rcases List.mem_cons.mp hk with hk | hk
    · cases hk
      have hopen : (s.handlers h).drained = false := by simpa using hlive.symm
      exact .inl (.inr (.inr ⟨h, (hdrained h).trans hopen, x, hself ▸ List.mem_append_right _ List.mem_cons_self, rfl⟩))
    · have hother := hF.kept_other (t := (s.setHandler h fun y => { y with queue := y.queue ++ [x] }).mark
        (.offered x.record live)) hg (by simp) (List.subset_cons_self _ _) hway hk
      exact hother.imp_right .inr

/-- What was refused is counted. -/
theorem followed_counted (hF : Followed s n) (hg : IsAt n i (.report m .owes)) :
    Followed ((s.setHandler h fun x => { x with dropped := x.dropped + 1 }).mark (.dropped m))
      ⟨n.each.set i (.report m .passing), ()⟩ := by
  have halike (k : ℕ) : ((s.setHandler h fun x => { x with dropped := x.dropped + 1 }).handlers k).Alike (s.handlers k) :=
    forall_setHandler (fun _ => ⟨rfl, rfl, rfl, rfl⟩) ⟨rfl, rfl, rfl, rfl⟩ k
  refine hF.report (x := .dropped m) hg (by simp) rfl rfl (by simp) (by simp) (fun k hk => ?_) (by simp)
    (fun k hk y hy => ?_) fun k hk => ?_
  · cases hk
    exact hF.owing i m hg
  · exact List.mem_cons_of_mem _ (hF.queued k ((halike k).2.2.2.symm.trans hk) y ((halike k).items ▸ hy))
  · rcases List.mem_cons.mp hk with hk | hk
    · cases hk
    · rcases hF.kept k hk with hkept | ⟨j, hj⟩
      · refine .inl (Kept.mono (s := s) (List.subset_cons_self _ _) (fun hway => .inr (.inr ?_)) hkept)
        exact hway.alike (t := s.setHandler h fun x => { x with dropped := x.dropped + 1 }) halike
      · by_cases hji : j = i
        · subst hji
          rw [IsAt, hg] at hj
          cases hj
          exact .inl (.inr (.inl List.mem_cons_self))
        · exact .inr (.inr ⟨j, hji, hj⟩)

/-- The call of the report returns. -/
theorem followed_returned (hF : Followed s n) (hg : IsAt n i (.report m .passing)) :
    Followed (s.mark (.returned m)) ⟨n.each.set i (.report m .done), ()⟩ := by
  refine hF.report (x := .returned m) hg (by simp) rfl rfl (by simp) (fun k hk => ?_) (by simp) (by simp)
    (fun k hk y hy => ?_) fun k hk => ?_
  · cases hk
    exact ⟨rfl, rfl⟩
  · exact List.mem_cons_of_mem _ (hF.queued k hk y hy)
  · rcases List.mem_cons.mp hk with hk | hk
    · cases hk
    · have hother := hF.kept_other (t := s.mark (.returned m)) hg (by simp) (List.subset_cons_self _ _) (fun _ h => h) hk
      exact hother.imp_right .inr

/-- The worker of a handler that is not at the end goes to the queue. -/
theorem items_take (hcurrent : (s.handlers h).current = none) : ((s.take h).handlers h).items = (s.handlers h).items := by
  rw [Logging.take, handlers_setHandler_self, Handler.items, Handler.items, hcurrent]
  cases (s.handlers h).queue <;> rfl

/-- Only the handler changes, and has what it had. -/
theorem Followed.same (hF : Followed s n) (hrecord : t.nextRecord = s.nextRecord) (hhistory : t.history = s.history)
    (hother : ∀ k, k ≠ h → t.handlers k = s.handlers k) (hitems : (t.handlers h).items = (s.handlers h).items)
    (hdrained : (t.handlers h).drained = true → (s.handlers h).drained = false → (s.handlers h).items = [])
    (hopen : (s.handlers h).drained = true → (t.handlers h).drained = true) : Followed t n := by
  refine ⟨?_, hF.apart, ?_, ?_, ?_, ?_, ?_, fun k hk x hx => ?_, fun m hm => ?_⟩
  · rw [hrecord]
    exact hF.numbered
  · rw [hrecord, hhistory]
    exact hF.past
  · rw [hhistory]
    exact hF.done
  · rw [hhistory]
    exact hF.handed
  · rw [hhistory]
    exact hF.dropped
  · rw [hhistory]
    exact hF.owing
  · rw [hhistory]
    by_cases hkh : k = h
    · subst hkh
      have hk' : (s.handlers k).drained = false := by
        rw [Bool.eq_false_iff]
        intro hd
        rw [hopen hd] at hk
        cases hk
      exact hF.queued k hk' x (hitems ▸ hx)
    · rw [hother k hkh] at hk hx
      exact hF.queued k hk x hx
  · rw [hhistory] at hm
    refine (hF.kept m hm).imp_left fun hkept => ?_
    refine Kept.mono (s := s) (by rw [hhistory]; exact List.Subset.refl _) (fun hway => .inr (.inr ?_)) hkept
    obtain ⟨k, hk, x, hx, hxm⟩ := hway
    by_cases hkh : k = h
    · subst hkh
      refine ⟨k, ?_, x, hitems ▸ hx, hxm⟩
      rw [Bool.eq_false_iff]
      intro hd
      rw [hdrained hd hk] at hx
      cases hx
    · exact ⟨k, (hother k hkh).symm ▸ hk, x, (hother k hkh).symm ▸ hx, hxm⟩

theorem head?_item (l : List Item) : l.head? = (l.head?.elim Working.idle Working.got).item := by
  cases l <;> rfl

theorem delivers_get (hD : Delivers s n) (hg : IsAt n i (.worker h .idle)) :
    Delivers (Logging.perform (.get h) s).2
      ⟨n.each.set i (.worker h ((s.handlers h).queue.head?.elim .idle .got)), ()⟩ := by
  have hcurrent : (s.handlers h).current = none := hD.attended.current i h _ hg
  have hopen : (s.handlers h).drained = false := by
    rw [Bool.eq_false_iff]
    intro hd
    cases (hD.attended.drained i h _ hg).mp hd
  have hother (k : ℕ) (hk : k ≠ h) : (Logging.perform (.get h) s).2.handlers k = s.handlers k :=
    Function.update_of_ne hk ..
  have hself : (Logging.perform (.get h) s).2.handlers h =
      { s.handlers h with current := (s.handlers h).queue.head?, queue := (s.handlers h).queue.tail } :=
    Function.update_self ..
  refine ⟨hD.attended.worker hg rfl (fun k hk => ?_) ?_ ?_ ?_, ?_⟩
  · rw [hother k hk]
    exact ⟨rfl, rfl, rfl⟩
  · rw [hself]
  · rw [hself, hopen]
    cases (s.handlers h).queue <;> simp
  · rw [hself]
    exact head?_item _
  · refine (hD.followed.same (t := (Logging.perform (.get h) s).2) rfl rfl hother (items_take hcurrent) (fun hd => ?_) fun hd => ?_).worker hg
    · rw [hself, hopen] at hd
      cases hd
    · rw [hopen] at hd
      cases hd

theorem delivers_getNowait (hD : Delivers s n) (hg : IsAt n i (.worker h .idle)) :
    Delivers (Logging.perform (.getNowait h) s).2
      ⟨n.each.set i (.worker h ((s.handlers h).queue.head?.elim .done .got)), ()⟩ := by
  have hcurrent : (s.handlers h).current = none := hD.attended.current i h _ hg
  have hopen : (s.handlers h).drained = false := by
    rw [Bool.eq_false_iff]
    intro hd
    cases (hD.attended.drained i h _ hg).mp hd
  have hother (k : ℕ) (hk : k ≠ h) : (Logging.perform (.getNowait h) s).2.handlers k = s.handlers k :=
    (Function.update_of_ne hk ..).trans (Function.update_of_ne hk ..)
  have hself : (Logging.perform (.getNowait h) s).2.handlers h = { s.handlers h with
      current := (s.handlers h).queue.head?, queue := (s.handlers h).queue.tail
      drained := (s.handlers h).queue.isEmpty || (s.handlers h).drained } := by
    refine (Function.update_self ..).trans ?_
    rw [Logging.take, handlers_setHandler_self]
  have hitems : ((Logging.perform (.getNowait h) s).2.handlers h).items = (s.handlers h).items := by
    rw [hself, Handler.items, Handler.items, hcurrent]
    cases (s.handlers h).queue <;> rfl
  refine ⟨hD.attended.worker hg rfl (fun k hk => ?_) ?_ ?_ ?_, ?_⟩
  · rw [hother k hk]
    exact ⟨rfl, rfl, rfl⟩
  · rw [hself]
  · rw [hself, hopen]
    cases (s.handlers h).queue <;> simp
  · rw [hself]
    cases (s.handlers h).queue <;> rfl
  · refine (hD.followed.same (t := (Logging.perform (.getNowait h) s).2) rfl rfl hother hitems (fun hd _ => ?_) fun hd => ?_).worker hg
    · rw [hself, hopen, Bool.or_false] at hd
      rw [Handler.items, hcurrent, List.isEmpty_iff.mp hd]
      rfl
    · rw [hopen] at hd
      cases hd

/-- What the worker has got is handed on. -/
theorem delivers_transport {x : Item} (hD : Delivers s n) (hg : IsAt n i (.worker h (.got x))) :
    Delivers (Logging.perform (.transport h x) s).2 ⟨n.each.set i (.worker h .idle), ()⟩ := by
  have hcurrent : (s.handlers h).current = some x := hD.attended.current i h _ hg
  have hopen : (s.handlers h).drained = false := by
    rw [Bool.eq_false_iff]
    intro hd
    cases (hD.attended.drained i h _ hg).mp hd
  have hother (k : ℕ) (hk : k ≠ h) : (Logging.perform (.transport h x) s).2.handlers k = s.handlers k :=
    Function.update_of_ne hk ..
  have hself : (Logging.perform (.transport h x) s).2.handlers h = { s.handlers h with current := none } :=
    Function.update_self ..
  have hitems : (s.handlers h).items = x :: (s.handlers h).queue := by
    rw [Handler.items, hcurrent]
    rfl
  have hoffered : .offered x.record true ∈ s.history := hD.followed.queued h hopen x (hitems ▸ List.mem_cons_self)
  have hleft : ((Logging.perform (.transport h x) s).2.handlers h).items = (s.handlers h).queue := by
    rw [hself]
    rfl
  have hmono {k : Mark} (hk : k ∈ s.history) : k ∈ (Logging.perform (.transport h x) s).2.history :=
    List.mem_cons_of_mem _ hk
  have hold {k : Mark} (hk : k ∈ (Logging.perform (.transport h x) s).2.history) (hne : k ≠ .handed x.record) :
      k ∈ s.history := (List.mem_cons.mp hk).resolve_left hne
  refine ⟨hD.attended.worker hg rfl (fun k hk => ?_) ?_ ?_ ?_, Followed.worker (p := .got x) ⟨hD.followed.numbered,
    hD.followed.apart, fun m hm => ?_, fun j m q hm hj => ?_, fun m hm => ?_, fun m hm => ?_, fun j m hj => ?_,
    fun k hk y hy => ?_, fun m hm => ?_⟩ hg⟩
  · rw [hother k hk]
    exact ⟨rfl, rfl, rfl⟩
  · rw [hself]
  · rw [hself, hopen]
    simp
  · rw [hself]
    rfl
  · exact hD.followed.past m (hold hm (by simp))
  · exact hD.followed.done j m q (hold hm (by simp)) hj
  · rcases List.mem_cons.mp hm with hm | hm
    · cases hm
      exact hmono hoffered
    · exact hmono (hD.followed.handed m hm)
  · exact hmono (hD.followed.dropped m (hold hm (by simp)))
  · exact hmono (hD.followed.owing j m hj)
  · by_cases hkh : k = h
    · subst hkh
      exact hmono (hD.followed.queued k hopen y (hitems ▸ List.mem_cons_of_mem _ (hleft ▸ hy)))
    · rw [hother k hkh] at hk hy
      exact hmono (hD.followed.queued k hk y hy)
  · refine (hD.followed.kept m (hold hm (by simp))).imp_left fun hkept => Kept.mono (s := s) (fun _ => hmono) (fun hway => ?_) hkept
    obtain ⟨k, hk, y, hy, hym⟩ := hway
    by_cases hkh : k = h
    · subst hkh
      rw [hitems] at hy
      rcases List.mem_cons.mp hy with rfl | hy
      · exact .inl (hym ▸ List.mem_cons_self)
      · exact .inr (.inr ⟨k, by rw [hself]; exact hk, y, hleft ▸ hy, hym⟩)
    · exact .inr (.inr ⟨k, (hother k hkh).symm ▸ hk, y, (hother k hkh).symm ▸ hy, hym⟩)

/-- Every action that a thread may do keeps the invariant. -/
theorem delivers_act {a : Act} (hD : Delivers s n) (hg : IsAt n i g) (hP : g.Permits a) :
    Delivers (Logging.perform a s).2 ⟨n.each.set i (noteAct a (Logging.perform a s).1 g), ()⟩ := by
  by_cases ha : Plain a
  · rw [noteAct_plain ha, set_of_getElem? hg]
    exact delivers_plain ha hD
  cases a with
  | put h x =>
    obtain rfl := hP
    have hput : Logging.perform (.put h x) s = if s.isFull h then (false, s.mark (.offered x.record (s.isLive h)))
        else (true, (s.setHandler h fun y => { y with queue := y.queue ++ [x] }).mark (.offered x.record (s.isLive h))) := rfl
    rw [hput]
    by_cases hfull : s.isFull h = true
    · have hlive : s.isLive h = true := by rw [Logging.isLive, hfull, Bool.true_or]
      rw [if_pos hfull, hlive]
      refine ⟨?_, followed_refused hD.followed hg⟩
      exact (hD.attended.tended (t := s.mark _) rfl fun _ => ⟨rfl, rfl, rfl⟩).report hg
    · have hlive : s.isLive h = !(s.handlers h).drained := by
        rw [Logging.isLive, Bool.eq_false_iff.mpr hfull, Bool.false_or]
      rw [if_neg hfull]
      refine ⟨Attended.report ?_ hg, followed_taken hD.followed hg hlive⟩
      exact hD.attended.tended rfl (forall_setHandler (s := s) (f := fun y => { y with queue := y.queue ++ [x] })
        (fun _ => ⟨rfl, rfl, rfl⟩) ⟨rfl, rfl, rfl⟩)
  | countDropped h m =>
    obtain rfl := hP
    refine ⟨Attended.report ?_ hg, followed_counted hD.followed hg⟩
    exact hD.attended.tended rfl (forall_setHandler (s := s) (f := fun x => { x with dropped := x.dropped + 1 })
      (fun _ => ⟨rfl, rfl, rfl⟩) ⟨rfl, rfl, rfl⟩)
  | returned m =>
    obtain rfl := hP
    refine ⟨?_, followed_returned hD.followed hg⟩
    exact (hD.attended.tended (t := s.mark _) rfl fun _ => ⟨rfl, rfl, rfl⟩).report hg
  | get h =>
    obtain rfl := hP
    exact delivers_get hD hg
  | getNowait h =>
    obtain rfl := hP
    exact delivers_getNowait hD hg
  | transport h x =>
    obtain rfl := hP
    exact delivers_transport hD hg
  | _ => exact absurd trivial ha

/-! Threads that enter -/

theorem Attended.enter (hA : Attended s n) (hg : ∀ k p, g ≠ .worker k p) : Attended s ⟨n.each ++ [g], ()⟩ := by
  have hold {j k : ℕ} {q : Working} (hj : (n.each ++ [g])[j]? = some (At.worker k q)) : IsAt n j (.worker k q) := by
    rcases getElem?_concat_cases hj with hj | ⟨-, hj⟩
    · exact hj
    · exact absurd hj.symm (hg k q)
  exact ⟨hA.unmade, hA.waiting, fun j j' k q q' hj hj' => hA.one j j' k q q' (hold hj) (hold hj'),
    fun j k q hj => hA.started j k q (hold hj), fun j k q hj => hA.drained j k q (hold hj),
    fun j k q hj => hA.current j k q (hold hj)⟩

theorem Followed.enter (hF : Followed s n) (hg : ∀ k p, g ≠ .report k p) : Followed s ⟨n.each ++ [g], ()⟩ := by
  have hold {j k : ℕ} {q : Passing} (hj : (n.each ++ [g])[j]? = some (At.report k q)) : IsAt n j (.report k q) := by
    rcases getElem?_concat_cases hj with hj | ⟨-, hj⟩
    · exact hj
    · exact absurd hj.symm (hg k q)
  exact ⟨fun j k q hj => hF.numbered j k q (hold hj), fun j j' k q q' hj hj' => hF.apart j j' k q q' (hold hj) (hold hj'),
    hF.past, fun j k q hk hj => hF.done j k q hk (hold hj), hF.handed, hF.dropped, fun j k hj => hF.owing j k (hold hj),
    hF.queued, fun k hk => (hF.kept k hk).imp_right fun ⟨j, hj⟩ => ⟨j, getElem?_concat_of hj⟩⟩

/-- A worker starts on a handler that none had. -/
theorem Attended.enterWorker (hA : Attended s n) (hlt : h < s.nextHandler) (hidle : (s.handlers h).started = false) :
    Attended (s.setHandler h fun x => { x with started := true }) ⟨n.each ++ [.worker h .idle], ()⟩ := by
  obtain ⟨hopen, hnone⟩ := hA.waiting h hlt hidle
  have hne {j k : ℕ} {q : Working} (hj : IsAt n j (.worker k q)) : k ≠ h := by
    rintro rfl
    rw [hA.started j k q hj] at hidle
    cases hidle
  have hself : (s.setHandler h fun x => { x with started := true }).handlers h = { s.handlers h with started := true } :=
    handlers_setHandler_self
  have hother {k : ℕ} (hk : k ≠ h) : (s.setHandler h fun x => { x with started := true }).handlers k = s.handlers k :=
    handlers_setHandler_ne hk
  have hcases {j k : ℕ} {q : Working} (hj : (n.each ++ [At.worker h .idle])[j]? = some (At.worker k q)) :
      IsAt n j (.worker k q) ∨ (j = n.each.length ∧ k = h ∧ q = .idle) := by
    rcases getElem?_concat_cases hj with hj | ⟨hlast, heq⟩
    · exact .inl hj
    · cases heq
      exact .inr ⟨hlast, rfl, rfl⟩
  refine ⟨fun k hk => ?_, fun k hk hs => ?_, fun j j' k q q' hj hj' => ?_, fun j k q hj => ?_, fun j k q hj => ?_,
    fun j k q hj => ?_⟩
  · have hk' : s.nextHandler ≤ k := hk
    rw [hother (by omega)]
    exact hA.unmade k hk'
  · by_cases hkh : k = h
    · rw [hkh, hself] at hs
      cases hs
    · rw [hother hkh] at hs ⊢
      exact hA.waiting k hk hs
  · rcases hcases hj with hold | ⟨hlast, rfl, -⟩
    · rcases hcases hj' with hold' | ⟨-, rfl, -⟩
      · exact hA.one j j' k q q' hold hold'
      · exact absurd rfl (hne hold)
    · rcases hcases hj' with hold' | ⟨hlast', -, -⟩
      · exact absurd rfl (hne hold')
      · rw [hlast, hlast']
  · rcases hcases hj with hold | ⟨-, rfl, -⟩
    · rw [hother (hne hold)]
      exact hA.started j k q hold
    · rw [hself]
  · rcases hcases hj with hold | ⟨-, rfl, rfl⟩
    · rw [hother (hne hold)]
      exact hA.drained j k q hold
    · rw [hself, hopen]
      simp
  · rcases hcases hj with hold | ⟨-, rfl, rfl⟩
    · rw [hother (hne hold)]
      exact hA.current j k q hold
    · rw [hself]
      exact hnone

/-- A report begins. -/
theorem Followed.enterReport (hF : Followed s n) :
    Followed { s with nextRecord := s.nextRecord + 1 } ⟨n.each ++ [.report s.nextRecord .passing], ()⟩ := by
  have hcases {j k : ℕ} {q : Passing} (hj : (n.each ++ [At.report s.nextRecord .passing])[j]? = some (At.report k q)) :
      (k < s.nextRecord ∧ IsAt n j (.report k q)) ∨ (j = n.each.length ∧ k = s.nextRecord ∧ q = .passing) := by
    rcases getElem?_concat_cases hj with hj | ⟨hlast, heq⟩
    · exact .inl ⟨hF.numbered j k q hj, hj⟩
    · cases heq
      exact .inr ⟨hlast, rfl, rfl⟩
  refine ⟨fun j k q hj => ?_, fun j j' k q q' hj hj' => ?_, fun k hk => ?_, fun j k q hk hj => ?_, hF.handed, hF.dropped,
    fun j k hj => ?_, hF.queued, fun k hk => ?_⟩
  · change k < s.nextRecord + 1
    rcases hcases hj with ⟨hlt, -⟩ | ⟨-, rfl, -⟩
    · omega
    · omega
  · rcases hcases hj with ⟨hlt, hold⟩ | ⟨hlast, hk, -⟩
    · rcases hcases hj' with ⟨-, hold'⟩ | ⟨-, hk', -⟩
      · exact hF.apart j j' k q q' hold hold'
      · omega
    · rcases hcases hj' with ⟨hlt, -⟩ | ⟨hlast', -, -⟩
      · omega
      · omega
  · change k < s.nextRecord + 1
    have hlt := hF.past k hk
    omega
  · rcases hcases hj with ⟨-, hold⟩ | ⟨-, rfl, -⟩
    · exact hF.done j k q hk hold
    · exact absurd (hF.past _ hk) (lt_irrefl _)
  · rcases hcases hj with ⟨-, hold⟩ | ⟨-, -, hq⟩
    · exact hF.owing j k hold
    · cases hq
  · exact (hF.kept k hk).imp_right fun ⟨j, hj⟩ => ⟨j, getElem?_concat_of hj⟩

theorem delivers_enter {py : Py} {zenoh : Bool} {e : Entry} {p : Code Unit} (hD : Delivers s n)
    (he : enter py zenoh e s = some (p, t)) : Delivers t ⟨n.each ++ [born e s], ()⟩ := by
  have hother : Delivers s ⟨n.each ++ [.other], ()⟩ := ⟨hD.attended.enter (by simp), hD.followed.enter (by simp)⟩
  cases e with
  | setup logging reporting =>
    obtain ⟨-, rfl⟩ := Prod.mk.inj (Option.some.inj he)
    exact hother
  | rebuild logging reporting =>
    obtain ⟨-, rfl⟩ := Prod.mk.inj (Option.some.inj he)
    exact hother
  | report call visits =>
    obtain ⟨r, -, he⟩ := Option.map_eq_some_iff.mp he
    obtain ⟨-, rfl⟩ := Prod.mk.inj he
    refine ⟨?_, hD.followed.enterReport⟩
    have hborn : ∀ k p, At.report s.nextRecord .passing ≠ .worker k p := by simp
    exact (hD.attended.enter hborn).tended (t := { s with nextRecord := s.nextRecord + 1 }) rfl fun _ => ⟨rfl, rfl, rfl⟩
  | worker k rounds =>
    obtain ⟨⟨hlt, -, hidle⟩, he⟩ := Option.ite_none_right_eq_some.mp he
    obtain ⟨-, rfl⟩ := Prod.mk.inj (Option.some.inj he)
    refine ⟨hD.attended.enterWorker hlt hidle, ?_⟩
    have hsame : Followed s ⟨n.each ++ [.worker k .idle], ()⟩ := hD.followed.enter (by simp)
    have hself : ((s.setHandler k fun x => { x with started := true }).handlers k) = { s.handlers k with started := true } :=
      handlers_setHandler_self
    refine hsame.same (h := k) rfl rfl (fun j hj => handlers_setHandler_ne hj) ?_ (fun hd hopen => ?_) fun hd => ?_
    · rw [hself]
      rfl
    · rw [hself, hopen] at hd
      cases hd
    · rw [hself]
      exact hd
  | close k =>
    obtain ⟨-, he⟩ := Option.ite_none_right_eq_some.mp he
    obtain ⟨-, rfl⟩ := Prod.mk.inj (Option.some.inj he)
    exact hother
  | shutdown =>
    obtain ⟨-, rfl⟩ := Prod.mk.inj (Option.some.inj he)
    exact hother

end Invariant

def unmarked (u : Unit) (_ : At) (_ : logSig.Act) : Unit := u

theorem delivers_unconfigured : Delivers unconfigured.shared ⟨[], ()⟩ := by
  refine ⟨⟨fun _ _ => ⟨rfl, rfl⟩, fun k hk => absurd hk (Nat.not_lt_zero k), ?_, ?_, ?_, ?_⟩,
    ⟨?_, ?_, ?_, ?_, ?_, ?_, ?_, fun k hk => ?_, ?_⟩⟩
  any_goals
    intros
    contradiction

/-- Along every run. -/
theorem delivers_exec {py : Py} {zenoh : Bool} {es : List (Ev Entry)} {c : Sys logSig Logging}
    (he : (machine py zenoh).exec unconfigured es = some c) : ∃ n : Notes At Unit, Delivers c.shared n := by
  have hm : (machine py zenoh).MeetsNoted note born unmarked (fun _ _ _ _ => True) unconfigured ⟨[], ()⟩ es :=
    meetsNoted_of_meets (D := fun _ _ => True) (fun _ _ _ _ _ => trivial) (meets_all (fun _ _ => trivial) es _)
  have htied : Tied note Permits unconfigured [] := .nil
  have hsame {s : Logging} {n : Notes At Unit} {i : ℕ} {g : At} (hD : Delivers s n) (hg : n.each[i]? = some g) :
      Delivers s ⟨n.each.set i g, ()⟩ := by
    rw [set_of_getElem? hg]
    exact hD
  have hrun := exec_follows (I := fun s _ n => Delivers s n) ?_ ?_ ?_ ?_ htied delivers_unconfigured hm he
  · exact ⟨_, hrun.2⟩
  · exact fun hI hg hP _ => delivers_act hI hg hP
  · exact fun hI hg _ => hsame hI hg
  · exact fun hI hg _ => hsame hI hg
  · exact fun hI hx => ⟨keeps_enter hx, delivers_enter hI hx⟩

section Kept

variable {py : Py} {zenoh : Bool} {es : List (Ev Entry)} {c : Sys logSig Logging} {m : ℕ}

theorem offered_of_kept (he : (machine py zenoh).exec unconfigured es = some c) (hm : Kept c.shared m) :
    .offered m true ∈ c.shared.history := by
  obtain ⟨n, hD⟩ := delivers_exec he
  rcases hm with hhanded | hdropped | ⟨k, hk, x, hx, rfl⟩
  · exact hD.followed.handed m hhanded
  · exact hD.followed.dropped m hdropped
  · exact hD.followed.queued k hk x hx

theorem kept_of_offered (he : (machine py zenoh).exec unconfigured es = some c) (hm : .returned m ∈ c.shared.history)
    (hoffered : .offered m true ∈ c.shared.history) : Kept c.shared m := by
  obtain ⟨n, hD⟩ := delivers_exec he
  rcases hD.followed.kept m hoffered with hkept | ⟨j, hj⟩
  · exact hkept
  · cases hD.followed.done j m _ hm hj

end Kept

/-- `str.format` of a template whose fields are plain names, from within a field's name on. -/
def formatFields (context : List (String × String)) : Option (List Char) → List Char → Option (List Char)
  | none, [] => some []
  | some _, [] => none
  | none, c :: l =>
    if c = '{' then formatFields context (some []) l
    else if c = '}' then none
    else (formatFields context none l).map (c :: ·)
  | some name, c :: l =>
    if c = '}' then
      (context.lookup (String.ofList name.reverse)).bind fun v => (formatFields context none l).map (v.toList ++ ·)
    else if c = '{' then none
    else formatFields context (some (c :: name)) l

def isNumber : Json → Bool
  | .int _ | .float _ => true
  | _ => false

def plainPy : Py where
  upper s := String.ofList (s.toList.map Char.toUpper)
  floats := isNumber
  format template context := (formatFields context none template.toList).map String.ofList

theorem thirty_pos : 0 < 30 := by decide

/-- Outcomes of commands go to Control. -/
def toControl : ReportingConfig :=
  ⟨30, thirty_pos, [⟨"http", Dict.empty.set "command_status" (.str "https://control/commands/\x7bcid\x7d/status")⟩]⟩

/-- A handler of the config has a template for the route. -/
def HasTemplate (c : ReportingConfig) (r : RouteKey) : Prop :=
  ∃ h ∈ c.handlers, ((templatesOf h.args).get? r.key).getD "" ≠ ""

def outcome : ReportCall := .command "c1" "completed" "Model m.gguf deployed successfully."

/-- The handlers are set up, and the worker of the one that sends is started. -/
def settled : List (Ev Entry) :=
  .enter (.setup ⟨.info, []⟩ toControl) :: List.replicate 8 (.step 0) ++ [.enter (.worker 1 4)]

/-- A report is sent. -/
def reported : List (Ev Entry) := settled ++ .enter (.report outcome 2) :: List.replicate 8 (.step 2) ++ List.replicate 3 (.step 1)

/-- Another thread reports when the new config has closed the old handler. -/
def reportedMeanwhile : List (Ev Entry) :=
  settled ++ .enter (.rebuild ⟨.info, []⟩ toControl) :: List.replicate 7 (.step 2) ++
    .enter (.report outcome 2) :: List.replicate 7 (.step 3) ++ List.replicate 11 (.step 2)

end Logger
end LocaiLink
