/-
# What code does over its whole life

A path of a thread's code is the actions it performs for some answers, to its end
(`Runs`) or up to an action that raises (`Breaks`). What has been done so far is
a ghost state that each action takes on; `Ghost` is the weakest condition under
which every path of the code keeps a condition `E` where it may break and ends in
a postcondition `Q`. Since it is about every answer, it does not matter what other
threads do in between.
-/
import LocaiLink.Base.Prog

namespace LocaiLink
namespace Prog

variable {σ : Sig} {α β G : Type}

/-- With some answers the code performs the actions, in this order, and ends with the result. -/
inductive Runs : Prog σ α → List σ.Act → α → Prop
  | ret (a : α) : Runs (.ret a) [] a
  | act {a : σ.Act} {k : σ.Resp a → Prog σ α} (r : σ.Resp a) {as : List σ.Act} {x : α} (h : Runs (k r) as x) :
      Runs (.act a k) (a :: as) x
  | lock {l : σ.Lock} {k : Prog σ α} {as : List σ.Act} {x : α} (h : Runs k as x) : Runs (.lock l k) as x
  | unlock {l : σ.Lock} {k : Prog σ α} {as : List σ.Act} {x : α} (h : Runs k as x) : Runs (.unlock l k) as x

/-- With some answers the code performs the actions and comes to one more. -/
inductive Breaks : Prog σ α → List σ.Act → σ.Act → Prop
  | here (a : σ.Act) (k : σ.Resp a → Prog σ α) : Breaks (.act a k) [] a
  | act {a : σ.Act} {k : σ.Resp a → Prog σ α} (r : σ.Resp a) {as : List σ.Act} {b : σ.Act} (h : Breaks (k r) as b) :
      Breaks (.act a k) (a :: as) b
  | lock {l : σ.Lock} {k : Prog σ α} {as : List σ.Act} {b : σ.Act} (h : Breaks k as b) : Breaks (.lock l k) as b
  | unlock {l : σ.Lock} {k : Prog σ α} {as : List σ.Act} {b : σ.Act} (h : Breaks k as b) : Breaks (.unlock l k) as b

/-- The actions of the program alone, from a state. -/
def trace {S : Type} (m : Sem σ S) : Prog σ α → S → List σ.Act
  | .ret _, _ => []
  | .act a k, s => a :: trace m (k (m a s).1) (m a s).2
  | .lock _ k, s => trace m k s
  | .unlock _ k, s => trace m k s

theorem trace_bind' {S : Type} (m : Sem σ S) (f : α → Prog σ β) : ∀ (p : Prog σ α) (s : S),
    trace m (p.bind f) s = trace m p s ++ trace m (f (run m p s).1) (run m p s).2
  | .ret _, _ => rfl
  | .act a k, s => congrArg (List.cons a) (trace_bind' m f (k (m a s).1) (m a s).2)
  | .lock _ k, s => trace_bind' m f k s
  | .unlock _ k, s => trace_bind' m f k s

@[simp] theorem trace_bind {S : Type} (m : Sem σ S) (p : Prog σ α) (f : α → Prog σ β) (s : S) :
    trace m (p >>= f) s = trace m p s ++ trace m (f (run m p s).1) (run m p s).2 :=
  trace_bind' m f p s

@[simp] theorem trace_pure {S : Type} (m : Sem σ S) (a : α) (s : S) : trace m (pure a) s = [] := rfl

@[simp] theorem trace_call {S : Type} (m : Sem σ S) (a : σ.Act) (s : S) : trace m (call a) s = [a] := rfl

section Raising

variable {S ε : Type} {m : Sem σ S} {x : ExceptT ε (Prog σ) α} {f : α → ExceptT ε (Prog σ) β} {s : S}

/-- The actions of a sequence, from what its first part returns or raises. -/
theorem trace_ok {a : α} (h : (run m x.run s).1 = .ok a) :
    trace m (x >>= f).run s = trace m x.run s ++ trace m (f a).run (run m x.run s).2 := by
  change trace m (x.run.bind _) s = _
  rw [trace_bind', h]
  rfl

theorem trace_error {e : ε} (h : (run m x.run s).1 = .error e) : trace m (x >>= f).run s = trace m x.run s := by
  change trace m (x.run.bind _) s = _
  rw [trace_bind', h]
  exact List.append_nil _

end Raising

/-- The run of a program alone is one of its paths. -/
theorem runs_trace {S : Type} (m : Sem σ S) : ∀ (p : Prog σ α) (s : S), Runs p (trace m p s) (run m p s).1
  | .ret a, _ => .ret a
  | .act a k, s => .act _ (runs_trace m (k (m a s).1) (m a s).2)
  | .lock _ k, s => .lock (runs_trace m k s)
  | .unlock _ k, s => .unlock (runs_trace m k s)

/-- What every action on the way keeps, the run keeps. -/
theorem run_keeps_trace {S : Type} (m : Sem σ S) {I : S → Prop} : ∀ (p : Prog σ α) (s : S),
    (∀ a ∈ trace m p s, ∀ t, I t → I (m a t).2) → I s → I (run m p s).2
  | .ret _, _, _, hs => hs
  | .act a k, s, h, hs =>
    run_keeps_trace m (k (m a s).1) (m a s).2 (fun b hb => h b (List.mem_cons_of_mem a hb)) (h a List.mem_cons_self s hs)
  | .lock _ k, s, h, hs => run_keeps_trace m k s h hs
  | .unlock _ k, s, h, hs => run_keeps_trace m k s h hs

theorem Only.trace {S : Type} (m : Sem σ S) {P : σ.Act → Prop} : ∀ {p : Prog σ α} {s : S}, p.Only P →
    ∀ a ∈ trace m p s, P a
  | .ret _, _, _, _, h => absurd h List.not_mem_nil
  | .act a k, s, hp, b, h => by
    rcases List.mem_cons.mp h with rfl | h
    · exact hp.1
    · exact (hp.2 (m a s).1).trace m (p := k (m a s).1) b h
  | .lock _ k, _, hp, b, h => Only.trace m (p := k) hp b h
  | .unlock _ k, _, hp, b, h => Only.trace m (p := k) hp b h

/-! ### What is done, with how it went -/

section Logged

variable {S E : Type}

/-- The state with a list of what was done, as it is noted of an action and the state before it. -/
def logged (m : Sem σ S) (note : σ.Act → S → E) : Sem σ (S × List E) :=
  fun a s => ((m a s.1).1, (m a s.1).2, s.2 ++ [note a s.1])

/-- What is noted of the run of a program alone. -/
def events (m : Sem σ S) (note : σ.Act → S → E) : Prog σ α → S → List E
  | .ret _, _ => []
  | .act a k, s => note a s :: events m note (k (m a s).1) (m a s).2
  | .lock _ k, s => events m note k s
  | .unlock _ k, s => events m note k s

/-- The run is the same, and the list is what was noted. -/
theorem run_logged (m : Sem σ S) (note : σ.Act → S → E) : ∀ (p : Prog σ α) (s : S) (l : List E),
    run (logged m note) p (s, l) = ((run m p s).1, (run m p s).2, l ++ events m note p s)
  | .ret _, s, l => by simp [events]
  | .act a k, s, l => by
    have ih := run_logged m note (k (m a s).1) (m a s).2 (l ++ [note a s])
    rw [List.append_assoc, List.singleton_append] at ih
    exact ih
  | .lock _ k, s, l => run_logged m note k s l
  | .unlock _ k, s, l => run_logged m note k s l

end Logged

section Ghost

variable (next : G → σ.Act → G) (E : G → σ.Act → Prop)

/-- From the ghost state every path keeps `E` before each action and ends in `Q`. -/
def Ghost (Q : G → α → Prop) : G → Prog σ α → Prop
  | g, .ret a => Q g a
  | g, .act a k => E g a ∧ ∀ r, Ghost Q (next g a) (k r)
  | g, .lock _ k => Ghost Q g k
  | g, .unlock _ k => Ghost Q g k

variable {next E}

theorem Ghost.runs {Q : G → α → Prop} {p : Prog σ α} {as : List σ.Act} {x : α} (hr : Runs p as x) :
    ∀ {g : G}, Ghost next E Q g p → Q (as.foldl next g) x := by
  induction hr with
  | ret a => exact fun h => h
  | act r hr ih => exact fun h => ih (h.2 r)
  | lock hr ih => exact fun h => ih h
  | unlock hr ih => exact fun h => ih h

theorem Ghost.breaks {Q : G → α → Prop} {p : Prog σ α} {as : List σ.Act} {b : σ.Act} (hb : Breaks p as b) :
    ∀ {g : G}, Ghost next E Q g p → E (as.foldl next g) b := by
  induction hb with
  | here a k => exact fun h => h.1
  | act r hb ih => exact fun h => ih (h.2 r)
  | lock hb ih => exact fun h => ih h
  | unlock hb ih => exact fun h => ih h

theorem Ghost.mono {Q R : G → α → Prop} (hQ : ∀ g a, Q g a → R g a) : ∀ {p : Prog σ α} {g : G},
    Ghost next E Q g p → Ghost next E R g p
  | .ret a, g, h => hQ g a h
  | .act _ k, _, h => ⟨h.1, fun r => (h.2 r).mono (p := k r) hQ⟩
  | .lock _ k, _, h => Ghost.mono (p := k) hQ h
  | .unlock _ k, _, h => Ghost.mono (p := k) hQ h

theorem Ghost.bind' {Q : G → α → Prop} {R : G → β → Prop} {f : α → Prog σ β}
    (hf : ∀ g a, Q g a → Ghost next E R g (f a)) : ∀ {p : Prog σ α} {g : G},
    Ghost next E Q g p → Ghost next E R g (p.bind f)
  | .ret a, g, h => hf g a h
  | .act _ k, _, h => ⟨h.1, fun r => (h.2 r).bind' (p := k r) hf⟩
  | .lock _ k, _, h => Ghost.bind' (p := k) hf h
  | .unlock _ k, _, h => Ghost.bind' (p := k) hf h

theorem Ghost.bind {Q : G → α → Prop} {R : G → β → Prop} {p : Prog σ α} {f : α → Prog σ β} {g : G}
    (h : Ghost next E Q g p) (hf : ∀ g a, Q g a → Ghost next E R g (f a)) : Ghost next E R g (p >>= f) :=
  h.bind' hf

theorem Ghost.locked {Q : G → α → Prop} {p : Prog σ α} {g : G} (h : Ghost next E Q g p) (l : σ.Lock) :
    Ghost next E Q g (locked l p) :=
  h.bind' (R := Q) (f := fun a => .unlock l (.ret a)) fun _ _ h => h

theorem ghost_call {a : σ.Act} {Q : G → σ.Resp a → Prop} {g : G} (hE : E g a) (h : ∀ r, Q (next g a) r) :
    Ghost next E Q g (call a) :=
  ⟨hE, h⟩

/-- Code whose actions leave the ghost state as it is. -/
theorem Only.ghost {P : σ.Act → Prop} {g : G} (hP : ∀ a, P a → E g a ∧ next g a = g) : ∀ {p : Prog σ α},
    p.Only P → Ghost next E (fun g' _ => g' = g) g p
  | .ret _, _ => rfl
  | .act a k, h => by
    obtain ⟨hE, hnext⟩ := hP a h.1
    refine ⟨hE, fun r => ?_⟩
    rw [hnext]
    exact (h.2 r).ghost (p := k r) hP
  | .lock _ k, h => Only.ghost (p := k) hP h
  | .unlock _ k, h => Only.ghost (p := k) hP h

end Ghost

end Prog
end LocaiLink
