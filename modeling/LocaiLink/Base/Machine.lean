/-
# Threads of programs

A `Machine` interleaves any number of threads, an action at a time, with the
locks respected, and lets new threads enter. What holds of every action holds of
every run: `holds_of_meets` is the invariant rule, and `holds_iff_meets` its
exact form, for a condition that says precisely which actions keep the
invariant. `exec_view` reads a run off the actions it performs, and
`exec_followed` is the rule for a debt that each thread pays later in its code.
-/
import Mathlib.Logic.Function.Basic
import LocaiLink.Base.Prog

namespace LocaiLink

/-- The shared state, the locks that are held (by which thread, how often), and
the code each thread has left. -/
structure Sys (σ : Sig) (S : Type) where
  shared : S
  held : σ.Lock → Option (ℕ × ℕ)
  threads : List (Prog σ Unit)

/-- A thread takes its next step, or a new thread enters. -/
inductive Ev (E : Type) : Type
  | step (i : ℕ)
  | enter (e : E)
  deriving DecidableEq

/-- What the actions do, which locks their holder may take again, and the code
of a thread that enters (`none` when it may not enter now). -/
structure Machine (σ : Sig) (S E : Type) where
  sem : Prog.Sem σ S
  reentrant : σ.Lock → Bool
  enter : E → S → Option (Prog σ Unit × S)

namespace Machine

variable {σ : Sig} {S E : Type} [DecidableEq σ.Lock] (M : Machine σ S E)

/-- Thread `i` takes lock `l`, unless another thread holds it. -/
def acquire (held : σ.Lock → Option (ℕ × ℕ)) (l : σ.Lock) (i : ℕ) :
    Option (σ.Lock → Option (ℕ × ℕ)) :=
  match held l with
  | none => some (Function.update held l (some (i, 1)))
  | some (j, n) =>
    if j = i ∧ M.reentrant l = true then some (Function.update held l (some (i, n + 1))) else none

/-- Thread `i` releases lock `l`. -/
def release (held : σ.Lock → Option (ℕ × ℕ)) (l : σ.Lock) (i : ℕ) :
    Option (σ.Lock → Option (ℕ × ℕ)) :=
  match held l with
  | some (j, n + 2) => if j = i then some (Function.update held l (some (i, n + 1))) else none
  | some (j, _) => if j = i then some (Function.update held l none) else none
  | none => none

/-- One event, `none` when it is not enabled. -/
def step (c : Sys σ S) : Ev E → Option (Sys σ S)
  | .step i =>
    match c.threads[i]? with
    | some (.act a k) =>
      some { c with shared := (M.sem a c.shared).2, threads := c.threads.set i (k (M.sem a c.shared).1) }
    | some (.lock l k) =>
      (M.acquire c.held l i).map fun h => { c with held := h, threads := c.threads.set i k }
    | some (.unlock l k) =>
      (release c.held l i).map fun h => { c with held := h, threads := c.threads.set i k }
    | _ => none
  | .enter e =>
    (M.enter e c.shared).map fun p => { c with shared := p.2, threads := c.threads ++ [p.1] }

/-- The action an event performs, if it performs one. -/
def performs (c : Sys σ S) : Ev E → Option σ.Act
  | .step i =>
    match c.threads[i]? with
    | some (.act a _) => some a
    | _ => none
  | .enter _ => none

/-- The state a list of events leads to, `none` when one of them is not enabled. -/
def exec (c : Sys σ S) : List (Ev E) → Option (Sys σ S)
  | [] => some c
  | e :: es => (M.step c e).bind fun c' => exec c' es

variable {M} in
theorem exec_append : ∀ {es fs : List (Ev E)} {c d e : Sys σ S}, M.exec c es = some d → M.exec d fs = some e →
    M.exec c (es ++ fs) = some e
  | [], _, _, _, _, h, h' => Option.some.inj h ▸ h'
  | _ :: _, _, _, _, _, h, h' => by
    obtain ⟨c', hc, h⟩ := Option.bind_eq_some_iff.mp h
    exact Option.bind_eq_some_iff.mpr ⟨c', hc, exec_append h h'⟩

/-- `I` holds of the shared state at the start and after each event. -/
def Holds (I : S → Prop) (c : Sys σ S) : List (Ev E) → Prop
  | [] => I c.shared
  | e :: es => I c.shared ∧ ∀ c', M.step c e = some c' → Holds I c' es

/-- Every action the events perform meets `C` in the state before it. -/
def Meets (C : σ.Act → S → Prop) (c : Sys σ S) : List (Ev E) → Prop
  | [] => True
  | e :: es => (∀ a, performs c e = some a → C a c.shared) ∧
      ∀ c', M.step c e = some c' → Meets C c' es

/-- What an event does to the shared state: an action's effect, nothing (a lock,
a release), or what entering does. -/
theorem step_shared {c c' : Sys σ S} {e : Ev E} (h : M.step c e = some c') :
    (∃ a, performs c e = some a ∧ c'.shared = (M.sem a c.shared).2) ∨
      (performs c e = none ∧ c'.shared = c.shared) ∨
      (performs c e = none ∧ ∃ x p, e = .enter x ∧ M.enter x c.shared = some (p, c'.shared)) := by
  cases e with
  | step i =>
    simp only [step] at h
    simp only [performs]
    split at h
    · rename_i a k hk
      left
      refine ⟨a, by rw [hk], ?_⟩
      simp only [Option.some.injEq] at h
      rw [← h]
    · rename_i l k hk
      right; left
      obtain ⟨x, -, rfl⟩ := Option.map_eq_some_iff.mp h
      exact ⟨by rw [hk], rfl⟩
    · rename_i l k hk
      right; left
      obtain ⟨x, -, rfl⟩ := Option.map_eq_some_iff.mp h
      exact ⟨by rw [hk], rfl⟩
    · cases h
  | enter x =>
    right; right
    simp only [step] at h
    obtain ⟨⟨p, s⟩, hp, rfl⟩ := Option.map_eq_some_iff.mp h
    exact ⟨rfl, x, p, rfl, hp⟩

theorem performs_step {c : Sys σ S} {e : Ev E} {a : σ.Act} (h : performs c e = some a) :
    ∃ c', M.step c e = some c' ∧ c'.shared = (M.sem a c.shared).2 := by
  cases e with
  | step i =>
    simp only [performs] at h
    split at h
    · rename_i a' k hk
      simp only [Option.some.injEq] at h
      subst h
      exact ⟨_, by simp only [step, hk]; rfl, rfl⟩
    · cases h
  | enter x => simp [performs] at h

variable {M}

/-- **The invariant rule.** If entering keeps `I` and every action that meets `C`
keeps it, then `I` holds along every run whose actions all meet `C`. -/
theorem holds_of_meets {I : S → Prop} {C : σ.Act → S → Prop}
    (hact : ∀ a s, I s → C a s → I (M.sem a s).2)
    (henter : ∀ x s p s', M.enter x s = some (p, s') → I s → I s') :
    ∀ (es : List (Ev E)) (c : Sys σ S), I c.shared → M.Meets C c es → M.Holds I c es
  | [], _, hI, _ => hI
  | e :: es, c, hI, hm => by
    refine ⟨hI, fun c' hc => holds_of_meets hact henter es c' ?_ (hm.2 c' hc)⟩
    rcases M.step_shared hc with ⟨a, ha, hs⟩ | ⟨-, hs⟩ | ⟨-, x, p, -, hx⟩
    · rw [hs]; exact hact a _ hI (hm.1 a ha)
    · rw [hs]; exact hI
    · exact henter x _ p _ hx hI

/-- **The exact form.** If, where `I` holds, an action keeps it precisely when it
meets `C`, then `I` holds along a run precisely when its actions all meet `C`. -/
theorem holds_iff_meets {I : S → Prop} {C : σ.Act → S → Prop}
    (hact : ∀ a s, I s → (I (M.sem a s).2 ↔ C a s))
    (henter : ∀ x s p s', M.enter x s = some (p, s') → I s → I s')
    (es : List (Ev E)) (c : Sys σ S) (hI : I c.shared) : M.Holds I c es ↔ M.Meets C c es := by
  refine ⟨fun hh => ?_, holds_of_meets (fun a s hs hc => (hact a s hs).mpr hc) henter es c hI⟩
  induction es generalizing c with
  | nil => trivial
  | cons e es ih =>
    have hnext : ∀ c', M.step c e = some c' → I c'.shared := fun c' hc => by
      have := hh.2 c' hc
      cases es with
      | nil => exact this
      | cons => exact this.1
    refine ⟨fun a ha => ?_, fun c' hc => ih c' (hnext c' hc) (hh.2 c' hc)⟩
    obtain ⟨c', hc, hs⟩ := performs_step M ha
    exact (hact a _ hI).mp (hs ▸ hnext c' hc)

/-- Along a run, `I` holds of the state the run ends in. -/
theorem Holds.last {I : S → Prop} : ∀ {es : List (Ev E)} {c d : Sys σ S},
    M.Holds I c es → M.exec c es = some d → I d.shared
  | [], c, d, h, he => by
    simp only [exec, Option.some.injEq] at he
    exact he ▸ h
  | e :: es, c, d, h, he => by
    obtain ⟨c', hc, he⟩ := Option.bind_eq_some_iff.mp he
    exact (h.2 c' hc).last he

/-- Along a run, the action of the last event meets `C`. -/
theorem Meets.last {C : σ.Act → S → Prop} : ∀ {es : List (Ev E)} {e : Ev E} {c d : Sys σ S} {a : σ.Act},
    M.Meets C c (es ++ [e]) → M.exec c es = some d → performs d e = some a → C a d.shared
  | [], _, _, _, a, hm, he, ha => by
    obtain rfl := Option.some.inj he
    exact hm.1 a ha
  | _ :: _, _, _, _, _, hm, he, ha => by
    obtain ⟨c', hc, he⟩ := Option.bind_eq_some_iff.mp he
    exact (hm.2 c' hc).last he ha

/-- A condition that every action meets is no condition. -/
theorem meets_all {C : σ.Act → S → Prop} (h : ∀ a s, C a s) : ∀ (es : List (Ev E)) (c : Sys σ S), M.Meets C c es
  | [], _ => trivial
  | _ :: es, _ => ⟨fun a _ => h a _, fun c' _ => meets_all h es c'⟩

/-- A check of the actions of a run. -/
def checks (M : Machine σ S E) (check : σ.Act → S → Bool) (c : Sys σ S) : List (Ev E) → Bool
  | [] => true
  | e :: es => (performs c e).all (fun a => check a c.shared) &&
      ((M.step c e).map fun c' => checks M check c' es).getD true

/-- A condition that can be checked is met where the check succeeds. -/
theorem meets_of_checks {C : σ.Act → S → Prop} {check : σ.Act → S → Bool} (h : ∀ a s, check a s = true → C a s) :
    ∀ {es : List (Ev E)} {c : Sys σ S}, M.checks check c es = true → M.Meets C c es
  | [], _, _ => trivial
  | e :: es, c, hc => by
    rw [checks, Bool.and_eq_true] at hc
    refine ⟨fun a ha => ?_, fun c' hstep => meets_of_checks h ?_⟩
    · have hall := hc.1
      rw [ha] at hall
      exact h a _ hall
    · have hrest := hc.2
      rw [hstep] at hrest
      exact hrest

/-! ### What a run has performed -/

/-- The actions the events perform, in order. -/
def trace (M : Machine σ S E) (c : Sys σ S) : List (Ev E) → List σ.Act
  | [] => []
  | e :: es => (performs c e).toList ++ ((M.step c e).map fun c' => trace M c' es).getD []

/-- A view of the state that each action changes in its own way, along a run. -/
theorem exec_view {β : Type} {I : S → Prop} {C : σ.Act → S → Prop} (view : S → β) (f : β → σ.Act → β)
    (hact : ∀ a s, I s → C a s → I (M.sem a s).2 ∧ view (M.sem a s).2 = f (view s) a)
    (henter : ∀ x s p s', M.enter x s = some (p, s') → I s → I s' ∧ view s' = view s) :
    ∀ {es : List (Ev E)} {c d : Sys σ S}, I c.shared → M.Meets C c es → M.exec c es = some d →
      I d.shared ∧ view d.shared = (M.trace c es).foldl f (view c.shared)
  | [], c, d, hI, _, he => by
    obtain rfl := Option.some.inj he
    exact ⟨hI, rfl⟩
  | e :: es, c, d, hI, hm, he => by
    obtain ⟨c', hc, he⟩ := Option.bind_eq_some_iff.mp he
    have hnext : I c'.shared ∧ view c'.shared = (performs c e).toList.foldl f (view c.shared) := by
      rcases M.step_shared hc with ⟨a, ha, hs⟩ | ⟨ha, hs⟩ | ⟨ha, x, p, -, hx⟩
      · rw [hs, ha]
        exact hact a _ hI (hm.1 a ha)
      · rw [hs, ha]
        exact ⟨hI, rfl⟩
      · rw [ha]
        exact henter x _ p _ hx hI
    obtain ⟨hI', hview⟩ := exec_view view f hact henter hnext.1 (hm.2 c' hc) he
    refine ⟨hI', ?_⟩
    rw [hview, hnext.2, trace, hc, List.foldl_append]
    rfl

/-! ### A debt that is paid later in the code -/

/-- Every thread's `P` actions are followed by `Q` actions, and the state is
`Clean` unless a thread still comes to a `Q` action. -/
structure Owes (P Q : σ.Act → Prop) (Clean : S → Prop) (c : Sys σ S) : Prop where
  followed : ∀ p ∈ c.threads, p.Followed P Q
  clean : Clean c.shared ∨ ∃ p ∈ c.threads, p.Comes Q

omit [DecidableEq σ.Lock] in
theorem Owes.replace {P Q : σ.Act → Prop} {Clean : S → Prop} {c : Sys σ S} (h : Owes P Q Clean c) {i : ℕ}
    {p q : Prog σ Unit} (hi : c.threads[i]? = some p) {s : S} {held : σ.Lock → Option (ℕ × ℕ)}
    (hq : q.Followed P Q) (hclean : Clean c.shared → Clean s ∨ q.Comes Q) (hcomes : p.Comes Q → Clean s ∨ q.Comes Q) :
    Owes P Q Clean ⟨s, held, c.threads.set i q⟩ := by
  have hlt : i < c.threads.length := (List.getElem?_eq_some_iff.mp hi).1
  have hmem : q ∈ c.threads.set i q := List.mem_set hlt q
  have hlater : Clean s ∨ q.Comes Q → Clean s ∨ ∃ p ∈ c.threads.set i q, p.Comes Q :=
    fun h => h.imp_right fun h => ⟨q, hmem, h⟩
  refine ⟨fun p' hp' => ?_, ?_⟩
  · rcases List.mem_or_eq_of_mem_set hp' with hp' | rfl
    · exact h.followed p' hp'
    · exact hq
  · rcases h.clean with hc | ⟨p', hp', hcome⟩
    · exact hlater (hclean hc)
    · obtain ⟨j, hj⟩ := List.mem_iff_getElem?.mp hp'
      by_cases hij : i = j
      · subst hij
        rw [hi, Option.some.injEq] at hj
        exact hlater (hcomes (hj ▸ hcome))
      · have hj' : (c.threads.set i q)[j]? = some p' := by rw [List.getElem?_set_ne hij, hj]
        exact .inr ⟨p', List.mem_of_getElem? hj', hcome⟩

/-- **The debt rule.** If a `Q` action leaves the state clean, and only `P`
actions spoil a clean state, then along every run whose actions meet `C` the
state is clean unless a thread still comes to a `Q` action. -/
theorem exec_followed {P Q : σ.Act → Prop} {C : σ.Act → S → Prop} {Clean : S → Prop}
    (hpay : ∀ a s, Q a → C a s → Clean (M.sem a s).2)
    (hkeep : ∀ a s, ¬P a → C a s → Clean s → Clean (M.sem a s).2)
    (henter : ∀ x s p s', M.enter x s = some (p, s') → p.Followed P Q ∧ (Clean s → Clean s')) :
    ∀ {es : List (Ev E)} {c d : Sys σ S}, Owes P Q Clean c → M.Meets C c es → M.exec c es = some d →
      Owes P Q Clean d
  | [], c, d, h, _, he => Option.some.inj he ▸ h
  | e :: es, c, d, h, hm, he => by
    obtain ⟨c', hc, he⟩ := Option.bind_eq_some_iff.mp he
    refine exec_followed hpay hkeep henter ?_ (hm.2 c' hc) he
    cases e with
    | step i =>
      simp only [step] at hc
      split at hc
      · rename_i a k hk
        obtain rfl := Option.some.inj hc
        have hfollowed : (Prog.act a k).Followed P Q := h.followed _ (List.mem_of_getElem? hk)
        have hC : C a c.shared := hm.1 a (by simp only [performs, hk])
        refine h.replace hk (hfollowed.2 _) (fun hclean => ?_) fun hcomes => ?_
        · by_cases hP : P a
          · exact .inr (hfollowed.1 hP _)
          · exact .inl (hkeep a _ hP hC hclean)
        · rcases hcomes with hQ | hcomes
          · exact .inl (hpay a _ hQ hC)
          · exact .inr (hcomes _)
      · rename_i l k hk
        obtain ⟨held, -, rfl⟩ := Option.map_eq_some_iff.mp hc
        have hfollowed : (Prog.lock l k).Followed P Q := h.followed _ (List.mem_of_getElem? hk)
        exact h.replace hk hfollowed .inl .inr
      · rename_i l k hk
        obtain ⟨held, -, rfl⟩ := Option.map_eq_some_iff.mp hc
        have hfollowed : (Prog.unlock l k).Followed P Q := h.followed _ (List.mem_of_getElem? hk)
        exact h.replace hk hfollowed .inl .inr
      · cases hc
    | enter x =>
      simp only [step] at hc
      obtain ⟨⟨p, s⟩, hp, rfl⟩ := Option.map_eq_some_iff.mp hc
      obtain ⟨hfollowed, hclean⟩ := henter x _ p s hp
      refine ⟨fun q hq => ?_, ?_⟩
      · rcases List.mem_append.mp hq with hq | hq
        · exact h.followed q hq
        · rw [List.mem_singleton.mp hq]
          exact hfollowed
      · rcases h.clean with hc | ⟨q, hq, hcomes⟩
        · exact .inl (hclean hc)
        · exact .inr ⟨q, List.mem_append_left _ hq, hcomes⟩

end Machine
end LocaiLink
