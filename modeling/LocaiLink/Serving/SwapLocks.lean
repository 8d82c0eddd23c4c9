/-
# The registry's lock and the managers' locks

`get_swap_manager` takes a manager's lock under the registry's, to register the
callback, and `remove_model` takes the registry's under the manager's when the last model
goes. Where no call of the one kind is between finding a manager and registering its
callback while one of the other kind stops that manager, no two threads wait for each
other (`no_deadlock`). Without that they may (`deadlock`).
-/
import LocaiLink.Serving.References

namespace LocaiLink
namespace LanguageModel

open Machine

namespace Doing

/-- It has found a manager, or made it, and is to register a callback there. -/
def Seeks (m : ℕ) (g : Doing) : Prop := g.asks = true ∧ g.stage = .idle ∧ g.seen.manager = some m

instance (m : ℕ) : DecidablePred (Seeks m) := fun _ => inferInstanceAs (Decidable (_ ∧ _ ∧ _))

/-- A lookup is what makes a thread seek a manager. -/
def Looks : Act → Prop
  | .instanceOf _ | .newManager _ _ _ _ => True
  | _ => False

/-- The answer that no model is left is what makes a thread end a manager. -/
def Empties : (a : Act) → a.Resp → ℕ → Prop
  | .isEmpty m', r, m => m' = m ∧ r = true
  | _, _, _ => False

section Note

variable {a : Act} {r : a.Resp} {g : Doing} {m : ℕ}

theorem seeks_note (hk : g.Knows a) (h : (noteAct a r g).Seeks m) :
    g.Seeks m ∨ (g.asks = true ∧ Looks a ∧ Gives a r m) := by
  unfold noteAct at h
  split at h <;> try exact .inl h
  · cases h.2.2
  · exact .inr ⟨h.1, trivial, congrArg some (Option.some.inj h.2.2)⟩
  · exact .inr ⟨h.1, trivial, Option.some.inj h.2.2⟩
  · obtain ⟨-, hmade⟩ := hk
    refine .inl ⟨h.1, h.2.1, ?_⟩
    rw [hmade]
    exact h.2.2
  all_goals
    first
    | cases h.2.1
    | (split_ifs at h <;> first | exact .inl h | cases h.2.1)

theorem ends_note (h : (noteAct a r g).Ends m) : g.Ends m ∨ Empties a r m := by
  unfold noteAct at h
  split at h <;> try exact .inl h
  case h_15 =>
    rename_i m' r'
    cases r' with
    | true => exact .inr ⟨by simpa [Ends] using h, rfl⟩
    | false => simp [Ends] at h
  all_goals
    first
    | exact .inl (ends_of_down h)
    | (split_ifs at h <;> exact .inl h)
    | (rcases h with h | h <;> cases h)

end Note

theorem seeks_deed {d : Deed swapSig} {g : Doing} {m : ℕ} (hd : ∀ a r, d ≠ .act a r) (h : (g.note d).Seeks m) :
    g.Seeks m := by
  cases d with
  | act a r => exact absurd rfl (hd a r)
  | lock l => exact h
  | unlock l =>
    cases l with
    | global => cases h.2.2
    | manager m' => exact h

theorem ends_deed {d : Deed swapSig} {g : Doing} {m : ℕ} (hd : ∀ a r, d ≠ .act a r) (h : (g.note d).Ends m) :
    g.Ends m := by
  cases d with
  | act a r => exact absurd rfl (hd a r)
  | lock l => exact h
  | unlock l =>
    cases l with
    | global => exact h
    | manager m' => rcases h with h | h <;> cases h

end Doing

/-! ### The invariant -/

open Doing

/-- No lookup finds a manager that another thread stops, and no manager is found without
models between a lookup that found it and its callback. -/
def NoMeeting (s : Plugin) (n : Notes Doing Unit) (g : Doing) : Act → Prop
  | .instanceOf key => g.asks = true → ∀ m ∈ s.instances.get? key, ∀ g' ∈ n.each, ¬g'.Ends m
  | .isEmpty m => (s.managers m).models.entries.isEmpty = true → ∀ g' ∈ n.each, ¬g'.Seeks m
  | _ => True

instance (s : Plugin) (n : Notes Doing Unit) (g : Doing) (a : Act) : Decidable (NoMeeting s n g a) := by
  cases a with
  | instanceOf key =>
    exact inferInstanceAs (Decidable (g.asks = true → ∀ m ∈ s.instances.get? key, ∀ g' ∈ n.each, ¬g'.Ends m))
  | isEmpty m =>
    exact inferInstanceAs (Decidable ((s.managers m).models.entries.isEmpty = true → ∀ g' ∈ n.each, ¬g'.Seeks m))
  | _ => exact inferInstanceAs (Decidable True)

/-- No thread seeks a manager that one ends. -/
structure Orderly (s : Plugin) (held : swapSig.Lock → Option (ℕ × ℕ)) (n : Notes Doing Unit) : Prop
    extends Referring s held n where
  ends : ∀ g ∈ n.each, ∀ m, g.Ends m → m < s.nextManager
  apart : ∀ g ∈ n.each, ∀ g' ∈ n.each, ∀ m, g.Seeks m → ¬g'.Ends m

section Orderly

variable {s : Plugin} {held held' : swapSig.Lock → Option (ℕ × ℕ)} {n : Notes Doing Unit} {i : ℕ} {g : Doing}

theorem Orderly.act (h : Orderly s held n) (hg : n.each[i]? = some g) {a : Act} (hk : g.Knows a) (hC : NoMeeting s n g a) :
    Orderly (Plugin.perform a s).2 held (n.deed (σ := swapSig) note unmarked i g (.act a (Plugin.perform a s).1)) := by
  have hmem : g ∈ n.each := List.mem_of_getElem? hg
  have hle : s.nextManager ≤ (Plugin.perform a s).2.nextManager := perform_nextManager a s
  refine ⟨h.toReferring.act hg hk, ?_, ?_⟩
  · intro g' hg' m hm
    rcases mem_deed hg' with hold | rfl
    · exact (h.ends g' hold m hm).trans_le hle
    · rcases ends_note hm with hm | hm
      · exact (h.ends g hmem m hm).trans_le hle
      · cases a with
        | isEmpty m' =>
          obtain ⟨rfl, -⟩ := hm
          exact (h.known g hmem m' hk).trans_le hle
        | _ => exact hm.elim
  · intro g₁ hg₁ g₂ hg₂ m hseeks hends
    have hseeks : (∃ g₁ ∈ n.each, g₁.Seeks m) ∨ (g.asks = true ∧ Looks a ∧ Gives a (Plugin.perform a s).1 m) := by
      rcases mem_deed hg₁ with hold | rfl
      · exact .inl ⟨g₁, hold, hseeks⟩
      · exact (seeks_note hk hseeks).imp_left fun hs => ⟨g, hmem, hs⟩
    have hends : (∃ g₂ ∈ n.each, g₂.Ends m) ∨ Empties a (Plugin.perform a s).1 m := by
      rcases mem_deed hg₂ with hold | rfl
      · exact .inl ⟨g₂, hold, hends⟩
      · exact (ends_note hends).imp_left fun hs => ⟨g, hmem, hs⟩
    rcases hseeks with ⟨f₁, hf₁, hseeks⟩ | ⟨hasks, hlooks, hgives⟩
    · rcases hends with ⟨f₂, hf₂, hends⟩ | hempties
      · exact h.apart f₁ hf₁ f₂ hf₂ m hseeks hends
      · cases a with
        | isEmpty m' =>
          obtain ⟨rfl, hempty⟩ := hempties
          exact hC hempty f₁ hf₁ hseeks
        | _ => exact hempties.elim
    · cases a with
      | instanceOf key =>
        rcases hends with ⟨f₂, hf₂, hends⟩ | hempties
        · exact hC hasks m hgives f₂ hf₂ hends
        · exact hempties.elim
      | newManager =>
        obtain rfl : s.nextManager = m := hgives
        rcases hends with ⟨f₂, hf₂, hends⟩ | hempties
        · exact Nat.lt_irrefl _ (h.ends f₂ hf₂ _ hends)
        · exact hempties.elim
      | _ => exact hlooks.elim

/-- Taking and releasing a lock. -/
theorem Orderly.deed (h : Orderly s held n) (hg : n.each[i]? = some g) {d : Deed swapSig} (hd : ∀ a r, d ≠ .act a r)
    (hr : Referring s held' (n.deed note unmarked i g d)) : Orderly s held' (n.deed note unmarked i g d) := by
  have hmem : g ∈ n.each := List.mem_of_getElem? hg
  refine ⟨hr, ?_, ?_⟩
  · intro g' hg' m hm
    rcases mem_deed hg' with hold | rfl
    · exact h.ends g' hold m hm
    · exact h.ends g hmem m (ends_deed hd hm)
  · intro g₁ hg₁ g₂ hg₂ m hseeks hends
    obtain ⟨g₁, hg₁, hseeks⟩ : ∃ g₁ ∈ n.each, g₁.Seeks m := by
      rcases mem_deed hg₁ with hold | rfl
      · exact ⟨g₁, hold, hseeks⟩
      · exact ⟨g, hmem, seeks_deed hd hseeks⟩
    obtain ⟨g₂, hg₂, hends⟩ : ∃ g₂ ∈ n.each, g₂.Ends m := by
      rcases mem_deed hg₂ with hold | rfl
      · exact ⟨g₂, hold, hends⟩
      · exact ⟨g, hmem, ends_deed hd hends⟩
    exact h.apart g₁ hg₁ g₂ hg₂ m hseeks hends

theorem Orderly.append (h : Orderly s held n) {x : Entry} {p : Code Unit} {s' : Plugin} (hx : enter x s = some (p, s')) :
    Orderly s held ⟨n.each ++ [born x s], n.all⟩ := by
  have hs := born_starts x s
  have hends (m : ℕ) : ¬(born x s).Ends m := by
    rintro (hends | hends) <;> (rw [hs.leaving] at hends; cases hends)
  have hseeks (m : ℕ) : ¬(born x s).Seeks m := by
    rintro ⟨-, -, hseen⟩
    rw [hs.seen] at hseen
    cases hseen
  refine ⟨h.toReferring.append hx, ?_, ?_⟩
  · intro g hg m hm
    rcases List.mem_append.mp hg with hg | hg
    · exact h.ends g hg m hm
    · rw [List.mem_singleton.mp hg] at hm
      exact absurd hm (hends m)
  · intro g₁ hg₁ g₂ hg₂ m h₁ h₂
    rcases List.mem_append.mp hg₁ with hg₁ | hg₁
    · rcases List.mem_append.mp hg₂ with hg₂ | hg₂
      · exact h.apart g₁ hg₁ g₂ hg₂ m h₁ h₂
      · rw [List.mem_singleton.mp hg₂] at h₂
        exact hends m h₂
    · rw [List.mem_singleton.mp hg₁] at h₁
      exact hseeks m h₁

end Orderly

/-! ### No deadlock -/

/-- One thread holds the registry's lock and waits for a manager's, which another holds
that waits for the registry's. -/
def Deadlocked (M : Machine swapSig Plugin Entry) (c : Sys swapSig Plugin) (i j m : ℕ) : Prop :=
  (Holding c.held Lock.global i ∧ M.Waits c i (.manager m)) ∧
    Holding c.held (Lock.manager m) j ∧ M.Waits c j .global

instance (M : Machine swapSig Plugin Entry) (c : Sys swapSig Plugin) (i j m : ℕ) : Decidable (Deadlocked M c i j m) :=
  @instDecidableAnd _ _ (@instDecidableAnd _ _ (decidableHolding (σ := swapSig) _ _ _) (decidableWaits (σ := swapSig) _ _ _))
    (@instDecidableAnd _ _ (decidableHolding (σ := swapSig) _ _ _) (decidableWaits (σ := swapSig) _ _ _))

section Deadlock

variable {admits : Entry → Bool} {s : Plugin} {es : List (Ev Entry)} {c : Sys swapSig Plugin}

/-- In every state of a run all code keeps to the terms, and `Orderly` holds. -/
theorem orderly_run (hs : Orderly s (fun _ => none) ⟨[], ()⟩)
    (hm : (machine admits).MeetsNoted note born unmarked NoMeeting (load s) ⟨[], ()⟩ es)
    (he : (machine admits).exec (load s) es = some c) :
    ∃ n : Notes Doing Unit, Bound note terms c n.each ∧ Orderly c.shared c.held n := by
  have hstart : Bound note terms (load s) [] := .nil
  refine ⟨_, exec_obeys (C := NoMeeting) (I := Orderly) ?_ ?_ ?_ ?_ hstart hs hm he⟩
  · intro s held n i g a h hg hT hC
    exact h.act hg hT.1 hC
  · intro s held held' n i g l h hg hmay hl
    exact h.deed hg (fun _ _ hd => by cases hd) (h.toReferring.lock hg hmay hl)
  · intro s held held' n i g l h hg _ hl
    exact h.deed hg (fun _ _ hd => by cases hd) (h.toReferring.unlock hg hl)
  · intro s held n x p s' h hx
    obtain ⟨-, hx⟩ := Option.ite_none_right_eq_some.mp hx
    obtain ⟨rfl, hobeys⟩ := obeys_enter hx
    exact ⟨hobeys, h.append hx⟩

/-- **No deadlock.** Where the condition is met, no thread holds the registry's lock and
waits for a manager's while another holds that one and waits for the registry's. -/
theorem no_deadlock (windows : Bool) (cwd : Path) (configs : ℤ → Option (List Char)) (pids : ℤ → Option ℤ)
    (oracle : Query → ℕ → Answer)
    (hm : (machine admits).MeetsNoted note born unmarked NoMeeting (load (fresh windows cwd configs pids oracle)) ⟨[], ()⟩ es)
    (he : (machine admits).exec (load (fresh windows cwd configs pids oracle)) es = some c) (i j m : ℕ) :
    ¬Deadlocked (machine admits) c i j m := by
  rintro ⟨⟨hglobal, ⟨k, hk⟩, -⟩, hmanager, ⟨k', hk'⟩, -⟩
  have hstart : Orderly (fresh windows cwd configs pids oracle) (fun _ => none) ⟨[], ()⟩ :=
    ⟨referring_fresh windows cwd configs pids oracle, fun g hg => (by cases hg), fun g hg => (by cases hg)⟩
  obtain ⟨n, hbound, h⟩ := orderly_run hstart hm he
  obtain ⟨g, hg, -⟩ := hbound.ghost hk
  obtain ⟨g', hg', -⟩ := hbound.ghost hk'
  -- the one seeks the manager, the other ends it
  have hseeks : g.Seeks m := by
    obtain ⟨hasks, hidle, key, hseen⟩ := (hbound.wait hg hk).2 ((h.locks.holding_iff (map_holds hg)).mp hglobal)
    exact ⟨hasks, hidle, by rw [hseen]; rfl⟩
  have hends : g'.Ends m := by
    obtain ⟨-, hdown⟩ := hbound.wait hg' hk'
    exact .inr (hdown m ((h.locks.holding_iff (map_holds hg')).mp hmanager))
  exact h.apart g (List.mem_of_getElem? hg) g' (List.mem_of_getElem? hg') m hseeks hends

end Deadlock

/-! ### A model that goes while another comes -/

/-- A model is served; it is stopped up to where its manager leaves the registry. -/
def goes : List (Ev Entry) :=
  .enter (.create (specOn 8100 "a")) :: List.replicate 34 (.step 0) ++
    .enter (.stop 0) :: List.replicate 14 (.step 1)

/-- The next one finds that manager. -/
theorem deadlock : ∃ es c, (machine fun _ => true).exec calmStart es = some c ∧
    Deadlocked (machine fun _ => true) c 2 1 0 := by
  have hrun : ((machine fun _ => true).exec calmStart
      (goes ++ .enter (.create (specOn 8100 "b")) :: List.replicate 6 (.step 2))).any
        (fun c => Deadlocked (machine fun _ => true) c 2 1 0) = true := by
    decide +kernel
  obtain ⟨c, hc, hdead⟩ := (Option.any_eq_true _ _).mp hrun
  exact ⟨_, c, hc, of_decide_eq_true hdead⟩

/-- Another model that comes then finds no manager once the stop is done. -/
theorem no_deadlock_late : ∃ c, (machine fun _ => true).exec calmStart
    (goes ++ .enter (.create (specOn 8100 "b")) :: List.replicate 4 (.step 2) ++ List.replicate 4 (.step 1) ++
      List.replicate 30 (.step 2)) = some c ∧ ¬Deadlocked (machine fun _ => true) c 2 1 0 := by
  have hmeets : (machine fun _ => true).checksNoted note born unmarked (fun s n g (a : Act) => decide (NoMeeting s n g a))
      calmStart ⟨[], ()⟩ (goes ++ .enter (.create (specOn 8100 "b")) :: List.replicate 4 (.step 2) ++
        List.replicate 4 (.step 1) ++ List.replicate 30 (.step 2)) = true := by
    decide +kernel
  have hrun : ((machine fun _ => true).exec calmStart (goes ++ .enter (.create (specOn 8100 "b")) ::
      List.replicate 4 (.step 2) ++ List.replicate 4 (.step 1) ++ List.replicate 30 (.step 2))).isSome = true := by
    decide +kernel
  obtain ⟨c, hc⟩ := Option.isSome_iff_exists.mp hrun
  exact ⟨c, hc, no_deadlock false (Path.ofString "/srv") (fun _ => none) (fun _ => none) calm
    (meetsNoted_of_checks (fun _ _ _ (a : Act) (h : decide (NoMeeting _ _ _ a) = true) => of_decide_eq_true h) hmeets) hc 2 1 0⟩

end LanguageModel
end LocaiLink
