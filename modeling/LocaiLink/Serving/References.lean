/-
# References to managers

What each action changes of the registry, the managers and the adapters, and what holds of
every run: the ghost states say which locks are held, and every manager that a thread, the
registry or an adapter refers to has been made.
-/
import LocaiLink.Serving.Adapters

namespace LocaiLink
namespace LanguageModel

open Machine

namespace Doing

/-- The managers an answer is a reference to. -/
def Gives : (a : Act) → a.Resp → ℕ → Prop
  | .instanceOf _, r, m => r = some m
  | .newManager _ _ _ _, r, m => r = m
  | .adapter _, x, m => x.swapManager = some m
  | _, _, _ => False

/-- It has taken out a manager's last model, and the manager is not yet out of the registry. -/
def Ends (m : ℕ) (g : Doing) : Prop := g.leaving = .emptied m ∨ g.leaving = .downed m

instance (m : ℕ) : DecidablePred (Ends m) := fun _ => inferInstanceAs (Decidable (_ ∨ _))

section Note

variable {a : Act} {r : a.Resp} {g : Doing} {m : ℕ}

theorem known_note (h : m ∈ (noteAct a r g).known) : m ∈ g.known ∨ Gives a r m := by
  unfold noteAct at h
  split at h <;> try exact .inl h
  · rcases List.mem_cons.mp h with rfl | h
    · exact .inr rfl
    · exact .inl h
  · rcases List.mem_cons.mp h with rfl | h
    · exact .inr rfl
    · exact .inl h
  · rcases List.mem_append.mp h with h | h
    · exact .inr (Option.mem_toList.mp h)
    · exact .inl h
  all_goals
    split_ifs at h <;> exact .inl h

theorem ends_of_down {m' : ℕ} (h : g.leaving.down m' = .emptied m ∨ g.leaving.down m' = .downed m) : g.Ends m := by
  unfold Leaving.down at h
  split_ifs at h with hl
  · simp only [false_or, Leaving.downed.injEq] at h
    subst h
    exact .inl hl
  · exact h

end Note

theorem known_deed {d : Deed swapSig} {g : Doing} (hd : ∀ a r, d ≠ .act a r) : (g.note d).known = g.known := by
  cases d with
  | act a r => exact absurd rfl (hd a r)
  | lock l => rfl
  | unlock l => cases l <;> rfl

/-- The locks change where a lock is taken or released. -/
theorem locks_note (a : Act) (r : a.Resp) (g : Doing) : (noteAct a r g).locks = g.locks := by
  unfold noteAct
  split <;> first | rfl | (split_ifs <;> rfl)

end Doing

/-! ### What an action changes -/

/-- The registry, the managers and the adapters are the same. -/
structure SameCore (s t : Plugin) : Prop where
  instances : t.instances = s.instances
  managers : t.managers = s.managers
  nextManager : t.nextManager = s.nextManager
  adapters : t.adapters = s.adapters
  nextAdapter : t.nextAdapter = s.nextAdapter

theorem SameCore.refl (s : Plugin) : SameCore s s := ⟨rfl, rfl, rfl, rfl, rfl⟩

theorem sameCore_tock (s : Plugin) : SameCore s s.tock := ⟨rfl, rfl, rfl, rfl, rfl⟩

/-- The actions that change one of these. -/
def Touches : Act → Prop
  | .newManager _ _ _ _ | .setInstance _ _ | .popInstance _ | .addCallback _ _ | .removeCallback _ _ | .setModel _ _ _
  | .delModel _ _ | .spawn _ | .terminate _ | .makeProxy _ | .stopProxy _ | .newAdapter _ _ | .attach _ _ | .startServer _
  | .stopServer _ | .startHeartbeat _ | .registerAtexit _ | .endRunning _ => True
  | _ => False

section Perform

variable {a : Act} {s : Plugin} {m : ℕ}

/-- An operation does nothing, or what it does when it succeeds. -/
theorem tryTo_cases (q : Query) (f : Plugin → Plugin) (s : Plugin) :
    ((∃ e, (s.tryTo q f).1 = some e) ∧ (s.tryTo q f).2 = s.tock) ∨ (s.tryTo q f).1 = none ∧ (s.tryTo q f).2 = f s.tock := by
  unfold Plugin.tryTo
  cases h : (s.ask q).error with
  | some e => exact .inl ⟨⟨e, rfl⟩, rfl⟩
  | none => exact .inr ⟨rfl, rfl⟩

/-- What the operation leaves alone when it succeeds, it leaves alone. -/
theorem tryTo_view {β : Type} (view : Plugin → β) {q : Query} {f : Plugin → Plugin} (htock : view s.tock = view s)
    (hf : view (f s.tock) = view s) : view (s.tryTo q f).2 = view s := by
  rcases tryTo_cases q f s with ⟨-, h⟩ | ⟨-, h⟩
  · rw [h, htock]
  · rw [h, hf]

theorem sameCore_tryTo {q : Query} {f : Plugin → Plugin} (hf : SameCore s.tock (f s.tock)) :
    SameCore s (s.tryTo q f).2 := by
  rcases tryTo_cases q f s with ⟨-, h⟩ | ⟨-, h⟩
  · rw [h]
    exact sameCore_tock s
  · rw [h]
    exact ⟨hf.1, hf.2, hf.3, hf.4, hf.5⟩

theorem perform_sameCore (ha : ¬Touches a) : SameCore s (Plugin.perform a s).2 := by
  cases a with
  | isRunning m =>
    change SameCore s (s.isRunning m).2
    unfold Plugin.isRunning
    split
    · exact .refl s
    · exact sameCore_tock s
  | writeConfig m => exact ⟨rfl, rfl, rfl, rfl, rfl⟩
  | unlinkConfig m => exact sameCore_tryTo (q := .file) ⟨rfl, rfl, rfl, rfl, rfl⟩
  | openLog m => exact sameCore_tryTo (q := .file) (.refl _)
  | sighup m => exact sameCore_tryTo (q := .signal) (.refl _)
  | writePid m => exact sameCore_tryTo (q := .file) ⟨rfl, rfl, rfl, rfl, rfl⟩
  | clearPid m => exact sameCore_tryTo (q := .file) ⟨rfl, rfl, rfl, rfl, rfl⟩
  | startProxy m => exact sameCore_tryTo (q := .proxy) (.refl _)
  | newManager | setInstance | popInstance | addCallback | removeCallback | setModel | delModel | spawn | terminate
  | makeProxy | stopProxy | newAdapter | attach | startServer | stopServer | startHeartbeat | registerAtexit | endRunning =>
    exact absurd trivial ha
  | _ => exact ⟨rfl, rfl, rfl, rfl, rfl⟩

theorem perform_nextManager (a : Act) (s : Plugin) : s.nextManager ≤ (Plugin.perform a s).2.nextManager := by
  by_cases ha : Touches a
  · cases a with
    | newManager => exact Nat.le_succ _
    | spawn m => exact (tryTo_view Plugin.nextManager rfl rfl).ge
    | terminate m => exact (tryTo_view Plugin.nextManager rfl rfl).ge
    | startServer c => exact (tryTo_view Plugin.nextManager rfl rfl).ge
    | _ => first | exact Nat.le_refl _ | exact ha.elim
  · exact (perform_sameCore ha).nextManager.ge

theorem perform_instances {key : Key} (h : (Plugin.perform a s).2.instances.get? key = some m) :
    s.instances.get? key = some m ∨ a = .setInstance key m := by
  by_cases ha : Touches a
  · cases a with
    | setInstance key' m' =>
      change (s.instances.set key' m').get? key = some m at h
      rw [Dict.get?_set] at h
      split_ifs at h with hkey
      · cases h
        exact .inr (by rw [hkey])
      · exact .inl h
    | popInstance m' =>
      change (s.instances.erase (s.managers m').key).get? key = some m at h
      rw [Dict.get?_erase] at h
      split_ifs at h
      exact .inl h
    | spawn m' => exact .inl ((tryTo_view (fun t => t.instances.get? key) rfl rfl).symm.trans h)
    | terminate m' => exact .inl ((tryTo_view (fun t => t.instances.get? key) rfl rfl).symm.trans h)
    | startServer c => exact .inl ((tryTo_view (fun t => t.instances.get? key) rfl rfl).symm.trans h)
    | _ => first | exact .inl h | exact ha.elim
  · rw [(perform_sameCore ha).instances] at h
    exact .inl h

theorem setAdapter_swapManager {b c : ℕ} {f : Adapter → Adapter} (hf : ∀ x, (f x).swapManager = x.swapManager)
    (s : Plugin) : ((s.setAdapter c f).adapters b).swapManager = (s.adapters b).swapManager := by
  rw [Plugin.setAdapter_at]
  split_ifs with hb
  · rw [hf, hb]
  · rfl

theorem perform_swapManager {b : ℕ} (h : ((Plugin.perform a s).2.adapters b).swapManager = some m) :
    (s.adapters b).swapManager = some m ∨ a = .attach b m := by
  by_cases ha : Touches a
  · cases a with
    | newAdapter spec path =>
      left
      change (Function.update s.adapters s.nextAdapter _ b).swapManager = some m at h
      by_cases hb : b = s.nextAdapter
      · rw [hb, Function.update_self] at h
        cases h
      · rwa [Function.update_of_ne hb] at h
    | attach c m' =>
      change ((s.setAdapter c fun x => { x with swapManager := some m' }).adapters b).swapManager = some m at h
      rw [Plugin.setAdapter_at] at h
      split_ifs at h with hb
      · cases h
        exact .inr (by rw [hb])
      · exact .inl h
    | stopServer c => exact .inl ((setAdapter_swapManager (f := fun x => { x with server := false }) (fun _ => rfl) s).symm.trans h)
    | startHeartbeat c =>
      exact .inl ((setAdapter_swapManager (f := fun x => { x with heartbeat := true }) (fun _ => rfl) s).symm.trans h)
    | registerAtexit c =>
      exact .inl ((setAdapter_swapManager (f := fun x => { x with registered := true }) (fun _ => rfl) s).symm.trans h)
    | endRunning c =>
      exact .inl ((setAdapter_swapManager (f := fun x => { x with running := false }) (fun _ => rfl) s).symm.trans h)
    | startServer c =>
      refine .inl ((tryTo_view (fun t => (t.adapters b).swapManager) rfl ?_).symm.trans h)
      exact setAdapter_swapManager (f := fun x => { x with server := true }) (fun _ => rfl) s.tock
    | spawn m' => exact .inl ((tryTo_view (fun t => (t.adapters b).swapManager) rfl rfl).symm.trans h)
    | terminate m' => exact .inl ((tryTo_view (fun t => (t.adapters b).swapManager) rfl rfl).symm.trans h)
    | _ => first | exact .inl h | exact ha.elim
  · rw [(perform_sameCore ha).adapters] at h
    exact .inl h

end Perform

/-! ### References -/

open Doing

/-- The locks a thread holds. -/
def holds (g : Doing) : List swapSig.Lock := g.locks

/-- Nothing is noted of the threads together. -/
def unmarked (u : Unit) (_ : Doing) (_ : swapSig.Act) : Unit := u

/-- The ghost states say which locks are held, and what is referred to was made. -/
structure Referring (s : Plugin) (held : swapSig.Lock → Option (ℕ × ℕ)) (n : Notes Doing Unit) : Prop where
  locks : Agree held (n.each.map holds)
  inside : ∀ g ∈ n.each, ∀ m, Lock.manager m ∈ g.locks → m < s.nextManager
  known : ∀ g ∈ n.each, ∀ m ∈ g.known, m < s.nextManager
  instances : ∀ key m, s.instances.get? key = some m → m < s.nextManager
  adapters : ∀ a m, (s.adapters a).swapManager = some m → m < s.nextManager

section Referring

variable {s : Plugin} {held held' : swapSig.Lock → Option (ℕ × ℕ)} {n : Notes Doing Unit} {i : ℕ} {g : Doing}

/-- A thread is among those there are after a deed when it was before, or it is the one that did it. -/
theorem mem_deed {d : Deed swapSig} {g' : Doing} (h : g' ∈ (n.deed note unmarked i g d).each) :
    g' ∈ n.each ∨ g' = g.note d := by
  cases d <;> exact List.mem_or_eq_of_mem_set h

theorem map_holds (hg : n.each[i]? = some g) : (n.each.map holds)[i]? = some (holds g) := by
  rw [List.getElem?_map, hg]
  rfl

/-- Two threads do not hold the same lock. -/
theorem Referring.exclusive (h : Referring s held n) {j : ℕ} {g' : Doing} (hg : n.each[i]? = some g)
    (hg' : n.each[j]? = some g') {l : Lock} (hl : l ∈ g.locks) (hl' : l ∈ g'.locks) : i = j := by
  have hi := (h.locks.holding_iff (map_holds hg)).mpr (show (l : swapSig.Lock) ∈ holds g from hl)
  exact hi.unique ((h.locks.holding_iff (map_holds hg')).mpr hl')

/-- A manager that an answer refers to was made. -/
theorem Referring.given (h : Referring s held n) {a : Act} {m : ℕ} (hm : Gives a (Plugin.perform a s).1 m) :
    m < (Plugin.perform a s).2.nextManager := by
  cases a with
  | instanceOf key => exact h.instances key m hm
  | newManager =>
    obtain rfl : s.nextManager = m := hm
    exact Nat.lt_succ_self _
  | adapter b => exact h.adapters b m hm
  | _ => exact hm.elim

theorem Referring.act (h : Referring s held n) (hg : n.each[i]? = some g) {a : Act} (hk : g.Knows a) :
    Referring (Plugin.perform a s).2 held (n.deed (σ := swapSig) note unmarked i g (.act a (Plugin.perform a s).1)) := by
  have hmem : g ∈ n.each := List.mem_of_getElem? hg
  have hle : s.nextManager ≤ (Plugin.perform a s).2.nextManager := perform_nextManager a s
  have hsame : (noteAct a (Plugin.perform a s).1 g).locks = g.locks := locks_note a _ g
  refine ⟨?_, ?_, ?_, ?_, ?_⟩
  · have hmap : (n.each.set i (noteAct a (Plugin.perform a s).1 g)).map holds = n.each.map holds := by
      rw [List.map_set]
      refine set_of_getElem? ((map_holds hg).trans (congrArg some ?_))
      exact hsame.symm
    exact hmap ▸ h.locks
  · intro g' hg' m hm
    rcases mem_deed hg' with hold | rfl
    · exact (h.inside g' hold m hm).trans_le hle
    · exact (h.inside g hmem m (hsame ▸ hm)).trans_le hle
  · intro g' hg' m hm
    rcases mem_deed hg' with hold | rfl
    · exact (h.known g' hold m hm).trans_le hle
    · rcases known_note hm with hm | hm
      · exact (h.known g hmem m hm).trans_le hle
      · exact h.given hm
  · intro key m hm
    rcases perform_instances hm with hm | rfl
    · exact (h.instances key m hm).trans_le hle
    · exact (h.known g hmem m hk.1).trans_le hle
  · intro b m hm
    rcases perform_swapManager hm with hm | rfl
    · exact (h.adapters b m hm).trans_le hle
    · exact (h.known g hmem m hk).trans_le hle

theorem Referring.lock (h : Referring s held n) (hg : n.each[i]? = some g) {admits : Entry → Bool} {l : swapSig.Lock}
    (hmay : g.MayLock l) (hl : (machine admits).acquire held l i = some held') :
    Referring s held' (n.deed note unmarked i g (.lock l)) := by
  have hmem : g ∈ n.each := List.mem_of_getElem? hg
  refine ⟨?_, ?_, ?_, h.instances, h.adapters⟩
  · have hmap : (n.each.set i (g.note (.lock l))).map holds = (n.each.map holds).set i (l :: holds g) := List.map_set
    exact hmap ▸ h.locks.acquire (map_holds hg) hl
  · intro g' hg' m hm
    rcases mem_deed hg' with hold | rfl
    · exact h.inside g' hold m hm
    · rcases List.mem_cons.mp (show Lock.manager m ∈ l :: g.locks from hm) with rfl | hm
      · exact h.known g hmem m hmay.1
      · exact h.inside g hmem m hm
  · intro g' hg' m hm
    rcases mem_deed hg' with hold | rfl
    · exact h.known g' hold m hm
    · exact h.known g hmem m hm

theorem holds_unlock (g : Doing) (l : swapSig.Lock) : holds (g.note (.unlock l)) = (holds g).erase l := by
  cases l <;> rfl

theorem Referring.unlock (h : Referring s held n) (hg : n.each[i]? = some g) {l : swapSig.Lock}
    (hl : release held l i = some held') : Referring s held' (n.deed note unmarked i g (.unlock l)) := by
  have hmem : g ∈ n.each := List.mem_of_getElem? hg
  refine ⟨?_, ?_, ?_, h.instances, h.adapters⟩
  · have hmap : (n.each.set i (g.note (.unlock l))).map holds = (n.each.map holds).set i ((holds g).erase l) := by
      rw [List.map_set, holds_unlock]
    exact hmap ▸ h.locks.release (map_holds hg) hl
  · intro g' hg' m hm
    rcases mem_deed hg' with hold | rfl
    · exact h.inside g' hold m hm
    · have hm : (Lock.manager m : swapSig.Lock) ∈ (holds g).erase l := holds_unlock g l ▸ hm
      exact h.inside g hmem m (List.mem_of_mem_erase hm)
  · intro g' hg' m hm
    rcases mem_deed hg' with hold | rfl
    · exact h.known g' hold m hm
    · rw [known_deed (fun _ _ hd => by cases hd)] at hm
      exact h.known g hmem m hm

/-- A thread enters with no lock, and what it refers to was made. -/
theorem Referring.append (h : Referring s held n) {x : Entry} {p : Code Unit} {s' : Plugin} (hx : enter x s = some (p, s')) :
    Referring s held ⟨n.each ++ [born x s], n.all⟩ := by
  have hs := born_starts x s
  have hborn : ∀ m ∈ (born x s).known, m < s.nextManager := by
    intro m hm
    cases x with
    | addModel k | removeModel k | shutdown k | removeTelemetryCallback k | fanoutTelemetry k =>
      obtain ⟨hlt, -⟩ := Option.ite_none_right_eq_some.mp hx
      rw [List.mem_singleton.mp hm]
      exact hlt
    | _ => cases hm
  refine ⟨?_, ?_, ?_, h.instances, h.adapters⟩
  · have hmap : (n.each ++ [born x s]).map holds = n.each.map holds ++ [[]] := by
      rw [List.map_append, List.map_singleton]
      exact congrArg (n.each.map holds ++ [·]) hs.locks
    exact hmap ▸ h.locks.enter
  · intro g hg m hm
    rcases List.mem_append.mp hg with hg | hg
    · exact h.inside g hg m hm
    · rw [List.mem_singleton.mp hg, hs.locks] at hm
      cases hm
  · intro g hg m hm
    rcases List.mem_append.mp hg with hg | hg
    · exact h.known g hg m hm
    · rw [List.mem_singleton.mp hg] at hm
      exact hborn m hm

theorem referring_fresh (windows : Bool) (cwd : Path) (configs : ℤ → Option (List Char)) (pids : ℤ → Option ℤ)
    (oracle : Query → ℕ → Answer) : Referring (fresh windows cwd configs pids oracle) (fun _ => none) ⟨[], ()⟩ where
  locks := agree_nil
  inside g hg := by cases hg
  known g hg := by cases hg
  instances key m h := by cases h
  adapters a m h := by cases h

end Referring

end LanguageModel
end LocaiLink
