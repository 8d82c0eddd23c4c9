/-
# What is kept of the models that are served

An adapter's manager is the registry's entry for its address and has its model, from the
time the model is entered until the adapter is stopped. `Sound` says what holds between the
registry, the managers, the adapters and what the threads have done; it is kept by each
change of the state as long as the change is one that the code makes there.
-/
import LocaiLink.Serving.References

namespace LocaiLink
namespace LanguageModel

open Machine Doing

/-! ### What holds -/

def Adapter.key (x : Adapter) : Key := (x.spec.host, x.spec.port)

/-- The model is in the manager, under its id. -/
def Manager.Has (x : Manager) (id path : String) : Prop := ∃ y, x.models.get? id = some y ∧ y.path = path

def Manager.Vacant (x : Manager) : Prop := x.models.entries = []

/-- The registry's manager for the address has the model. -/
def Serves (s : Plugin) (key : Key) (m : ℕ) (id path : String) : Prop :=
  s.instances.get? key = some m ∧ (s.managers m).Has id path

/-- The adapter's model is with the manager of its address, which is in service. -/
def Kept (s : Plugin) (x : Adapter) : Prop :=
  ∃ m, x.swapManager = some m ∧ Serves s x.key m x.modelId x.modelPath ∧ (s.managers m).tornDown = false

/-- The adapter is the one that is constructed. -/
structure Adapter.Is (x : Adapter) (k : Making) : Prop where
  registered : x.registered = false
  key : x.key = k.key
  modelId : x.modelId = k.id
  modelPath : x.modelPath = k.path

def Leaving.manager : Leaving → Option ℕ
  | .no => none
  | .having m | .taking m | .emptied m | .downed m => some m

/-- A model was taken out. -/
def Leaving.Takes (l : Leaving) (m : ℕ) : Prop := l = .taking m ∨ l = .emptied m ∨ l = .downed m

/-- What was seen of the registry is so. -/
def Sees (s : Plugin) : Seen → Prop
  | .nothing => True
  | .absent key => s.instances.get? key = none
  | .made key m => s.instances.get? key = none ∧ (s.managers m).key = key
  | .found key m => s.instances.get? key = some m

/-- Its adapter has the manager, and its model is to be entered. -/
def Doing.Uses (m : ℕ) (g : Doing) : Prop := g.making.isSome = true ∧ (g.stage = .using m ∨ g.stage = .attached m)

instance (m : ℕ) : DecidablePred (Doing.Uses m) := fun _ => inferInstanceAs (Decidable (_ ∧ _))

/-- What a thread has done is so. -/
structure Thread (s : Plugin) (g : Doing) : Prop where
  calm : g.outside = false ∧ g.direct = false
  looking : g.seen ≠ .nothing → Lock.global ∈ g.locks
  seen : Sees s g.seen
  making : ∀ k, g.making = some k → k.a < s.nextAdapter ∧ (s.adapters k.a).Is k
  uses : ∀ k m, g.making = some k → g.stage = .using m ∨ g.stage = .attached m → s.instances.get? k.key = some m
  attached : ∀ k m, g.making = some k → g.stage = .attached m ∨ g.stage = .added m → (s.adapters k.a).swapManager = some m
  added : ∀ k m, g.making = some k → g.stage = .added m →
    Serves s k.key m k.id k.path ∧ (g.up = true → (s.managers m).tornDown = false)
  leaving : ∀ m, g.leaving.manager = some m → Lock.manager m ∈ g.locks ∧ s.instances.get? (s.managers m).key = some m
  vacant : ∀ m, g.leaving = .emptied m ∨ g.leaving = .downed m → (s.managers m).Vacant
  spawned : ∀ m, g.spawned = some m → Lock.manager m ∈ g.locks ∧ (s.managers m).proc.isSome = true

/-- Between the registry, the managers and the adapters, whatever the threads are at. -/
structure Settled (s : Plugin) (gs : List Doing) : Prop where
  keys : ∀ key m, s.instances.get? key = some m → (s.managers m).key = key
  present : ∀ m, ¬(s.managers m).Vacant → s.instances.get? (s.managers m).key = some m
  torn : ∀ m, (s.managers m).tornDown = true → (s.managers m).proc = none ∨ ∃ g ∈ gs, g.leaving = .emptied m
  free : ∀ g ∈ gs, ∀ m, g.leaving.Takes m → (s.managers m).Vacant → ∀ g' ∈ gs, ¬g'.Uses m
  standing : ∀ b, (s.adapters b).registered = true →
    b < s.nextAdapter ∧ ((s.adapters b).running = true → Kept s (s.adapters b))
  threads : ∀ g ∈ gs, Thread s g

/-- Two threads construct two adapters. -/
def Distinct (gs : List Doing) : Prop :=
  ∀ (i j : ℕ) (g g' : Doing) (k k' : Making), gs[i]? = some g → gs[j]? = some g' → g.making = some k →
    g'.making = some k' → k.a = k'.a → i = j

/-- The ids and paths of the models that a manager is to have: of the adapters that are not
stopped, and of those whose model was just entered. -/
def wanted (s : Plugin) (gs : List Doing) (m : ℕ) : List (String × String) :=
  (((List.range s.nextAdapter).map s.adapters).filter fun x => x.registered && x.running && x.swapManager = some m).map
      (fun x => (x.modelId, x.modelPath)) ++
    gs.filterMap fun g => if g.stage = .added m then g.making.map fun k => (k.id, k.path) else none

section Wanted

variable {s : Plugin} {gs : List Doing} {m : ℕ}

theorem wanted_adapter {b : ℕ} (hb : b < s.nextAdapter) (hr : (s.adapters b).registered = true)
    (hrun : (s.adapters b).running = true) (hm : (s.adapters b).swapManager = some m) :
    ((s.adapters b).modelId, (s.adapters b).modelPath) ∈ wanted s gs m := by
  refine List.mem_append_left _ (List.mem_map.mpr ⟨s.adapters b, List.mem_filter.mpr ⟨?_, ?_⟩, rfl⟩)
  · exact List.mem_map.mpr ⟨b, List.mem_range.mpr hb, rfl⟩
  · simp [hr, hrun, hm]

theorem wanted_thread {g : Doing} {k : Making} (hg : g ∈ gs) (hk : g.making = some k) (hstage : g.stage = .added m) :
    (k.id, k.path) ∈ wanted s gs m :=
  List.mem_append_right _ (List.mem_filterMap.mpr ⟨g, hg, by rw [if_pos hstage, hk]; rfl⟩)

theorem Manager.Has.not_vacant {x : Manager} {id path : String} (h : x.Has id path) : ¬x.Vacant := by
  obtain ⟨y, hy, -⟩ := h
  intro hv
  have hmem := Dict.mem_of_get? hy
  rw [hv] at hmem
  cases hmem

end Wanted

/-! ### A manager changes -/

section Changes

variable {s : Plugin} {gs : List Doing} {m : ℕ}

/-- What a change of a manager has to leave. -/
structure Mild (s : Plugin) (gs : List Doing) (m : ℕ) (x y : Manager) : Prop where
  key : y.key = x.key
  present : ¬y.Vacant → s.instances.get? x.key = some m
  torn : y.tornDown = true → y.proc = none ∨ ∃ g ∈ gs, g.leaving = .emptied m
  free : y.Vacant → ∀ g ∈ gs, g.leaving.Takes m → ∀ g' ∈ gs, ¬g'.Uses m
  vacant : ∀ g ∈ gs, g.leaving = .emptied m ∨ g.leaving = .downed m → y.Vacant
  spawned : ∀ g ∈ gs, g.spawned = some m → y.proc.isSome = true
  has : ∀ e ∈ wanted s gs m, x.Has e.1 e.2 → y.Has e.1 e.2
  up : ∀ e ∈ wanted s gs m, x.Has e.1 e.2 → x.tornDown = false → y.tornDown = false

theorem Settled.setManager (h : Settled s gs) {f : Manager → Manager} (hf : Mild s gs m (s.managers m) (f (s.managers m))) :
    Settled (s.setManager m f) gs := by
  have hthis : (s.setManager m f).managers m = f (s.managers m) := by rw [Plugin.setManager_at, if_pos rfl]
  have hother {k : ℕ} (hk : k ≠ m) : (s.setManager m f).managers k = s.managers k := by
    rw [Plugin.setManager_at, if_neg hk]
  have hkey (k : ℕ) : ((s.setManager m f).managers k).key = (s.managers k).key := by
    by_cases hk : k = m
    · rw [hk, hthis, hf.key]
    · rw [hother hk]
  have hserves {key : Key} {k : ℕ} {id path : String} (hwant : (id, path) ∈ wanted s gs k) (hs : Serves s key k id path) :
      Serves (s.setManager m f) key k id path := by
    refine ⟨hs.1, ?_⟩
    by_cases hk : k = m
    · subst hk
      rw [hthis]
      exact hf.has _ hwant hs.2
    · rw [hother hk]
      exact hs.2
  have hup {key : Key} {k : ℕ} {id path : String} (hwant : (id, path) ∈ wanted s gs k) (hs : Serves s key k id path)
      (hup : (s.managers k).tornDown = false) : ((s.setManager m f).managers k).tornDown = false := by
    by_cases hk : k = m
    · subst hk
      rw [hthis]
      exact hf.up _ hwant hs.2 hup
    · rw [hother hk]
      exact hup
  refine ⟨?_, ?_, ?_, ?_, ?_, ?_⟩
  · intro key k hk
    rw [hkey]
    exact h.keys key k hk
  · intro k hk
    rw [hkey]
    by_cases hkm : k = m
    · subst hkm
      rw [hthis] at hk
      exact hf.present hk
    · rw [hother hkm] at hk
      exact h.present k hk
  · intro k hk
    by_cases hkm : k = m
    · subst hkm
      rw [hthis] at hk ⊢
      exact hf.torn hk
    · rw [hother hkm] at hk ⊢
      exact h.torn k hk
  · intro g hg k htakes hvacant
    by_cases hkm : k = m
    · subst hkm
      rw [hthis] at hvacant
      exact hf.free hvacant g hg htakes
    · rw [hother hkm] at hvacant
      exact h.free g hg k htakes hvacant
  · intro b hb
    obtain ⟨hlt, hkept⟩ := h.standing b hb
    refine ⟨hlt, fun hrun => ?_⟩
    obtain ⟨k, hk, hs, htorn⟩ := hkept hrun
    have hwant : ((s.adapters b).modelId, (s.adapters b).modelPath) ∈ wanted s gs k := wanted_adapter hlt hb hrun hk
    exact ⟨k, hk, hserves hwant hs, hup hwant hs htorn⟩
  · intro g hg
    have ht := h.threads g hg
    refine ⟨ht.calm, ht.looking, ?_, ht.making, ht.uses, ht.attached, ?_, ?_, ?_, ?_⟩
    · have hseen := ht.seen
      cases hseenAt : g.seen with
      | nothing => trivial
      | absent key =>
        rw [hseenAt] at hseen
        exact hseen
      | made key k =>
        rw [hseenAt] at hseen
        exact ⟨hseen.1, (hkey k).trans hseen.2⟩
      | found key k =>
        rw [hseenAt] at hseen
        exact hseen
    · intro k m' hk hstage
      have hwant := wanted_thread (s := s) hg hk hstage
      obtain ⟨hs, htorn⟩ := ht.added k m' hk hstage
      exact ⟨hserves hwant hs, fun hu => hup hwant hs (htorn hu)⟩
    · intro k hk
      rw [hkey]
      exact ht.leaving k hk
    · intro k hk
      by_cases hkm : k = m
      · subst hkm
        rw [hthis]
        exact hf.vacant g hg hk
      · rw [hother hkm]
        exact ht.vacant k hk
    · intro k hk
      by_cases hkm : k = m
      · subst hkm
        rw [hthis]
        exact ⟨(ht.spawned k hk).1, hf.spawned g hg hk⟩
      · rw [hother hkm]
        exact ht.spawned k hk

/-- A change that leaves the address, the models, the process and the service. -/
theorem mild_same (h : Settled s gs) {y : Manager} (hkey : y.key = (s.managers m).key)
    (hmodels : y.models = (s.managers m).models) (hproc : y.proc = (s.managers m).proc)
    (htorn : y.tornDown = (s.managers m).tornDown) : Mild s gs m (s.managers m) y := by
  have hvacant : y.Vacant ↔ (s.managers m).Vacant := by rw [Manager.Vacant, Manager.Vacant, hmodels]
  refine ⟨hkey, fun hv => h.present m (mt hvacant.mpr hv), ?_, fun hv g hg ht => h.free g hg m ht (hvacant.mp hv),
    fun g hg hl => hvacant.mpr ((h.threads g hg).vacant m hl), ?_, ?_, ?_⟩
  · rw [htorn, hproc]
    exact h.torn m
  · intro g hg hs
    rw [hproc]
    exact ((h.threads g hg).spawned m hs).2
  · intro e _ he
    rw [Manager.Has, hmodels]
    exact he
  · intro e _ _ hup
    rw [htorn, hup]

/-- What a change of an adapter has to leave. -/
structure MildTo (s : Plugin) (gs : List Doing) (a : ℕ) (y : Adapter) : Prop where
  made : ∀ g ∈ gs, ∀ k, g.making = some k → k.a = a →
    y.Is k ∧ ∀ m, g.stage = .attached m ∨ g.stage = .added m → y.swapManager = some m
  standing : y.registered = true → a < s.nextAdapter ∧ (y.running = true → Kept s y)

theorem Settled.setAdapter (h : Settled s gs) {a : ℕ} {f : Adapter → Adapter} (hf : MildTo s gs a (f (s.adapters a))) :
    Settled (s.setAdapter a f) gs := by
  have hthis : (s.setAdapter a f).adapters a = f (s.adapters a) := by rw [Plugin.setAdapter_at, if_pos rfl]
  have hother {b : ℕ} (hb : b ≠ a) : (s.setAdapter a f).adapters b = s.adapters b := by
    rw [Plugin.setAdapter_at, if_neg hb]
  refine ⟨h.keys, h.present, h.torn, h.free, ?_, ?_⟩
  · intro b hb
    by_cases hba : b = a
    · subst hba
      rw [hthis] at hb ⊢
      exact hf.standing hb
    · rw [hother hba] at hb ⊢
      exact h.standing b hb
  · intro g hg
    have ht := h.threads g hg
    refine ⟨ht.calm, ht.looking, ht.seen, ?_, ht.uses, ?_, ht.added, ht.leaving, ht.vacant, ht.spawned⟩
    · intro k hk
      refine ⟨(ht.making k hk).1, ?_⟩
      by_cases hka : k.a = a
      · rw [hka, hthis]
        exact (hf.made g hg k hk hka).1
      · rw [hother hka]
        exact (ht.making k hk).2
    · intro k m hk hstage
      by_cases hka : k.a = a
      · rw [hka, hthis]
        exact (hf.made g hg k hk hka).2 m hstage
      · rw [hother hka]
        exact ht.attached k m hk hstage

/-- A manager is entered into the registry at an address that has none. -/
theorem Settled.setInstance (h : Settled s gs) {key : Key} (hnone : s.instances.get? key = none)
    (hkey : (s.managers m).key = key) (hlook : ∀ g ∈ gs, g.seen = .nothing) :
    Settled { s with instances := s.instances.set key m } gs := by
  have hkeeps {k : Key} {m' : ℕ} (hk : s.instances.get? k = some m') : (s.instances.set key m).get? k = some m' := by
    have hne : k ≠ key := by
      rintro rfl
      rw [hnone] at hk
      cases hk
    rw [Dict.get?_set_of_ne _ _ hne, hk]
  refine ⟨?_, fun m' hm' => hkeeps (h.present m' hm'), h.torn, h.free, ?_, ?_⟩
  · intro k m' hk
    change (s.instances.set key m).get? k = some m' at hk
    rw [Dict.get?_set] at hk
    split_ifs at hk with hkk
    · cases hk
      rw [hkk]
      exact hkey
    · exact h.keys k m' hk
  · intro b hb
    obtain ⟨hlt, hkept⟩ := h.standing b hb
    refine ⟨hlt, fun hrun => ?_⟩
    obtain ⟨m', hm', hs, htorn⟩ := hkept hrun
    exact ⟨m', hm', ⟨hkeeps hs.1, hs.2⟩, htorn⟩
  · intro g hg
    have ht := h.threads g hg
    refine ⟨ht.calm, ht.looking, ?_, ht.making, fun k m' hk hs => hkeeps (ht.uses k m' hk hs), ht.attached, ?_, ?_, ht.vacant,
      ht.spawned⟩
    · rw [hlook g hg]
      trivial
    · intro k m' hk hs
      obtain ⟨hserves, hup⟩ := ht.added k m' hk hs
      exact ⟨⟨hkeeps hserves.1, hserves.2⟩, hup⟩
    · intro m' hm'
      exact ⟨(ht.leaving m' hm').1, hkeeps (ht.leaving m' hm').2⟩

/-- A manager without models leaves the registry. -/
theorem Settled.popInstance (h : Settled s gs) (hthere : s.instances.get? (s.managers m).key = some m)
    (hvacant : (s.managers m).Vacant) (hlook : ∀ g ∈ gs, g.seen = .nothing) (hleave : ∀ g ∈ gs, g.leaving.manager ≠ some m)
    (huses : ∀ g ∈ gs, ¬g.Uses m) : Settled { s with instances := s.instances.erase (s.managers m).key } gs := by
  have hkeeps {k : Key} {m' : ℕ} (hk : s.instances.get? k = some m') (hne : m' ≠ m) :
      (s.instances.erase (s.managers m).key).get? k = some m' := by
    have hkey : k ≠ (s.managers m).key := by
      rintro rfl
      rw [hthere] at hk
      exact hne (Option.some.inj hk).symm
    rw [Dict.get?_erase_of_ne _ hkey, hk]
  have hhas {m' : ℕ} {id path : String} (hm' : (s.managers m').Has id path) : m' ≠ m := by
    rintro rfl
    exact hm'.not_vacant hvacant
  refine ⟨?_, fun m' hm' => ?_, h.torn, h.free, ?_, ?_⟩
  · intro k m' hk
    change (s.instances.erase (s.managers m).key).get? k = some m' at hk
    rw [Dict.get?_erase] at hk
    split_ifs at hk
    exact h.keys k m' hk
  · refine hkeeps (h.present m' hm') ?_
    rintro rfl
    exact hm' hvacant
  · intro b hb
    obtain ⟨hlt, hkept⟩ := h.standing b hb
    refine ⟨hlt, fun hrun => ?_⟩
    obtain ⟨m', hm', hs, htorn⟩ := hkept hrun
    exact ⟨m', hm', ⟨hkeeps hs.1 (hhas hs.2), hs.2⟩, htorn⟩
  · intro g hg
    have ht := h.threads g hg
    refine ⟨ht.calm, ht.looking, ?_, ht.making, ?_, ht.attached, ?_, ?_, ht.vacant, ht.spawned⟩
    · rw [hlook g hg]
      trivial
    · intro k m' hk hs
      refine hkeeps (ht.uses k m' hk hs) ?_
      rintro rfl
      exact huses g hg ⟨by rw [hk]; rfl, hs⟩
    · intro k m' hk hs
      obtain ⟨hserves, hup⟩ := ht.added k m' hk hs
      exact ⟨⟨hkeeps hserves.1 (hhas hserves.2), hserves.2⟩, hup⟩
    · intro m' hm'
      refine ⟨(ht.leaving m' hm').1, hkeeps (ht.leaving m' hm').2 ?_⟩
      rintro rfl
      exact hleave g hg hm'

/-- A new manager has a number that nothing refers to. -/
theorem Settled.newManager (h : Settled s gs) {held : swapSig.Lock → Option (ℕ × ℕ)} (hr : Referring s held ⟨gs, ()⟩)
    {x : Manager} (hx : x.Vacant ∧ x.tornDown = false) (hmade : ∀ g ∈ gs, ∀ key k, g.seen ≠ .made key k) :
    Settled { s with nextManager := s.nextManager + 1, managers := Function.update s.managers s.nextManager x } gs := by
  have hold {k : ℕ} (hk : k < s.nextManager) : Function.update s.managers s.nextManager x k = s.managers k :=
    Function.update_of_ne (Nat.ne_of_lt hk) ..
  have hcases (k : ℕ) : Function.update s.managers s.nextManager x k = s.managers k ∨
      Function.update s.managers s.nextManager x k = x ∧ k = s.nextManager := by
    by_cases hk : k = s.nextManager
    · exact .inr ⟨by rw [hk, Function.update_self], hk⟩
    · exact .inl (Function.update_of_ne hk ..)
  have hserves {key : Key} {k : ℕ} {id path : String} (hs : Serves s key k id path) :
      s.instances.get? key = some k ∧ (Function.update s.managers s.nextManager x k).Has id path := by
    refine ⟨hs.1, ?_⟩
    rw [hold (hr.instances key k hs.1)]
    exact hs.2
  refine ⟨?_, ?_, ?_, ?_, ?_, ?_⟩
  · intro key k hk
    change (Function.update s.managers s.nextManager x k).key = key
    rw [hold (hr.instances key k hk)]
    exact h.keys key k hk
  · intro k hk
    change ¬(Function.update s.managers s.nextManager x k).Vacant at hk
    change s.instances.get? (Function.update s.managers s.nextManager x k).key = some k
    rcases hcases k with hsame | ⟨hnew, -⟩
    · rw [hsame] at hk ⊢
      exact h.present k hk
    · rw [hnew] at hk
      exact absurd hx.1 hk
  · intro k hk
    change (Function.update s.managers s.nextManager x k).tornDown = true at hk
    change (Function.update s.managers s.nextManager x k).proc = none ∨ _
    rcases hcases k with hsame | ⟨hnew, -⟩
    · rw [hsame] at hk ⊢
      exact h.torn k hk
    · rw [hnew, hx.2] at hk
      cases hk
  · intro g hg k htakes hvacant g' hg' huses
    change (Function.update s.managers s.nextManager x k).Vacant at hvacant
    obtain ⟨j, hj⟩ := Option.isSome_iff_exists.mp huses.1
    rw [hold (hr.instances _ k ((h.threads g' hg').uses j k hj huses.2))] at hvacant
    exact h.free g hg k htakes hvacant g' hg' huses
  · intro b hb
    obtain ⟨hlt, hkept⟩ := h.standing b hb
    refine ⟨hlt, fun hrun => ?_⟩
    obtain ⟨k, hk, hs, htorn⟩ := hkept hrun
    refine ⟨k, hk, hserves hs, ?_⟩
    change (Function.update s.managers s.nextManager x k).tornDown = false
    rw [hold (hr.instances _ k hs.1)]
    exact htorn
  · intro g hg
    have ht := h.threads g hg
    refine ⟨ht.calm, ht.looking, ?_, ht.making, ht.uses, ht.attached, ?_, ?_, ?_, ?_⟩
    · have hseen := ht.seen
      cases hat : g.seen with
      | nothing => trivial
      | absent key =>
        rw [hat] at hseen
        exact hseen
      | made key k => exact absurd hat (hmade g hg key k)
      | found key k =>
        rw [hat] at hseen
        exact hseen
    · intro k k' hk hs
      obtain ⟨hs, hup⟩ := ht.added k k' hk hs
      refine ⟨hserves hs, fun hu => ?_⟩
      change (Function.update s.managers s.nextManager x k').tornDown = false
      rw [hold (hr.instances _ k' hs.1)]
      exact hup hu
    · intro k hk
      change _ ∧ s.instances.get? (Function.update s.managers s.nextManager x k).key = some k
      rw [hold (hr.inside g hg k (ht.leaving k hk).1)]
      exact ht.leaving k hk
    · intro k hk
      have hm : g.leaving.manager = some k := by
        rcases hk with hk | hk <;> rw [hk] <;> rfl
      change (Function.update s.managers s.nextManager x k).Vacant
      rw [hold (hr.inside g hg k (ht.leaving k hm).1)]
      exact ht.vacant k hk
    · intro k hk
      change _ ∧ (Function.update s.managers s.nextManager x k).proc.isSome = true
      rw [hold (hr.inside g hg k (ht.spawned k hk).1)]
      exact ht.spawned k hk

/-- So has a new adapter. -/
theorem Settled.newAdapter (h : Settled s gs) {x : Adapter} (hx : x.registered = false) :
    Settled { s with nextAdapter := s.nextAdapter + 1, adapters := Function.update s.adapters s.nextAdapter x } gs := by
  have hold {b : ℕ} (hb : b < s.nextAdapter) : Function.update s.adapters s.nextAdapter x b = s.adapters b :=
    Function.update_of_ne (Nat.ne_of_lt hb) ..
  refine ⟨h.keys, h.present, h.torn, h.free, ?_, ?_⟩
  · intro b hb
    change (Function.update s.adapters s.nextAdapter x b).registered = true at hb
    change b < s.nextAdapter + 1 ∧ ((Function.update s.adapters s.nextAdapter x b).running = true →
      Kept s (Function.update s.adapters s.nextAdapter x b))
    by_cases hbn : b = s.nextAdapter
    · rw [hbn, Function.update_self, hx] at hb
      cases hb
    · rw [Function.update_of_ne hbn] at hb ⊢
      exact ⟨Nat.lt_succ_of_lt (h.standing b hb).1, (h.standing b hb).2⟩
  · intro g hg
    have ht := h.threads g hg
    refine ⟨ht.calm, ht.looking, ht.seen, ?_, ht.uses, ?_, ht.added, ht.leaving, ht.vacant, ht.spawned⟩
    · intro k hk
      obtain ⟨hlt, his⟩ := ht.making k hk
      refine ⟨Nat.lt_succ_of_lt hlt, ?_⟩
      change (Function.update s.adapters s.nextAdapter x k.a).Is k
      rw [hold hlt]
      exact his
    · intro k m hk hs
      change (Function.update s.adapters s.nextAdapter x k.a).swapManager = some m
      rw [hold (ht.making k hk).1]
      exact ht.attached k m hk hs

/-- What else changes does not matter. -/
theorem Settled.core (h : Settled s gs) {t : Plugin} (hc : SameCore s t) : Settled t gs := by
  obtain ⟨instances, managers, nextManager, adapters, nextAdapter, configs, pids, windows, cwd, oracle, tick⟩ := s
  obtain ⟨instances', managers', nextManager', adapters', nextAdapter', configs', pids', windows', cwd', oracle', tick'⟩ := t
  obtain ⟨h₁, h₂, h₃, h₄, h₅⟩ := hc
  simp only at h₁ h₂ h₃ h₄ h₅
  subst h₁ h₂ h₃ h₄ h₅
  refine ⟨h.keys, h.present, h.torn, h.free, h.standing, fun g hg => ?_⟩
  have ht := h.threads g hg
  refine ⟨ht.calm, ht.looking, ?_, ht.making, ht.uses, ht.attached, ht.added, ht.leaving, ht.vacant, ht.spawned⟩
  have hseen := ht.seen
  cases hat : g.seen with
  | nothing => trivial
  | absent key =>
    rw [hat] at hseen
    exact hseen
  | made key k =>
    rw [hat] at hseen
    exact hseen
  | found key k =>
    rw [hat] at hseen
    exact hseen

end Changes

end LanguageModel
end LocaiLink
