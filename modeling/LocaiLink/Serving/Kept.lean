/-
# No model is lost

Adapters are made and stopped on any addresses, in any interleaving. As long as no model is
entered over another adapter's, none is taken out that another adapter has, and none is
taken out as the last one while another adapter is between finding the manager and entering
its model, every adapter that was made and is not stopped has its model where it is looked
for (`models_kept`). Otherwise a model may be lost (`model_lost`).
-/
import LocaiLink.Serving.Tenants

namespace LocaiLink
namespace LanguageModel

open Machine Doing

/-! ### What a thread notes -/

section Note

variable {s : Plugin} {gs : List Doing} {i : ℕ} {g g' : Doing}

theorem Settled.note (h : Settled s gs) (hg : gs[i]? = some g) (ht : Thread s g')
    (htorn : ∀ m, g.leaving = .emptied m → g'.leaving = .emptied m ∨ (s.managers m).proc = none)
    (htakes : ∀ m, g'.leaving.Takes m → (s.managers m).Vacant → ∀ g₁ ∈ gs, ¬g₁.Uses m)
    (huses : ∀ m, g'.Uses m → (s.managers m).Vacant → ∀ g₁ ∈ gs, ¬g₁.leaving.Takes m)
    (hboth : ∀ m, g'.leaving.Takes m → g'.Uses m → (s.managers m).Vacant → g.leaving.Takes m ∧ g.Uses m) : Settled s (gs.set i g') := by
  have hlt : i < gs.length := (List.getElem?_eq_some_iff.mp hg).1
  have hmem : g' ∈ gs.set i g' := List.mem_set hlt g'
  have hcases {g₁ : Doing} (hg₁ : g₁ ∈ gs.set i g') : g₁ ∈ gs ∨ g₁ = g' := List.mem_or_eq_of_mem_set hg₁
  refine ⟨h.keys, h.present, ?_, ?_, h.standing, ?_⟩
  · intro m hm
    rcases h.torn m hm with hnone | ⟨g₁, hg₁, hleaving⟩
    · exact .inl hnone
    · obtain ⟨j, hj⟩ := List.mem_iff_getElem?.mp hg₁
      by_cases hij : i = j
      · subst hij
        rw [hg, Option.some.injEq] at hj
        subst hj
        rcases htorn m hleaving with hl | hnone
        · exact .inr ⟨g', hmem, hl⟩
        · exact .inl hnone
      · refine .inr ⟨g₁, List.mem_iff_getElem?.mpr ⟨j, ?_⟩, hleaving⟩
        rw [List.getElem?_set_ne hij, hj]
  · intro g₁ hg₁ m ht₁ hv g₂ hg₂ hu₂
    rcases hcases hg₁ with hold₁ | rfl
    · rcases hcases hg₂ with hold₂ | rfl
      · exact h.free g₁ hold₁ m ht₁ hv g₂ hold₂ hu₂
      · exact huses m hu₂ hv g₁ hold₁ ht₁
    · rcases hcases hg₂ with hold₂ | rfl
      · exact htakes m ht₁ hv g₂ hold₂ hu₂
      · obtain ⟨htakes', huses'⟩ := hboth m ht₁ hu₂ hv
        exact h.free g (List.mem_of_getElem? hg) m htakes' hv g (List.mem_of_getElem? hg) huses'
  · intro g₁ hg₁
    rcases hcases hg₁ with hold | rfl
    · exact h.threads g₁ hold
    · exact ht

/-- A note that changes nothing of removals and of the use of managers. -/
theorem Settled.noteSame (h : Settled s gs) (hg : gs[i]? = some g) (ht : Thread s g') (hl : g'.leaving = g.leaving)
    (hu : ∀ m, g'.Uses m → g.Uses m) : Settled s (gs.set i g') := by
  have hmem := List.mem_of_getElem? hg
  refine h.note hg ht (fun m hm => .inl (hl.trans hm)) (fun m hm hv => h.free g hmem m (hl ▸ hm) hv)
    (fun m hm hv g₁ hg₁ ht₁ => h.free g₁ hg₁ m ht₁ hv g hmem (hu m hm)) fun m hm hm' _ => ⟨hl ▸ hm, hu m hm'⟩

/-- What the thread is at, or less: its construction may be over. -/
structure Weaker (g g' : Doing) : Prop where
  locks : g'.locks = g.locks
  calm : g'.outside = g.outside ∧ g'.direct = g.direct
  seen : g'.seen = g.seen
  leaving : g'.leaving = g.leaving
  spawned : g'.spawned = g.spawned
  making : ∀ k, g'.making = some k → g.making = some k ∧ g'.stage = g.stage ∧ (g'.up = true → g.up = true)

theorem Weaker.refl (g : Doing) : Weaker g g := ⟨rfl, ⟨rfl, rfl⟩, rfl, rfl, rfl, fun _ h => ⟨h, rfl, id⟩⟩

theorem Weaker.giveUp (g : Doing) : Weaker g g.giveUp := ⟨rfl, ⟨rfl, rfl⟩, rfl, rfl, rfl, fun _ h => by cases h⟩

theorem Thread.weaker (ht : Thread s g) (hw : Weaker g g') : Thread s g' := by
  refine ⟨⟨hw.calm.1.trans ht.calm.1, hw.calm.2.trans ht.calm.2⟩, ?_, ?_, ?_, ?_, ?_, ?_, ?_, ?_, ?_⟩
  · rw [hw.seen, hw.locks]
    exact ht.looking
  · rw [hw.seen]
    exact ht.seen
  · intro k hk
    exact ht.making k (hw.making k hk).1
  · intro k m hk hs
    obtain ⟨hk, hstage, -⟩ := hw.making k hk
    rw [hstage] at hs
    exact ht.uses k m hk hs
  · intro k m hk hs
    obtain ⟨hk, hstage, -⟩ := hw.making k hk
    rw [hstage] at hs
    exact ht.attached k m hk hs
  · intro k m hk hs
    obtain ⟨hk, hstage, hup⟩ := hw.making k hk
    rw [hstage] at hs
    exact ⟨(ht.added k m hk hs).1, fun hu => (ht.added k m hk hs).2 (hup hu)⟩
  · rw [hw.leaving, hw.locks]
    exact ht.leaving
  · rw [hw.leaving]
    exact ht.vacant
  · rw [hw.spawned, hw.locks]
    exact ht.spawned

theorem Settled.weaker (h : Settled s gs) (hg : gs[i]? = some g) (hw : Weaker g g') : Settled s (gs.set i g') := by
  refine h.noteSame hg ((h.threads g (List.mem_of_getElem? hg)).weaker hw) hw.leaving ?_
  rintro m ⟨hmaking, hstage⟩
  obtain ⟨k, hk⟩ := Option.isSome_iff_exists.mp hmaking
  obtain ⟨hk, hsame, -⟩ := hw.making k hk
  exact ⟨by rw [hk]; rfl, hsame ▸ hstage⟩

theorem Distinct.set (h : Distinct gs) (hg : gs[i]? = some g)
    (hk : ∀ k, g'.making = some k → g.making = some k ∨ ∀ g₁ ∈ gs, ∀ k₁, g₁.making = some k₁ → k₁.a ≠ k.a) :
    Distinct (gs.set i g') := by
  have hlt : i < gs.length := (List.getElem?_eq_some_iff.mp hg).1
  have hnew {j : ℕ} {g₁ : Doing} {k k₁ : Making} (hij : i ≠ j) (hj : gs[j]? = some g₁) (hmk : g'.making = some k)
      (hmk₁ : g₁.making = some k₁) : k.a ≠ k₁.a := by
    intro heq
    rcases hk k hmk with hold | hfresh
    · exact hij (h i j g g₁ k k₁ hg hj hold hmk₁ heq)
    · exact hfresh g₁ (List.mem_of_getElem? hj) k₁ hmk₁ heq.symm
  intro j j' f f' k k' hj hj' hmk hmk' heq
  by_cases hij : i = j
  · by_cases hij' : i = j'
    · exact hij.symm.trans hij'
    · subst hij
      rw [List.getElem?_set_self hlt, Option.some.injEq] at hj
      subst hj
      rw [List.getElem?_set_ne hij'] at hj'
      exact absurd heq (hnew hij' hj' hmk hmk')
  · rw [List.getElem?_set_ne hij] at hj
    by_cases hij' : i = j'
    · subst hij'
      rw [List.getElem?_set_self hlt, Option.some.injEq] at hj'
      subst hj'
      exact absurd heq.symm (hnew hij hj hmk' hmk)
    · rw [List.getElem?_set_ne hij'] at hj'
      exact h j j' f f' k k' hj hj' hmk hmk' heq

end Note

/-! ### What a thread does -/

section Steps

variable {s : Plugin} {held : swapSig.Lock → Option (ℕ × ℕ)} {n : Notes Doing Unit} {i : ℕ} {g : Doing} {m : ℕ}

/-- Who holds a lock that the thread holds is the thread. -/
theorem Referring.own (hr : Referring s held n) (hg : n.each[i]? = some g) {l : Lock} (hl : l ∈ g.locks) {g₁ : Doing}
    (hg₁ : g₁ ∈ n.each) (hl₁ : l ∈ g₁.locks) : g₁ = g := by
  obtain ⟨j, hj⟩ := List.mem_iff_getElem?.mp hg₁
  obtain rfl := hr.exclusive hg hj hl hl₁
  rw [hg, Option.some.injEq] at hj
  exact hj.symm

theorem Leaving.Takes.manager {l : Leaving} (h : l.Takes m) : l.manager = some m := by
  rcases h with rfl | rfl | rfl <;> rfl

theorem takes_of_ends {l : Leaving} (h : l = .emptied m ∨ l = .downed m) : l.Takes m := .inr h

/-- In a manager's lock no other thread removes a model of it. -/
theorem Settled.alone (h : Settled s n.each) (hr : Referring s held n) (hg : n.each[i]? = some g)
    (hl : Lock.manager m ∈ g.locks) {g₁ : Doing} (hg₁ : g₁ ∈ n.each) (hm : g₁.leaving.manager = some m) : g₁ = g :=
  hr.own hg hl hg₁ ((h.threads g₁ hg₁).leaving m hm).1

/-- In the registry's lock no other thread has seen anything of it. -/
theorem Settled.unseen (h : Settled s n.each) (hr : Referring s held n) (hg : n.each[i]? = some g)
    (hl : Lock.global ∈ g.locks) {g' : Doing} (hg' : g'.seen = .nothing) {g₁ : Doing} (hg₁ : g₁ ∈ n.each.set i g') :
    g₁.seen = .nothing := by
  have hlt : i < n.each.length := (List.getElem?_eq_some_iff.mp hg).1
  obtain ⟨j, hj⟩ := List.mem_iff_getElem?.mp hg₁
  by_cases hij : i = j
  · subst hij
    rw [List.getElem?_set_self hlt, Option.some.injEq] at hj
    rw [← hj, hg']
  · rw [List.getElem?_set_ne hij] at hj
    by_contra hne
    exact hij (hr.exclusive hg hj hl ((h.threads g₁ (List.mem_of_getElem? hj)).looking hne))

theorem settled_instanceOf (h : Settled s n.each) (hg : n.each[i]? = some g) {key : Key}
    (hP : g.Permits (.instanceOf key)) :
    Settled s (n.each.set i (noteAct (.instanceOf key) (s.instances.get? key) g)) := by
  have ht := h.threads g (List.mem_of_getElem? hg)
  cases hkey : s.instances.get? key with
  | none =>
    refine h.noteSame hg ?_ rfl fun m hm => hm
    exact ⟨ht.calm, fun _ => hP.1, hkey, ht.making, ht.uses, ht.attached, ht.added, ht.leaving, ht.vacant, ht.spawned⟩
  | some m =>
    refine h.noteSame hg ?_ rfl fun m hm => hm
    exact ⟨ht.calm, fun _ => hP.1, hkey, ht.making, ht.uses, ht.attached, ht.added, ht.leaving, ht.vacant, ht.spawned⟩

theorem settled_newManager (h : Settled s n.each) (hr : Referring s held n) (hg : n.each[i]? = some g) {key : Key}
    {origins : List String} {swapBin serverBin : String} (hP : g.Permits (.newManager key origins swapBin serverBin)) :
    Settled (Plugin.perform (.newManager key origins swapBin serverBin) s).2
      (n.each.set i (noteAct (.newManager key origins swapBin serverBin) s.nextManager g)) := by
  have hmem := List.mem_of_getElem? hg
  have ht := h.threads g hmem
  have hnone : s.instances.get? key = none := by
    have hseen := ht.seen
    rw [show g.seen = .absent key from hP] at hseen
    exact hseen
  have hglobal : Lock.global ∈ g.locks := ht.looking (by rw [show g.seen = .absent key from hP]; simp)
  have hmade : ∀ g₁ ∈ n.each, ∀ key' k, g₁.seen ≠ .made key' k := by
    intro g₁ hg₁ key' k hk
    have hown : g₁ = g := hr.own hg hglobal hg₁ ((h.threads g₁ hg₁).looking (by rw [hk]; simp))
    rw [hown, show g.seen = .absent key from hP] at hk
    cases hk
  have h' : Settled (Plugin.perform (.newManager key origins swapBin serverBin) s).2 n.each :=
    h.newManager hr ⟨rfl, rfl⟩ hmade
  have ht' := h'.threads g hmem
  refine h'.noteSame hg ?_ rfl fun m hm => hm
  refine ⟨ht'.calm, fun _ => hglobal, ⟨hnone, ?_⟩, ht'.making, ht'.uses, ht'.attached, ht'.added, ht'.leaving, ht'.vacant,
    ht'.spawned⟩
  change (Function.update s.managers s.nextManager _ s.nextManager).key = key
  rw [Function.update_self]
  rfl

theorem settled_setInstance (h : Settled s n.each) (hr : Referring s held n) (hg : n.each[i]? = some g) {key : Key}
    (hk : g.Knows (.setInstance key m)) :
    Settled (Plugin.perform (.setInstance key m) s).2 (n.each.set i (noteAct (.setInstance key m) () g)) := by
  have hlt : i < n.each.length := (List.getElem?_eq_some_iff.mp hg).1
  have ht := h.threads g (List.mem_of_getElem? hg)
  have hmade : g.seen = .made key m := hk.2
  have hglobal : Lock.global ∈ g.locks := ht.looking (by rw [hmade]; simp)
  obtain ⟨hnone, hkey⟩ : s.instances.get? key = none ∧ (s.managers m).key = key := by
    have hseen := ht.seen
    rw [hmade] at hseen
    exact hseen
  -- what was seen is forgotten while the entry is made
  have h₁ : Settled s (n.each.set i { g with seen := .nothing }) := by
    refine h.noteSame hg ?_ rfl fun m hm => hm
    exact ⟨ht.calm, fun hne => absurd rfl hne, trivial, ht.making, ht.uses, ht.attached, ht.added, ht.leaving, ht.vacant,
      ht.spawned⟩
  have h₂ : Settled { s with instances := s.instances.set key m } (n.each.set i { g with seen := .nothing }) :=
    h₁.setInstance hnone hkey fun g₁ hg₁ => h.unseen hr hg hglobal rfl hg₁
  have hat : (n.each.set i { g with seen := .nothing })[i]? = some { g with seen := .nothing } := List.getElem?_set_self hlt
  have ht₂ := h₂.threads _ (List.mem_of_getElem? hat)
  have hthread : Thread { s with instances := s.instances.set key m } (noteAct (.setInstance key m) () g) :=
    ⟨ht₂.calm, fun _ => hglobal, Dict.get?_set_self _ _ _, ht₂.making, ht₂.uses, ht₂.attached, ht₂.added, ht₂.leaving,
      ht₂.vacant, ht₂.spawned⟩
  have h₃ := h₂.noteSame hat hthread rfl fun m hm => hm
  rw [List.set_set] at h₃
  exact h₃

theorem settled_popInstance (h : Settled s n.each) (hr : Referring s held n) (hg : n.each[i]? = some g)
    (hP : g.Permits (.popInstance m)) :
    Settled (Plugin.perform (.popInstance m) s).2 (n.each.set i (noteAct (.popInstance m) () g)) := by
  have hlt : i < n.each.length := (List.getElem?_eq_some_iff.mp hg).1
  have hmem := List.mem_of_getElem? hg
  have ht := h.threads g hmem
  obtain ⟨hdowned, hglobal, hseen⟩ := hP
  have hleaving := ht.leaving m (by rw [hdowned]; rfl)
  have hvacant := ht.vacant m (.inr hdowned)
  have hfree := h.free g hmem m (.inr (.inr hdowned)) hvacant
  have h₁ : Settled s (n.each.set i { g with leaving := .no }) := by
    refine h.note hg ?_ ?_ ?_ ?_ ?_
    · exact ⟨ht.calm, ht.looking, ht.seen, ht.making, ht.uses, ht.attached, ht.added, fun m hm => (by cases hm),
        fun m hm => (by rcases hm with hm | hm <;> cases hm), ht.spawned⟩
    · intro m' hm'
      rw [hdowned] at hm'
      cases hm'
    · rintro m' (hm' | hm' | hm') <;> cases hm'
    · intro m' hm' hv g₁ hg₁ ht₁
      exact h.free g₁ hg₁ m' ht₁ hv g hmem hm'
    · rintro m' (hm' | hm' | hm') <;> cases hm'
  refine h₁.popInstance hleaving.2 hvacant (fun g₁ hg₁ => ?_) (fun g₁ hg₁ hm => ?_) fun g₁ hg₁ hu => ?_
  · refine h.unseen hr hg hglobal ?_ hg₁
    exact hseen
  · obtain ⟨j, hj⟩ := List.mem_iff_getElem?.mp hg₁
    by_cases hij : i = j
    · subst hij
      rw [List.getElem?_set_self hlt, Option.some.injEq] at hj
      subst hj
      cases hm
    · rw [List.getElem?_set_ne hij] at hj
      have hother := (h.threads g₁ (List.mem_of_getElem? hj)).leaving m hm
      exact hij (hr.exclusive hg hj hleaving.1 hother.1)
  · rcases List.mem_or_eq_of_mem_set hg₁ with hold | rfl
    · exact hfree g₁ hold hu
    · exact hfree g hmem hu

theorem settled_addCallback (h : Settled s n.each) (hr : Referring s held n) (hg : n.each[i]? = some g) {cb : ℕ}
    (hP : g.Permits (.addCallback m cb)) :
    Settled (Plugin.perform (.addCallback m cb) s).2 (n.each.set i (noteAct (.addCallback m cb) () g)) := by
  have hmem := List.mem_of_getElem? hg
  obtain ⟨hlock, hno, hfound⟩ := hP
  have h' : Settled (Plugin.perform (.addCallback m cb) s).2 n.each := by
    refine h.setManager (f := fun x => if cb ∈ x.callbacks then x else { x with callbacks := x.callbacks ++ [cb] }) ?_
    have hsame : (if cb ∈ (s.managers m).callbacks then s.managers m
        else { s.managers m with callbacks := (s.managers m).callbacks ++ [cb] }) =
          { s.managers m with callbacks := (if cb ∈ (s.managers m).callbacks then (s.managers m).callbacks
            else (s.managers m).callbacks ++ [cb]) } := by
      split_ifs <;> rfl
    rw [hsame]
    exact mild_same h rfl rfl rfl rfl
  have ht := h'.threads g hmem
  refine h'.note hg ?_ (fun m' hm' => .inl hm') (fun m' hm' hv => h'.free g hmem m' hm' hv) ?_ ?_
  · refine ⟨ht.calm, ht.looking, ht.seen, ht.making, ?_, ?_, ?_, ht.leaving, ht.vacant, ht.spawned⟩
    · intro k m' hk hs
      obtain rfl : m = m' := by
        rcases hs with hs | hs <;> cases hs
        rfl
      have hseen := ht.seen
      rw [hfound k hk] at hseen
      exact hseen
    · intro k m' hk hs
      rcases hs with hs | hs <;> cases hs
    · intro k m' hk hs
      cases hs
  · rintro m' ⟨-, hs⟩ hv g₁ hg₁ ht₁
    obtain rfl : m = m' := by
      rcases hs with hs | hs <;> cases hs
      rfl
    obtain rfl := h.alone hr hg hlock hg₁ ht₁.manager
    rw [hno] at ht₁
    rcases ht₁ with ht₁ | ht₁ | ht₁ <;> cases ht₁
  · intro m' hm'
    change g.leaving.Takes m' at hm'
    rw [hno] at hm'
    rcases hm' with hm' | hm' | hm' <;> cases hm'

theorem settled_newAdapter (h : Settled s n.each) (hg : n.each[i]? = some g) {spec : Spec} {path : String}
    (hP : g.Permits (.newAdapter spec path)) :
    Settled (Plugin.perform (.newAdapter spec path) s).2
      (n.each.set i (noteAct (.newAdapter spec path) s.nextAdapter g)) := by
  have hmem := List.mem_of_getElem? hg
  have hidle : g.stage = .idle := hP
  have h' : Settled (Plugin.perform (.newAdapter spec path) s).2 n.each := h.newAdapter rfl
  have ht := h'.threads g hmem
  refine h'.noteSame hg ?_ rfl ?_
  · refine ⟨ht.calm, ht.looking, ht.seen, ?_, ?_, ?_, ?_, ht.leaving, ht.vacant, ht.spawned⟩
    · intro k hk
      cases hk
      refine ⟨Nat.lt_succ_self _, ?_⟩
      change (Function.update s.adapters s.nextAdapter _ s.nextAdapter).Is _
      rw [Function.update_self]
      exact ⟨rfl, rfl, rfl, rfl⟩
    · intro k m _ hs
      rcases hs with hs | hs <;> exact absurd (hidle.symm.trans hs) (by simp)
    · intro k m _ hs
      rcases hs with hs | hs <;> exact absurd (hidle.symm.trans hs) (by simp)
    · intro k m _ hs
      exact absurd (hidle.symm.trans hs) (by simp)
  · rintro m ⟨-, hs⟩
    rcases hs with hs | hs <;> exact absurd (hidle.symm.trans hs) (by simp)

theorem settled_attach (h : Settled s n.each) (hd : Distinct n.each) (hg : n.each[i]? = some g) {a : ℕ}
    (hP : g.Permits (.attach a m)) :
    Settled (Plugin.perform (.attach a m) s).2 (n.each.set i (noteAct (.attach a m) () g)) := by
  have hmem := List.mem_of_getElem? hg
  obtain ⟨hstage, k, hk, rfl⟩ := hP
  have his := (h.threads g hmem).making k hk
  have h' : Settled (Plugin.perform (.attach k.a m) s).2 n.each := by
    refine h.setAdapter (f := fun x => { x with swapManager := some m }) ⟨?_, fun hr => ?_⟩
    · intro g₁ hg₁ k₁ hk₁ heq
      obtain ⟨j, hj⟩ := List.mem_iff_getElem?.mp hg₁
      obtain rfl := hd i j g g₁ k k₁ hg hj hk hk₁ heq.symm
      rw [hg, Option.some.injEq] at hj
      subst hj
      rw [hk, Option.some.injEq] at hk₁
      subst hk₁
      refine ⟨⟨his.2.registered, his.2.key, his.2.modelId, his.2.modelPath⟩, fun m' hs => ?_⟩
      rw [hstage] at hs
      rcases hs with hs | hs <;> cases hs
    · exact absurd (his.2.registered.symm.trans hr) (by simp)
  have ht := h'.threads g hmem
  have hmanager {m' : ℕ} (hs : Stage.attached m = .using m' ∨ Stage.attached m = .attached m') : m = m' := by
    rcases hs with hs | hs <;> cases hs
    rfl
  refine h'.noteSame hg ?_ rfl ?_
  · refine ⟨ht.calm, ht.looking, ht.seen, ht.making, ?_, ?_, ?_, ht.leaving, ht.vacant, ht.spawned⟩
    · intro k' m' hk' hs
      obtain rfl := hmanager hs
      exact ht.uses k' m hk' (.inl hstage)
    · intro k' m' hk' hs
      obtain rfl : m = m' := by
        rcases hs with hs | hs <;> cases hs
        rfl
      obtain rfl : k = k' := Option.some.inj (hk.symm.trans hk')
      change ((s.setAdapter k.a fun x => { x with swapManager := some m }).adapters k.a).swapManager = some m
      rw [Plugin.setAdapter_at, if_pos rfl]
    · intro k' m' _ hs
      cases hs
  · rintro m' ⟨hmaking, hs⟩
    obtain rfl := hmanager hs
    exact ⟨hmaking, .inl hstage⟩

/-- A model is entered, over none but its own. -/
theorem settled_setModel (h : Settled s n.each) (hg : n.each[i]? = some g) {id : String} {x : Model}
    (hP : g.Permits (.setModel m id x)) (hC : ∀ e ∈ wanted s n.each m, e.1 = id → e.2 = x.path) :
    Settled (Plugin.perform (.setModel m id x) s).2 (n.each.set i (noteAct (.setModel m id x) () g)) := by
  have hmem := List.mem_of_getElem? hg
  have ht := h.threads g hmem
  obtain ⟨hlock, k, hk, hstage, rfl, hpath⟩ := hP
  have hsome : g.making.isSome = true := by rw [hk]; rfl
  have huses : g.Uses m := ⟨hsome, .inr hstage⟩
  have hinstance : s.instances.get? k.key = some m := ht.uses k m hk (.inr hstage)
  have hthis : ({ s.managers m with models := (s.managers m).models.set k.id x } : Manager).Has k.id x.path :=
    ⟨x, Dict.get?_set_self _ _ _, rfl⟩
  have h' : Settled (Plugin.perform (.setModel m k.id x) s).2 n.each := by
    refine h.setManager (f := fun y => { y with models := y.models.set k.id x }) ⟨rfl, ?_, h.torn m, ?_, ?_, ?_, ?_, ?_⟩
    · intro _
      rw [h.keys _ m hinstance]
      exact hinstance
    · intro hv
      exact absurd hv hthis.not_vacant
    · intro g₁ hg₁ hl
      exact absurd huses (h.free g₁ hg₁ m (takes_of_ends hl) ((h.threads g₁ hg₁).vacant m hl) g hmem)
    · intro g₁ hg₁ hs
      exact ((h.threads g₁ hg₁).spawned m hs).2
    · rintro ⟨id, path⟩ he ⟨y, hy, hypath⟩
      by_cases hid : id = k.id
      · obtain rfl : path = x.path := hC _ he hid
        rw [hid]
        exact hthis
      · exact ⟨y, (Dict.get?_set_of_ne _ _ hid).trans hy, hypath⟩
    · intro _ _ _ hup
      exact hup
  have ht' := h'.threads g hmem
  have hnote : noteAct (.setModel m k.id x) () g = { g with stage := .added m, up := false } := if_pos hsome
  rw [hnote]
  refine h'.noteSame hg ?_ rfl ?_
  · refine ⟨ht'.calm, ht'.looking, ht'.seen, ht'.making, ?_, ?_, ?_, ht'.leaving, ht'.vacant, ht'.spawned⟩
    · intro k' m' _ hs
      rcases hs with hs | hs <;> cases hs
    · intro k' m' hk' hs
      obtain rfl : m = m' := by
        rcases hs with hs | hs <;> cases hs
        rfl
      exact ht'.attached k' m hk' (.inl hstage)
    · intro k' m' hk' hs
      cases hs
      obtain rfl : k = k' := Option.some.inj (hk.symm.trans hk')
      refine ⟨⟨hinstance, ?_⟩, fun hu => by cases hu⟩
      change ((s.setManager m fun y => { y with models := y.models.set k.id x }).managers m).Has k.id k.path
      rw [Plugin.setManager_at, if_pos rfl, hpath]
      exact hthis
  · rintro m' ⟨-, hs⟩
    rcases hs with hs | hs <;> cases hs

theorem settled_hasModel (h : Settled s n.each) (hg : n.each[i]? = some g) {id : String} (hP : g.Permits (.hasModel m id)) :
    Settled s (n.each.set i (noteAct (.hasModel m id) ((s.managers m).models.contains id) g)) := by
  have hmem := List.mem_of_getElem? hg
  have ht := h.threads g hmem
  obtain ⟨hlock, hno⟩ := hP
  cases hr : (s.managers m).models.contains id with
  | false => exact h.weaker hg (.refl g)
  | true =>
    obtain ⟨x, hx⟩ := (Dict.contains_iff _ _).mp hr
    have hthere : ¬(s.managers m).Vacant := by
      have hhas : (s.managers m).Has id x.path := ⟨x, hx, rfl⟩
      exact hhas.not_vacant
    refine h.note hg ?_ ?_ ?_ (fun m' hu hv g₁ hg₁ ht₁ => h.free g₁ hg₁ m' ht₁ hv g hmem hu) ?_
    · refine ⟨ht.calm, ht.looking, ht.seen, ht.making, ht.uses, ht.attached, ht.added, ?_, ?_, ht.spawned⟩
      · intro m' hm'
        cases hm'
        exact ⟨hlock, h.present m hthere⟩
      · intro m' hm'
        rcases hm' with hm' | hm' <;> cases hm'
    · intro m' hm'
      rw [hno] at hm'
      cases hm'
    · rintro m' (hm' | hm' | hm') <;> cases hm'
    · rintro m' (hm' | hm' | hm') <;> cases hm'

/-- A model is taken out that no other adapter has. -/
theorem settled_delModel (h : Settled s n.each) (hr : Referring s held n) (hg : n.each[i]? = some g) {id : String}
    (hP : g.Permits (.delModel m id)) (hC : ∀ e ∈ wanted s n.each m, e.1 ≠ id)
    (hlast : ((s.managers m).models.erase id).entries = [] → ∀ g₁ ∈ n.each, ¬g₁.Uses m) :
    Settled (Plugin.perform (.delModel m id) s).2 (n.each.set i (noteAct (.delModel m id) () g)) := by
  have hmem := List.mem_of_getElem? hg
  have ht := h.threads g hmem
  have hhaving : g.leaving = .having m := hP
  obtain ⟨hlock, hinstance⟩ := ht.leaving m (by rw [hhaving]; rfl)
  have hnot {g₁ : Doing} (hg₁ : g₁ ∈ n.each) : ¬g₁.leaving.Takes m := by
    intro ht₁
    obtain rfl := h.alone hr hg hlock hg₁ ht₁.manager
    rw [hhaving] at ht₁
    rcases ht₁ with ht₁ | ht₁ | ht₁ <;> cases ht₁
  have h' : Settled (Plugin.perform (.delModel m id) s).2 n.each := by
    refine h.setManager (f := fun x => { x with models := x.models.erase id })
      ⟨rfl, fun _ => hinstance, h.torn m, ?_, ?_, ?_, ?_, fun _ _ _ hup => hup⟩
    · intro _ g₁ hg₁ ht₁
      exact absurd ht₁ (hnot hg₁)
    · intro g₁ hg₁ hl
      exact absurd (takes_of_ends hl) (hnot hg₁)
    · intro g₁ hg₁ hs
      exact ((h.threads g₁ hg₁).spawned m hs).2
    · rintro ⟨id', path⟩ he ⟨y, hy, hypath⟩
      exact ⟨y, (Dict.get?_erase_of_ne _ (hC _ he)).trans hy, hypath⟩
  have ht' := h'.threads g hmem
  have hthis : (Plugin.perform (.delModel m id) s).2.managers m =
      { s.managers m with models := (s.managers m).models.erase id } := by
    change (s.setManager m fun x => { x with models := x.models.erase id }).managers m = _
    rw [Plugin.setManager_at, if_pos rfl]
  refine h'.note hg ?_ ?_ ?_ (fun m' hu hv g₁ hg₁ ht₁ => h'.free g₁ hg₁ m' ht₁ hv g hmem hu) ?_
  · refine ⟨ht'.calm, ht'.looking, ht'.seen, ht'.making, ht'.uses, ht'.attached, ht'.added, ?_, ?_, ht'.spawned⟩
    · intro m' hm'
      cases hm'
      exact ht'.leaving m (by rw [hhaving]; rfl)
    · intro m' hm'
      rcases hm' with hm' | hm' <;> cases hm'
  · intro m' hm'
    rw [hhaving] at hm'
    cases hm'
  · intro m' hm' hv
    obtain rfl : m = m' := Option.some.inj hm'.manager
    rw [hthis] at hv
    exact hlast hv
  · intro m' hm' hu hv
    obtain rfl : m = m' := Option.some.inj hm'.manager
    rw [hthis] at hv
    exact absurd hu (hlast hv g hmem)

theorem settled_isEmpty (h : Settled s n.each) (hg : n.each[i]? = some g) (hP : g.Permits (.isEmpty m)) :
    Settled s (n.each.set i (noteAct (.isEmpty m) (s.managers m).models.entries.isEmpty g)) := by
  have hmem := List.mem_of_getElem? hg
  have ht := h.threads g hmem
  have htaking : g.leaving = .taking m := hP
  have htakes : g.leaving.Takes m := .inl htaking
  have huses (m' : ℕ) (hu : g.Uses m') (hv : (s.managers m').Vacant) : ∀ g₁ ∈ n.each, ¬g₁.leaving.Takes m' :=
    fun g₁ hg₁ ht₁ => h.free g₁ hg₁ m' ht₁ hv g hmem hu
  have htorn (m' : ℕ) (hm' : g.leaving = .emptied m') : False := by
    rw [htaking] at hm'
    cases hm'
  cases hr : (s.managers m).models.entries.isEmpty with
  | true =>
    have hvacant : (s.managers m).Vacant := List.isEmpty_iff.mp hr
    refine h.note hg ?_ (fun m' hm' => (htorn m' hm').elim) ?_ huses ?_
    · refine ⟨ht.calm, ht.looking, ht.seen, ht.making, ht.uses, ht.attached, ht.added, ?_, ?_, ht.spawned⟩
      · intro m' hm'
        cases hm'
        exact ht.leaving m htakes.manager
      · intro m' hm'
        rcases hm' with hm' | hm' <;> cases hm'
        exact hvacant
    · intro m' hm' hv
      obtain rfl : m = m' := Option.some.inj hm'.manager
      exact h.free g hmem m htakes hv
    · intro m' hm' hu _
      obtain rfl : m = m' := Option.some.inj hm'.manager
      exact ⟨htakes, hu⟩
  | false =>
    refine h.note hg ?_ (fun m' hm' => (htorn m' hm').elim) ?_ huses ?_
    · refine ⟨ht.calm, ht.looking, ht.seen, ht.making, ht.uses, ht.attached, ht.added, ?_, ?_, ht.spawned⟩
      · intro m' hm'
        cases hm'
      · intro m' hm'
        rcases hm' with hm' | hm' <;> cases hm'
    · rintro m' (hm' | hm' | hm') <;> cases hm'
    · rintro m' (hm' | hm' | hm') <;> cases hm'

theorem Leaving.down_takes {l : Leaving} {m' : ℕ} : (l.down m).Takes m' ↔ l.Takes m' := by
  unfold Leaving.down
  split_ifs with hl
  · subst hl
    simp [Leaving.Takes]
  · rfl

theorem Leaving.down_manager (l : Leaving) : (l.down m).manager = l.manager := by
  unfold Leaving.down
  split_ifs with hl
  · rw [hl]
    rfl
  · rfl

/-- A manager whose process has ended is no longer one that is to be stopped. -/
theorem settled_down (h : Settled s n.each) (hg : n.each[i]? = some g) (hproc : (s.managers m).proc = none) :
    Settled s (n.each.set i { g with leaving := g.leaving.down m }) := by
  have hmem := List.mem_of_getElem? hg
  have ht := h.threads g hmem
  refine h.note hg ?_ ?_ ?_ (fun m' hu hv g₁ hg₁ ht₁ => h.free g₁ hg₁ m' ht₁ hv g hmem hu) ?_
  · refine ⟨ht.calm, ht.looking, ht.seen, ht.making, ht.uses, ht.attached, ht.added, ?_, ?_, ht.spawned⟩
    · intro m' hm'
      change (g.leaving.down m).manager = some m' at hm'
      rw [Leaving.down_manager] at hm'
      exact ht.leaving m' hm'
    · intro m' hm'
      have hends : g.Ends m' := ends_of_down hm'
      exact ht.vacant m' hends
  · intro m' hm'
    by_cases hmm : m' = m
    · rw [hmm]
      exact .inr hproc
    · left
      change g.leaving.down m = .emptied m'
      rw [Leaving.down, if_neg (by rw [hm']; simpa using hmm), hm']
  · intro m' hm' hv
    exact h.free g hmem m' (Leaving.down_takes.mp hm') hv
  · intro m' hm' hu _
    exact ⟨Leaving.down_takes.mp hm', hu⟩

theorem settled_isRunning (h : Settled s n.each) (hr : Referring s held n) (hg : n.each[i]? = some g)
    (hP : g.Permits (.isRunning m)) (hpoll : ∀ t, (s.oracle .poll t).yes = true) :
    Settled (Plugin.perform (.isRunning m) s).2 (n.each.set i (noteAct (.isRunning m) (Plugin.perform (.isRunning m) s).1 g)) := by
  have hmem := List.mem_of_getElem? hg
  refine Settled.core (s := s) ?_ (perform_sameCore fun hf => hf)
  have ht := h.threads g hmem
  have hanswer : (Plugin.perform (.isRunning m) s).1 = (s.managers m).proc.isSome := by
    change (s.isRunning m).1 = _
    unfold Plugin.isRunning
    cases (s.managers m).proc with
    | none => rfl
    | some pid => exact hpoll s.tick
  rw [hanswer]
  cases hproc : (s.managers m).proc with
  | none =>
    have hspawned : ¬g.spawned = some m := by
      intro hs
      have hsome := (ht.spawned m hs).2
      rw [hproc] at hsome
      cases hsome
    have hnote : noteAct (.isRunning m) (none : Option ℤ).isSome g = { g with leaving := g.leaving.down m } := by
      change { g with outside := g.outside || g.spawned = some m, leaving := g.leaving.down m } = _
      rw [decide_eq_false hspawned, Bool.or_false]
    rw [hnote]
    exact settled_down h hg hproc
  | some pid =>
    refine h.noteSame hg ?_ rfl fun m hm => hm
    refine ⟨ht.calm, ht.looking, ht.seen, ht.making, ht.uses, ht.attached, ?_, ht.leaving, ht.vacant, ht.spawned⟩
    intro k m' hk hs
    obtain ⟨hserves, hup⟩ := ht.added k m' hk hs
    refine ⟨hserves, fun hu => ?_⟩
    rcases Bool.or_eq_true _ _ ▸ hu with hu | hu
    · exact hup hu
    · -- the process runs and nobody stops the manager, which has a model
      have hstage : g.stage = .added m := of_decide_eq_true hu
      obtain rfl : m = m' := Stage.added.inj (hstage.symm.trans hs)
      cases htorn : (s.managers m).tornDown with
      | false => rfl
      | true =>
        rcases h.torn m htorn with hnone | ⟨g₁, hg₁, hemptied⟩
        · rw [hproc] at hnone
          cases hnone
        · obtain rfl := h.alone hr hg (hP hstage) hg₁ (by rw [hemptied]; rfl)
          exact absurd (ht.vacant m (.inl hemptied)) hserves.2.not_vacant

theorem settled_spawn (h : Settled s n.each) (hg : n.each[i]? = some g) (hP : g.Permits (.spawn m)) :
    Settled (Plugin.perform (.spawn m) s).2 (n.each.set i (noteAct (.spawn m) (Plugin.perform (.spawn m) s).1 g)) := by
  have hmem := List.mem_of_getElem? hg
  let started (x : Manager) : Manager := { x with proc := some (s.ask .spawn).pid, tornDown := false }
  change Settled (s.tryTo .spawn fun t => t.setManager m started).2
    (n.each.set i (noteAct (.spawn m) (s.tryTo .spawn fun t => t.setManager m started).1 g))
  have h₀ : Settled s.tock n.each := h.core (sameCore_tock s)
  rcases tryTo_cases .spawn (fun t => t.setManager m started) s with ⟨⟨e, he⟩, hs⟩ | ⟨hnone, hs⟩
  · rw [he, hs]
    exact h₀.weaker hg (.giveUp g)
  · rw [hnone, hs]
    have hthis : (s.tock.setManager m started).managers m = started (s.managers m) := by
      rw [Plugin.setManager_at, if_pos rfl]
      rfl
    have h' : Settled (s.tock.setManager m started) n.each :=
      h₀.setManager ⟨rfl, h.present m, fun ht => (by cases ht), fun hv g hg ht => h.free g hg m ht hv,
        fun g hg hl => (h.threads g hg).vacant m hl, fun _ _ _ => rfl, fun _ _ he => he, fun _ _ _ _ => rfl⟩
    have ht := h'.threads g hmem
    refine h'.noteSame hg ?_ rfl fun m hm => hm
    refine ⟨ht.calm, ht.looking, ht.seen, ht.making, ht.uses, ht.attached, ?_, ht.leaving, ht.vacant, ?_⟩
    · intro k m' hk hstage'
      obtain ⟨hserves, hup⟩ := ht.added k m' hk hstage'
      refine ⟨hserves, fun hu => ?_⟩
      rcases Bool.or_eq_true _ _ ▸ hu with hu | hu
      · exact hup hu
      · have hstage : g.stage = .added m := of_decide_eq_true hu
        obtain rfl : m = m' := Stage.added.inj (hstage.symm.trans hstage')
        rw [hthis]
    · intro m' hm'
      cases hm'
      refine ⟨hP.1, ?_⟩
      rw [hthis]
      rfl

theorem settled_terminate (h : Settled s n.each) (hr : Referring s held n) (hg : n.each[i]? = some g)
    (hP : g.Permits (.terminate m)) (hend : ∀ t, (s.oracle .terminate t).error = none) :
    Settled (Plugin.perform (.terminate m) s).2
      (n.each.set i (noteAct (.terminate m) (Plugin.perform (.terminate m) s).1 g)) := by
  have hlt : i < n.each.length := (List.getElem?_eq_some_iff.mp hg).1
  have ht := h.threads g (List.mem_of_getElem? hg)
  have hperform : Plugin.perform (.terminate m) s = (none, s.tock.setManager m fun x => { x with proc := none }) := by
    change s.tryTo .terminate _ = _
    rw [Plugin.tryTo, Plugin.ask, hend]
  rw [hperform]
  have h₁ : Settled s (n.each.set i { g with spawned := none }) := by
    refine h.noteSame hg ?_ rfl fun m hm => hm
    exact ⟨ht.calm, ht.looking, ht.seen, ht.making, ht.uses, ht.attached, ht.added, ht.leaving, ht.vacant,
      fun m' hm' => by cases hm'⟩
  have hnone : ∀ g₁ ∈ n.each.set i { g with spawned := none }, g₁.spawned ≠ some m := by
    intro g₁ hg₁ hs
    obtain ⟨j, hj⟩ := List.mem_iff_getElem?.mp hg₁
    by_cases hij : i = j
    · subst hij
      rw [List.getElem?_set_self hlt, Option.some.injEq] at hj
      rw [← hj] at hs
      cases hs
    · rw [List.getElem?_set_ne hij] at hj
      exact hij (hr.exclusive hg hj hP ((h.threads g₁ (List.mem_of_getElem? hj)).spawned m hs).1)
  have h₂ : Settled (s.tock.setManager m fun x => { x with proc := none }) (n.each.set i { g with spawned := none }) := by
    have h₀ : Settled s.tock (n.each.set i { g with spawned := none }) := h₁.core (sameCore_tock s)
    exact h₀.setManager ⟨rfl, h.present m, fun _ => .inl rfl, fun hv g hg ht => h₁.free g hg m ht hv,
      fun g hg hl => (h₁.threads g hg).vacant m hl, fun g hg hs => absurd hs (hnone g hg), fun _ _ he => he,
      fun _ _ _ hup => hup⟩
  have hat : (n.each.set i { g with spawned := none })[i]? = some { g with spawned := none } := List.getElem?_set_self hlt
  have h₃ := settled_down (n := ⟨n.each.set i { g with spawned := none }, ()⟩) (m := m) h₂ hat (by
    rw [Plugin.setManager_at, if_pos rfl])
  rw [List.set_set] at h₃
  exact h₃

theorem settled_stopProxy (h : Settled s n.each) (hg : n.each[i]? = some g) (hP : g.Permits (.stopProxy m)) :
    Settled (Plugin.perform (.stopProxy m) s).2 (n.each.set i (noteAct (.stopProxy m) () g)) := by
  have hmem := List.mem_of_getElem? hg
  have hemptied : g.leaving = .emptied m := hP
  have hvacant := (h.threads g hmem).vacant m (.inl hemptied)
  have h' : Settled (Plugin.perform (.stopProxy m) s).2 n.each :=
    h.setManager (f := fun x => { x with proxy := false, tornDown := true })
      ⟨rfl, h.present m, fun _ => .inr ⟨g, hmem, hemptied⟩, fun hv g hg ht => h.free g hg m ht hv,
        fun g hg hl => (h.threads g hg).vacant m hl, fun g hg hs => ((h.threads g hg).spawned m hs).2, fun _ _ he => he,
        fun _ _ he _ => absurd hvacant he.not_vacant⟩
  exact h'.weaker hg (.refl g)

theorem settled_registerAtexit (h : Settled s n.each) (hd : Distinct n.each) (hg : n.each[i]? = some g) {a : ℕ}
    (hP : g.Permits (.registerAtexit a)) :
    Settled (Plugin.perform (.registerAtexit a) s).2 (n.each.set i (noteAct (.registerAtexit a) () g)) := by
  have hlt : i < n.each.length := (List.getElem?_eq_some_iff.mp hg).1
  have ht := h.threads g (List.mem_of_getElem? hg)
  obtain ⟨hup, k, m, hk, rfl, hstage⟩ := hP
  obtain ⟨hserves, htorn⟩ := ht.added k m hk hstage
  obtain ⟨hlta, his⟩ := ht.making k hk
  have h₁ : Settled s (n.each.set i g.giveUp) := h.weaker hg (.giveUp g)
  refine h₁.setAdapter (f := fun x => { x with registered := true }) ⟨?_, fun _ => ⟨hlta, fun _ => ?_⟩⟩
  · intro g₁ hg₁ k₁ hk₁ heq
    obtain ⟨j, hj⟩ := List.mem_iff_getElem?.mp hg₁
    by_cases hij : i = j
    · subst hij
      rw [List.getElem?_set_self hlt, Option.some.injEq] at hj
      rw [← hj] at hk₁
      cases hk₁
    · rw [List.getElem?_set_ne hij] at hj
      exact absurd (hd i j g g₁ k k₁ hg hj hk hk₁ heq.symm) hij
  · refine ⟨m, ht.attached k m hk (.inr hstage), ?_, htorn hup⟩
    change Serves s (s.adapters k.a).key m (s.adapters k.a).modelId (s.adapters k.a).modelPath
    rw [his.key, his.modelId, his.modelPath]
    exact hserves

/-- The actions whose notes are of weight. -/
def Weighs : Act → Prop
  | .instanceOf _ | .newManager _ _ _ _ | .setInstance _ _ | .popInstance _ | .addCallback _ _ | .newAdapter _ _ | .swapBinary
  | .serverBinary | .attach _ _ | .setModel _ _ _ | .hasModel _ _ | .delModel _ _ | .isEmpty _ | .isRunning _ | .spawn _
  | .terminate _ => True
  | _ => False

theorem weaker_note {a : Act} (ha : ¬Weighs a) (r : a.Resp) (g : Doing) : Weaker g (noteAct a r g) := by
  unfold noteAct
  split
  all_goals
    first
    | exact absurd trivial ha
    | exact .refl g
    | exact .giveUp g
    | exact ⟨rfl, ⟨rfl, rfl⟩, rfl, rfl, rfl, fun _ h => ⟨h, rfl, id⟩⟩
    | (split_ifs <;> first | exact .refl g | exact .giveUp g)

theorem making_note {a : Act} {r : a.Resp} {k : Making} (h : (noteAct a r g).making = some k) :
    g.making = some k ∨ ∃ spec path, a = .newAdapter spec path ∧ HEq r k.a := by
  unfold noteAct at h
  split at h
  all_goals
    first
    | exact .inl h
    | cases h
    | (split_ifs at h <;> first | exact .inl h | cases h)
  exact .inr ⟨_, _, rfl, HEq.rfl⟩

/-- A change of an adapter that leaves what is kept of it. -/
theorem mildTo_same (h : Settled s n.each) {a : ℕ} {y : Adapter} (hregistered : y.registered = (s.adapters a).registered)
    (hspec : y.spec = (s.adapters a).spec) (hpath : y.modelPath = (s.adapters a).modelPath)
    (hid : y.modelId = (s.adapters a).modelId) (hmanager : y.swapManager = (s.adapters a).swapManager)
    (hrunning : y.running = true → (s.adapters a).running = true) : MildTo s n.each a y := by
  have hkey : y.key = (s.adapters a).key := by rw [Adapter.key, hspec, Adapter.key]
  refine ⟨?_, fun hr => ?_⟩
  · rintro g hg k hk rfl
    have ht := h.threads g hg
    obtain ⟨-, his⟩ := ht.making k hk
    refine ⟨⟨hregistered.trans his.registered, hkey.trans his.key, hid.trans his.modelId, hpath.trans his.modelPath⟩, ?_⟩
    intro m hs
    rw [hmanager]
    exact ht.attached k m hk hs
  · obtain ⟨hlt, hkept⟩ := h.standing a (hregistered ▸ hr)
    refine ⟨hlt, fun hrun => ?_⟩
    rw [Kept, hmanager, hkey, hid, hpath]
    exact hkept (hrunning hrun)

end Steps

/-! ### The runs -/

/-- No process fails: what was started runs until it is ended, and ending it succeeds. -/
def NoFailure (oracle : Query → ℕ → Answer) : Prop :=
  ∀ t, (oracle .poll t).yes = true ∧ (oracle .terminate t).error = none

/-- The engines are found. A model is entered over none of another path that is wanted, none
that is wanted is taken out, and none as the last one while another construction is between
finding the manager and entering its model. -/
def Untroubled (s : Plugin) (n : Notes Doing Unit) (_ : Doing) : Act → Prop
  | .swapBinary | .serverBinary => (s.ask .engine).path.isSome = true
  | .setModel m id x => ∀ e ∈ wanted s n.each m, e.1 = id → e.2 = x.path
  | .delModel m id => (∀ e ∈ wanted s n.each m, e.1 ≠ id) ∧
      (((s.managers m).models.erase id).entries = [] → ∀ g' ∈ n.each, ¬g'.Uses m)
  | _ => True

/-- `Untroubled`, computed -/
def untroubled (s : Plugin) (n : Notes Doing Unit) : Act → Bool
  | .swapBinary | .serverBinary => (s.ask .engine).path.isSome
  | .setModel m id x => decide (∀ e ∈ wanted s n.each m, e.1 = id → e.2 = x.path)
  | .delModel m id => decide ((∀ e ∈ wanted s n.each m, e.1 ≠ id) ∧
      (((s.managers m).models.erase id).entries = [] → ∀ g' ∈ n.each, ¬g'.Uses m))
  | _ => true

theorem untroubled_iff {s : Plugin} {n : Notes Doing Unit} {g : Doing} {a : Act} :
    untroubled s n a = true ↔ Untroubled s n g a := by
  cases a with
  | swapBinary | serverBinary => exact Iff.rfl
  | setModel | delModel => exact decide_eq_true_iff
  | _ => exact iff_of_true rfl trivial

instance (s : Plugin) (n : Notes Doing Unit) (g : Doing) (a : Act) : Decidable (Untroubled s n g a) :=
  decidable_of_iff _ untroubled_iff

/-- What holds of every run. -/
structure Sound (s : Plugin) (held : swapSig.Lock → Option (ℕ × ℕ)) (n : Notes Doing Unit) : Prop
    extends Referring s held n where
  settled : Settled s n.each
  distinct : Distinct n.each
  oracle : NoFailure s.oracle

theorem perform_oracle (a : Act) (s : Plugin) : (Plugin.perform a s).2.oracle = s.oracle := by
  cases a with
  | isRunning m =>
    change (s.isRunning m).2.oracle = _
    unfold Plugin.isRunning
    split <;> rfl
  | writeConfig => rfl
  | unlinkConfig | openLog | spawn | terminate | sighup | writePid | startProxy | startServer | clearPid =>
    exact tryTo_view Plugin.oracle rfl rfl
  | _ => rfl

section Runs

variable {s : Plugin} {held held' : swapSig.Lock → Option (ℕ × ℕ)} {n : Notes Doing Unit} {i : ℕ} {g : Doing}

theorem Sound.settled_act (h : Sound s held n) (hg : n.each[i]? = some g) {a : Act} (hk : g.Knows a) (hP : g.Permits a)
    (hC : Untroubled s n g a) :
    Settled (Plugin.perform a s).2 (n.each.set i (noteAct a (Plugin.perform a s).1 g)) := by
  have hs := h.settled
  have hr := h.toReferring
  have hengine {r : Option String} (hr : r.isSome = true) : ∃ path, r = some path := Option.isSome_iff_exists.mp hr
  have hquiet (ht : ¬Touches a) (hw : ¬Weighs a) :
      Settled (Plugin.perform a s).2 (n.each.set i (noteAct a (Plugin.perform a s).1 g)) :=
    (hs.core (perform_sameCore ht)).weaker hg (weaker_note hw _ g)
  cases a with
  | instanceOf key => exact settled_instanceOf hs hg hP
  | newManager key origins swapBin serverBin => exact settled_newManager hs hr hg hP
  | setInstance key m => exact settled_setInstance hs hr hg hk
  | popInstance m => exact settled_popInstance hs hr hg hP
  | addCallback m cb => exact settled_addCallback hs hr hg hP
  | newAdapter spec path => exact settled_newAdapter hs hg hP
  | swapBinary =>
    obtain ⟨path, hpath⟩ := hengine hC
    change Settled s.tock (n.each.set i (noteAct .swapBinary (s.ask .engine).path g))
    rw [hpath]
    exact (hs.core (sameCore_tock s)).weaker hg (.refl g)
  | serverBinary =>
    obtain ⟨path, hpath⟩ := hengine hC
    change Settled s.tock (n.each.set i (noteAct .serverBinary (s.ask .engine).path g))
    rw [hpath]
    exact (hs.core (sameCore_tock s)).weaker hg (.refl g)
  | attach a m => exact settled_attach hs h.distinct hg hP
  | setModel m id x => exact settled_setModel hs hg hP hC
  | hasModel m id => exact settled_hasModel hs hg hP
  | delModel m id => exact settled_delModel hs hr hg hP hC.1 hC.2
  | isEmpty m => exact settled_isEmpty hs hg hP
  | isRunning m => exact settled_isRunning hs hr hg hP fun t => (h.oracle t).1
  | spawn m => exact settled_spawn hs hg hP
  | terminate m => exact settled_terminate hs hr hg hP fun t => (h.oracle t).2
  | stopProxy m => exact settled_stopProxy hs hg hP
  | registerAtexit a => exact settled_registerAtexit hs h.distinct hg hP
  | removeCallback m cb =>
    exact (hs.setManager (f := fun x => { x with callbacks := x.callbacks.erase cb })
      (mild_same hs rfl rfl rfl rfl)).weaker hg (.refl g)
  | makeProxy m =>
    exact (hs.setManager (f := fun x => { x with proxy := true }) (mild_same hs rfl rfl rfl rfl)).weaker hg (.refl g)
  | stopServer a =>
    exact (hs.setAdapter (f := fun x => { x with server := false })
      (mildTo_same hs rfl rfl rfl rfl rfl id)).weaker hg (.refl g)
  | startHeartbeat a =>
    exact (hs.setAdapter (f := fun x => { x with heartbeat := true })
      (mildTo_same hs rfl rfl rfl rfl rfl id)).weaker hg (.refl g)
  | endRunning a =>
    exact (hs.setAdapter (f := fun x => { x with running := false })
      (mildTo_same hs rfl rfl rfl rfl rfl fun hf => by cases hf)).weaker hg (.refl g)
  | startServer a =>
    refine Settled.weaker (g := g) ?_ hg (weaker_note (a := .startServer a) (fun hf => hf) _ g)
    have h₀ : Settled s.tock n.each := hs.core (sameCore_tock s)
    rcases tryTo_cases .server (fun t => t.setAdapter a fun x => { x with server := true }) s with ⟨-, he⟩ | ⟨-, he⟩
    · exact he ▸ h₀
    · exact he ▸ h₀.setAdapter (mildTo_same h₀ rfl rfl rfl rfl rfl id)
  | _ => exact hquiet (fun hf => hf) fun hf => hf

theorem Sound.act (h : Sound s held n) (hg : n.each[i]? = some g) {a : Act} (hT : terms.act g a)
    (hC : Untroubled s n g a) :
    Sound (Plugin.perform a s).2 held (n.deed (σ := swapSig) note unmarked i g (.act a (Plugin.perform a s).1)) := by
  have hmem := List.mem_of_getElem? hg
  obtain ⟨hk, hP⟩ := hT
  obtain ⟨hout, hdirect⟩ := (h.settled.threads g hmem).calm
  refine ⟨h.toReferring.act hg hk, h.settled_act hg hk (hP hout hdirect) hC, ?_, ?_⟩
  · refine h.distinct.set hg fun k hk => ?_
    rcases making_note hk with hold | ⟨spec, path, rfl, hr⟩
    · exact .inl hold
    · right
      intro g₁ hg₁ k₁ hk₁
      have hlt := ((h.settled.threads g₁ hg₁).making k₁ hk₁).1
      have hka : s.nextAdapter = k.a := eq_of_heq hr
      omega
  · rw [perform_oracle]
    exact h.oracle

theorem Sound.lock (h : Sound s held n) (hg : n.each[i]? = some g) {admits : Entry → Bool} {l : swapSig.Lock}
    (hmay : g.MayLock l) (hl : (machine admits).acquire held l i = some held') :
    Sound s held' (n.deed note unmarked i g (.lock l)) := by
  have ht := h.settled.threads g (List.mem_of_getElem? hg)
  refine ⟨h.toReferring.lock hg hmay hl, ?_, h.distinct.set hg fun k hk => .inl hk, h.oracle⟩
  refine h.settled.noteSame hg ?_ rfl fun m hm => hm
  exact ⟨ht.calm, fun hne => List.mem_cons_of_mem _ (ht.looking hne), ht.seen, ht.making, ht.uses, ht.attached, ht.added,
    fun m hm => ⟨List.mem_cons_of_mem _ (ht.leaving m hm).1, (ht.leaving m hm).2⟩, ht.vacant,
    fun m hm => ⟨List.mem_cons_of_mem _ (ht.spawned m hm).1, (ht.spawned m hm).2⟩⟩

theorem Sound.unlock (h : Sound s held n) (hg : n.each[i]? = some g) {l : swapSig.Lock} (hmay : g.MayUnlock l)
    (hl : release held l i = some held') : Sound s held' (n.deed note unmarked i g (.unlock l)) := by
  have hmem := List.mem_of_getElem? hg
  have ht := h.settled.threads g hmem
  have hother {l l' : Lock} (hne : l' ≠ l) (hl' : l' ∈ g.locks) : l' ∈ g.locks.erase l :=
    (List.mem_erase_of_ne hne).mpr hl'
  have hdistinct : Distinct (n.each.set i (g.note (.unlock l))) := by
    refine h.distinct.set hg fun k hk => .inl ?_
    cases l <;> exact hk
  refine ⟨h.toReferring.unlock hg hl, ?_, hdistinct, h.oracle⟩
  cases l with
  | global =>
    refine h.settled.noteSame hg ?_ rfl fun m hm => hm
    refine ⟨ht.calm, fun hne => absurd rfl hne, trivial, ht.making, ht.uses, ht.attached, ht.added, ?_, ht.vacant, ?_⟩
    · intro m hm
      exact ⟨hother (by simp) (ht.leaving m hm).1, (ht.leaving m hm).2⟩
    · intro m hm
      exact ⟨hother (by simp) (ht.spawned m hm).1, (ht.spawned m hm).2⟩
  | manager m =>
    obtain ⟨hout, hdirect⟩ := ht.calm
    refine h.settled.note hg ?_ ?_ ?_ (fun m' hu hv g₁ hg₁ ht₁ => h.settled.free g₁ hg₁ m' ht₁ hv g hmem hu) ?_
    · refine ⟨ht.calm, ?_, ht.seen, ht.making, ht.uses, ht.attached, ht.added, fun m hm => (by cases hm),
        fun m hm => (by rcases hm with hm | hm <;> cases hm), fun m hm => (by cases hm)⟩
      intro hne
      exact hother (by simp) (ht.looking hne)
    · intro m' hm'
      exact absurd hm' (hmay hout hdirect m')
    · rintro m' (hm' | hm' | hm') <;> cases hm'
    · rintro m' (hm' | hm' | hm') <;> cases hm'

/-- An adapter is made or stopped, or its manager is looked after. -/
def ofAdapters : Entry → Bool
  | .create _ | .stop _ | .heartbeat _ => true
  | _ => false

theorem Sound.append (h : Sound s held n) {x : Entry} (ha : ofAdapters x = true) {p : Code Unit} {s' : Plugin}
    (hx : enter x s = some (p, s')) : Sound s held ⟨n.each ++ [born x s], n.all⟩ := by
  have hs := born_starts x s
  have hmaking : (born x s).making = none := hs.making
  have hnot (m : ℕ) : ¬(born x s).leaving.Takes m := by
    rw [hs.leaving]
    rintro (hm | hm | hm) <;> cases hm
  have hcalm : (born x s).outside = false ∧ (born x s).direct = false ∧ (born x s).spawned = none := by
    cases x with
    | create | stop | heartbeat => exact ⟨rfl, rfl, rfl⟩
    | _ => cases ha
  have hnew : Thread s (born x s) := by
    refine ⟨⟨hcalm.1, hcalm.2.1⟩, fun hne => absurd hs.seen hne, ?_, ?_, ?_, ?_, ?_, ?_, ?_, ?_⟩
    · rw [hs.seen]
      trivial
    · intro k hk
      rw [hmaking] at hk
      cases hk
    · intro k m hk
      rw [hmaking] at hk
      cases hk
    · intro k m hk
      rw [hmaking] at hk
      cases hk
    · intro k m hk
      rw [hmaking] at hk
      cases hk
    · intro m hm
      rw [hs.leaving] at hm
      cases hm
    · intro m hm
      exact absurd (takes_of_ends hm) (hnot m)
    · intro m hm
      rw [hcalm.2.2] at hm
      cases hm
  have hcases {g : Doing} (hg : g ∈ n.each ++ [born x s]) : g ∈ n.each ∨ g = born x s := by simpa using hg
  refine ⟨h.toReferring.append hx, ⟨h.settled.keys, h.settled.present, ?_, ?_, h.settled.standing, ?_⟩, ?_, h.oracle⟩
  · intro m hm
    rcases h.settled.torn m hm with hnone | ⟨g, hg, hl⟩
    · exact .inl hnone
    · exact .inr ⟨g, List.mem_append_left _ hg, hl⟩
  · intro g hg m ht hv g' hg' hu
    rcases hcases hg with hg | rfl
    · rcases hcases hg' with hg' | rfl
      · exact h.settled.free g hg m ht hv g' hg' hu
      · have hsome := hu.1
        rw [hmaking] at hsome
        cases hsome
    · exact hnot m ht
  · intro g hg
    rcases hcases hg with hg | rfl
    · exact h.settled.threads g hg
    · exact hnew
  · intro i j g g' k k' hi hj hk hk' heq
    have hold {i : ℕ} {g : Doing} {k : Making} (hi : (n.each ++ [born x s])[i]? = some g) (hk : g.making = some k) :
        n.each[i]? = some g := by
      by_cases hlt : i < n.each.length
      · rwa [List.getElem?_append_left hlt] at hi
      · have hmem := List.mem_of_getElem? (l := [born x s]) (i := i - n.each.length) (a := g) (by
          rwa [List.getElem?_append_right (Nat.le_of_not_lt hlt)] at hi)
        rw [List.mem_singleton.mp hmem, hmaking] at hk
        cases hk
    exact h.distinct i j g g' k k' (hold hi hk) (hold hj hk') hk hk' heq

theorem sound_fresh (windows : Bool) (cwd : Path) (configs : ℤ → Option (List Char)) (pids : ℤ → Option ℤ)
    {oracle : Query → ℕ → Answer} (ho : NoFailure oracle) :
    Sound (fresh windows cwd configs pids oracle) (fun _ => none) ⟨[], ()⟩ where
  toReferring := referring_fresh windows cwd configs pids oracle
  settled := by
    refine ⟨fun _ _ h => (by cases h), fun m h => absurd rfl h, fun m h => (by cases h), fun g hg => (by cases hg),
      fun b h => (by cases h), fun g hg => by cases hg⟩
  distinct i j g g' k k' hi := by cases hi
  oracle := ho

/-- **No model is lost.** Where the condition is met and no process fails, every adapter
that was made and is not stopped has its model with the manager of its address. -/
theorem models_kept (windows : Bool) (cwd : Path) (configs : ℤ → Option (List Char)) (pids : ℤ → Option ℤ)
    (oracle : Query → ℕ → Answer) (ho : NoFailure oracle) {es : List (Ev Entry)} {c : Sys swapSig Plugin}
    (hm : (machine ofAdapters).MeetsNoted note born unmarked Untroubled (load (fresh windows cwd configs pids oracle)) ⟨[], ()⟩ es)
    (he : (machine ofAdapters).exec (load (fresh windows cwd configs pids oracle)) es = some c) (a : ℕ)
    (hmade : (c.shared.adapters a).registered = true) (hrunning : (c.shared.adapters a).running = true) :
    Kept c.shared (c.shared.adapters a) := by
  have hstart : Bound note terms (load (fresh windows cwd configs pids oracle)) [] := .nil
  have hrun := exec_obeys (C := Untroubled) (I := Sound) ?_ ?_ ?_ ?_ hstart (sound_fresh windows cwd configs pids ho) hm he
  · exact (hrun.2.settled.standing a hmade).2 hrunning
  · intro s held n i g a h hg hT hC
    exact h.act hg hT hC
  · intro s held held' n i g l h hg hmay hl
    exact h.lock hg hmay hl
  · intro s held held' n i g l h hg hmay hl
    exact h.unlock hg hmay hl
  · intro s held n x p s' h hx
    obtain ⟨ha, hx⟩ := Option.ite_none_right_eq_some.mp hx
    obtain ⟨rfl, hobeys⟩ := obeys_enter hx
    exact ⟨hobeys, h.append ha hx⟩

end Runs

/-! ### A model that comes while the last one goes -/

theorem kept_iff {s : Plugin} {x : Adapter} : Kept s x ↔ x.swapManager.any (fun m =>
    decide (s.instances.get? x.key = some m) && ((s.managers m).models.get? x.modelId).any (fun y => y.path = x.modelPath) &&
      !(s.managers m).tornDown) = true := by
  simp only [Kept, Serves, Manager.Has, Option.any_eq_true, Bool.and_eq_true, decide_eq_true_eq, Bool.not_eq_true']

instance (s : Plugin) (x : Adapter) : Decidable (Kept s x) := decidable_of_iff' _ kept_iff

theorem noFailure_calm : NoFailure calm := fun _ => ⟨rfl, rfl⟩

/-- A model is served on 8100. -/
def comes : List (Ev Entry) := .enter (.create (specOn 8100 "a")) :: List.replicate 34 (.step 0)

/-- Another one finds the manager, which is stopped with the first one before the second is
entered: it serves from a manager that the registry does not have. -/
theorem model_lost : ∃ es c, (machine ofAdapters).exec calmStart es = some c ∧
    ((c.shared.adapters 1).registered = true ∧ (c.shared.adapters 1).running = true) ∧
      ¬Kept c.shared (c.shared.adapters 1) := by
  have hrun : ((machine ofAdapters).exec calmStart
      (comes ++ .enter (.create (specOn 8100 "b")) :: List.replicate 10 (.step 1) ++
        .enter (.stop 0) :: List.replicate 18 (.step 2) ++ List.replicate 22 (.step 1))).any (fun c =>
      ((c.shared.adapters 1).registered = true ∧ (c.shared.adapters 1).running = true) ∧
        ¬Kept c.shared (c.shared.adapters 1)) = true := by
    decide +kernel
  obtain ⟨c, hc, hlost⟩ := (Option.any_eq_true _ _).mp hrun
  exact ⟨_, c, hc, of_decide_eq_true hlost⟩

/-- Entered before the first one goes, the second one stays. -/
theorem models_kept_together : ∃ c, (machine ofAdapters).exec calmStart
    (comes ++ .enter (.create (specOn 8100 "b")) :: List.replicate 21 (.step 1) ++
      .enter (.stop 0) :: List.replicate 14 (.step 2)) = some c ∧ Kept c.shared (c.shared.adapters 1) := by
  have hrun : ((machine ofAdapters).exec calmStart
      (comes ++ .enter (.create (specOn 8100 "b")) :: List.replicate 21 (.step 1) ++
        .enter (.stop 0) :: List.replicate 14 (.step 2))).any (fun c =>
        (c.shared.adapters 1).registered = true ∧ (c.shared.adapters 1).running = true) = true := by
    decide +kernel
  have hmeets : (machine ofAdapters).checksNoted note born unmarked (fun s n g (a : Act) => decide (Untroubled s n g a))
      calmStart ⟨[], ()⟩ (comes ++ .enter (.create (specOn 8100 "b")) :: List.replicate 21 (.step 1) ++
        .enter (.stop 0) :: List.replicate 14 (.step 2)) = true := by
    decide +kernel
  obtain ⟨c, hc, hmade⟩ := (Option.any_eq_true _ _).mp hrun
  obtain ⟨hmade, hrunning⟩ := of_decide_eq_true hmade
  exact ⟨c, hc, models_kept false (Path.ofString "/srv") (fun _ => none) (fun _ => none) calm noFailure_calm
    (meetsNoted_of_checks (fun _ _ _ (a : Act) (h : decide (Untroubled _ _ _ a) = true) => of_decide_eq_true h) hmeets) hc 1
    hmade hrunning⟩

end LanguageModel
end LocaiLink
