/-
# The ports of the managers

A manager's proxy listens on its public port, its llama-swap 50 above, and the
llama-servers of its models from 150 above on, one port each. Within one manager these
never meet. Two managers with other public ports keep out of each other's way just
where they are `Apart`: nothing but the distance of their public ports and the number
of models decides.
-/
import Mathlib.Logic.Function.Basic
import LocaiLink.Serving.SwapManager

namespace LocaiLink
namespace LanguageModel

/-- What listens on a port: a manager's proxy, its llama-swap, the server of a model. -/
inductive Listener (ι : Type)
  | proxy (i : ι)
  | swap (i : ι)
  | server (i : ι) (k : ℕ)

section Ports

variable {ι : Type} (M : ι → Manager)

def Manager.count (m : Manager) : ℕ := m.models.entries.length

/-- The server of a model is there for each entry of the config file. -/
def Listener.There : Listener ι → Prop
  | .proxy _ | .swap _ => True
  | .server i k => k < (M i).served.length

/-- The port it is given; a model's is the one in the config file. -/
def Listener.port : Listener ι → ℤ
  | .proxy i => (M i).port
  | .swap i => (M i).listenPort
  | .server i k => ((M i).served[k]?).elim 0 fun e => e.2.2

/-- No port is given twice, so what comes to a port comes to the one it is for. -/
def NoCollision : Prop :=
  ∀ a b : Listener ι, a.There M → b.There M → a.port M = b.port M → a = b

/-- The second manager's ports are not among the first one's. -/
structure Apart (x y : Manager) : Prop where
  swap : y.port ≠ x.port + 50
  server : ¬(x.port + 150 ≤ y.port ∧ y.port < x.port + 150 + x.count)
  swapServer : ¬(x.port + 100 ≤ y.port ∧ y.port < x.port + 100 + x.count)
  servers : y.count = 0 ∨ ¬(x.port < y.port ∧ y.port < x.port + x.count)

theorem served_length (m : Manager) : m.served.length = m.count := by
  simp [Manager.served, Manager.count]

variable {M}

theorem there_server {i : ι} {k : ℕ} : (Listener.server i k).There M ↔ k < (M i).count := by
  rw [Listener.There, served_length]

/-- The ports in the config file are the internal ones, in the order of the models. -/
theorem port_server {i : ι} {k : ℕ} (hk : k < (M i).count) :
    (Listener.server i k).port M = (M i).port + 150 + k := by
  have hget : (M i).served[k]? = ((M i).models.entries[k]?).map fun e => (e.1, e.2, (M i).internalPort k) := by
    rw [Manager.served, List.getElem?_mapIdx]
  rw [Listener.port, hget, List.getElem?_eq_getElem hk]
  simp only [Option.map_some, Option.elim_some, Manager.internalPort, Manager.listenPort, PROXY_OFFSET,
    INTERNAL_PORT_OFFSET]
  omega

theorem port_swap (i : ι) : (Listener.swap i).port M = (M i).port + 50 := rfl

theorem port_proxy (i : ι) : (Listener.proxy i).port M = (M i).port := rfl

/-- Where a port is given twice, two managers are not apart. -/
theorem Apart.of_noCollision (h : NoCollision M) {i j : ι} (hij : i ≠ j) : Apart (M i) (M j) where
  swap heq := by
    cases h (.proxy j) (.swap i) trivial trivial (by rw [port_proxy, port_swap, heq])
  server := by
    rintro ⟨hle, hlt⟩
    obtain ⟨k, hk⟩ := Int.eq_ofNat_of_zero_le (show 0 ≤ (M j).port - ((M i).port + 150) by omega)
    have hcount : k < (M i).count := by omega
    cases h (.proxy j) (.server i k) trivial (there_server.mpr hcount) (by
      rw [port_proxy, port_server hcount]
      omega)
  swapServer := by
    rintro ⟨hle, hlt⟩
    obtain ⟨k, hk⟩ := Int.eq_ofNat_of_zero_le (show 0 ≤ (M j).port - ((M i).port + 100) by omega)
    have hcount : k < (M i).count := by omega
    cases h (.swap j) (.server i k) trivial (there_server.mpr hcount) (by
      rw [port_swap, port_server hcount]
      omega)
  servers := by
    by_contra hnot
    rw [not_or, not_not] at hnot
    obtain ⟨hsome, hlt, hgt⟩ := hnot
    obtain ⟨k, hk⟩ := Int.eq_ofNat_of_zero_le (show 0 ≤ (M j).port - (M i).port by omega)
    have hcount : k < (M i).count := by omega
    have hfirst : 0 < (M j).count := Nat.pos_of_ne_zero hsome
    have hsame := h (.server j 0) (.server i k) (there_server.mpr hfirst) (there_server.mpr hcount) (by
      rw [port_server hfirst, port_server hcount]
      omega)
    cases hsame
    exact hij rfl

/-- The ports are pairwise distinct just where every two managers are apart. -/
theorem ports_distinct_iff (hM : Function.Injective fun i => (M i).port) :
    NoCollision M ↔ ∀ i j, i ≠ j → Apart (M i) (M j) := by
  refine ⟨fun h i j hij => Apart.of_noCollision h hij, fun h => ?_⟩
  -- of two listeners the one with the lower public port is looked at first
  have hlower (i j : ι) (hij : i ≠ j) : (M i).port ≠ (M j).port := fun heq => hij (hM heq)
  intro a b ha hb hport
  cases a with
  | proxy i =>
    cases b with
    | proxy j =>
      rw [port_proxy, port_proxy] at hport
      rw [hM hport]
    | swap j =>
      rw [port_proxy, port_swap] at hport
      by_cases hij : j = i
      · subst hij
        omega
      · exact absurd hport (h j i hij).swap
    | server j k =>
      rw [there_server] at hb
      rw [port_proxy, port_server hb] at hport
      by_cases hij : j = i
      · subst hij
        omega
      · exact absurd ⟨by omega, by omega⟩ (h j i hij).server
  | swap i =>
    cases b with
    | proxy j =>
      rw [port_proxy, port_swap] at hport
      by_cases hij : i = j
      · subst hij
        omega
      · exact absurd hport.symm (h i j hij).swap
    | swap j =>
      rw [port_swap, port_swap] at hport
      rw [hM (show (M i).port = (M j).port by omega)]
    | server j k =>
      rw [there_server] at hb
      rw [port_swap, port_server hb] at hport
      by_cases hij : j = i
      · subst hij
        omega
      · exact absurd ⟨by omega, by omega⟩ (h j i hij).swapServer
  | server i k =>
    rw [there_server] at ha
    rw [port_server ha] at hport
    cases b with
    | proxy j =>
      rw [port_proxy] at hport
      by_cases hij : i = j
      · subst hij
        omega
      · exact absurd ⟨by omega, by omega⟩ (h i j hij).server
    | swap j =>
      rw [port_swap] at hport
      by_cases hij : i = j
      · subst hij
        omega
      · exact absurd ⟨by omega, by omega⟩ (h i j hij).swapServer
    | server j l =>
      rw [there_server] at hb
      rw [port_server hb] at hport
      by_cases hij : i = j
      · subst hij
        obtain rfl : k = l := by omega
        rfl
      · rcases lt_or_gt_of_ne (hlower i j hij) with hlt | hgt
        · exact absurd ⟨hlt, by omega⟩ ((h i j hij).servers.resolve_left (by omega))
        · exact absurd ⟨hgt, by omega⟩ ((h j i (Ne.symm hij)).servers.resolve_left (by omega))

end Ports

/-! ### Two managers next to each other -/

/-- A manager on a port with models of these names. -/
def managerOn (port : ℤ) (names : List String) : Manager :=
  { port, host := "0.0.0.0", allowedOrigins := [], swapBin := "bin/llama-swap", serverBin := "bin/llama-server"
    models := .ofList (names.map fun name => (name, ⟨s!"models/{name}.gguf", [], .empty, MODEL_TTL⟩)) }

def pair (x y : Manager) : Bool → Manager
  | false => x
  | true => y

theorem pair_injective {x y : Manager} (h : x.port ≠ y.port) : Function.Injective fun i => (pair x y i).port := by
  intro i j hij
  cases i <;> cases j
  · rfl
  · exact absurd hij h
  · exact absurd hij (Ne.symm h)
  · rfl

/-- The second model of the manager on 8100 and the first of the one on 8101 get 8251. -/
theorem ports_collide : ∃ M : Bool → Manager, Function.Injective (fun i => (M i).port) ∧ ¬NoCollision M := by
  refine ⟨pair (managerOn 8100 ["a", "b"]) (managerOn 8101 ["c"]), pair_injective (by decide), fun h => ?_⟩
  have hsame := h (.server false 1) (.server true 0) (there_server.mpr (by decide)) (there_server.mpr (by decide))
    (by decide)
  cases hsame

/-- A hundred ports and more between them, and few models. -/
theorem ports_distinct_far : NoCollision (pair (managerOn 8100 ["a", "b"]) (managerOn 8400 ["c"])) := by
  refine (ports_distinct_iff (pair_injective (by decide))).mpr fun i j hij => ?_
  cases i <;> cases j
  · exact absurd rfl hij
  · exact ⟨by decide, by decide, by decide, by decide⟩
  · exact ⟨by decide, by decide, by decide, by decide⟩
  · exact absurd rfl hij

end LanguageModel
end LocaiLink
