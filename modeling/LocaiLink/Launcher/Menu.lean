/-
# The tray's menu

`poll_forever` keeps the tray's menu with what the agent reports. A change of its
structure (which rows there are, the update row, onboarding) rebuilds it; a change of
values is written into the rows that are there. On macOS nothing else rebuilds it, and
not while a window is open; elsewhere any change of the digest does. `agrees_iff` says
when the menu is the one a rebuild would give.
-/
import Mathlib.Data.List.Sort
import LocaiLink.Base.Double
import LocaiLink.Launcher.Tray

namespace LocaiLink.Launcher.Menu

/-! ### What a poll finds -/

/-- Of the `ModelInfo`, what the tray reads. -/
structure ModelInfo where
  id : String
  alias' : String
  port : Option ℕ
  isServing : Bool
  deriving DecidableEq

structure DeploymentProgress where
  pipelineId : String
  modelName : Option String
  stage : String
  progressPct : Double

inductive HealthStatus
  | up (deployments : List DeploymentProgress) (updateAvailable : Bool) (latestVersion : Option String)
  | down
  | malformed

inductive ModelsStatus
  | ok (models : List ModelInfo)
  | down
  | malformed

/-- The answers of the agent, and whether a device identity is there. -/
structure Polled where
  health : HealthStatus
  models : ModelsStatus
  registered : Bool

/-- What a menu is built from. -/
structure Data where
  models : List ModelInfo
  deployments : List DeploymentProgress
  statusText : String
  update : Option String
  registered : Bool

/-! ### Labels -/

/-- `as u32` -/
def asU32 : Double → ℕ
  | .nan => 0
  | .infinite neg => if neg then 0 else 2 ^ 32 - 1
  | .finite q => min q.floor.toNat (2 ^ 32 - 1)

/-- `models_serving_label` -/
def modelsServingLabel (models : List ModelInfo) : String :=
  let n := (models.filter fun m => m.isServing).length
  if 0 < n then "Models - " ++ toString n ++ " serving" else "Models"

/-- `model_label` -/
def modelLabel (m : ModelInfo) : String :=
  match m.port with
  | some port => m.alias' ++ " · :" ++ toString port
  | none => m.alias'

/-- `deployment_label` -/
def deploymentLabel (d : DeploymentProgress) : String :=
  let name := d.modelName.getD d.pipelineId
  if d.stage = "queued" then "Queued " ++ name
  else
    let verb := if d.stage = "downloading" then "Downloading" else if d.stage = "configuring" then "Configuring" else d.stage
    verb ++ " " ++ name ++ " — " ++ toString (asU32 d.progressPct) ++ "%"

/-- The header, after the channel's suffix. -/
def statusText (suffix state : String) : String := "Locai Link" ++ suffix ++ " · " ++ state

def statusTextInitial (suffix : String) : String := statusText suffix "Checking…"

def statusTextUp (suffix : String) : String := statusText suffix "ONLINE"

def statusTextDown (suffix : String) : String := statusText suffix "OFFLINE"

def statusTextUpdating (suffix : String) : String := statusText suffix "UPDATING"

def statusTextRegistering (suffix : String) : String := statusText suffix "REGISTERING"

/-- `status_label` -/
def statusLabel (suffix : String) : HealthStatus → String
  | .up .. => statusTextUp suffix
  | .down | .malformed => statusTextDown suffix

/-! ### Menus -/

structure MenuItem where
  id : String
  text : String
  enabled : Bool
  accelerator : Option String

structure CheckMenuItem where
  id : String
  text : String
  enabled : Bool
  checked : Bool

def MenuItem.setText (text : String) (i : MenuItem) : MenuItem := { i with text }

def CheckMenuItem.setText (text : String) (i : CheckMenuItem) : CheckMenuItem := { i with text }

def CheckMenuItem.setChecked (checked : Bool) (i : CheckMenuItem) : CheckMenuItem := { i with checked }

/-- The Models submenu, and the row it has when there are no others. -/
structure Submenu where
  id : String
  text : String
  enabled : Bool
  placeholder : Option MenuItem

def Submenu.setText (text : String) (sm : Submenu) : Submenu := { sm with text }

/-- A row of a submenu. -/
inductive Row
  | item (i : MenuItem)
  | check (i : CheckMenuItem)

/-- An entry of the menu. -/
inductive Entry
  | item (i : MenuItem)
  | separator
  | submenu (id text : String) (enabled : Bool) (rows : List Row)

/-- The items of a menu that is built. The menu holds the same items as the handles: what is set on
a handle is seen in the menu. The update row has no handle. -/
structure BuiltTray where
  status : MenuItem
  submenu : Option Submenu
  modelItems : List (String × CheckMenuItem)
  deployItems : List (String × MenuItem)
  update : Option MenuItem

def statusItem (text : String) : MenuItem := ⟨"status", text, false, none⟩

def placeholder : MenuItem := ⟨"models_placeholder", "(no models serving)", false, none⟩

def updateItem (v : String) : MenuItem := ⟨"update", "Update to v" ++ v, true, none⟩

def quit : MenuItem := ⟨"quit", "Quit", true, some "CmdOrCtrl+Q"⟩

def modelItem (m : ModelInfo) : String × CheckMenuItem := (m.id, ⟨"model:" ++ m.id, modelLabel m, true, m.isServing⟩)

def deployItem (d : DeploymentProgress) : String × MenuItem :=
  (d.pipelineId, ⟨"deploy-" ++ d.pipelineId, deploymentLabel d, false, none⟩)

/-- The entries between the header and `Quit` before the device is registered. -/
def onboarding : List Entry :=
  [.item ⟨"continue_setup", "Continue Setup…", true, none⟩, .item ⟨"uninstall", "Uninstall Locai Link…", true, none⟩, .separator]

/-- The actions, before `Quit`. -/
def actions : List Entry :=
  [.item ⟨"control", "Open Control Plane", true, none⟩, .item ⟨"workspace", "Open a Workspace", true, none⟩,
    .item ⟨"download_models", "Download models…", true, none⟩, .item ⟨"preferences", "Preferences…", true, some "CmdOrCtrl+,"⟩]

namespace BuiltTray

/-- The rows of the Models submenu. -/
def rows (t : BuiltTray) (sm : Submenu) : List Row :=
  (sm.placeholder.map Row.item).toList ++ (t.deployItems.map fun p => Row.item p.2) ++ t.modelItems.map fun p => Row.check p.2

/-- The menu that is shown. -/
def menu (t : BuiltTray) : List Entry :=
  match t.submenu with
  | none => [.item t.status, .separator] ++ onboarding ++ [.item quit]
  | some sm =>
    [.item t.status, .separator, .submenu sm.id sm.text sm.enabled (t.rows sm), .separator] ++
      (t.update.map Entry.item).toList ++ actions ++ [.item quit]

end BuiltTray

/-- `build_models_submenu` -/
def buildModelsSubmenu (models : List ModelInfo) (deployments : List DeploymentProgress) :
    Submenu × List (String × CheckMenuItem) × List (String × MenuItem) :=
  let submenuLabel := modelsServingLabel models
  if models.isEmpty && deployments.isEmpty then (⟨"models", submenuLabel, true, some placeholder⟩, [], [])
  else (⟨"models", submenuLabel, true, none⟩, models.map modelItem, deployments.map deployItem)

/-- `build_tray_menu` -/
def buildTrayMenu (d : Data) : BuiltTray :=
  let status := statusItem d.statusText
  if !d.registered then ⟨status, none, [], [], none⟩
  else
    let (submenu, modelItems, deployItems) := buildModelsSubmenu d.models d.deployments
    ⟨status, some submenu, modelItems, deployItems, d.update.map updateItem⟩

/-! ### Digests -/

/-- `StructureSig` -/
structure StructureSig where
  models : List String
  deployments : List String
  update : Bool
  registered : Bool
  deriving DecidableEq

def sorted (l : List String) : List String := l.insertionSort fun a b => a ≤ b

/-- `structure_sig` -/
def structureSig (models : List ModelInfo) (deployments : List DeploymentProgress) (update : Option String) (registered : Bool) :
    StructureSig :=
  ⟨sorted (models.map ModelInfo.id), sorted (deployments.map DeploymentProgress.pipelineId), update.isSome, registered⟩

structure MenuDigest where
  models : List (String × Bool)
  deployments : List (String × String × ℕ)
  update : Option String
  registered : Bool
  deriving DecidableEq

def MenuDigest.default : MenuDigest := ⟨[], [], none, false⟩

/-- The order of pairs. -/
def pairLe (a b : String × Bool) : Prop := a.1 < b.1 ∨ a.1 = b.1 ∧ a.2 ≤ b.2

instance : DecidableRel pairLe := fun _ _ => inferInstanceAs (Decidable (_ ∨ _))

/-- The order of triples. -/
def tripleLe (a b : String × String × ℕ) : Prop := a.1 < b.1 ∨ a.1 = b.1 ∧ (a.2.1 < b.2.1 ∨ a.2.1 = b.2.1 ∧ a.2.2 ≤ b.2.2)

instance : DecidableRel tripleLe := fun _ _ => inferInstanceAs (Decidable (_ ∨ _))

/-- `menu_digest` -/
def menuDigest (models : List ModelInfo) (deployments : List DeploymentProgress) (update : Option String) (registered : Bool) :
    MenuDigest where
  models := (models.map fun m => (m.id, m.isServing)).insertionSort pairLe
  deployments := (deployments.map fun d => (d.pipelineId, d.stage, asU32 d.progressPct / 5)).insertionSort tripleLe
  update := update
  registered := registered

/-! ### The poll loop -/

namespace Polled

/-- The health, as the update lock sees it. -/
def seen (p : Polled) : Tray.Health :=
  match p.health with
  | .up _ updateAvailable _ => .up updateAvailable
  | .down => .down
  | .malformed => .malformed

def newModels (p : Polled) : List ModelInfo :=
  match p.models with
  | .ok list => list
  | .down | .malformed => []

def newDeployments (p : Polled) : List DeploymentProgress :=
  match p.health with
  | .up deployments _ _ => deployments
  | .down | .malformed => []

def updateLatest (p : Polled) : Option String :=
  match p.health with
  | .up _ updateAvailable latestVersion => if updateAvailable then latestVersion else none
  | .down | .malformed => none

/-- The header of the poll. -/
def header (suffix : String) (updating : Bool) (p : Polled) : String :=
  if !p.registered then statusTextRegistering suffix
  else if updating then statusTextUpdating suffix
  else statusLabel suffix p.health

/-- The data of the poll, of which the menu is to be. -/
def data (suffix : String) (updating : Bool) (p : Polled) : Data :=
  ⟨p.newModels, p.newDeployments, p.header suffix updating, p.updateLatest, p.registered⟩

/-- The models have different ids, and so have the deployments. -/
def Distinct (p : Polled) : Prop :=
  (p.newModels.map ModelInfo.id).Nodup ∧ (p.newDeployments.map DeploymentProgress.pipelineId).Nodup

end Polled

/-- What `poll_forever` keeps. -/
structure Loop where
  poll : Tray.Poll
  currentDigest : MenuDigest
  currentSig : StructureSig
  currentStatusText : String

/-- What the main thread is handed. -/
structure Hop where
  rebuildMenu : Bool
  data : Data

def Data.sig (d : Data) : StructureSig := structureSig d.models d.deployments d.update d.registered

def Data.digest (d : Data) : MenuDigest := menuDigest d.models d.deployments d.update d.registered

namespace Loop

/-- The inference of whether an update is under way. -/
def infer (l : Loop) (p : Polled) : Tray.Poll :=
  { l.poll.infer p.seen with prevUpWithUpdate := p.seen.isUp && p.seen.hasUpdate }

/-- The data of the next poll. -/
def next (suffix : String) (l : Loop) (p : Polled) : Data := p.data suffix (l.infer p).updating

def structureChanged (suffix : String) (l : Loop) (p : Polled) : Bool := (l.next suffix p).sig ≠ l.currentSig

def valuesChanged (suffix : String) (l : Loop) (p : Polled) : Bool :=
  (l.next suffix p).digest ≠ l.currentDigest || (l.next suffix p).statusText ≠ l.currentStatusText

def rebuildMenu (macOS : Bool) (suffix : String) (visible : Bool) (l : Loop) (p : Polled) : Bool :=
  if macOS then l.structureChanged suffix p && !visible else l.structureChanged suffix p || l.valuesChanged suffix p

/-- A turn, up to the hop to the main thread. -/
def turn (macOS : Bool) (suffix : String) (visible : Bool) (l : Loop) (p : Polled) : Hop × Loop :=
  let data := l.next suffix p
  let rebuildMenu := l.rebuildMenu macOS suffix visible p
  (⟨rebuildMenu, data⟩,
    { poll := l.infer p
      currentSig := if rebuildMenu then data.sig else l.currentSig
      currentDigest := if rebuildMenu || l.valuesChanged suffix p then data.digest else l.currentDigest
      currentStatusText := if rebuildMenu || l.valuesChanged suffix p then data.statusText else l.currentStatusText })

end Loop

/-! ### On the main thread -/

/-- What is set on a row whose id is still among the data. -/
def reconcile {α ρ : Type} (key : α → String) (set : α → ρ → ρ) (new : List α) (p : String × ρ) : String × ρ :=
  match new.find? fun a => key a = p.1 with
  | some a => (p.1, set a p.2)
  | none => p

namespace BuiltTray

/-- The rows are updated in place. -/
def refresh (t : BuiltTray) (d : Data) : BuiltTray :=
  { t with
    submenu := t.submenu.map (Submenu.setText (modelsServingLabel d.models))
    modelItems := t.modelItems.map
      (reconcile ModelInfo.id (fun m i => (i.setChecked m.isServing).setText (modelLabel m)) d.models)
    deployItems := t.deployItems.map
      (reconcile DeploymentProgress.pipelineId (fun dep i => i.setText (deploymentLabel dep)) d.deployments)
    status := t.status.setText d.statusText }

end BuiltTray

/-- Of the `MenuHandles`, what the menu is about: the items of the menu that is shown, the models that
the click handler reads, and the pipelines whose toggle is under way. -/
structure MenuHandles where
  shown : BuiltTray
  models : List ModelInfo
  inFlight : List String

/-- The closure of the hop. -/
def MenuHandles.apply (h : MenuHandles) (hop : Hop) : MenuHandles :=
  if hop.rebuildMenu then { h with shown := buildTrayMenu hop.data, models := hop.data.models }
  else { h with shown := h.shown.refresh hop.data, models := hop.data.models }

/-! ### Runs -/

/-- The system the tray runs on, and the suffix of its channel. -/
structure Platform where
  macOS : Bool
  suffix : String

/-- The loop, the handles, whether a window is open, and what the menu was built from, as the statements
tell it; no step reads it. -/
structure State where
  loop : Loop
  handles : MenuHandles
  visible : Bool
  built : Data

/-- A window is shown or hidden, or a turn of the loop is made with its hop. -/
inductive Event
  | window (visible : Bool)
  | poll (p : Polled)

namespace State

variable (pf : Platform)

/-- The data of the first menu. -/
def first (registered : Bool) : Data :=
  ⟨[], [], if registered then statusTextInitial pf.suffix else statusTextRegistering pf.suffix, none, registered⟩

/-- The tray at its start. Whether the device is registered is read for the first menu and once more at
the start of the loop. -/
def opened (registered registeredAtLoop : Bool) : State where
  loop := ⟨⟨false, false, false, 0⟩, .default, structureSig [] [] none registeredAtLoop, statusTextInitial pf.suffix⟩
  handles := ⟨buildTrayMenu (first pf registered), [], []⟩
  visible := false
  built := first pf registered

def step (s : State) : Event → State
  | .window visible => { s with visible }
  | .poll p =>
    let (hop, loop) := s.loop.turn pf.macOS pf.suffix s.visible p
    { s with loop, handles := s.handles.apply hop, built := if hop.rebuildMenu then hop.data else s.built }

/-- Every step of the run, from the state it finds. -/
def Along (P : State → Event → Prop) : State → List Event → Prop
  | _, [] => True
  | s, e :: l => P s e ∧ Along P (s.step pf e) l

end State

/-- The same but for the order of the rows. -/
def Entry.Alike : Entry → Entry → Prop
  | .submenu id text enabled rows, .submenu id' text' enabled' rows' =>
    id = id' ∧ text = text' ∧ enabled = enabled' ∧ rows.Perm rows'
  | .submenu .., _ | _, .submenu .. => False
  | .item i, .item j => i = j
  | .separator, .separator => True
  | .item _, .separator | .separator, .item _ => False

/-- The same menu, up to row order. -/
def Alike (menu menu' : List Entry) : Prop := List.Forall₂ Entry.Alike menu menu'

namespace State

variable (pf : Platform)

/-- After a poll that finds no window open, the menu that is shown is the one of that poll's data. -/
def Agrees (s : State) : Event → Prop
  | .window _ => True
  | .poll p => s.visible = false →
    Alike (s.step pf (.poll p)).handles.shown.menu (buildTrayMenu (s.loop.next pf.suffix p)).menu

/-- Where a poll on macOS has the structure that the loop has kept, and so the menu is not rebuilt: it was
built for a device that was registered just if this one is, and then with the same version. -/
def Fresh (s : State) : Event → Prop
  | .window _ => True
  | .poll p => pf.macOS = true → s.visible = false → (s.loop.next pf.suffix p).sig = s.loop.currentSig →
    s.built.registered = p.registered ∧ (p.registered = true → s.built.update = p.updateLatest)

end State

/-! ### Menus that are alike -/

theorem Entry.Alike.refl (e : Entry) : e.Alike e := by
  cases e with
  | item i => exact rfl
  | separator => trivial
  | submenu id text enabled rows => exact ⟨rfl, rfl, rfl, .refl _⟩

theorem alike_refl (menu : List Entry) : Alike menu menu := by
  induction menu with
  | nil => exact .nil
  | cons e menu ih => exact .cons (.refl e) ih

/-! ### Rows that are updated -/

section Reconcile

variable {α ρ : Type} {key : α → String} {set : α → ρ → ρ} {new : List α} {p : String × ρ}

/-- A row whose key is among the new ones is set, whatever it said. -/
theorem reconcile_found (set : α → ρ → ρ) {k : String} (h : k ∈ new.map key) :
    ∃ a ∈ new, key a = k ∧ ∀ x : ρ, reconcile key set new (k, x) = (k, set a x) := by
  obtain ⟨a', ha', hk⟩ := List.mem_map.mp h
  have hsome : (new.find? fun a => key a = k).isSome = true := List.find?_isSome.mpr ⟨a', ha', decide_eq_true hk⟩
  obtain ⟨a, ha⟩ := Option.isSome_iff_exists.mp hsome
  refine ⟨a, List.mem_of_find?_eq_some ha, of_decide_eq_true (p := key a = k) (List.find?_some (p := fun a => decide (key a = k)) ha), fun x => ?_⟩
  rw [reconcile, ha]

/-- With different keys the row is found by its own. -/
theorem find?_of_mem (hnodup : (new.map key).Nodup) {a : α} (ha : a ∈ new) {k : String} (hk : key a = k) :
    new.find? (fun a => key a = k) = some a := by
  induction new with
  | nil => cases ha
  | cons b new ih =>
    rw [List.map_cons, List.nodup_cons] at hnodup
    rcases List.mem_cons.mp ha with rfl | ha
    · rw [List.find?_cons_of_pos (by simpa using hk)]
    · have hne : key b ≠ k := fun h => hnodup.1 (h ▸ hk ▸ List.mem_map_of_mem ha)
      rw [List.find?_cons_of_neg (by simpa using hne)]
      exact ih hnodup.2 ha

theorem reconcile_of_mem (hnodup : (new.map key).Nodup) {a : α} (ha : a ∈ new) {k : String} (hk : key a = k) (x : ρ) :
    reconcile key set new (k, x) = (k, set a x) := by
  rw [reconcile, find?_of_mem hnodup ha hk]

/-- Rows of the same keys, each made of the item of its key, are the same up to order. -/
theorem perm_rows {β : Type} {old : List β} {key' : β → String} {f : β → ρ} {row : α → ρ}
    (hperm : (old.map key').Perm (new.map key)) (hnodup : (new.map key).Nodup)
    (hrow : ∀ b ∈ old, ∀ a ∈ new, key a = key' b → f b = row a) : (old.map f).Perm (new.map row) := by
  let g (k : String) : Option ρ := (new.find? fun a => key a = k).map row
  have hold : (old.map key').filterMap g = old.map f := by
    rw [List.filterMap_map, ← List.filterMap_eq_map]
    refine List.filterMap_congr fun b hb => ?_
    obtain ⟨a, ha, hk⟩ := List.mem_map.mp (hperm.subset (List.mem_map_of_mem hb))
    show (new.find? fun a => key a = key' b).map row = some (f b)
    rw [find?_of_mem hnodup ha hk, hrow b hb a ha hk]
    rfl
  have hnew : (new.map key).filterMap g = new.map row := by
    rw [List.filterMap_map, ← List.filterMap_eq_map]
    refine List.filterMap_congr fun a ha => ?_
    show (new.find? fun a' => key a' = key a).map row = some (row a)
    rw [find?_of_mem hnodup ha rfl]
    rfl
  rw [← hold, ← hnew]
  exact hperm.filterMap g

end Reconcile

theorem perm_of_sorted {l m : List String} (h : sorted l = sorted m) : l.Perm m :=
  (List.perm_insertionSort _ l).symm.trans (.trans (.of_eq h) (List.perm_insertionSort _ m))

namespace BuiltTray

variable {t u : BuiltTray} {d : Data}

/-- What no update in place changes. -/
def blank (t : BuiltTray) : BuiltTray :=
  { t with
    submenu := t.submenu.map (Submenu.setText "")
    modelItems := t.modelItems.map fun p => (p.1, (p.2.setChecked false).setText "")
    deployItems := t.deployItems.map fun p => (p.1, p.2.setText "")
    status := t.status.setText "" }

/-- Every row has its item among the data. -/
structure Covered (d : Data) (t : BuiltTray) : Prop where
  models : ∀ k ∈ t.modelItems.map Prod.fst, k ∈ d.models.map ModelInfo.id
  deployments : ∀ k ∈ t.deployItems.map Prod.fst, k ∈ d.deployments.map DeploymentProgress.pipelineId

theorem blank_refresh (t : BuiltTray) (d : Data) : (t.refresh d).blank = t.blank := by
  unfold refresh blank
  simp only [List.map_map, Option.map_map, mk.injEq]
  refine ⟨rfl, rfl, List.map_congr_left fun p _ => ?_, List.map_congr_left fun p _ => ?_, trivial⟩
  · rw [Function.comp_apply, reconcile]
    split <;> rfl
  · rw [Function.comp_apply, reconcile]
    split <;> rfl

/-- When every row is updated, nothing is left of what they said. -/
theorem refresh_blank (h : t.Covered d) : t.blank.refresh d = t.refresh d := by
  unfold refresh blank
  simp only [List.map_map, Option.map_map, mk.injEq]
  refine ⟨rfl, rfl, List.map_congr_left fun p hp => ?_, List.map_congr_left fun p hp => ?_, trivial⟩
  · obtain ⟨m, -, -, hset⟩ := reconcile_found (fun (m : ModelInfo) (i : CheckMenuItem) =>
      (i.setChecked m.isServing).setText (modelLabel m)) (h.models p.1 (List.mem_map_of_mem hp))
    exact (hset _).trans (hset p.2).symm
  · obtain ⟨dep, -, -, hset⟩ := reconcile_found (fun (dep : DeploymentProgress) (i : MenuItem) =>
      i.setText (deploymentLabel dep)) (h.deployments p.1 (List.mem_map_of_mem hp))
    exact (hset _).trans (hset p.2).symm

theorem models_blank (t : BuiltTray) : t.blank.modelItems.map Prod.fst = t.modelItems.map Prod.fst := by
  simp [blank, Function.comp_def]

theorem deployments_blank (t : BuiltTray) : t.blank.deployItems.map Prod.fst = t.deployItems.map Prod.fst := by
  simp [blank, Function.comp_def]

theorem refresh_congr (h : t.blank = u.blank) (hu : u.Covered d) : t.refresh d = u.refresh d := by
  have ht : t.Covered d := by
    refine ⟨?_, ?_⟩
    · rw [← models_blank, h, models_blank]
      exact hu.models
    · rw [← deployments_blank, h, deployments_blank]
      exact hu.deployments
  rw [← refresh_blank ht, h, refresh_blank hu]

end BuiltTray

/-! ### A menu that is updated in place, against one that is built -/

section Refresh

variable {d e : Data}

/-- The same models and deployments, up to order. -/
structure SameRows (d e : Data) : Prop where
  models : (d.models.map ModelInfo.id).Perm (e.models.map ModelInfo.id)
  deployments : (d.deployments.map DeploymentProgress.pipelineId).Perm (e.deployments.map DeploymentProgress.pipelineId)

/-- Different ids. -/
structure Data.Distinct (d : Data) : Prop where
  models : (d.models.map ModelInfo.id).Nodup
  deployments : (d.deployments.map DeploymentProgress.pipelineId).Nodup

theorem SameRows.isEmpty (h : SameRows d e) :
    (d.models.isEmpty && d.deployments.isEmpty) = (e.models.isEmpty && e.deployments.isEmpty) := by
  have hm := h.models.length_eq
  have hd := h.deployments.length_eq
  rw [List.length_map, List.length_map] at hm hd
  cases hdm : d.models <;> cases hem : e.models <;> cases hdd : d.deployments <;> cases hed : e.deployments <;>
    simp_all

theorem build_of_unregistered (h : d.registered = false) : buildTrayMenu d = ⟨statusItem d.statusText, none, [], [], none⟩ := by
  rw [buildTrayMenu, h]
  rfl

theorem build_of_empty (h : d.registered = true) (hempty : (d.models.isEmpty && d.deployments.isEmpty) = true) :
    buildTrayMenu d = ⟨statusItem d.statusText, some ⟨"models", modelsServingLabel d.models, true, some placeholder⟩, [], [],
      d.update.map updateItem⟩ := by
  rw [buildTrayMenu, h, buildModelsSubmenu, hempty]
  rfl

theorem build_of_rows (h : d.registered = true) (hrows : (d.models.isEmpty && d.deployments.isEmpty) = false) :
    buildTrayMenu d = ⟨statusItem d.statusText, some ⟨"models", modelsServingLabel d.models, true, none⟩, d.models.map modelItem,
      d.deployments.map deployItem, d.update.map updateItem⟩ := by
  rw [buildTrayMenu, h, buildModelsSubmenu, hrows]
  rfl

theorem covered_build (h : SameRows d e) : (buildTrayMenu d).Covered e := by
  cases hreg : d.registered with
  | false =>
    rw [build_of_unregistered hreg]
    exact ⟨by simp, by simp⟩
  | true =>
    cases hempty : d.models.isEmpty && d.deployments.isEmpty with
    | true =>
      rw [build_of_empty hreg hempty]
      exact ⟨by simp, by simp⟩
    | false =>
      rw [build_of_rows hreg hempty]
      refine ⟨fun k hk => h.models.subset ?_, fun k hk => h.deployments.subset ?_⟩
      · simpa [modelItem, Function.comp_def] using hk
      · simpa [deployItem, Function.comp_def] using hk

/-- The rows of what is built of the same rows and then updated. -/
theorem perm_refresh (hrows : SameRows d e) (hdistinct : e.Distinct) :
    (((d.models.map modelItem).map
        (reconcile ModelInfo.id (fun m i => (i.setChecked m.isServing).setText (modelLabel m)) e.models)).Perm
      (e.models.map modelItem)) ∧
    (((d.deployments.map deployItem).map
        (reconcile DeploymentProgress.pipelineId (fun dep i => i.setText (deploymentLabel dep)) e.deployments)).Perm
      (e.deployments.map deployItem)) := by
  rw [List.map_map, List.map_map]
  refine ⟨perm_rows hrows.models hdistinct.models fun m hm m' hm' hid => ?_,
    perm_rows hrows.deployments hdistinct.deployments fun dep hdep dep' hdep' hid => ?_⟩
  · refine (reconcile_of_mem hdistinct.models hm' hid _).trans ?_
    rw [modelItem, ← hid]
    rfl
  · refine (reconcile_of_mem hdistinct.deployments hdep' hid _).trans ?_
    rw [deployItem, ← hid]
    rfl

/-- What is built of the same rows, and then updated, is what is built. -/
theorem alike_refresh (hrows : SameRows d e) (hdistinct : e.Distinct) (hregistered : d.registered = e.registered)
    (hupdate : e.registered = true → d.update = e.update) :
    Alike ((buildTrayMenu d).refresh e).menu (buildTrayMenu e).menu := by
  cases hreg : e.registered with
  | false =>
    rw [build_of_unregistered hreg, build_of_unregistered (hregistered.trans hreg)]
    exact alike_refl _
  | true =>
    cases hempty : e.models.isEmpty && e.deployments.isEmpty with
    | true =>
      rw [build_of_empty hreg hempty, build_of_empty (hregistered.trans hreg) (hrows.isEmpty.trans hempty), hupdate hreg]
      exact alike_refl _
    | false =>
      rw [build_of_rows hreg hempty, build_of_rows (hregistered.trans hreg) (hrows.isEmpty.trans hempty), hupdate hreg]
      obtain ⟨hmodels, hdeploys⟩ := perm_refresh hrows hdistinct
      have hmodels' := hmodels.map fun p => Row.check p.2
      have hdeploys' := hdeploys.map fun p => Row.item p.2
      exact .cons rfl (.cons trivial (.cons ⟨rfl, rfl, rfl, hdeploys'.append hmodels'⟩ (.cons trivial (alike_refl _))))

theorem isSome_submenu_build (d : Data) : (buildTrayMenu d).submenu.isSome = d.registered := by
  cases hreg : d.registered with
  | false => rw [build_of_unregistered hreg]; rfl
  | true =>
    cases hempty : d.models.isEmpty && d.deployments.isEmpty with
    | true => rw [build_of_empty hreg hempty]; rfl
    | false => rw [build_of_rows hreg hempty]; rfl

theorem update_build (h : d.registered = true) : (buildTrayMenu d).update = d.update.map updateItem := by
  cases hempty : d.models.isEmpty && d.deployments.isEmpty with
  | true => rw [build_of_empty h hempty]
  | false => rw [build_of_rows h hempty]

theorem menu_of_none {t : BuiltTray} (h : t.submenu = none) :
    t.menu = [.item t.status, .separator] ++ onboarding ++ [.item quit] := by
  rw [BuiltTray.menu, h]

theorem menu_of_some {t : BuiltTray} {sm : Submenu} (h : t.submenu = some sm) :
    t.menu = [.item t.status, .separator, .submenu sm.id sm.text sm.enabled (t.rows sm), .separator] ++
      (t.update.map Entry.item).toList ++ actions ++ [.item quit] := by
  rw [BuiltTray.menu, h]

/-- Menus that are alike are both those of a registered device, or both not. -/
theorem Alike.submenu {t u : BuiltTray} (h : Alike t.menu u.menu) : t.submenu.isSome = u.submenu.isSome := by
  have hlength := h.length_eq
  cases ht : t.submenu with
  | none =>
    cases hu : u.submenu with
    | none => rfl
    | some sm =>
      rw [menu_of_none ht, menu_of_some hu] at hlength
      simp [onboarding, actions] at hlength
  | some sm =>
    cases hu : u.submenu with
    | none =>
      rw [menu_of_some ht, menu_of_none hu] at hlength
      simp [onboarding, actions] at hlength
    | some sm' => rfl

/-- And offer the same update. -/
theorem Alike.update {t u : BuiltTray} (h : Alike t.menu u.menu) (ht : t.submenu.isSome = true)
    (hsome : t.update.isSome = u.update.isSome) : t.update = u.update := by
  obtain ⟨sm, hsm⟩ := Option.isSome_iff_exists.mp ht
  obtain ⟨sm', hsm'⟩ := Option.isSome_iff_exists.mp (h.submenu ▸ ht)
  rw [menu_of_some hsm, menu_of_some hsm'] at h
  cases htu : t.update with
  | none =>
    cases huu : u.update with
    | none => rfl
    | some j =>
      rw [htu, huu] at hsome
      cases hsome
  | some i =>
    cases huu : u.update with
    | none =>
      rw [htu, huu] at hsome
      cases hsome
    | some j =>
      rw [htu, huu] at h
      obtain ⟨-, h⟩ := List.forall₂_cons.mp h
      obtain ⟨-, h⟩ := List.forall₂_cons.mp h
      obtain ⟨-, h⟩ := List.forall₂_cons.mp h
      obtain ⟨-, h⟩ := List.forall₂_cons.mp h
      obtain ⟨hij, -⟩ := List.forall₂_cons.mp h
      exact congrArg some hij

theorem updateItem_injective : Function.Injective updateItem := by
  intro v w h
  have htext : "Update to v" ++ v = "Update to v" ++ w := congrArg MenuItem.text h
  exact String.append_right_inj _ |>.mp htext

/-- A menu that is updated in place shows the registration and the version that it was built with. -/
theorem of_alike_refresh (h : Alike ((buildTrayMenu d).refresh e).menu (buildTrayMenu e).menu)
    (hsome : d.update.isSome = e.update.isSome) :
    d.registered = e.registered ∧ (e.registered = true → d.update = e.update) := by
  have hregistered : d.registered = e.registered := by
    have hsub := h.submenu
    rw [isSome_submenu_build] at hsub
    rw [← hsub, ← isSome_submenu_build]
    exact (Option.isSome_map ..).symm
  refine ⟨hregistered, fun hreg => ?_⟩
  have hupdate : ((buildTrayMenu d).refresh e).update = d.update.map updateItem := update_build (hregistered.trans hreg)
  have hsub : ((buildTrayMenu d).refresh e).submenu.isSome = true := by
    rw [h.submenu, isSome_submenu_build]
    exact hreg
  have heq := h.update hsub (by rw [hupdate, update_build hreg, Option.isSome_map, Option.isSome_map]; exact hsome)
  rw [hupdate, update_build hreg] at heq
  exact Option.map_injective updateItem_injective heq

end Refresh

/-! ### One turn -/

namespace Loop

variable {suffix : String} {l : Loop} {p : Polled}

/-- On macOS the menu is rebuilt when its structure changed while no window is open. -/
theorem kept_macOS : l.rebuildMenu true suffix false p = false ↔ (l.next suffix p).sig = l.currentSig := by
  simp [rebuildMenu, structureChanged]

/-- Elsewhere it is rebuilt when anything changed. -/
theorem kept_elsewhere {visible : Bool} : l.rebuildMenu false suffix visible p = false ↔
    (l.next suffix p).sig = l.currentSig ∧ l.valuesChanged suffix p = false := by
  simp [rebuildMenu, structureChanged]

theorem valuesChanged_eq_false : l.valuesChanged suffix p = false ↔
    (l.next suffix p).digest = l.currentDigest ∧ (l.next suffix p).statusText = l.currentStatusText := by
  simp [valuesChanged]

theorem sig_of_kept {macOS : Bool} (h : l.rebuildMenu macOS suffix false p = false) : (l.next suffix p).sig = l.currentSig := by
  cases macOS with
  | true => exact kept_macOS.mp h
  | false => exact (kept_elsewhere.mp h).1

end Loop

namespace State

variable {pf : Platform} {s : State} {p : Polled}

/-- The menu that is shown has the rows it was built with, and the loop has kept their structure. Off macOS the
loop has also kept the registration and the version that the menu was built with, or it has made no turn. -/
structure Sound (pf : Platform) (s : State) : Prop where
  blank : s.handles.shown.blank = (buildTrayMenu s.built).blank
  sig : s.loop.currentSig = { s.built.sig with registered := s.loop.currentSig.registered }
  elsewhere : pf.macOS = false →
    (s.loop.currentDigest.registered = s.built.registered ∧ s.loop.currentDigest.update = s.built.update) ∨
      (s.loop.currentDigest.registered = false ∧ s.loop.currentStatusText = statusTextInitial pf.suffix)

theorem sound_opened (registered registeredAtLoop : Bool) : (opened pf registered registeredAtLoop).Sound pf :=
  ⟨rfl, rfl, fun _ => .inr ⟨rfl, rfl⟩⟩

/-- A poll that rebuilds. -/
theorem step_rebuilt (h : s.loop.rebuildMenu pf.macOS pf.suffix s.visible p = true) :
    (s.step pf (.poll p)).handles.shown = buildTrayMenu (s.loop.next pf.suffix p) ∧
      (s.step pf (.poll p)).built = s.loop.next pf.suffix p ∧
      (s.step pf (.poll p)).loop.currentSig = (s.loop.next pf.suffix p).sig ∧
      (s.step pf (.poll p)).loop.currentDigest = (s.loop.next pf.suffix p).digest := by
  simp [step, Loop.turn, MenuHandles.apply, h]

/-- A poll that does not. -/
theorem step_kept (h : s.loop.rebuildMenu pf.macOS pf.suffix s.visible p = false) :
    (s.step pf (.poll p)).handles.shown = s.handles.shown.refresh (s.loop.next pf.suffix p) ∧
      (s.step pf (.poll p)).built = s.built ∧ (s.step pf (.poll p)).loop.currentSig = s.loop.currentSig := by
  simp [step, Loop.turn, MenuHandles.apply, h]

theorem step_unchanged (h : s.loop.rebuildMenu pf.macOS pf.suffix s.visible p = false)
    (hvalues : s.loop.valuesChanged pf.suffix p = false) :
    (s.step pf (.poll p)).loop.currentDigest = s.loop.currentDigest ∧
      (s.step pf (.poll p)).loop.currentStatusText = s.loop.currentStatusText := by
  simp [step, Loop.turn, h, hvalues]

theorem Sound.step (hs : s.Sound pf) (e : Event) : (s.step pf e).Sound pf := by
  cases e with
  | window visible => exact ⟨hs.blank, hs.sig, hs.elsewhere⟩
  | poll p =>
    cases hrebuild : s.loop.rebuildMenu pf.macOS pf.suffix s.visible p with
    | true =>
      obtain ⟨hshown, hbuilt, hsig, hdigest⟩ := step_rebuilt hrebuild
      refine ⟨by rw [hshown, hbuilt], by rw [hsig, hbuilt], fun _ => .inl ?_⟩
      rw [hdigest, hbuilt]
      exact ⟨rfl, rfl⟩
    | false =>
      obtain ⟨hshown, hbuilt, hsig⟩ := step_kept hrebuild
      refine ⟨?_, ?_, fun hmac => ?_⟩
      · rw [hshown, hbuilt, BuiltTray.blank_refresh]
        exact hs.blank
      · rw [hsig, hbuilt]
        exact hs.sig
      · have hvalues : s.loop.valuesChanged pf.suffix p = false := by
          rw [hmac] at hrebuild
          exact (Loop.kept_elsewhere.mp hrebuild).2
        obtain ⟨hdigest, htext⟩ := step_unchanged hrebuild hvalues
        rw [hdigest, htext, hbuilt]
        exact hs.elsewhere hmac

/-- The header of a device that is not registered is not the first one of one that is. -/
theorem registering_ne_initial (suffix : String) : statusTextRegistering suffix ≠ statusTextInitial suffix := by
  intro h
  unfold statusTextRegistering statusTextInitial statusText at h
  exact absurd ((String.append_right_inj _).mp h) (by decide)

/-- Off macOS a menu that is kept was built with what the poll finds. -/
theorem Sound.built_elsewhere (hs : s.Sound pf) (hmac : pf.macOS = false)
    (hkept : s.loop.rebuildMenu pf.macOS pf.suffix s.visible p = false) :
    s.built.registered = p.registered ∧ s.built.update = p.updateLatest := by
  rw [hmac] at hkept
  obtain ⟨hdigest, htext⟩ := Loop.valuesChanged_eq_false.mp (Loop.kept_elsewhere.mp hkept).2
  have hregistered : s.loop.currentDigest.registered = p.registered := by rw [← hdigest]; rfl
  have hupdate : s.loop.currentDigest.update = p.updateLatest := by rw [← hdigest]; rfl
  rcases hs.elsewhere hmac with ⟨hreg, hup⟩ | ⟨hfirst, hinitial⟩
  · exact ⟨hreg ▸ hregistered, hup ▸ hupdate⟩
  · have hunregistered : p.registered = false := hregistered.symm.trans hfirst
    have hheader : (s.loop.next pf.suffix p).statusText = statusTextRegistering pf.suffix := by
      show p.header pf.suffix _ = _
      rw [Polled.header, hunregistered]
      rfl
    exact absurd (hheader.symm.trans (htext.trans hinitial)) (registering_ne_initial _)

/-- A poll that keeps the menu agrees with a rebuild just if the menu was built with the registration, and the
version, that it finds. -/
theorem Sound.agrees_kept (hs : s.Sound pf) (hdistinct : p.Distinct) (hvisible : s.visible = false)
    (hkept : s.loop.rebuildMenu pf.macOS pf.suffix s.visible p = false) :
    s.Agrees pf (.poll p) ↔ s.built.registered = p.registered ∧ (p.registered = true → s.built.update = p.updateLatest) := by
  have hsig : (s.loop.next pf.suffix p).sig = s.loop.currentSig := by
    rw [hvisible] at hkept
    exact Loop.sig_of_kept hkept
  rw [hs.sig] at hsig
  have hrows : SameRows s.built (s.loop.next pf.suffix p) :=
    ⟨perm_of_sorted (congrArg StructureSig.models hsig).symm, perm_of_sorted (congrArg StructureSig.deployments hsig).symm⟩
  have hsome : s.built.update.isSome = (s.loop.next pf.suffix p).update.isSome := (congrArg StructureSig.update hsig).symm
  have hshown : (s.step pf (.poll p)).handles.shown = (buildTrayMenu s.built).refresh (s.loop.next pf.suffix p) := by
    rw [(step_kept hkept).1]
    exact BuiltTray.refresh_congr hs.blank (covered_build hrows)
  constructor
  · intro h
    have halike := h hvisible
    rw [hshown] at halike
    exact of_alike_refresh halike hsome
  · rintro ⟨hregistered, hupdate⟩ -
    rw [hshown]
    exact alike_refresh hrows ⟨hdistinct.1, hdistinct.2⟩ hregistered hupdate

theorem Sound.agrees_iff_fresh (hs : s.Sound pf) {e : Event} (hdistinct : ∀ p, e = .poll p → p.Distinct) :
    s.Agrees pf e ↔ s.Fresh pf e := by
  cases e with
  | window visible => exact Iff.rfl
  | poll p =>
    have hp := hdistinct p rfl
    cases hvisible : s.visible with
    | true =>
      have hno : s.visible ≠ false := by rw [hvisible]; simp
      exact iff_of_true (fun h => absurd h hno) fun _ h => absurd h hno
    | false =>
      cases hrebuild : s.loop.rebuildMenu pf.macOS pf.suffix s.visible p with
      | true =>
        refine iff_of_true (fun _ => ?_) fun hmac _ hsig => ?_
        · rw [(step_rebuilt hrebuild).1]
          exact alike_refl _
        · rw [hmac, hvisible, Loop.kept_macOS.mpr hsig] at hrebuild
          cases hrebuild
      | false =>
        rw [hs.agrees_kept hp hvisible hrebuild]
        refine ⟨fun h _ _ _ => h, fun h => ?_⟩
        cases hmac : pf.macOS with
        | true =>
          refine h hmac hvisible ?_
          rw [hmac, hvisible] at hrebuild
          exact Loop.kept_macOS.mp hrebuild
        | false => exact (hs.built_elsewhere hmac hrebuild).imp_right fun hup _ => hup

/-! ### Runs -/

theorem along_iff {P Q : State → Event → Prop} : ∀ {l : List Event} {s : State}, s.Sound pf →
    (∀ s e, s.Sound pf → e ∈ l → (P s e ↔ Q s e)) → (Along pf P s l ↔ Along pf Q s l)
  | [], _, _, _ => Iff.rfl
  | e :: _, s, hs, h =>
    and_congr (h s e hs List.mem_cons_self) (along_iff (hs.step e) fun s e' hs he' => h s e' hs (List.mem_cons_of_mem _ he'))

/-- **When the menu is the one that a rebuild would give.** In every run of polls whose models and whose deployments
have different ids, and of windows that are shown and hidden, every poll without a window leaves the menu of its own
data just if, on macOS, no poll without a window has the structure that the loop has kept and yet another version, or
another registration, than the menu was built with. -/
theorem agrees_iff (registered registeredAtLoop : Bool) (events : List Event)
    (hdistinct : ∀ p, .poll p ∈ events → p.Distinct) :
    Along pf (Agrees pf) (opened pf registered registeredAtLoop) events ↔
      Along pf (Fresh pf) (opened pf registered registeredAtLoop) events :=
  along_iff (sound_opened registered registeredAtLoop) fun _ _ hs he =>
    hs.agrees_iff_fresh fun p hp => hdistinct p (hp ▸ he)

/-- macOS, on the alpha channel. -/
def mac : Platform := ⟨true, " · Alpha"⟩

/-- An agent that offers a version and has one model. -/
def offering (version : String) (isServing : Bool) : Polled :=
  ⟨.up [] true (some version), .ok [⟨"p", "gemma", some 8003, isServing⟩], true⟩

theorem distinct_offering (version : String) (isServing : Bool) : (offering version isServing).Distinct :=
  ⟨by simp [offering, Polled.newModels], by simp [offering, Polled.newDeployments]⟩

/-- A model that begins to serve is written into its row. -/
theorem agrees_serving : Along mac (Agrees mac) (opened mac true true)
    [.poll (offering "1.1.0" false), .poll (offering "1.1.0" true)] := by
  refine (agrees_iff true true _ fun p hp => ?_).mpr ⟨fun _ _ h => absurd h (by decide +kernel), fun _ _ _ => ⟨rfl, fun _ => rfl⟩, trivial⟩
  simp only [List.mem_cons, Event.poll.injEq, List.not_mem_nil, or_false] at hp
  rcases hp with rfl | rfl
  · exact distinct_offering _ _
  · exact distinct_offering _ _

/-- The second of two versions is not shown. -/
theorem version_stale : ¬∀ pf registered registeredAtLoop events, (∀ p, .poll p ∈ events → p.Distinct) →
    Along pf (Agrees pf) (opened pf registered registeredAtLoop) events := by
  intro h
  have hdistinct : ∀ p, Event.poll p ∈ [.poll (offering "1.1.0" false), .poll (offering "1.2.0" false)] → p.Distinct := by
    intro p hp
    simp only [List.mem_cons, Event.poll.injEq, List.not_mem_nil, or_false] at hp
    rcases hp with rfl | rfl
    · exact distinct_offering _ _
    · exact distinct_offering _ _
  obtain ⟨-, hsecond, -⟩ := (agrees_iff true true _ hdistinct).mp (h mac true true _ hdistinct)
  have hversion := (hsecond rfl rfl rfl).2 rfl
  exact absurd hversion (by decide +kernel)

end State

end LocaiLink.Launcher.Menu
