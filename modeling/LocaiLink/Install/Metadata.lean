/-
# What a build says of itself

A build writes a `manifest.json` into its bundle, and the hashes of its apps into that; a
package gets a `boot.json` made from it. The updater reads the manifest for the name that
bundles go by, the app for what the plugins can serve, and the launcher reads `boot.json`
for the name of the first bundle to fetch. Whatever the build, they read what it was built
as, and ask for bundles under one name (`read_alike`); and of a `boot.json` only what its
template says itself can be refused (`BootRead`).
-/
import LocaiLink.Install.Assets
import LocaiLink.Base.JsonTrip
import LocaiLink.Install.Update

namespace LocaiLink
namespace Install

open Json (dict getOr)
open JsonText (dumps loads Proper ProperItems ProperMembers)

/-! ### The build -/

namespace Bundling

def MANIFEST_VERSION : ℤ := 1

def PLUGIN_CODES : List (String × String) := [("language_model", "llm"), ("audio_transcriber", "stt")]

def PLUGIN_ORDER : List String := ["language_model", "audio_transcriber"]

def SHAPES : List String := ["desktop", "headless"]

def systemExit (message : String) : Error := ⟨.other, message⟩

def reprText (v : Json) : String := String.ofList (Text.repr v)

/-- `asset_stem` -/
def assetStem (shape : String) : Except Error String :=
  if shape ∈ SHAPES then .ok ("locai-link-" ++ shape)
  else .error (systemExit ("Unknown shape " ++ reprText (.str shape) ++ "; expected one of " ++ ", ".intercalate SHAPES ++ "."))

/-- What a build reads of the repository and of the clock. -/
structure Checkout where
  rootVersion : String
  gitSha : String
  builtAt : String
  pluginVersion : String → String

def pluginEntry (c : Checkout) (name : String) : Json := .obj [("name", .str name), ("version", .str (c.pluginVersion name))]

/-- The plugins of a bundle, in the order that names have them in. -/
def canonical (plugins : List String) : List String := PLUGIN_ORDER.filter (· ∈ plugins)

/-- The dictionary that `write_manifest` writes. -/
def manifestOf (c : Checkout) (plugins : List String) (stem shape : String) : Dict String Json :=
  .ofList [("manifest_version", .int MANIFEST_VERSION), ("asset_name", .str stem), ("shape", .str shape),
    ("version", .str c.rootVersion), ("git_sha", .str c.gitSha), ("built_at", .str c.builtAt),
    ("plugins", .arr ((canonical plugins).map (pluginEntry c)))]

/-- `json.dumps(value, indent=2) + "\n"` -/
def written (v : Json) : List Char := dumps v ++ ['\n']

/-- `write_manifest` -/
def writeManifest (c : Checkout) (plugins : List String) (shape : String) : Except Error (List Char) := do
  let stem ← assetStem shape
  pure (written (.ofDict (manifestOf c plugins stem shape)))

/-- `json.loads(text)` -/
def loadJson (text : List Char) : Except Error Json :=
  match loads text with
  | some v => .ok v
  | none => .error valueError

/-- A value whose fields are set. -/
def asDict (v : Json) : Except Error (Dict String Json) :=
  match dict v with
  | some d => .ok d
  | none => .error typeError

/-- The `main` of `inject_app_hashes.py`, with the hash of the sources of each app. -/
def injectAppHashes (hashes : Dict String String) (manifest : List Char) : Except Error (List Char) := do
  let d ← asDict (← loadJson manifest)
  pure (written (.ofDict (d.set "apps" (.ofDict (hashes.mapValues Json.str)))))

/-! ### `boot.json` -/

/-- The names in a list of plugins. -/
def pluginNames : List Json → Except Error (List String)
  | [] => .ok []
  | p :: l => do
    match dict p with
    | none => .error attributeError
    | some d =>
      if (getOr d "name").truthy then
        match getOr d "name" with
        | .str name => return name :: (← pluginNames l)
        | _ => .error typeError
      else pluginNames l

/-- `plugin_set_from_manifest` -/
def pluginSetFromManifest (manifest : Dict String Json) : Except Error (List String) := do
  let some plugins := ((manifest.get? "plugins").getD (.arr [])).iterate | .error typeError
  let names ← pluginNames plugins
  let unknown := names.filter fun name => (PLUGIN_CODES.lookup name).isNone
  if unknown ≠ [] then
    .error (systemExit ("Plugin(s) missing a code in manifest.py PLUGIN_CODES: " ++
      ", ".intercalate (unknown.dedup.mergeSort fun a b => a ≤ b)))
  else .ok ((PLUGIN_ORDER.filter (· ∈ names)).filterMap (PLUGIN_CODES.lookup ·))

/-- The shape of a bundle, by its manifest. -/
def shapeOf (manifest : Dict String Json) : Except Error String :=
  match getOr manifest "shape" with
  | .str shape => if shape ∈ SHAPES then .ok shape else unsupported (.str shape)
  | v => unsupported v
where
  unsupported (v : Json) : Except Error String :=
    .error (systemExit s!"Unsupported or missing bundle shape in manifest: {reprText v} (rebuild with a current build.py)")

/-- The `main` of `gen_boot_json.py`, from the text of the manifest and of the template. -/
def genBootJson (manifest template : List Char) : Except Error (List Char) := do
  let manifest ← loadJson manifest
  let boot ← loadJson template
  let m ← asDict manifest
  let shape ← shapeOf m
  let d ← asDict boot
  let codes ← pluginSetFromManifest m
  pure (written (.ofDict ((d.set "shape" (.str shape)).set "plugin_set" (.arr (codes.map Json.str)))))

end Bundling

/-! ### The launcher and the app -/

/-- A unit variant is read from its name, or from an object that has it with no content. -/
def Shape.read : Json → Option Shape
  | .str "desktop" | .obj [("desktop", .null)] => some .desktop
  | .str "headless" | .obj [("headless", .null)] => some .headless
  | _ => none

/-- All that `boot.json` holds. -/
structure BootFile where
  hostApp : String
  config : BootConfig
  pluginSet : List String
  channel : String

def readStrings : Json → Option (List String)
  | .arr l => l.mapM asStr
  | _ => none

/-- An optional text. -/
def asOptStr : Json → Option (Option String)
  | .null => some none
  | .str s => some (some s)
  | _ => none

/-- A field that has a default where it is missing. -/
def defaulted {α : Type} (default : α) (read : Json → Option α) : Option Json → Option α
  | none => some default
  | some v => read v

/-- A `BootConfig` is read from an object, or from an array of its fields. -/
def BootFile.read : Json → Option BootFile
  | .obj l => do
    let hostApp ← (← uniqueField l "host_app").bind asStr
    let shape ← defaulted .desktop Shape.read (← uniqueField l "shape")
    let pluginSet ← defaulted [] readStrings (← uniqueField l "plugin_set")
    let channel ← defaulted "stable" asStr (← uniqueField l "channel")
    let assetRepo ← (← uniqueField l "asset_repo").bind asStr
    let assetUrl ← defaulted none asOptStr (← uniqueField l "asset_url")
    pure ⟨hostApp, ⟨shape, assetRepo, assetUrl⟩, pluginSet, channel⟩
  | .arr (hostApp :: shape :: pluginSet :: channel :: assetRepo :: rest) => do
    let hostApp ← asStr hostApp
    let shape ← Shape.read shape
    let pluginSet ← readStrings pluginSet
    let channel ← asStr channel
    let assetRepo ← asStr assetRepo
    let assetUrl ← match rest with
      | [] => some none
      | [v] => asOptStr v
      | _ => none
    pure ⟨hostApp, ⟨shape, assetRepo, assetUrl⟩, pluginSet, channel⟩
  | _ => none

/-- `plugin_model_type` -/
def pluginModelType : String → Option String
  | "language_model" => some "language_models"
  | "audio_transcriber" => some "audio_transcription"
  | _ => none

/-- The types that the plugins of a list can serve, each once. -/
def modelTypes : List Json → List String → List String
  | [], out => out
  | p :: l, out =>
    match ((p.get? "name").bind asStr).bind pluginModelType with
    | some modelType => modelTypes l (if modelType ∈ out then out else out ++ [modelType])
    | none => modelTypes l out

/-- `read_manifest_model_types`, from the text of the manifest on. -/
def manifestModelTypes (text : List Char) : Option (List String) := do
  let json ← loads text
  match ← json.get? "plugins" with
  | .arr plugins => some (modelTypes plugins [])
  | _ => none

/-- `supported_model_types` -/
def supportedModelTypes (root : Place) (t : Fs Bytes) : List String :=
  match (do
    let installed ← installedVersion root t
    let text ← readToString (installed.path ++ [manifestName]) t
    manifestModelTypes text) with
  | some types => types
  | none => ["language_models"]

/-! ### Reading back what is written -/

section Reading

variable {d : Dict String Json} {v : Json} {key : String}

theorem loads_written (h : Proper v) : loads (Bundling.written v) = some v := by
  have hskip : JsonText.skipSpace (dumps v ++ ['\n']) = dumps v ++ ['\n'] := (JsonText.starts_value 0 ['\n'] v).skipSpace
  have honce := JsonText.scanOnce_value (2 * (dumps v ++ ['\n']).length) 0 v h
    (by rw [List.length_append]; exact Nat.mul_le_mul_left 2 (Nat.le_add_right ..)) ['\n'] (JsonText.stops_newline 0 [])
  rw [Bundling.written, loads, hskip]
  change (JsonText.scanOnce _ (JsonText.value 0 v ++ ['\n'])).bind _ = _
  rw [honce]
  rfl

theorem dict_ofDict (d : Dict String Json) : dict (.ofDict d) = some d := congrArg some (Dict.ofList_entries d)

theorem ok_bind {α β : Type} (a : α) (f : α → Except Error β) : (Except.ok a >>= f) = f a := pure_bind a f

theorem loadJson_written (h : Proper v) : Bundling.loadJson (Bundling.written v) = .ok v := by
  rw [Bundling.loadJson, loads_written h]

theorem asDict_ofDict (d : Dict String Json) : Bundling.asDict (.ofDict d) = .ok d := by
  rw [Bundling.asDict, dict_ofDict]

theorem uniqueField_entries (d : Dict String Json) (key : String) : uniqueField d.entries key = some (d.get? key) := by
  cases h : d.get? key with
  | some v => exact uniqueField_of_nodup d.nodup h
  | none =>
    have hnil : d.entries.filter (·.1 = key) = [] := by
      refine List.filter_eq_nil_iff.mpr fun e he => ?_
      rw [decide_eq_true_iff]
      rintro rfl
      rw [Dict.get?_of_mem he] at h
      cases h
    rw [uniqueField, hnil]

theorem mapM_asStr : ∀ l : List String, (l.map Json.str).mapM asStr = some l
  | [] => rfl
  | s :: l => by
    rw [List.map_cons, List.mapM_cons, mapM_asStr l]
    rfl

/-- The shape of a build's name. -/
theorem Shape.read_text (s : Shape) : Shape.read (.str s.text) = some s := by
  cases s <;> rfl

theorem shape_of_mem {shape : String} (h : shape ∈ Bundling.SHAPES) : ∃ s : Shape, s.text = shape := by
  rcases List.mem_cons.mp h with rfl | h
  · exact ⟨.desktop, rfl⟩
  · exact ⟨.headless, (List.mem_singleton.mp h).symm⟩

/-- Of a `boot.json` with the shape and the plugins of a build, the launcher reads these and the fields of the template. -/
theorem read_boot {s : Shape} {codes : List String} {f : BootFile} (hshape : d.get? "shape" = some (.str s.text))
    (hset : d.get? "plugin_set" = some (.arr (codes.map Json.str))) :
    BootFile.read (.obj d.entries) = some f ↔ ∃ hostApp channel assetRepo assetUrl,
      (d.get? "host_app").bind asStr = some hostApp ∧ defaulted "stable" asStr (d.get? "channel") = some channel ∧
      (d.get? "asset_repo").bind asStr = some assetRepo ∧ defaulted none asOptStr (d.get? "asset_url") = some assetUrl ∧
      f = ⟨hostApp, ⟨s, assetRepo, assetUrl⟩, codes, channel⟩ := by
  have hread : defaulted .desktop Shape.read (d.get? "shape") = some s := by
    rw [hshape]
    exact s.read_text
  have hcodes : defaulted [] readStrings (d.get? "plugin_set") = some codes := by
    rw [hset]
    exact mapM_asStr codes
  simp only [BootFile.read, uniqueField_entries, Option.bind_eq_bind, Option.bind_some, hread, hcodes, Option.bind_eq_some_iff,
    Option.pure_def, Option.some.injEq]
  constructor
  · rintro ⟨hostApp, hhost, channel, hchannel, repo, hrepo, url, hurl, rfl⟩
    exact ⟨hostApp, channel, repo, url, hhost, hchannel, hrepo, hurl, rfl⟩
  · rintro ⟨hostApp, channel, repo, url, hhost, hchannel, hrepo, hurl, rfl⟩
    exact ⟨hostApp, hhost, channel, hchannel, repo, hrepo, url, hurl, rfl⟩

end Reading

/-! ### The manifest of a build -/

namespace Bundling

section Manifest

variable {c : Checkout} {plugins : List String} {stem shape : String} {hashes : Dict String String} {key : String} {v : Json}

/-- The manifest of a build, with the hashes of its apps. -/
def finalManifest (c : Checkout) (plugins : List String) (stem shape : String) (hashes : Dict String String) : Dict String Json :=
  (manifestOf c plugins stem shape).set "apps" (.ofDict (hashes.mapValues Json.str))

theorem properItems_map {α : Type} {f : α → Json} (hf : ∀ a, Proper (f a)) (l : List α) : ProperItems (l.map f) := by
  refine JsonText.properItems_iff.mpr fun v hv => ?_
  obtain ⟨a, -, rfl⟩ := List.mem_map.mp hv
  exact hf a

theorem proper_manifestOf (c : Checkout) (plugins : List String) (stem shape : String) :
    ProperMembers (manifestOf c plugins stem shape).entries := by
  refine JsonText.properMembers_ofList ⟨trivial, trivial, trivial, trivial, trivial, trivial, ?_, trivial⟩
  exact properItems_map (f := pluginEntry c) (fun name => ⟨(show ["name", "version"].Nodup by decide), trivial, trivial, trivial⟩) _

theorem proper_finalManifest (c : Checkout) (plugins : List String) (stem shape : String) (hashes : Dict String String) :
    ProperMembers (finalManifest c plugins stem shape hashes).entries := by
  refine JsonText.properMembers_setEntry (JsonText.proper_ofDict (JsonText.properMembers_iff.mpr fun e he => ?_)) (proper_manifestOf ..)
  obtain ⟨e', -, rfl⟩ := List.mem_map.mp he
  trivial

/-- A field that the build writes itself. -/
theorem get?_finalManifest (hne : key ≠ "apps") (h : [("manifest_version", Json.int MANIFEST_VERSION), ("asset_name", .str stem),
    ("shape", .str shape), ("version", .str c.rootVersion), ("git_sha", .str c.gitSha), ("built_at", .str c.builtAt),
    ("plugins", .arr ((canonical plugins).map (pluginEntry c)))].lookup key = some v) :
    (finalManifest c plugins stem shape hashes).get? key = some v := by
  have hkeys : ["manifest_version", "asset_name", "shape", "version", "git_sha", "built_at", "plugins"].Nodup := by decide
  rw [finalManifest, Dict.get?_set_of_ne _ _ hne]
  exact get?_ofList_of_nodup hkeys h

theorem writeManifest_ok {text : List Char} : writeManifest c plugins shape = .ok text ↔
    shape ∈ SHAPES ∧ text = written (.ofDict (manifestOf c plugins ("locai-link-" ++ shape) shape)) := by
  unfold writeManifest assetStem
  split_ifs with hshape
  · rw [ok_bind]
    exact ⟨fun h => ⟨hshape, (Except.ok.inj h).symm⟩, fun h => congrArg Except.ok h.2.symm⟩
  · exact ⟨nofun, fun h => absurd h.1 hshape⟩

theorem injectAppHashes_manifestOf (c : Checkout) (plugins : List String) (stem shape : String) (hashes : Dict String String) :
    injectAppHashes hashes (written (.ofDict (manifestOf c plugins stem shape))) =
      .ok (written (.ofDict (finalManifest c plugins stem shape hashes))) := by
  rw [injectAppHashes, loadJson_written (JsonText.proper_ofDict (proper_manifestOf ..)), ok_bind, asDict_ofDict, ok_bind]
  rfl

/-- What the build writes, and the apps are put into. -/
theorem manifest_ok {manifest : List Char} : (writeManifest c plugins shape).bind (injectAppHashes hashes) = .ok manifest ↔
    shape ∈ SHAPES ∧ manifest = written (.ofDict (finalManifest c plugins ("locai-link-" ++ shape) shape hashes)) := by
  constructor
  · intro h
    cases hwrite : writeManifest c plugins shape with
    | error e =>
      rw [hwrite] at h
      cases h
    | ok text =>
      obtain ⟨hshape, rfl⟩ := writeManifest_ok.mp hwrite
      rw [hwrite, Except.bind, injectAppHashes_manifestOf] at h
      exact ⟨hshape, (Except.ok.inj h).symm⟩
  · rintro ⟨hshape, rfl⟩
    rw [writeManifest_ok.mpr ⟨hshape, rfl⟩, Except.bind, injectAppHashes_manifestOf]

/-! ### What is read of the plugins -/

theorem get?_pluginEntry (c : Checkout) (name : String) : (pluginEntry c name).get? "name" = some (.str name) := rfl

theorem pluginNames_entries (c : Checkout) : ∀ names : List String, (∀ name ∈ names, name ≠ "") →
    pluginNames (names.map (pluginEntry c)) = .ok names
  | [], _ => rfl
  | name :: names, h => by
    have ih := pluginNames_entries c names fun n hn => h n (List.mem_cons_of_mem _ hn)
    have hkeys : ["name", "version"].Nodup := by decide
    have hname : (Dict.ofList [("name", Json.str name), ("version", .str (c.pluginVersion name))]).get? "name" = some (.str name) :=
      get?_ofList_of_nodup hkeys rfl
    have hget : getOr (.ofList [("name", .str name), ("version", .str (c.pluginVersion name))]) "name" = .str name := by
      rw [getOr, hname]
      rfl
    have htruthy : (Json.str name).truthy = true := decide_eq_true (h name List.mem_cons_self)
    rw [List.map_cons, pluginNames, pluginEntry]
    simp only [dict, hget, htruthy, if_true, ih]
    rfl

theorem mem_canonical {name : String} (h : name ∈ canonical plugins) : name ∈ PLUGIN_ORDER := List.mem_of_mem_filter h

/-- The plugins of a build have codes. -/
theorem pluginSet_finalManifest : pluginSetFromManifest (finalManifest c plugins stem shape hashes) =
    .ok ((canonical plugins).filterMap (PLUGIN_CODES.lookup ·)) := by
  have hnamed : ∀ name ∈ PLUGIN_ORDER, name ≠ "" ∧ (PLUGIN_CODES.lookup name).isNone = false := by decide
  have hnames : pluginNames ((canonical plugins).map (pluginEntry c)) = .ok (canonical plugins) :=
    pluginNames_entries c _ fun name h => (hnamed name (mem_canonical h)).1
  have hunknown : (canonical plugins).filter (fun name => (PLUGIN_CODES.lookup name).isNone) = [] :=
    List.filter_eq_nil_iff.mpr fun name h => by rw [(hnamed name (mem_canonical h)).2]; exact Bool.false_ne_true
  have horder : PLUGIN_ORDER.filter (· ∈ canonical plugins) = canonical plugins := by
    refine List.filter_congr fun name h => decide_eq_decide.mpr ?_
    rw [canonical, List.mem_filter, decide_eq_true_iff]
    exact and_iff_right h
  rw [pluginSetFromManifest, get?_finalManifest (by decide) rfl]
  simp only [Option.getD_some, Json.iterate, hnames]
  change (if (canonical plugins).filter _ ≠ [] then _ else _) = _
  rw [if_neg (not_not.mpr hunknown), horder]

theorem modelTypes_entries (c : Checkout) : ∀ (names out : List String), (out ++ names.filterMap pluginModelType).Nodup →
    modelTypes (names.map (pluginEntry c)) out = out ++ names.filterMap pluginModelType
  | [], out, _ => (List.append_nil out).symm
  | name :: names, out, h => by
    rw [List.map_cons, modelTypes, get?_pluginEntry]
    simp only [Option.bind_some, asStr]
    cases htype : pluginModelType name with
    | none =>
      rw [List.filterMap_cons_none htype] at h ⊢
      exact modelTypes_entries c names out h
    | some modelType =>
      rw [List.filterMap_cons_some htype] at h ⊢
      have hnew : modelType ∉ out := fun hm => (List.nodup_append.mp h).2.2 _ hm _ List.mem_cons_self rfl
      rw [List.append_cons] at h ⊢
      simp only [if_neg hnew]
      exact modelTypes_entries c names _ h

end Manifest

end Bundling

/-! ### The readers -/

/-- What a template gives itself is what the launcher asks of it. -/
structure TemplateSound (d : Dict String Json) : Prop where
  hostApp : ∃ s, d.get? "host_app" = some (.str s)
  assetRepo : ∃ s, d.get? "asset_repo" = some (.str s)
  channel : ∀ v, d.get? "channel" = some v → ∃ s, v = .str s
  assetUrl : ∀ v, d.get? "asset_url" = some v → v = .null ∨ ∃ s, v = .str s

/-- What the launcher reads of a `boot.json`. -/
structure BootRead (plugins : List String) (shape : String) (template boot : List Char) : Prop where
  refused : ∀ d, (loads template).bind dict = some d → (((loads boot).bind BootFile.read).isSome = true ↔ TemplateSound d)
  accepted : ∀ f, (loads boot).bind BootFile.read = some f → f.config.shape.text = shape ∧
    f.pluginSet = (Bundling.canonical plugins).filterMap (Bundling.PLUGIN_CODES.lookup ·) ∧
    ∀ h : Host, f.config.assetBasename h.os h.arch = "locai-link-" ++ shape ++ "-" ++ h.tag

/-- The readers of a build's manifest, and of the `boot.json` of its packages. -/
structure ReadAlike (c : Bundling.Checkout) (plugins : List String) (shape : String) (hashes : Dict String String)
    (manifest : List Char) : Prop where
  updater : ∀ path, ∃ v m, loads manifest = some v ∧ Manifest.ofJson path v = .ok m ∧ m.assetName = "locai-link-" ++ shape ∧
    m.version = c.rootVersion ∧ m.apps = hashes.entries
  app : manifestModelTypes manifest = some ((Bundling.canonical plugins).filterMap pluginModelType)
  packaged : ∀ template, (∃ boot, Bundling.genBootJson manifest template = .ok boot) ↔ ∃ d, (loads template).bind dict = some d
  launcher : ∀ template boot, Bundling.genBootJson manifest template = .ok boot → BootRead plugins shape template boot

section Alike

variable {c : Bundling.Checkout} {plugins : List String} {shape : String} {hashes : Dict String String} {template : List Char}

open Bundling (finalManifest get?_finalManifest)

/-- The updater's manifest has the apps that were put into it. -/
theorem appsOf_finalManifest (c : Bundling.Checkout) (plugins : List String) (stem shape : String) (hashes : Dict String String) :
    appsOf (finalManifest c plugins stem shape hashes) = .ok hashes.entries := by
  have happs : getOr (finalManifest c plugins stem shape hashes) "apps" = .ofDict (hashes.mapValues Json.str) := by
    rw [getOr, finalManifest, Dict.get?_set_self]
    rfl
  have hdict : dict (if (Json.ofDict (hashes.mapValues Json.str)).truthy then .ofDict (hashes.mapValues Json.str) else .obj []) =
      some (hashes.mapValues Json.str) := by
    split_ifs with h
    · exact dict_ofDict _
    · cases hentries : (hashes.mapValues Json.str).entries with
      | nil => exact congrArg some (Dict.ext_entries hentries.symm)
      | cons e l =>
        rw [Json.ofDict, hentries] at h
        exact absurd rfl h
  rw [appsOf, happs, hdict]
  change Except.ok ((hashes.entries.map fun e => (e.1, Json.str e.2)).map fun e => (e.1, String.ofList (Text.str e.2))) = _
  rw [List.map_map]
  exact congrArg Except.ok (List.map_id'' (fun e => by
    change (e.1, String.ofList e.2.toList) = e
    rw [String.ofList_toList]) _)

theorem ofDict_finalManifest (path : String) (c : Bundling.Checkout) (plugins : List String) (stem shape : String)
    (hashes : Dict String String) : ∃ m, Manifest.ofDict path (finalManifest c plugins stem shape hashes) = .ok m ∧ m.assetName = stem ∧
      m.version = c.rootVersion ∧ m.apps = hashes.entries := by
  have hitem {key : String} {v : Json} (h : (finalManifest c plugins stem shape hashes).get? key = some v) :
      item path (finalManifest c plugins stem shape hashes) key = .ok v := by
    rw [item, h]
  have htext (s : String) : String.ofList (Text.str (.str s)) = s := String.ofList_toList
  rw [Manifest.ofDict, hitem (get?_finalManifest (by decide) rfl), hitem (get?_finalManifest (by decide) rfl),
    hitem (get?_finalManifest (by decide) rfl), get?_finalManifest (by decide) rfl, get?_finalManifest (by decide) rfl,
    get?_finalManifest (by decide) rfl, appsOf_finalManifest]
  exact ⟨_, rfl, htext _, htext _, rfl⟩

/-- The codes of a build's plugins. -/
def codesOf (plugins : List String) : List String := (Bundling.canonical plugins).filterMap (Bundling.PLUGIN_CODES.lookup ·)

/-- A template with the shape and the plugins of a build put into it. -/
def packaged (plugins : List String) (shape : String) (d : Dict String Json) : Dict String Json :=
  (d.set "shape" (.str shape)).set "plugin_set" (.arr ((codesOf plugins).map Json.str))

theorem shapeOf_final {stem : String} (hshape : shape ∈ Bundling.SHAPES) :
    Bundling.shapeOf (finalManifest c plugins stem shape hashes) = .ok shape := by
  have hfield : getOr (finalManifest c plugins stem shape hashes) "shape" = .str shape := by
    rw [getOr, get?_finalManifest (by decide) rfl]
    rfl
  rw [Bundling.shapeOf, hfield]
  exact if_pos hshape

/-- With the manifest of a build, only the template can be at fault. -/
theorem genBootJson_eq {stem : String} (hshape : shape ∈ Bundling.SHAPES) (template : List Char) :
    Bundling.genBootJson (Bundling.written (.ofDict (finalManifest c plugins stem shape hashes))) template =
      ((Bundling.loadJson template).bind Bundling.asDict).bind fun d => .ok (Bundling.written (.ofDict (packaged plugins shape d))) := by
  rw [Bundling.genBootJson, loadJson_written (JsonText.proper_ofDict (Bundling.proper_finalManifest ..)), ok_bind]
  cases Bundling.loadJson template with
  | error e => rfl
  | ok v =>
    rw [ok_bind, asDict_ofDict, ok_bind, shapeOf_final hshape, ok_bind]
    change _ = (Bundling.asDict v).bind _
    cases Bundling.asDict v with
    | error e => rfl
    | ok d =>
      rw [ok_bind, Bundling.pluginSet_finalManifest, ok_bind]
      rfl

theorem loadJson_asDict (template : List Char) (d : Dict String Json) :
    (Bundling.loadJson template).bind Bundling.asDict = .ok d ↔ (loads template).bind dict = some d := by
  unfold Bundling.loadJson
  cases loads template with
  | none => exact ⟨nofun, nofun⟩
  | some v =>
    change Bundling.asDict v = .ok d ↔ dict v = some d
    unfold Bundling.asDict
    cases dict v with
    | none => exact ⟨nofun, nofun⟩
    | some d' => exact ⟨fun h => congrArg some (Except.ok.inj h), fun h => congrArg Except.ok (Option.some.inj h)⟩

theorem genBootJson_ok {stem : String} (hshape : shape ∈ Bundling.SHAPES) {boot : List Char} :
    Bundling.genBootJson (Bundling.written (.ofDict (finalManifest c plugins stem shape hashes))) template = .ok boot ↔
      ∃ d, (loads template).bind dict = some d ∧ boot = Bundling.written (.ofDict (packaged plugins shape d)) := by
  rw [genBootJson_eq hshape]
  cases h : (Bundling.loadJson template).bind Bundling.asDict with
  | error e =>
    refine ⟨nofun, fun ⟨d, hd, _⟩ => ?_⟩
    rw [(loadJson_asDict template d).mpr hd] at h
    cases h
  | ok d =>
    have hd := (loadJson_asDict template d).mp h
    constructor
    · intro hboot
      exact ⟨d, hd, (Except.ok.inj hboot).symm⟩
    · rintro ⟨d', hd', rfl⟩
      rw [Option.some.inj (hd'.symm.trans hd)]
      rfl

theorem proper_packaged {d : Dict String Json} (h : (loads template).bind dict = some d) :
    ProperMembers (packaged plugins shape d).entries := by
  obtain ⟨v, hv, hd⟩ := Option.bind_eq_some_iff.mp h
  have hproper := JsonText.loads_proper hv
  cases v with
  | obj l =>
    obtain rfl : Dict.ofList l = d := Option.some.inj hd
    have hset : ProperMembers ((Dict.ofList l).set "shape" (.str shape)).entries :=
      JsonText.properMembers_setEntry (a := .str shape) trivial (JsonText.properMembers_ofList hproper.2)
    have hcodes : Proper (.arr ((codesOf plugins).map Json.str)) := Bundling.properItems_map (f := Json.str) (fun _ => trivial) _
    exact JsonText.properMembers_setEntry hcodes hset
  | _ => cases hd

theorem templateSound_iff {d : Dict String Json} : TemplateSound d ↔ ∃ hostApp channel assetRepo assetUrl,
    (d.get? "host_app").bind asStr = some hostApp ∧ defaulted "stable" asStr (d.get? "channel") = some channel ∧
    (d.get? "asset_repo").bind asStr = some assetRepo ∧ defaulted none asOptStr (d.get? "asset_url") = some assetUrl := by
  have hstr {v : Json} {s : String} (h : asStr v = some s) : v = .str s := by
    cases v with
    | str s' => exact congrArg Json.str (Option.some.inj h)
    | _ => cases h
  have hfield {key s : String} (h : (d.get? key).bind asStr = some s) : d.get? key = some (.str s) := by
    obtain ⟨v, hv, hs⟩ := Option.bind_eq_some_iff.mp h
    rw [hv, hstr hs]
  constructor
  · rintro ⟨⟨hostApp, hhost⟩, ⟨repo, hrepo⟩, hchannel, hurl⟩
    have hchannel' : ∃ channel, defaulted "stable" asStr (d.get? "channel") = some channel := by
      cases h : d.get? "channel" with
      | none => exact ⟨_, rfl⟩
      | some v =>
        obtain ⟨s, rfl⟩ := hchannel v h
        exact ⟨s, rfl⟩
    have hurl' : ∃ url, defaulted none asOptStr (d.get? "asset_url") = some url := by
      cases h : d.get? "asset_url" with
      | none => exact ⟨_, rfl⟩
      | some v =>
        rcases hurl v h with rfl | ⟨s, rfl⟩
        · exact ⟨none, rfl⟩
        · exact ⟨some s, rfl⟩
    obtain ⟨channel, hchannel'⟩ := hchannel'
    obtain ⟨url, hurl'⟩ := hurl'
    exact ⟨hostApp, channel, repo, url, by rw [hhost]; rfl, hchannel', by rw [hrepo]; rfl, hurl'⟩
  · rintro ⟨hostApp, channel, repo, url, hhost, hchannel, hrepo, hurl⟩
    refine ⟨⟨hostApp, hfield hhost⟩, ⟨repo, hfield hrepo⟩, fun v hv => ?_, fun v hv => ?_⟩
    · rw [hv] at hchannel
      exact ⟨channel, hstr hchannel⟩
    · rw [hv] at hurl
      cases v with
      | null => exact .inl rfl
      | str s => exact .inr ⟨s, rfl⟩
      | _ => cases hurl

theorem bootRead {d : Dict String Json} (hshape : shape ∈ Bundling.SHAPES) (h : (loads template).bind dict = some d) :
    BootRead plugins shape template (Bundling.written (.ofDict (packaged plugins shape d))) := by
  obtain ⟨s, rfl⟩ := shape_of_mem hshape
  have hread : (loads (Bundling.written (.ofDict (packaged plugins s.text d)))).bind BootFile.read =
      BootFile.read (.obj (packaged plugins s.text d).entries) := by
    rw [loads_written (JsonText.proper_ofDict (proper_packaged h))]
    rfl
  have hother {key : String} (hset : key ≠ "plugin_set") (hshape : key ≠ "shape") :
      (packaged plugins s.text d).get? key = d.get? key := by
    rw [packaged, Dict.get?_set_of_ne _ _ hset, Dict.get?_set_of_ne _ _ hshape]
  have hshapeKey : (packaged plugins s.text d).get? "shape" = some (.str s.text) := by
    rw [packaged, Dict.get?_set_of_ne _ _ (by decide), Dict.get?_set_self]
  have hsetKey : (packaged plugins s.text d).get? "plugin_set" = some (.arr ((codesOf plugins).map Json.str)) := by
    rw [packaged, Dict.get?_set_self]
  have hiff (f : BootFile) := read_boot (f := f) hshapeKey hsetKey
  rw [hother (by decide) (by decide), hother (by decide) (by decide), hother (by decide) (by decide),
    hother (by decide) (by decide)] at hiff
  constructor
  · intro d' hd'
    obtain rfl : d = d' := Option.some.inj (h.symm.trans hd')
    rw [hread, templateSound_iff, Option.isSome_iff_exists]
    constructor
    · rintro ⟨f, hf⟩
      obtain ⟨hostApp, channel, repo, url, hhost, hchannel, hrepo, hurl, -⟩ := (hiff f).mp hf
      exact ⟨hostApp, channel, repo, url, hhost, hchannel, hrepo, hurl⟩
    · rintro ⟨hostApp, channel, repo, url, hhost, hchannel, hrepo, hurl⟩
      exact ⟨_, (hiff _).mpr ⟨hostApp, channel, repo, url, hhost, hchannel, hrepo, hurl, rfl⟩⟩
  · intro f hf
    rw [hread] at hf
    obtain ⟨hostApp, channel, repo, url, -, -, -, -, rfl⟩ := (hiff f).mp hf
    exact ⟨rfl, rfl, assetBasename_eq _⟩

/-- **What a build says of itself is read alike**: whatever plugins and shape it is built with, the updater reads the name that its bundles
go by, and the launcher of a package that is made from it asks for bundles under that name on every host; both by what the build was told,
and no field but the template's own can make the launcher refuse its `boot.json`. -/
theorem read_alike (c : Bundling.Checkout) (plugins : List String) (shape : String) (hashes : Dict String String) {manifest : List Char}
    (h : (Bundling.writeManifest c plugins shape).bind (Bundling.injectAppHashes hashes) = .ok manifest) :
    ReadAlike c plugins shape hashes manifest := by
  obtain ⟨hshape, rfl⟩ := Bundling.manifest_ok.mp h
  have hloads : loads (Bundling.written (.ofDict (finalManifest c plugins ("locai-link-" ++ shape) shape hashes))) = some _ :=
    loads_written (JsonText.proper_ofDict (Bundling.proper_finalManifest ..))
  refine ⟨fun path => ?_, ?_, fun template => ⟨?_, ?_⟩, fun template boot hboot => ?_⟩
  · obtain ⟨m, hm, hrest⟩ := ofDict_finalManifest path c plugins ("locai-link-" ++ shape) shape hashes
    refine ⟨_, m, hloads, ?_, hrest⟩
    rw [Json.ofDict, Manifest.ofJson, Dict.ofList_entries]
    exact hm
  · have hplugins : (Json.ofDict (finalManifest c plugins ("locai-link-" ++ shape) shape hashes)).get? "plugins" =
        some (.arr ((Bundling.canonical plugins).map (Bundling.pluginEntry c))) := get?_finalManifest (by decide) rfl
    have hnodup : ([] ++ (Bundling.canonical plugins).filterMap pluginModelType).Nodup := by
      refine List.Nodup.sublist (List.Sublist.filterMap pluginModelType (List.filter_sublist (l := Bundling.PLUGIN_ORDER))) ?_
      decide
    rw [manifestModelTypes, hloads]
    simp only [Option.bind_eq_bind, Option.bind_some, hplugins]
    rw [Bundling.modelTypes_entries c _ _ hnodup, List.nil_append]
  · rintro ⟨boot, hboot⟩
    obtain ⟨d, hd, -⟩ := (genBootJson_ok hshape).mp hboot
    exact ⟨d, hd⟩
  · rintro ⟨d, hd⟩
    exact ⟨_, (genBootJson_ok hshape).mpr ⟨d, hd, rfl⟩⟩
  · obtain ⟨d, hd, rfl⟩ := (genBootJson_ok hshape).mp hboot
    exact bootRead hshape hd

end Alike

def checkout : Bundling.Checkout := ⟨"1.0.17", "a3a8b6f", "2026-02-01T09:30:00Z", fun _ => "0.4.0"⟩

theorem read_alike_headless : ReadAlike checkout ["audio_transcriber", "language_model"] "headless" .empty
    (Bundling.written (.ofDict (Bundling.finalManifest checkout ["audio_transcriber", "language_model"] ("locai-link-" ++ "headless")
      "headless" .empty))) :=
  read_alike checkout _ _ _ (Bundling.manifest_ok.mpr ⟨by decide, rfl⟩)

end Install
end LocaiLink
