/-
# The artifact store's client

`Manifest` is the parsed `index/manifest.v1.json`: capability, name, version and
platform-arch lead to a variant, and `defaults` to the version of each engine.
-/
import LocaiLink.Base.JsonPath
import LocaiLink.Base.Lines

namespace LocaiLink.Artifacts

/-- What the client raises. -/
inductive StoreError
  | manifest (message : String)
  | variantNotFound (message : String)
  | attribute (message : String)

/-- One resolved artifact, with the values its entry has. -/
structure Variant where
  path : Json
  sha256 : Json
  size : Json

/-- A manifest has the schema that the client reads. -/
structure Manifest where
  data : Json
  schema : ((data.get? "schema").getD .null).eq (.int 1) = true

namespace Manifest

/-- `Manifest(data)` -/
def ofJson (data : Json) : Except StoreError Manifest :=
  if h : ((data.get? "schema").getD .null).eq (.int 1) = true then .ok ⟨data, h⟩
  else
    let schema := String.ofList (Text.repr ((data.get? "schema").getD .null))
    .error (.manifest s!"unsupported manifest schema: {schema} (want 1)")

/-- `Manifest(json.loads(raw))` -/
def ofBytes (raw : Bytes) : Option Manifest := do
  let text ← Bytes.decode raw
  let data ← JsonText.loads text.toList
  (ofJson data).toOption

def defaultVersion (m : Manifest) (capability name : String) : Except StoreError Json :=
  match Json.getIn ["defaults", capability, name] m.data with
  | some v => .ok v
  | none => .error (.variantNotFound s!"no default version for {capability}/{name} in manifest")

/-- A version that is no string names no entry. -/
def entry (m : Manifest) (capability name : String) (version : Json) (arch : String) : Option Json :=
  match version with
  | .str v => Json.getIn [capability, name, v, arch] m.data
  | _ => none

/-- The variant of an entry, which has to have a path and a hash. -/
def variantOf (entry : Json) : Except StoreError Variant :=
  match entry with
  | .obj l =>
    let path := (l.lookup "path").getD .null
    let sha := (l.lookup "sha256").getD .null
    if !path.truthy || !sha.truthy then .error (.manifest "manifest entry missing path/sha256")
    else .ok ⟨path, sha, (l.lookup "size").getD .null⟩
  | _ => .error (.attribute "object has no attribute 'get'")

/-- The first candidate that the manifest has. -/
def firstVariant (m : Manifest) (capability name : String) (version : Json) : List String → Except StoreError Variant
  | [] => .error (.variantNotFound s!"{capability}/{name}: none in manifest")
  | cand :: candidates =>
    match m.entry capability name version cand with
    | some e => variantOf e
    | none => m.firstVariant capability name version candidates

/-- `Manifest.variant`; the host has its candidates, the best first. -/
def variant (m : Manifest) (hostCandidates : List String) (capability name : String) (version arch : Option String) :
    Except StoreError Variant := do
  let version ← match version.filter (· ≠ "") with
    | some v => pure (.str v)
    | none => m.defaultVersion capability name
  let candidates := match arch.filter (· ≠ "") with
    | some a => [a]
    | none => hostCandidates
  m.firstVariant capability name version candidates

end Manifest

end LocaiLink.Artifacts
