/-
# The routes of the catalog

The companion asks the control plane for models by the identity of its device. What goes into the path of a URL is
percent-encoded, so that it is one segment; but a segment of dots changes the path when the client
reads the URL, and dots are not encoded (`segments_iff`).
-/
import Mathlib.Data.Bool.AllAny
import Mathlib.Data.List.DropRight
import LocaiLink.Base.Percent

namespace LocaiLink
namespace Catalog

open Percent

/-- Device credentials pulled from the session config. -/
structure DeviceIdentity where
  deviceId : String
  apiKey : String
  apiUrl : String

/-- `encode_segment` -/
def encodeSegment (s : String) : String := String.ofList (encode (Bytes.encode s))

/-- `secure_api_base` -/
def secureApiBase (apiUrl : String) : Except String String :=
  let base := String.ofList (apiUrl.toList.rdropWhile (· = '/'))
  if Text.startsWith base "https://" then .ok base else .error ("Control API URL must use HTTPS: " ++ apiUrl)

/-- The URL of `list_available_models`. -/
def availableModelsUrl (id : DeviceIdentity) : Except String String := do
  let base ← secureApiBase id.apiUrl
  pure (base ++ "/agent/" ++ encodeSegment id.deviceId ++ "/available-models")

/-- The URL of `request_deploy`. -/
def requestDeployUrl (id : DeviceIdentity) (modelId : String) : Except String String := do
  let base ← secureApiBase id.apiUrl
  pure (base ++ "/agent/" ++ encodeSegment id.deviceId ++ "/models/" ++ encodeSegment modelId ++ "/request-deploy")

/-! ### How the client reads a URL -/

/-- A slash of either kind: the scheme is a special one. -/
def isSlash (c : Char) : Bool := c = '/' || c = '\\'

/-- What ends a path. -/
def endsPath (c : Char) : Bool := c = '?' || c = '#'

/-- What the parser drops wherever it stands. -/
def isBreak (c : Char) : Bool := c = '\t' || c = '\n' || c = '\r'

def scheme : List Char := ['h', 't', 't', 'p', 's', ':', '/', '/']

/-- The path of a URL with that scheme, with the slash that it begins with. -/
def pathText (url : List Char) : List Char :=
  (((url.drop scheme.length).dropWhile isSlash).dropWhile fun c => !(isSlash c || endsPath c)).takeWhile fun c => !endsPath c

/-- The segments of that path. What the parser percent-encodes itself is left as it is: it is nothing that `encode` writes. -/
def urlPath (url : String) : List (List Char) :=
  normalise [] ((pathText (url.toList.filter fun c => !isBreak c)).tail.splitOnP isSlash)

/-- A base of the control plane's interface: an authority and a path that ends with no slash. -/
structure ApiBase where
  authority : List Char
  path : List Char
  nonempty : authority ≠ []
  authorityValid : ∀ c ∈ authority, isSlash c = false ∧ endsPath c = false ∧ isBreak c = false
  pathValid : ∀ c ∈ path, endsPath c = false ∧ isBreak c = false
  pathStart : ∀ c ∈ path.head?, isSlash c = true
  pathEnd : path.getLast? ≠ some '/'

namespace ApiBase

def text (api : ApiBase) : String := String.ofList (scheme ++ api.authority ++ api.path)

/-- The segments of its path, the last of them first. -/
def segments (api : ApiBase) : List (List Char) :=
  match api.path with
  | [] => []
  | _ :: path => (path.splitOnP isSlash).foldl walk []

end ApiBase

/-- The path that a URL is to have: that of the base, and the segments after it. -/
def HasRoute (api : ApiBase) (url : Except String String) (route : List String) : Prop :=
  ∃ text, url = .ok text ∧ urlPath text = api.segments.reverse ++ route.map String.toList

section Routes

variable {api : ApiBase} {s : String} {bs : Bytes} {suffix : List Char}

theorem toList_encodeSegment (s : String) : (encodeSegment s).toList = encode (Bytes.encode s) := String.toList_ofList

/-- Nothing that is encoded has a slash, ends the path or is dropped. -/
theorem plain_encode {c : Char} (h : c ∈ encode bs) : isSlash c = false ∧ endsPath c = false ∧ isBreak c = false := by
  have hspelled := spelled_encode bs
  have hnot : ∀ d ∈ ['/', '\\', '?', '#', '\t', '\n', '\r'], c ≠ d := by
    rintro d hd rfl
    have hall : ∀ d ∈ ['/', '\\', '?', '#', '\t', '\n', '\r'], isUnreserved d = false ∧ JsonText.hexVal d = none ∧ d ≠ '%' :=
      List.all_iff_forall_prop.mp (by decide)
    obtain ⟨h1, h2, h3⟩ := hall _ hd
    exact hspelled.not_mem h1 h2 h3 h
  simp only [isSlash, endsPath, isBreak, Bool.or_eq_false_iff, decide_eq_false_iff_not]
  simp only [List.forall_mem_cons] at hnot
  tauto

theorem dropWhile_append_of_forall {p : Char → Bool} {l l' : List Char} (h : ∀ c ∈ l, p c = true) :
    (l ++ l').dropWhile p = l'.dropWhile p := by
  induction l with
  | nil => rfl
  | cons a l ih =>
    obtain ⟨ha, hl⟩ := List.forall_mem_cons.mp h
    rw [List.cons_append, List.dropWhile_cons, if_pos ha, ih hl]

theorem dropWhile_of_head {p : Char → Bool} {l : List Char} (h : ∀ c ∈ l.head?, p c = false) : l.dropWhile p = l := by
  cases l with
  | nil => rfl
  | cons a l => rw [List.dropWhile_cons, if_neg (by rw [h a rfl]; decide)]

/-- The path of a URL of the base with a path after it. -/
theorem pathText_text (hslash : suffix.head? = some '/') (hpath : ∀ c ∈ suffix, endsPath c = false) :
    pathText (scheme ++ api.authority ++ api.path ++ suffix) = api.path ++ suffix := by
  have hdrop : (scheme ++ api.authority ++ api.path ++ suffix).drop scheme.length = api.authority ++ (api.path ++ suffix) := by
    rw [List.append_assoc, List.append_assoc, List.drop_left]
  have hauthority : (api.authority ++ (api.path ++ suffix)).dropWhile isSlash = api.authority ++ (api.path ++ suffix) := by
    refine dropWhile_of_head fun c hc => ?_
    obtain ⟨a, l, hal⟩ := List.exists_cons_of_ne_nil api.nonempty
    rw [hal] at hc
    obtain rfl : a = c := Option.some.inj hc
    exact (api.authorityValid a (by rw [hal]; exact List.mem_cons_self)).1
  have hstart : ∀ c ∈ (api.path ++ suffix).head?, (!(isSlash c || endsPath c)) = false := by
    intro c hc
    have hslash' : isSlash c = true := by
      cases hpath : api.path with
      | nil =>
        rw [hpath, List.nil_append, hslash] at hc
        rw [← Option.some.inj hc]
        rfl
      | cons a l =>
        rw [hpath] at hc
        exact api.pathStart c (by rw [hpath]; exact hc)
    rw [hslash']
    rfl
  have hall : ∀ c ∈ api.path ++ suffix, (!endsPath c) = true := by
    intro c hc
    rcases List.mem_append.mp hc with hc | hc
    · rw [(api.pathValid c hc).1]
      rfl
    · rw [hpath c hc]
      rfl
  unfold pathText
  rw [hdrop, hauthority, dropWhile_append_of_forall fun c hc => ?_, dropWhile_of_head hstart]
  · exact List.takeWhile_eq_self_iff.mpr hall
  · obtain ⟨h1, h2, -⟩ := api.authorityValid c hc
    rw [h1, h2]
    rfl

theorem plain_text (api : ApiBase) : ∀ c ∈ api.text.toList, isBreak c = false := by
  intro c hc
  rw [ApiBase.text, String.toList_ofList] at hc
  rcases List.mem_append.mp hc with hc | hc
  · rcases List.mem_append.mp hc with hc | hc
    · have hall : ∀ c ∈ scheme, isBreak c = false := List.all_iff_forall_prop.mp (by decide)
      exact hall c hc
    · exact (api.authorityValid c hc).2.2
  · exact (api.pathValid c hc).2

theorem toList_text (api : ApiBase) : api.text.toList = scheme ++ api.authority ++ api.path := String.toList_ofList

theorem getLast_text (api : ApiBase) : api.text.toList.getLast? ≠ some '/' := by
  intro hlast
  rw [toList_text] at hlast
  rcases List.eq_nil_or_concat api.path with hpath | ⟨l, c, hpath⟩
  · obtain ⟨l, c, hauthority⟩ := (List.eq_nil_or_concat api.authority).resolve_left api.nonempty
    rw [hpath, List.append_nil, hauthority, List.concat_eq_append, ← List.append_assoc, List.getLast?_concat] at hlast
    have hslash := (api.authorityValid c (by simp [hauthority])).1
    rw [Option.some.inj hlast] at hslash
    cases hslash
  · rw [hpath, List.concat_eq_append, ← List.append_assoc, List.getLast?_concat] at hlast
    exact api.pathEnd (by rw [hpath, List.concat_eq_append, List.getLast?_concat, hlast])

/-- A base is not changed where its URL is checked. -/
theorem secureApiBase_text (api : ApiBase) : secureApiBase api.text = .ok api.text := by
  have hlast : ∀ hne : api.text.toList ≠ [], ¬decide (api.text.toList.getLast hne = '/') = true := fun hne hslash =>
    getLast_text api (by rw [List.getLast?_eq_some_getLast hne, of_decide_eq_true hslash])
  have htrim : api.text.toList.rdropWhile (· = '/') = api.text.toList := List.rdropWhile_eq_self_iff.mpr hlast
  have hstarts : Text.startsWith api.text "https://" = true := by
    unfold Text.startsWith
    rw [toList_text, List.append_assoc]
    exact List.isPrefixOf_iff_prefix.mpr (List.prefix_append scheme _)
  unfold secureApiBase
  rw [htrim, String.ofList_toList]
  exact if_pos hstarts

/-- **The path of a URL of the base** is the base's and that of what follows, where what follows is as it is. -/
theorem urlPath_text (hslash : suffix.head? = some '/') (hplain : ∀ c ∈ suffix, endsPath c = false ∧ isBreak c = false) :
    urlPath (api.text ++ String.ofList suffix) = normalise api.segments (suffix.tail.splitOnP isSlash) := by
  have hfilter : (api.text ++ String.ofList suffix).toList.filter (fun c => !isBreak c) =
      scheme ++ api.authority ++ api.path ++ suffix := by
    rw [String.toList_append, String.toList_ofList, List.filter_eq_self.mpr]
    · rw [ApiBase.text, String.toList_ofList]
    · intro c hc
      rcases List.mem_append.mp hc with hc | hc
      · rw [plain_text api c hc]
        rfl
      · rw [(hplain c hc).2]
        rfl
  obtain ⟨s, rfl⟩ : ∃ s, suffix = '/' :: s := by
    cases suffix with
    | nil => cases hslash
    | cons a s => exact ⟨s, by rw [Option.some.inj hslash]⟩
  rw [urlPath, hfilter, pathText_text hslash fun c hc => (hplain c hc).1]
  unfold ApiBase.segments
  cases hpath : api.path with
  | nil => rfl
  | cons a path =>
    have hsplit : (path ++ '/' :: s).splitOnP isSlash = path.splitOnP isSlash ++ s.splitOnP isSlash :=
      List.splitOnP_append_cons path s rfl
    rw [List.cons_append, List.tail_cons, hsplit, normalise_append _ _ (List.splitOnP_ne_nil _ _)]
    rfl

/-- A segment that is written as it is read. -/
def Plain (segment : List Char) : Prop := ∀ c ∈ segment, isSlash c = false ∧ endsPath c = false ∧ isBreak c = false

/-- Segments with a slash before each. -/
def written (route : List (List Char)) : List Char := route.flatMap fun segment => '/' :: segment

theorem splitOnP_written {segment : List Char} {rest : List (List Char)} (h : ∀ s ∈ segment :: rest, Plain s) :
    (segment ++ written rest).splitOnP isSlash = segment :: rest := by
  induction rest generalizing segment with
  | nil =>
    have hsegment := h segment List.mem_cons_self
    rw [written, List.flatMap_nil, List.append_nil, List.splitOnP_eq_singleton fun c hc => (hsegment c hc).1]
  | cons next rest ih =>
    have hsegment := h segment List.mem_cons_self
    have hcons : written (next :: rest) = '/' :: (next ++ written rest) := List.flatMap_cons
    rw [hcons, List.splitOnP_append_cons_of_forall_mem (fun c hc => (hsegment c hc).1) '/' rfl,
      ih fun s hs => h s (List.mem_cons_of_mem _ hs)]

/-- **A route after the base** is read as the segments that it is made of. -/
theorem urlPath_written (api : ApiBase) {segment : List Char} {rest : List (List Char)} (h : ∀ s ∈ segment :: rest, Plain s) :
    urlPath (api.text ++ String.ofList (written (segment :: rest))) = normalise api.segments (segment :: rest) := by
  have hcons : written (segment :: rest) = '/' :: (segment ++ written rest) := List.flatMap_cons
  have hplain : ∀ c ∈ written (segment :: rest), endsPath c = false ∧ isBreak c = false := by
    intro c hc
    obtain ⟨s, hs, hc⟩ := List.mem_flatMap.mp hc
    rcases List.mem_cons.mp hc with rfl | hc
    · exact ⟨rfl, rfl⟩
    · exact (h s hs c hc).2
  rw [urlPath_text (by rw [hcons]; rfl) hplain, hcons, List.tail_cons, splitOnP_written h]

theorem availableModelsUrl_text (api : ApiBase) (d key : String) : availableModelsUrl ⟨d, key, api.text⟩ =
    .ok (api.text ++ String.ofList (written ["agent".toList, (encodeSegment d).toList, "available-models".toList])) := by
  have htext : api.text ++ "/agent/" ++ encodeSegment d ++ "/available-models" =
      api.text ++ String.ofList (written ["agent".toList, (encodeSegment d).toList, "available-models".toList]) := by
    rw [← String.toList_inj]
    simp [written]
  unfold availableModelsUrl
  rw [secureApiBase_text, ← htext]
  rfl

theorem requestDeployUrl_text (api : ApiBase) (d key m : String) : requestDeployUrl ⟨d, key, api.text⟩ m = .ok (api.text ++
    String.ofList (written ["agent".toList, (encodeSegment d).toList, "models".toList, (encodeSegment m).toList, "request-deploy".toList])) := by
  have htext : api.text ++ "/agent/" ++ encodeSegment d ++ "/models/" ++ encodeSegment m ++ "/request-deploy" = api.text ++
      String.ofList (written ["agent".toList, (encodeSegment d).toList, "models".toList, (encodeSegment m).toList, "request-deploy".toList]) := by
    rw [← String.toList_inj]
    simp [written]
  unfold requestDeployUrl
  rw [secureApiBase_text, ← htext]
  rfl

/-- One dot or two: a segment that names none. -/
def IsDots (s : String) : Prop := s = "." ∨ s = ".."

theorem encode_injective : Function.Injective Bytes.encode := fun s t h => by
  have hdecode := congrArg Bytes.decode h
  rw [Bytes.decode_encode, Bytes.decode_encode] at hdecode
  exact Option.some.inj hdecode

/-- What is encoded can be read back. -/
theorem encodeSegment_injective : Function.Injective encodeSegment := fun s t h => by
  have hlist := congrArg String.toList h
  rw [toList_encodeSegment, toList_encodeSegment] at hlist
  have hbytes := congrArg decode hlist
  rw [decode_encode, decode_encode] at hbytes
  exact encode_injective hbytes

theorem isDots_iff (s : String) : isSingleDot (encodeSegment s).toList = true ∨ isDoubleDot (encodeSegment s).toList = true ↔ IsDots s := by
  have hone : Bytes.encode "." = [0x2e] := by decide +kernel
  have htwo : Bytes.encode ".." = [0x2e, 0x2e] := by decide +kernel
  rw [toList_encodeSegment, isSingleDot_encode, isDoubleDot_encode, ← htwo, ← hone]
  exact or_congr encode_injective.eq_iff encode_injective.eq_iff

theorem not_isDots {s : String} (h : ¬IsDots s) :
    isSingleDot (encodeSegment s).toList = false ∧ isDoubleDot (encodeSegment s).toList = false := by
  rw [← isDots_iff, not_or, Bool.not_eq_true, Bool.not_eq_true] at h
  exact h

theorem plain_words : ∀ s ∈ ["agent".toList, "available-models".toList, "models".toList, "request-deploy".toList], Plain s ∧
    isSingleDot s = false ∧ isDoubleDot s = false := by
  have hplain : ∀ c ∈ ["agent".toList, "available-models".toList, "models".toList, "request-deploy".toList].flatten,
      isSlash c = false ∧ endsPath c = false ∧ isBreak c = false := List.all_iff_forall_prop.mp (by decide)
  have hdots : ∀ s ∈ ["agent".toList, "available-models".toList, "models".toList, "request-deploy".toList],
      isSingleDot s = false ∧ isDoubleDot s = false := by decide
  exact fun s hs => ⟨fun c hc => hplain c (List.mem_flatten_of_mem hs hc), hdots s hs⟩

theorem plain_encodeSegment (s : String) : Plain (encodeSegment s).toList := fun c hc => by
  rw [toList_encodeSegment] at hc
  exact plain_encode hc

variable {acc : List (List Char)} {e f : List Char}

theorem walk_agent (acc : List (List Char)) : walk acc "agent".toList = "agent".toList :: acc :=
  walk_plain (plain_words _ (by simp)).2.1 (plain_words _ (by simp)).2.2

theorem walk_models (acc : List (List Char)) : walk acc "models".toList = "models".toList :: acc :=
  walk_plain (plain_words _ (by simp)).2.1 (plain_words _ (by simp)).2.2

theorem walkLast_available (acc : List (List Char)) : walkLast acc "available-models".toList = "available-models".toList :: acc :=
  walkLast_plain (plain_words _ (by simp)).2.1 (plain_words _ (by simp)).2.2

theorem walkLast_deploy (acc : List (List Char)) : walkLast acc "request-deploy".toList = "request-deploy".toList :: acc :=
  walkLast_plain (plain_words _ (by simp)).2.1 (plain_words _ (by simp)).2.2

/-- The list of models is asked for by its route just if the device is not named by dots. -/
theorem available_route (api : ApiBase) (d key : String) :
    HasRoute api (availableModelsUrl ⟨d, key, api.text⟩) ["agent", encodeSegment d, "available-models"] ↔ ¬IsDots d := by
  have hplain : ∀ s ∈ ["agent".toList, (encodeSegment d).toList, "available-models".toList], Plain s := by
    simp only [List.forall_mem_cons]
    exact ⟨(plain_words _ (by simp)).1, plain_encodeSegment d, (plain_words _ (by simp)).1, fun _ h => (by cases h)⟩
  have hpath := urlPath_written api hplain
  rw [normalise, walk_agent, normalise, normalise, walkLast_available] at hpath
  unfold HasRoute
  rw [availableModelsUrl_text]
  constructor
  · rintro ⟨text, htext, hroute⟩ hdots
    obtain rfl := Except.ok.inj htext
    rw [hpath] at hroute
    have hle := length_walk_dots ("agent".toList :: api.segments) ((isDots_iff d).mpr hdots)
    have hlength := congrArg List.length hroute
    simp only [List.length_reverse, List.length_cons, List.length_append, List.length_map, List.length_nil] at hlength hle
    omega
  · intro hdots
    obtain ⟨hsingle, hdouble⟩ := not_isDots hdots
    refine ⟨_, rfl, ?_⟩
    rw [hpath, walk_plain hsingle hdouble]
    simp

/-- A deploy is asked for by its route just if neither the device nor the model is named by dots. -/
theorem deploy_route (api : ApiBase) (d key m : String) : HasRoute api (requestDeployUrl ⟨d, key, api.text⟩ m)
    ["agent", encodeSegment d, "models", encodeSegment m, "request-deploy"] ↔ ¬IsDots d ∧ ¬IsDots m := by
  have hplain : ∀ s ∈ ["agent".toList, (encodeSegment d).toList, "models".toList, (encodeSegment m).toList, "request-deploy".toList],
      Plain s := by
    simp only [List.forall_mem_cons]
    exact ⟨(plain_words _ (by simp)).1, plain_encodeSegment d, (plain_words _ (by simp)).1, plain_encodeSegment m,
      (plain_words _ (by simp)).1, fun _ h => (by cases h)⟩
  have hpath := urlPath_written api hplain
  rw [normalise, walk_agent, normalise, normalise, walk_models, normalise, normalise, walkLast_deploy] at hpath
  unfold HasRoute
  rw [requestDeployUrl_text]
  constructor
  · rintro ⟨text, htext, hroute⟩
    obtain rfl := Except.ok.inj htext
    rw [hpath] at hroute
    have hlength := congrArg List.length hroute
    have hdevice := length_walk_le ("agent".toList :: api.segments) (encodeSegment d).toList
    have hmodel := length_walk_le ("models".toList :: walk ("agent".toList :: api.segments) (encodeSegment d).toList) (encodeSegment m).toList
    simp only [List.length_reverse, List.length_cons, List.length_append, List.length_map, List.length_nil] at hlength hdevice hmodel
    constructor
    · intro hdots
      have hle := length_walk_dots ("agent".toList :: api.segments) ((isDots_iff d).mpr hdots)
      rw [List.length_cons] at hle
      omega
    · intro hdots
      have hle := length_walk_dots ("models".toList :: walk ("agent".toList :: api.segments) (encodeSegment d).toList)
        ((isDots_iff m).mpr hdots)
      rw [List.length_cons] at hle
      omega
  · rintro ⟨hdots, hdots'⟩
    obtain ⟨hsingle, hdouble⟩ := not_isDots hdots
    obtain ⟨hsingle', hdouble'⟩ := not_isDots hdots'
    refine ⟨_, rfl, ?_⟩
    rw [hpath, walk_plain hsingle hdouble, walk_plain hsingle' hdouble']
    simp

end Routes

/-- Segments are encoded one to one, in unreserved characters and triplets that read back as their bytes, and the two URLs
have their routes. -/
def Kept (api : ApiBase) (d key m : String) : Prop :=
  Function.Injective encodeSegment ∧ (∀ s, Spelled (encodeSegment s).toList ∧ decode (encodeSegment s).toList = Bytes.encode s) ∧
    HasRoute api (availableModelsUrl ⟨d, key, api.text⟩) ["agent", encodeSegment d, "available-models"] ∧
    HasRoute api (requestDeployUrl ⟨d, key, api.text⟩ m) ["agent", encodeSegment d, "models", encodeSegment m, "request-deploy"]

/-- **Segments cannot alter the route** just if none is one dot or two. -/
theorem segments_iff (api : ApiBase) (d key m : String) : Kept api d key m ↔ ¬IsDots d ∧ ¬IsDots m := by
  unfold Kept
  rw [available_route, deploy_route]
  refine ⟨fun h => h.2.2.2, fun h => ⟨encodeSegment_injective, fun s => ?_, h.1, h⟩⟩
  rw [toList_encodeSegment]
  exact ⟨spelled_encode _, decode_encode _⟩

/-- The control plane of the documentation. -/
def control : ApiBase where
  authority := "api.locai.co.uk".toList
  path := "/api/v1".toList
  nonempty := by decide
  authorityValid := List.all_iff_forall_prop.mp (by decide)
  pathValid := List.all_iff_forall_prop.mp (by decide)
  pathStart := by simp [isSlash]
  pathEnd := by decide

/-- A deploy of the model `..` asks for `/api/v1/agent/dev/request-deploy`. -/
theorem dots_alter : ¬∀ api d key m, Kept api d key m := by
  intro h
  obtain ⟨-, -, -, text, htext, hroute⟩ := h control "dev" "k" ".."
  have hurl : requestDeployUrl ⟨"dev", "k", control.text⟩ ".." = .ok "https://api.locai.co.uk/api/v1/agent/dev/models/../request-deploy" := by
    decide +kernel
  rw [hurl] at htext
  obtain rfl := Except.ok.inj htext
  have hpath : urlPath "https://api.locai.co.uk/api/v1/agent/dev/models/../request-deploy" =
      ["api".toList, "v1".toList, "agent".toList, "dev".toList, "request-deploy".toList] := by decide +kernel
  rw [hpath] at hroute
  revert hroute
  decide +kernel

end Catalog
end LocaiLink
