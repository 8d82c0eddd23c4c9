/-
# A click on a model

The launcher writes the id of a model into the URL of a request to the agent, as it is; its client reads the
URL, and the agent finds the id in the target of the request. `click_iff` says for which ids the agent finds the one that was
written: a mark of a question does no harm, but a slash, a hash, dots and all that a client escapes do.
-/
import LocaiLink.Launcher.Catalog
import LocaiLink.Runtime.Process

namespace LocaiLink
namespace Loopback

open Percent AgentRuntime
open Catalog (isSlash endsPath isBreak written)

/-! ### The launcher -/

def DEFAULT_MODEL_ACTION_BASE : String := "http://127.0.0.1:20505/models"
def DEFAULT_UPDATE_URL : String := "http://127.0.0.1:20505/update"
def DEFAULT_PENDING_URL : String := "http://127.0.0.1:20505/deployments/pending"

inductive ServingAction | start | stop

/-- `ServingAction::path` -/
def ServingAction.path : ServingAction → String
  | .start => "serve"
  | .stop => "stop-serving"

/-- The URL of `post_action`. -/
def postAction (baseUrl pipelineId path : String) : String := baseUrl ++ "/" ++ pipelineId ++ "/" ++ path

def toggleServing (baseUrl pipelineId : String) (action : ServingAction) : String := postAction baseUrl pipelineId action.path

def cancelDeployment (baseUrl pipelineId : String) : String := postAction baseUrl pipelineId "cancel-deploy"

def uninstallModel (baseUrl pipelineId : String) : String := postAction baseUrl pipelineId "uninstall"

/-- What a click posts to. -/
def clicked (pipelineId : String) : ModelAction → String
  | .serve => toggleServing DEFAULT_MODEL_ACTION_BASE pipelineId .start
  | .stopServing => toggleServing DEFAULT_MODEL_ACTION_BASE pipelineId .stop
  | .cancelDeploy => cancelDeployment DEFAULT_MODEL_ACTION_BASE pipelineId
  | .uninstall => uninstallModel DEFAULT_MODEL_ACTION_BASE pipelineId

/-! ### Its client -/

/-- What a reader of URLs escapes in a path and in a query. -/
structure Escapes where
  path : Char → Bool
  query : Char → Bool
  kept : ∀ c, isUnreserved c = true ∨ c = '%' ∨ c = '/' → path c = false ∧ query c = false

/-- What is escaped in both: controls, what is not ASCII, and a few signs. -/
def isEscaped (c : Char) : Bool := c.toNat < 0x20 || 0x7e < c.toNat || [' ', '"', '<', '>', '#'].contains c

theorem range_alphanum {c : Char} (h : c.isAlphanum = true) : 0x20 ≤ c.toNat ∧ c.toNat ≤ 0x7e := by
  simp only [Char.isAlphanum, Char.isDigit, Bool.or_eq_true, Bool.and_eq_true, decide_eq_true_eq] at h
  delta Char.isAlpha Char.isUpper Char.isLower at h
  simp only [Bool.or_eq_true, Bool.and_eq_true, decide_eq_true_eq] at h
  have hbetween (a b : Char) (h : c.val ≥ a.val ∧ c.val ≤ b.val) (hlow : 0x20 ≤ a.toNat) (hhigh : b.toNat ≤ 0x7e) :
      0x20 ≤ c.toNat ∧ c.toNat ≤ 0x7e :=
    ⟨Nat.le_trans hlow (UInt32.le_iff_toNat_le.mp h.1), Nat.le_trans (UInt32.le_iff_toNat_le.mp h.2) hhigh⟩
  obtain (h | h) | h := h
  · exact hbetween _ _ h (by decide) (by decide)
  · exact hbetween _ _ h (by decide) (by decide)
  · exact hbetween _ _ h (by decide) (by decide)

/-- What is never escaped is printable ASCII. -/
theorem range_kept {c : Char} (h : isUnreserved c = true ∨ c = '%' ∨ c = '/') : 0x20 ≤ c.toNat ∧ c.toNat ≤ 0x7e := by
  simp only [isUnreserved, Bool.or_eq_true, decide_eq_true_eq] at h
  obtain ((((h | rfl) | rfl) | rfl) | rfl) | rfl | rfl := h
  · exact range_alphanum h
  all_goals decide

theorem not_escaped {c : Char} (h : isUnreserved c = true ∨ c = '%' ∨ c = '/') :
    isEscaped c = false ∧ ∀ d ∈ ['?', '`', '\x7b', '\x7d', '\''], c ≠ d := by
  have hsigns : ∀ d ∈ [' ', '"', '<', '>', '#', '?', '`', '\x7b', '\x7d', '\''], c ≠ d := by
    rintro d hd rfl
    have hall : ∀ d ∈ [' ', '"', '<', '>', '#', '?', '`', '\x7b', '\x7d', '\''], isUnreserved d = false ∧ d ≠ '%' ∧ d ≠ '/' :=
      List.all_iff_forall_prop.mp (by decide)
    obtain ⟨h1, h2, h3⟩ := hall _ hd
    simp [h1, h2, h3] at h
  obtain ⟨hmin, hmax⟩ := range_kept h
  simp only [List.forall_mem_cons] at hsigns
  constructor
  · have hlow : ¬c.toNat < 0x20 := by omega
    have hhigh : ¬0x7e < c.toNat := by omega
    simp [isEscaped, hlow, hhigh, hsigns]
  · simp [hsigns]

/-- The sets of the URL standard for a path and for the query of an http URL. -/
def standard : Escapes where
  path c := isEscaped c || ['?', '`', '\x7b', '\x7d'].contains c
  query c := isEscaped c || c = '\''
  kept c h := by
    obtain ⟨hescaped, hsigns⟩ := not_escaped h
    simp only [List.forall_mem_cons] at hsigns
    simp [hescaped, hsigns]

def escapeByte (b : UInt8) : List Char := ['%', hexDigit (b.toNat / 16), hexDigit (b.toNat % 16)]

def escape (set : Char → Bool) (s : List Char) : List Char :=
  s.flatMap fun c => if set c then (Bytes.encode (String.singleton c)).flatMap escapeByte else [c]

/-- What is after the scheme and the authority of an http URL. -/
def afterAuthority (url : List Char) : List Char :=
  (((url.filter fun c => !isBreak c).drop "http://".length).dropWhile isSlash).dropWhile fun c => !(isSlash c || endsPath c)

def targetPath (p : Escapes) (rest : List Char) : List Char :=
  written (normalise [] (((rest.takeWhile fun c => !endsPath c).tail.splitOnP isSlash).map (escape p.path)))

def targetQuery (p : Escapes) (rest : List Char) : List Char :=
  match rest.dropWhile fun c => !endsPath c with
  | '?' :: query => '?' :: escape p.query (query.takeWhile (· ≠ '#'))
  | _ => []

/-- The target of a request. -/
def requestTarget (p : Escapes) (url : String) : List Char :=
  targetPath p (afterAuthority url.toList) ++ targetQuery p (afterAuthority url.toList)

/-! ### The agent -/

/-- The path of a `POST`, from its request line, which may have 65536 bytes: slashes that it begins with are one. -/
def selfPath (target : List Char) : Option (List Char) :=
  if 65536 < ("POST ".length + target.length + " HTTP/1.1\r\n".length) then none
  else some (match target with
    | '/' :: '/' :: rest => '/' :: rest.dropWhile (· = '/')
    | target => target)

/-- The end of `_MODEL_ACTION_RE`, which no line break follows in a path. -/
def actionOf (text : List Char) : Option ModelAction :=
  if text = "/serve".toList then some .serve
  else if text = "/stop-serving".toList then some .stopServing
  else if text = "/cancel-deploy".toList then some .cancelDeploy
  else if text = "/uninstall".toList then some .uninstall
  else none

/-- `_MODEL_ACTION_RE` -/
def modelActionRe (path : List Char) : Option (String × ModelAction) :=
  if "/models/".toList.isPrefixOf path then
    let rest := path.drop "/models/".length
    let pipelineId := rest.takeWhile (· ≠ '/')
    if pipelineId = [] then none
    else (actionOf (rest.dropWhile (· ≠ '/'))).map fun action => (String.ofList pipelineId, action)
  else none

/-- `do_POST` but for `/deployments/pending`; what is posted gets an id. -/
def doPost (id : String) (target : List Char) : Option Arrival := do
  let path ← selfPath target
  if path = "/update".toList then pure (.update id)
  else
    let (pipelineId, action) ← modelActionRe path
    pure (.modelAction action id pipelineId)

/-! ### Which ids arrive -/

/-- What is before the first question mark, and from it on. -/
def beforeMark (id : List Char) : List Char := id.takeWhile (· ≠ '?')

def fromMark (id : List Char) : List Char := id.dropWhile (· ≠ '?')

def actionText : ModelAction → String
  | .serve => "serve"
  | .stopServing => "stop-serving"
  | .cancelDeploy => "cancel-deploy"
  | .uninstall => "uninstall"

/-- What stands in the path of a target, and in its query. -/
def InPath (p : Escapes) (c : Char) : Prop := p.path c = false ∧ endsPath c = false ∧ c ≠ '\\' ∧ isBreak c = false

def InQuery (p : Escapes) (c : Char) : Prop := p.query c = false ∧ c ≠ '#' ∧ isBreak c = false

/-- **An id that is read as it is written.** -/
structure Routed (p : Escapes) (action : ModelAction) (id : List Char) : Prop where
  nonempty : id ≠ []
  segment : '/' ∉ id
  path : ∀ c ∈ beforeMark id, InPath p c
  query : ∀ c ∈ (fromMark id).tail, InQuery p c
  single : isSingleDot (beforeMark id) = false
  double : isDoubleDot (beforeMark id) = false
  short : id.length + (actionText action).length + 25 ≤ 65536

section Client

variable {p : Escapes} {set : Char → Bool} {s id : List Char} {action : ModelAction} {c : Char}

theorem clicked_eq (id : String) (action : ModelAction) :
    clicked id action = DEFAULT_MODEL_ACTION_BASE ++ "/" ++ id ++ "/" ++ actionText action := by
  cases action <;> rfl

/-- What follows the base of the requests on models. -/
theorem afterAuthority_base (rest : List Char) :
    afterAuthority (DEFAULT_MODEL_ACTION_BASE.toList ++ rest) = "/models".toList ++ rest.filter fun c => !isBreak c := by
  have hbase : DEFAULT_MODEL_ACTION_BASE.toList.filter (fun c => !isBreak c) = DEFAULT_MODEL_ACTION_BASE.toList := by decide +kernel
  rw [afterAuthority, List.filter_append, hbase]
  rfl

theorem mem_escapeByte {b : UInt8} (h : c ∈ escapeByte b) : isUnreserved c = true ∨ c = '%' := by
  have hall : ∀ n < 256, ['%', hexDigit (n / 16), hexDigit (n % 16)].all (fun c => isUnreserved c = true ∨ c = '%') := by
    decide +kernel
  exact List.all_iff_forall_prop.mp (hall b.toNat b.toNat_lt) c h

/-- What is escaped is of characters that are not, and of those of escapes. -/
theorem mem_escape (h : c ∈ escape set s) : c ∈ s ∧ set c = false ∨ isUnreserved c = true ∨ c = '%' := by
  obtain ⟨d, hd, hc⟩ := List.mem_flatMap.mp h
  by_cases hset : set d = true
  · rw [if_pos hset] at hc
    obtain ⟨b, -, hc⟩ := List.mem_flatMap.mp hc
    exact Or.inr (mem_escapeByte hc)
  · rw [if_neg hset, List.mem_singleton] at hc
    subst hc
    exact Or.inl ⟨hd, by simpa using hset⟩

theorem escape_eq_self (h : ∀ c ∈ s, set c = false) : escape set s = s := by
  induction s with
  | nil => rfl
  | cons a s ih =>
    obtain ⟨ha, hs⟩ := List.forall_mem_cons.mp h
    calc escape set (a :: s) = (if set a then _ else [a]) ++ escape set s := List.flatMap_cons
      _ = [a] ++ s := by rw [if_neg (by simp [ha]), ih hs]
      _ = a :: s := rfl

theorem mem_normalise {acc segments : List (List Char)} (h : s ∈ normalise acc segments) : s ∈ acc ∨ s ∈ segments ∨ s = [] := by
  induction segments generalizing acc with
  | nil => exact Or.inl (List.mem_reverse.mp h)
  | cons a segments ih =>
    cases segments with
    | nil =>
      have hlast : s ∈ walkLast acc a := List.mem_reverse.mp h
      unfold walkLast at hlast
      split_ifs at hlast
      · obtain rfl | hlast := List.mem_cons.mp hlast
        · exact Or.inr (Or.inr rfl)
        · exact Or.inl (List.mem_of_mem_tail hlast)
      · obtain rfl | hlast := List.mem_cons.mp hlast
        · exact Or.inr (Or.inr rfl)
        · exact Or.inl hlast
      · obtain rfl | hlast := List.mem_cons.mp hlast
        · exact Or.inr (Or.inl List.mem_cons_self)
        · exact Or.inl hlast
    | cons b segments =>
      obtain hwalk | hrest := ih h
      · unfold walk at hwalk
        split_ifs at hwalk
        · exact Or.inl (List.mem_of_mem_tail hwalk)
        · exact Or.inl hwalk
        · obtain rfl | hwalk := List.mem_cons.mp hwalk
          · exact Or.inr (Or.inl List.mem_cons_self)
          · exact Or.inl hwalk
      · exact Or.inr (hrest.imp_left (List.mem_cons_of_mem _))

theorem mem_splitOnP {q : Char → Bool} {l : List Char} (hs : s ∈ l.splitOnP q) (hc : c ∈ s) : c ∈ l ∧ q c = false := by
  induction l generalizing s with
  | nil =>
    rw [List.splitOnP_nil, List.mem_singleton] at hs
    rw [hs] at hc
    cases hc
  | cons a l ih =>
    rw [List.splitOnP_cons_eq_if_modifyHead] at hs
    split_ifs at hs with hq
    · obtain rfl | hs := List.mem_cons.mp hs
      · cases hc
      · exact ⟨List.mem_cons_of_mem _ (ih hs hc).1, (ih hs hc).2⟩
    · obtain ⟨first, rest, hfirst⟩ := List.exists_cons_of_ne_nil (List.splitOnP_ne_nil q l)
      rw [hfirst, List.modifyHead_cons] at hs
      obtain rfl | hs := List.mem_cons.mp hs
      · obtain rfl | hc := List.mem_cons.mp hc
        · exact ⟨List.mem_cons_self, by simpa using hq⟩
        · have hmem := ih (hfirst ▸ List.mem_cons_self) hc
          exact ⟨List.mem_cons_of_mem _ hmem.1, hmem.2⟩
      · have hmem := ih (hfirst ▸ List.mem_cons_of_mem _ hs) hc
        exact ⟨List.mem_cons_of_mem _ hmem.1, hmem.2⟩

/-- Characters that are never escaped do no harm. -/
theorem inPath_kept (p : Escapes) (h : isUnreserved c = true ∨ c = '%' ∨ c = '/') : InPath p c := by
  have hnot : ∀ d ∈ ['\\', '?', '#', '\t', '\n', '\r'], c ≠ d := by
    rintro d hd rfl
    have hall : ∀ d ∈ ['\\', '?', '#', '\t', '\n', '\r'], isUnreserved d = false ∧ d ≠ '%' ∧ d ≠ '/' := List.all_iff_forall_prop.mp (by decide)
    obtain ⟨h1, h2, h3⟩ := hall _ hd
    rw [h1] at h
    simp [h2, h3] at h
  simp only [List.forall_mem_cons] at hnot
  refine ⟨(p.kept c h).1, ?_, hnot.1, ?_⟩
  · simp [endsPath, hnot.2.1, hnot.2.2.1]
  · simp [isBreak, hnot.2.2.2.1, hnot.2.2.2.2.1, hnot.2.2.2.2.2.1]

theorem inQuery_kept (p : Escapes) (h : isUnreserved c = true ∨ c = '%' ∨ c = '/') : InQuery p c := by
  obtain ⟨-, hends, -, hbreak⟩ := inPath_kept p h
  refine ⟨(p.kept c h).2, ?_, hbreak⟩
  rintro rfl
  cases hends

theorem not_break_afterAuthority {url : List Char} (h : c ∈ afterAuthority url) : isBreak c = false := by
  have hfilter : c ∈ url.filter fun c => !isBreak c :=
    List.mem_of_mem_drop ((List.dropWhile_suffix _).mem ((List.dropWhile_suffix _).mem h))
  simpa using (List.mem_filter.mp hfilter).2

/-- The path of a target. -/
theorem inPath_targetPath {url : List Char} (h : c ∈ targetPath p (afterAuthority url)) : InPath p c := by
  obtain ⟨s, hs, hc⟩ := List.mem_flatMap.mp h
  obtain rfl | hc := List.mem_cons.mp hc
  · exact inPath_kept p (Or.inr (Or.inr rfl))
  obtain hs | hs | rfl := mem_normalise hs
  · cases hs
  · obtain ⟨t, ht, rfl⟩ := List.mem_map.mp hs
    obtain ⟨hc, hset⟩ | hc := mem_escape hc
    · obtain ⟨hmem, hslash⟩ := mem_splitOnP ht hc
      have hmem := List.mem_of_mem_tail hmem
      have hends := List.mem_takeWhile_imp hmem
      refine ⟨hset, by simpa using hends, ?_, not_break_afterAuthority ((List.takeWhile_prefix _).subset hmem)⟩
      rintro rfl
      cases hslash
    · exact inPath_kept p (hc.imp_right Or.inl)
  · cases hc

/-- Its query. -/
theorem inQuery_targetQuery (p : Escapes) (url : List Char) :
    targetQuery p (afterAuthority url) = [] ∨
      ∃ query, targetQuery p (afterAuthority url) = '?' :: query ∧ ∀ c ∈ query, InQuery p c := by
  unfold targetQuery
  split
  next query hrest =>
    right
    refine ⟨_, rfl, ?_⟩
    intro c hc
    obtain ⟨hc, hset⟩ | hc := mem_escape hc
    · have hhash := List.mem_takeWhile_imp hc
      have hmem : c ∈ afterAuthority url := (List.dropWhile_suffix _).mem (hrest ▸ List.mem_cons_of_mem _ ((List.takeWhile_prefix _).subset hc))
      exact ⟨hset, by simpa using hhash, not_break_afterAuthority hmem⟩
    · exact inQuery_kept p (hc.imp_right Or.inl)
  next => exact Or.inl rfl

/-- An id with no question mark, or with a first one. -/
theorem mark_cases (id : List Char) :
    '?' ∉ id ∧ beforeMark id = id ∧ fromMark id = [] ∨
      ∃ b q, id = b ++ '?' :: q ∧ '?' ∉ b ∧ beforeMark id = b ∧ fromMark id = '?' :: q := by
  have hsplit : beforeMark id ++ fromMark id = id := List.takeWhile_append_dropWhile
  have hbefore : '?' ∉ beforeMark id := fun hmem => by simpa using List.mem_takeWhile_imp hmem
  match hfrom : fromMark id with
  | [] =>
    rw [hfrom, List.append_nil] at hsplit
    exact Or.inl ⟨hsplit ▸ hbefore, hsplit, rfl⟩
  | c :: q =>
    have hne : fromMark id ≠ [] := by simp [hfrom]
    have hhead : decide ((fromMark id).head hne ≠ '?') = false := List.head_dropWhile_not (· ≠ '?') hne
    obtain rfl : c = '?' := by simpa [hfrom] using hhead
    rw [hfrom] at hsplit
    exact Or.inr ⟨beforeMark id, q, hsplit.symm, hbefore, rfl, rfl⟩

theorem all_ne {b : List Char} {d : Char} (h : d ∉ b) : ∀ c ∈ b, decide (c ≠ d) = true := by
  intro c hc
  rw [decide_eq_true_eq]
  rintro rfl
  exact h hc

theorem beforeMark_append {b q : List Char} (h : '?' ∉ b) : beforeMark (b ++ '?' :: q) = b := by
  rw [beforeMark, List.takeWhile_append_of_pos (all_ne h), List.takeWhile_cons_of_neg (by simp), List.append_nil]

theorem fromMark_append {b q : List Char} (h : '?' ∉ b) : fromMark (b ++ '?' :: q) = '?' :: q := by
  rw [fromMark, List.dropWhile_append_of_pos (all_ne h), List.dropWhile_cons_of_neg (by simp)]

theorem beforeMark_self {b : List Char} (h : '?' ∉ b) : beforeMark b = b :=
  List.takeWhile_eq_self_iff.mpr (all_ne h)

theorem fromMark_self {b : List Char} (h : '?' ∉ b) : fromMark b = [] :=
  List.dropWhile_eq_nil_iff.mpr (all_ne h)

end Client

section Agent

variable {p : Escapes} {id target path : List Char} {action : ModelAction} {c : Char}

theorem actionOf_iff (text : List Char) : actionOf text = some action ↔ text = '/' :: (actionText action).toList := by
  unfold actionOf
  constructor
  · intro h
    split_ifs at h with h1 h2 h3 h4
    all_goals
      obtain rfl := Option.some.inj h
      assumption
  · rintro rfl
    cases action <;> rfl

theorem unreserved_actionText (action : ModelAction) : ∀ c ∈ (actionText action).toList, isUnreserved c = true := by
  apply List.all_eq_true.mp
  cases action <;> decide

/-- **The agent's pattern** takes a segment that is not empty. -/
theorem modelActionRe_iff : modelActionRe path = some (String.ofList id, action) ↔
    id ≠ [] ∧ '/' ∉ id ∧ path = "/models/".toList ++ id ++ '/' :: (actionText action).toList := by
  unfold modelActionRe
  constructor
  · intro h
    dsimp only at h
    split_ifs at h with hprefix hempty
    obtain ⟨a, ha, hpair⟩ := Option.map_eq_some_iff.mp h
    obtain ⟨hid, rfl⟩ := Prod.mk.inj hpair
    rw [String.ofList_inj] at hid
    obtain ⟨rest, rfl⟩ := List.isPrefixOf_iff_prefix.mp hprefix
    have hrest : ("/models/".toList ++ rest).drop "/models/".length = rest := rfl
    rw [hrest] at hid hempty ha
    refine ⟨hid ▸ hempty, ?_, ?_⟩
    · intro hmem
      rw [← hid] at hmem
      simpa using List.mem_takeWhile_imp hmem
    · rw [List.append_assoc, ← (actionOf_iff _).mp ha, ← hid, List.takeWhile_append_dropWhile]
  · rintro ⟨hne, hslash, rfl⟩
    have hprefix : "/models/".toList.isPrefixOf ("/models/".toList ++ id ++ '/' :: (actionText action).toList) = true :=
      List.isPrefixOf_iff_prefix.mpr ⟨_, (List.append_assoc ..).symm⟩
    have hdrop : ("/models/".toList ++ id ++ '/' :: (actionText action).toList).drop "/models/".length =
        id ++ '/' :: (actionText action).toList := by
      rw [List.append_assoc]
      rfl
    have htake : (id ++ '/' :: (actionText action).toList).takeWhile (· ≠ '/') = id := by
      rw [List.takeWhile_append_of_pos (all_ne hslash), List.takeWhile_cons_of_neg (by simp), List.append_nil]
    have hend : (id ++ '/' :: (actionText action).toList).dropWhile (· ≠ '/') = '/' :: (actionText action).toList := by
      rw [List.dropWhile_append_of_pos (all_ne hslash), List.dropWhile_cons_of_neg (by simp)]
    simp only [if_pos hprefix, hdrop, htake, hend, if_neg hne, (actionOf_iff _).mpr rfl, Option.map_some]

/-- What the agent reads of a target is the target but for slashes at its start. -/
theorem selfPath_some (h : selfPath target = some path) :
    path.length ≤ target.length ∧ 16 + target.length ≤ 65536 ∧ (∀ c ∈ beforeMark path, c ∈ beforeMark target) ∧
      fromMark path = fromMark target := by
  unfold selfPath at h
  split_ifs at h with hlong
  have hshort : 16 + target.length ≤ 65536 := by
    have : "POST ".length + target.length + " HTTP/1.1\r\n".length = 16 + target.length := by
      show 5 + target.length + 11 = _
      omega
    omega
  have hpath := Option.some.inj h
  split at hpath
  next rest =>
    subst hpath
    have hmark (l : List Char) : (∀ c ∈ beforeMark (l.dropWhile (· = '/')), c ∈ beforeMark l) ∧
        fromMark (l.dropWhile (· = '/')) = fromMark l := by
      induction l with
      | nil => exact ⟨fun c hc => hc, rfl⟩
      | cons a l ih =>
        by_cases ha : a = '/'
        · subst ha
          rw [List.dropWhile_cons_of_pos (by simp)]
          refine ⟨fun c hc => ?_, ih.2.trans (List.dropWhile_cons_of_pos (by simp)).symm⟩
          show c ∈ List.takeWhile _ _
          rw [List.takeWhile_cons_of_pos (by simp)]
          exact List.mem_cons_of_mem _ (ih.1 c hc)
        · rw [List.dropWhile_cons_of_neg (by simpa using ha)]
          exact ⟨fun c hc => hc, rfl⟩
    have hcons (l : List Char) : beforeMark ('/' :: l) = '/' :: beforeMark l := List.takeWhile_cons_of_pos (by simp)
    have hfrom (l : List Char) : fromMark ('/' :: l) = fromMark l := List.dropWhile_cons_of_pos (by simp)
    refine ⟨?_, hshort, ?_, ?_⟩
    · have hle := (List.dropWhile_suffix (l := rest) (· = '/')).length_le
      simp only [List.length_cons]
      omega
    · intro c hc
      rw [hcons] at hc ⊢
      obtain rfl | hc := List.mem_cons.mp hc
      · exact List.mem_cons_self
      · rw [hcons]
        exact List.mem_cons_of_mem _ (List.mem_cons_of_mem _ ((hmark rest).1 c hc))
    · rw [hfrom, hfrom, hfrom, (hmark rest).2]
  next =>
    subst hpath
    exact ⟨Nat.le_refl _, hshort, fun c hc => hc, rfl⟩

end Agent

/-! ### Where a click arrives -/

section Click

variable {p : Escapes} {id : List Char} {action : ModelAction} {c : Char}

/-- A character that may stand in a path and is no slash. -/
theorem InPath.plain (h : InPath p c) (hslash : c ≠ '/') : isSlash c = false ∧ endsPath c = false ∧ isBreak c = false := by
  refine ⟨?_, h.2.1, h.2.2.2⟩
  simp [isSlash, hslash, h.2.2.1]

theorem inPath_actionText (p : Escapes) (action : ModelAction) : ∀ c ∈ (actionText action).toList, InPath p c ∧ c ≠ '/' := by
  intro c hc
  have hun := unreserved_actionText action c hc
  refine ⟨inPath_kept p (Or.inl hun), ?_⟩
  rintro rfl
  cases hun

theorem inPath_models (p : Escapes) : ∀ c ∈ "models".toList, InPath p c ∧ c ≠ '/' := by
  intro c hc
  have hall : ∀ c ∈ "models".toList, isUnreserved c = true ∧ c ≠ '/' := List.all_iff_forall_prop.mp (by decide)
  exact ⟨inPath_kept p (Or.inl (hall c hc).1), (hall c hc).2⟩

/-- The path of a request on models, of segments that are read as they are written. -/
theorem targetPath_written {segments : List (List Char)} {query : List Char}
    (h : ∀ s ∈ segments, ∀ c ∈ s, InPath p c ∧ c ≠ '/') (hquery : ∀ c ∈ query.head?, c = '?') :
    targetPath p ("/models".toList ++ written segments ++ query) = written (normalise [] ("models".toList :: segments)) := by
  have hall : ∀ s ∈ "models".toList :: segments, ∀ c ∈ s, InPath p c ∧ c ≠ '/' :=
    List.forall_mem_cons.mpr ⟨inPath_models p, h⟩
  have hpath : ("/models".toList ++ written segments ++ query).takeWhile (fun c => !endsPath c) =
      "/models".toList ++ written segments := by
    have hkeep : ∀ c ∈ "/models".toList ++ written segments, (!endsPath c) = true := by
      intro c hc
      obtain hc | hc := List.mem_append.mp hc
      · have hmodels : ∀ c ∈ "/models".toList, (!endsPath c) = true := List.all_eq_true.mp (by decide)
        exact hmodels c hc
      · obtain ⟨s, hs, hc⟩ := List.mem_flatMap.mp hc
        obtain rfl | hc := List.mem_cons.mp hc
        · rfl
        · rw [(h s hs c hc).1.2.1]
          rfl
    have hstop : query.takeWhile (fun c => !endsPath c) = [] := by
      cases query with
      | nil => rfl
      | cons a query =>
        obtain rfl : a = '?' := hquery a rfl
        rfl
    rw [List.takeWhile_append_of_pos hkeep, hstop, List.append_nil]
  have hsplit : ("models".toList ++ written segments).splitOnP isSlash = "models".toList :: segments := by
    apply Catalog.splitOnP_written
    intro s hs c hc
    exact (hall s hs c hc).1.plain (hall s hs c hc).2
  have hescape : ("models".toList :: segments).map (escape p.path) = "models".toList :: segments := by
    calc ("models".toList :: segments).map (escape p.path)
        = ("models".toList :: segments).map id := List.map_congr_left fun s hs => escape_eq_self fun c hc => (hall s hs c hc).1.1
      _ = "models".toList :: segments := List.map_id _
  rw [targetPath, hpath]
  show written (normalise [] ((("models".toList ++ written segments).splitOnP isSlash).map (escape p.path))) = _
  rw [hsplit, hescape]

/-- What follows the base of a click. -/
theorem afterAuthority_clicked (id : List Char) (action : ModelAction) :
    afterAuthority (clicked (String.ofList id) action).toList =
      "/models".toList ++ (('/' :: id ++ '/' :: (actionText action).toList).filter fun c => !isBreak c) := by
  rw [clicked_eq, ← afterAuthority_base]
  congr 1
  simp

/-- Nothing is dropped of a click. -/
theorem afterAuthority_clean (hid : ∀ c ∈ id, isBreak c = false) :
    afterAuthority (clicked (String.ofList id) action).toList = "/models".toList ++ ('/' :: id ++ '/' :: (actionText action).toList) := by
  rw [afterAuthority_clicked, List.filter_eq_self.mpr]
  intro c hc
  obtain hc | hc := List.mem_append.mp hc
  · obtain rfl | hc := List.mem_cons.mp hc
    · rfl
    · rw [hid c hc]
      rfl
  · obtain rfl | hc := List.mem_cons.mp hc
    · rfl
    · have hplain : ∀ c ∈ (actionText action).toList, (!isBreak c) = true := by
        apply List.all_eq_true.mp
        cases action <;> decide
      exact hplain c hc

/-- The target of a click on an id with no question mark. -/
theorem requestTarget_path (h : ∀ c ∈ id, InPath p c ∧ c ≠ '/') :
    requestTarget p (clicked (String.ofList id) action) =
      written (normalise [] ["models".toList, id, (actionText action).toList]) := by
  have hafter : afterAuthority (clicked (String.ofList id) action).toList =
      "/models".toList ++ written [id, (actionText action).toList] ++ [] := by
    rw [afterAuthority_clean fun c hc => (h c hc).1.2.2.2]
    simp [written]
  have hsegments : ∀ s ∈ [id, (actionText action).toList], ∀ c ∈ s, InPath p c ∧ c ≠ '/' := by
    simp only [List.forall_mem_cons]
    exact ⟨h, inPath_actionText p action, by simp⟩
  have hquery : targetQuery p ("/models".toList ++ written [id, (actionText action).toList] ++ []) = [] := by
    have hdrop : ("/models".toList ++ written [id, (actionText action).toList] ++ []).dropWhile (fun c => !endsPath c) = [] := by
      rw [List.dropWhile_eq_nil_iff, List.append_nil]
      intro c hc
      obtain hc | hc := List.mem_append.mp hc
      · have hmodels : ∀ c ∈ "/models".toList, (!endsPath c) = true := List.all_eq_true.mp (by decide)
        exact hmodels c hc
      · obtain ⟨s, hs, hc⟩ := List.mem_flatMap.mp hc
        obtain rfl | hc := List.mem_cons.mp hc
        · rfl
        · rw [(hsegments s hs c hc).1.2.1]
          rfl
    rw [targetQuery, hdrop]
  rw [requestTarget, hafter, hquery, targetPath_written hsegments (by simp), List.append_nil]

/-- The target of a click on an id with one. -/
theorem requestTarget_query {b q : List Char} (hb : ∀ c ∈ b, InPath p c ∧ c ≠ '/') (hq : ∀ c ∈ q, InQuery p c) :
    requestTarget p (clicked (String.ofList (b ++ '?' :: q)) action) =
      written (normalise [] ["models".toList, b]) ++ '?' :: (q ++ '/' :: (actionText action).toList) := by
  have hclean : ∀ c ∈ b ++ '?' :: q, isBreak c = false := by
    intro c hc
    obtain hc | hc := List.mem_append.mp hc
    · exact (hb c hc).1.2.2.2
    · obtain rfl | hc := List.mem_cons.mp hc
      · rfl
      · exact (hq c hc).2.2
  have hafter : afterAuthority (clicked (String.ofList (b ++ '?' :: q)) action).toList =
      "/models".toList ++ written [b] ++ '?' :: (q ++ '/' :: (actionText action).toList) := by
    rw [afterAuthority_clean hclean]
    simp [written]
  have hsegments : ∀ s ∈ [b], ∀ c ∈ s, InPath p c ∧ c ≠ '/' := by
    simp only [List.forall_mem_cons]
    exact ⟨hb, by simp⟩
  have hall : ∀ c ∈ q ++ '/' :: (actionText action).toList, InQuery p c := by
    intro c hc
    obtain hc | hc := List.mem_append.mp hc
    · exact hq c hc
    · obtain rfl | hc := List.mem_cons.mp hc
      · exact inQuery_kept p (Or.inr (Or.inr rfl))
      · exact inQuery_kept p (Or.inl (unreserved_actionText action c hc))
  have hquery : targetQuery p ("/models".toList ++ written [b] ++ '?' :: (q ++ '/' :: (actionText action).toList)) =
      '?' :: (q ++ '/' :: (actionText action).toList) := by
    have hdrop : ("/models".toList ++ written [b] ++ '?' :: (q ++ '/' :: (actionText action).toList)).dropWhile
        (fun c => !endsPath c) = '?' :: (q ++ '/' :: (actionText action).toList) := by
      rw [List.dropWhile_append_of_pos, List.dropWhile_cons_of_neg (by decide)]
      intro c hc
      obtain hc | hc := List.mem_append.mp hc
      · have hmodels : ∀ c ∈ "/models".toList, (!endsPath c) = true := List.all_eq_true.mp (by decide)
        exact hmodels c hc
      · obtain ⟨s, hs, hc⟩ := List.mem_flatMap.mp hc
        obtain rfl | hc := List.mem_cons.mp hc
        · rfl
        · rw [(hsegments s hs c hc).1.2.1]
          rfl
    have htake : (q ++ '/' :: (actionText action).toList).takeWhile (· ≠ '#') = q ++ '/' :: (actionText action).toList :=
      List.takeWhile_eq_self_iff.mpr fun c hc => by simpa using (hall c hc).2.1
    simp only [targetQuery, hdrop, htake, escape_eq_self fun c hc => (hall c hc).1]
  rw [requestTarget, hafter, hquery, targetPath_written hsegments (by simp)]

/-- A click arrives where the agent reads the id in the path. -/
theorem doPost_iff (nonce : String) (target : List Char) : doPost nonce target = some (.modelAction action nonce (String.ofList id)) ↔
    id ≠ [] ∧ '/' ∉ id ∧ selfPath target = some ("/models/".toList ++ id ++ '/' :: (actionText action).toList) := by
  unfold doPost
  constructor
  · intro h
    obtain ⟨path, hpath, h⟩ := Option.bind_eq_some_iff.mp h
    split_ifs at h with hupdate
    · cases h
    · obtain ⟨⟨pid, a⟩, hre, h⟩ := Option.bind_eq_some_iff.mp h
      cases h
      obtain ⟨hne, hslash, rfl⟩ := modelActionRe_iff.mp hre
      exact ⟨hne, hslash, hpath⟩
  · rintro ⟨hne, hslash, hpath⟩
    have hupdate : "/models/".toList ++ id ++ '/' :: (actionText action).toList ≠ "/update".toList := by
      intro h
      have hhead := congrArg (List.take 2) h
      simp at hhead
    simp only [hpath, Option.bind_eq_bind, Option.bind_some, if_neg hupdate, modelActionRe_iff.mpr ⟨hne, hslash, rfl⟩]
    rfl

/-- What the agent has read as its path has the characters of the target's path and query. -/
theorem routed_of_read {url : String}
    (h : selfPath (requestTarget p url) = some ("/models/".toList ++ id ++ '/' :: (actionText action).toList)) :
    (∀ c ∈ beforeMark id, InPath p c) ∧ ∀ c ∈ (fromMark id).tail, InQuery p c := by
  obtain ⟨-, -, hbefore, hfrom⟩ := selfPath_some h
  have hpath : ∀ c ∈ targetPath p (afterAuthority url.toList), InPath p c := fun c hc => inPath_targetPath hc
  have hmark : '?' ∉ targetPath p (afterAuthority url.toList) := fun hmem => by
    have := (hpath _ hmem).2.1
    cases this
  have htarget : beforeMark (requestTarget p url) = targetPath p (afterAuthority url.toList) ∧
      fromMark (requestTarget p url) = targetQuery p (afterAuthority url.toList) := by
    unfold requestTarget
    obtain hquery | ⟨query, hquery, -⟩ := inQuery_targetQuery p url.toList
    · rw [hquery, List.append_nil]
      exact ⟨beforeMark_self hmark, fromMark_self hmark⟩
    · rw [hquery]
      exact ⟨beforeMark_append hmark, fromMark_append hmark⟩
  rw [htarget.1] at hbefore
  rw [htarget.2] at hfrom
  have hmodels : '?' ∉ "/models/".toList := by decide
  obtain ⟨hnone, hb, hf⟩ | ⟨b, q, rfl, hnone, hb, hf⟩ := mark_cases id
  · rw [hb, hf]
    have haction : '?' ∉ '/' :: (actionText action).toList := by cases action <;> decide
    have hwhole : '?' ∉ "/models/".toList ++ id ++ '/' :: (actionText action).toList := by
      simp only [List.mem_append, not_or]
      exact ⟨⟨hmodels, hnone⟩, haction⟩
    rw [beforeMark_self hwhole] at hbefore
    refine ⟨fun c hc => hpath c (hbefore c ?_), by simp⟩
    exact List.mem_append_left _ (List.mem_append_right _ hc)
  · rw [hb, hf]
    have hprefix : '?' ∉ "/models/".toList ++ b := by
      simp only [List.mem_append, not_or]
      exact ⟨hmodels, hnone⟩
    have hwhole : "/models/".toList ++ (b ++ '?' :: q) ++ '/' :: (actionText action).toList =
        ("/models/".toList ++ b) ++ '?' :: (q ++ '/' :: (actionText action).toList) := by simp
    rw [hwhole, beforeMark_append hprefix] at hbefore
    rw [hwhole, fromMark_append hprefix] at hfrom
    refine ⟨fun c hc => hpath c (hbefore c (List.mem_append_right _ hc)), fun c hc => ?_⟩
    obtain hquery | ⟨query, hquery, hall⟩ := inQuery_targetQuery p url.toList
    · rw [hquery] at hfrom
      cases hfrom
    · rw [hquery] at hfrom
      obtain ⟨-, rfl⟩ := List.cons.inj hfrom
      exact hall c (List.mem_append_left _ hc)

theorem dots_ne_nil {s : List Char} (h : isSingleDot s = true ∨ isDoubleDot s = true) : 1 ≤ s.length := by
  cases s with
  | nil => simp [isSingleDot, isDoubleDot] at h
  | cons a s => simp

theorem length_written (segments : List (List Char)) : (written segments).length = (segments.map fun s => s.length + 1).sum := by
  induction segments with
  | nil => rfl
  | cons a segments ih =>
    calc (written (a :: segments)).length = ('/' :: a ++ written segments).length := rfl
      _ = a.length + 1 + (written segments).length := by rw [List.length_append, List.length_cons]
      _ = _ := by rw [ih, List.map_cons, List.sum_cons]

/-- Dots take a segment off the target, and more of it than the id has. -/
theorem length_dots_path (hdots : isSingleDot id = true ∨ isDoubleDot id = true) :
    (written (normalise [] ["models".toList, id, (actionText action).toList])).length < 9 + id.length + (actionText action).toList.length := by
  have hone := dots_ne_nil hdots
  have hact : isSingleDot (actionText action).toList = false ∧ isDoubleDot (actionText action).toList = false := by
    cases action <;> decide
  have hmodels : walk [] "models".toList = ["models".toList] := by decide
  unfold normalise
  rw [hmodels]
  unfold normalise
  have hwalk : (walk ["models".toList] id) = ["models".toList] ∨ walk ["models".toList] id = [] := by
    unfold walk
    split_ifs with hdouble hsingle
    · exact Or.inr rfl
    · exact Or.inl rfl
    · simp_all
  obtain hwalk | hwalk := hwalk
  all_goals
    rw [hwalk, normalise, walkLast_plain hact.1 hact.2, length_written]
    simp
    omega

theorem length_dots_query (hdots : isSingleDot id = true ∨ isDoubleDot id = true) :
    (written (normalise [] ["models".toList, id])).length < 8 + id.length := by
  have hone := dots_ne_nil hdots
  have hmodels : walk [] "models".toList = ["models".toList] := by decide
  unfold normalise
  rw [hmodels]
  unfold normalise walkLast
  split_ifs with hdouble hsingle
  · rw [length_written]
    simp
    omega
  · rw [length_written]
    simp
    omega
  · simp_all

/-- A target that is the path of a click is read as it is. -/
theorem selfPath_models (hshort : id.length + (actionText action).length + 25 ≤ 65536) :
    selfPath ("/models/".toList ++ id ++ '/' :: (actionText action).toList) =
      some ("/models/".toList ++ id ++ '/' :: (actionText action).toList) := by
  have hlength : ¬65536 < "POST ".length + ("/models/".toList ++ id ++ '/' :: (actionText action).toList).length + " HTTP/1.1\r\n".length := by
    have h8 : "/models/".toList.length = 8 := by decide
    have h5 : "POST ".length = 5 := by decide
    have h11 : " HTTP/1.1\r\n".length = 11 := by decide
    have hact : (actionText action).toList.length = (actionText action).length := String.length_toList
    rw [List.length_append, List.length_append, List.length_cons, hact, h8, h5, h11]
    omega
  unfold selfPath
  rw [if_neg hlength]
  rfl

/-- Where a click arrives, its id is read as it is written. -/
theorem routed_of_arrives {nonce : String} (h : doPost nonce (requestTarget p (clicked (String.ofList id) action)) =
    some (.modelAction action nonce (String.ofList id))) : Routed p action id := by
  obtain ⟨hne, hslash, hread⟩ := (doPost_iff nonce _).mp h
  obtain ⟨hbefore, hafter⟩ := routed_of_read hread
  obtain ⟨hlength, hshort, -, -⟩ := selfPath_some hread
  have hwhole : ("/models/".toList ++ id ++ '/' :: (actionText action).toList).length = 9 + id.length + (actionText action).toList.length := by
    have h8 : "/models/".toList.length = 8 := by decide
    rw [List.length_append, List.length_append, List.length_cons, h8]
    omega
  rw [hwhole] at hlength
  have hdots : ¬(isSingleDot (beforeMark id) = true ∨ isDoubleDot (beforeMark id) = true) := by
    intro hdots
    obtain ⟨-, hb, -⟩ | ⟨b, q, rfl, -, hb, hf⟩ := mark_cases id
    · rw [hb] at hbefore hdots
      rw [requestTarget_path fun c hc => ⟨hbefore c hc, fun heq => hslash (heq ▸ hc)⟩] at hlength
      exact absurd hlength (Nat.not_le_of_lt (length_dots_path hdots))
    · rw [hb] at hbefore hdots
      rw [hf, List.tail_cons] at hafter
      rw [requestTarget_query (fun c hc => ⟨hbefore c hc, fun heq => hslash (heq ▸ List.mem_append_left _ hc)⟩) hafter] at hlength
      have hdotted := length_dots_query hdots
      simp only [List.length_append, List.length_cons] at hlength
      omega
  rw [not_or, Bool.not_eq_true, Bool.not_eq_true] at hdots
  refine ⟨hne, hslash, hbefore, hafter, hdots.1, hdots.2, ?_⟩
  have hact : (actionText action).toList.length = (actionText action).length := String.length_toList
  omega

/-- An id that is read as it is written makes the target that the agent looks for. -/
theorem Routed.target (h : Routed p action id) :
    requestTarget p (clicked (String.ofList id) action) = "/models/".toList ++ id ++ '/' :: (actionText action).toList := by
  have hmodels : isSingleDot "models".toList = false ∧ isDoubleDot "models".toList = false := by decide
  have haction : isSingleDot (actionText action).toList = false ∧ isDoubleDot (actionText action).toList = false := by
    cases action <;> decide
  obtain ⟨-, hslash, hbefore, hafter, hsingle, hdouble, -⟩ := h
  obtain ⟨-, hb, -⟩ | ⟨b, q, rfl, -, hb, hf⟩ := mark_cases id
  · rw [hb] at hbefore hsingle hdouble
    rw [requestTarget_path fun c hc => ⟨hbefore c hc, fun heq => hslash (heq ▸ hc)⟩, normalise, walk_plain hmodels.1 hmodels.2,
      normalise, walk_plain hsingle hdouble, normalise, walkLast_plain haction.1 haction.2]
    simp [written]
  · rw [hb] at hbefore hsingle hdouble
    rw [hf, List.tail_cons] at hafter
    rw [requestTarget_query (fun c hc => ⟨hbefore c hc, fun heq => hslash (heq ▸ List.mem_append_left _ hc)⟩) hafter, normalise,
      walk_plain hmodels.1 hmodels.2, normalise, walkLast_plain hsingle hdouble]
    simp [written]

/-- **A click on a model arrives** as the same action on the same id exactly where its id is read as it is written: it is
not empty and no segment of dots, it has no slash, its part before a first question mark has nothing that is escaped in
a path, and the rest nothing that is escaped in a query; and the line of the request is not too long. -/
theorem click_iff (p : Escapes) (nonce id : String) (action : ModelAction) :
    doPost nonce (requestTarget p (clicked id action)) = some (.modelAction action nonce id) ↔ Routed p action id.toList := by
  obtain ⟨l, rfl⟩ : ∃ l, id = String.ofList l := ⟨id.toList, String.ofList_toList.symm⟩
  have hlist : (String.ofList l).toList = l := String.toList_ofList
  rw [hlist]
  constructor
  · exact routed_of_arrives
  · intro h
    rw [doPost_iff, h.target]
    exact ⟨h.nonempty, h.segment, selfPath_models h.short⟩

/-- A hash ends the path: a click to serve asks for another model to be removed. -/
example : doPost "n" (requestTarget standard (clicked "other/uninstall#" .serve)) = some (.modelAction .uninstall "n" "other") := by
  rfl

end Click

end Loopback
end LocaiLink
