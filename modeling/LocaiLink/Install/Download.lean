/-
# A download that is resumed

`download` streams a resource to a `.partial` file beside its destination and renames that at
the end. Where the partial file has something, only the rest is asked for. `Net` is a disk
that does what it is told and a server of one resource, which honours ranges or ignores them;
connections break as `attempts` says.

What is resumed may be of an earlier release, or complete already. So the file is the
resource, and is there after an attempt without a fault, just where the server ignores
ranges, or the partial file is a part of the resource that is still to be finished at that
attempt (`download_exact_iff`).
-/
import LocaiLink.Install.Readers

namespace LocaiLink
namespace Install

open Prog World

/-! ### The code -/

/-- `dest.with_suffix(dest.suffix + ".partial")` -/
def partialOf (dest : Place) : Place := dest.dropLast ++ [dest.getLast?.getD "" ++ ".partial"]

/-- The size of a file, none where there is no file. -/
def sizeOf (p : Place) (t : Fs Bytes) : ℕ := if t.isFile p then ((t.data p).getD []).length else 0

/-- The chunks of a body, where empty ones are passed over. -/
def writeChunks (p : Place) : List Bytes → Raising Unit
  | [] => pure ()
  | chunk :: chunks => do
    if chunk ≠ [] then attempt (act (.append p chunk))
    writeChunks p chunks

/-- The body of a reply goes to the partial file, and that takes the place of the file. -/
def receive (dest : Place) (r : Reply) : Raising Unit := do
  writeChunks (partialOf dest) r.chunks
  attempt (pure (r.error.elim (.ok ()) .error))
  attempt (act (.rename (partialOf dest) dest))

/-- One attempt of `download`. -/
def downloadOnce (url : String) (dest : Place) : Raising Unit := do
  let existing := sizeOf (partialOf dest) (← look)
  let r ← attempt (act (.stream url existing))
  if r.status ≠ 200 ∧ r.status ≠ 206 then throw ⟨.downloadFailed, s!"HTTP {r.status} fetching {url}"⟩
  let _ ← attempt (pure r.length)
  if ¬(r.status = 206 ∧ existing ≠ 0) then attempt (act (.write (partialOf dest) []))
  receive dest r

/-- The message of the last attempt, as it is printed where there was none. -/
def lastMessage (last : Option Error) : String :=
  (last.map Error.message).getD "None"

/-- The attempts that are left, after one that failed. -/
def downloadLoop (url : String) (dest : Place) (maxRetries : ℕ) : ℕ → Option Error → Raising Place
  | 0, last => throw ⟨.downloadFailed, s!"Giving up after {maxRetries} attempts on {url}: {lastMessage last}"⟩
  | n + 1, _ => do
    match ← ExceptT.lift (downloadOnce url dest).run with
    | .ok () => pure dest
    | .error e =>
      if e.kind = .request ∨ e.kind = .downloadFailed then downloadLoop url dest maxRetries n (some e) else throw e

/-- `download` -/
def download (url : String) (dest : Place) (maxRetries : ℕ) : Raising Place := do
  attempt (act (.mkdirs dest.dropLast))
  downloadLoop url dest maxRetries maxRetries none

/-! ### The server -/

/-- The request is not answered, or the connection breaks after so many bytes. -/
inductive Fault
  | refused
  | broken (after : ℕ)
  deriving DecidableEq

/-- What becomes of one request, and how a body comes in pieces. -/
structure Attempt where
  fault : Option Fault
  pieces : Bytes → List Bytes
  whole : ∀ b, (pieces b).flatten = b

/-- How many bytes come before a fault. -/
def Attempt.bytes (a : Attempt) : ℕ :=
  match a.fault with
  | some (.broken n) => n
  | _ => 0

/-- The requests are numbered from `0`. -/
structure Net where
  fs : Fs Bytes
  resource : Bytes
  ranges : Bool
  attempts : ℕ → Attempt

/-- The status and the body for a request from a byte on. -/
def serve (resource : Bytes) (ranges : Bool) (first : ℕ) : ℕ × Bytes :=
  if first = 0 ∨ ranges = false then (200, resource)
  else if first < resource.length then (206, resource.drop first)
  else (416, [])

namespace Attempt

/-- What comes of a body. -/
def brought (a : Attempt) (body : Bytes) : Bytes :=
  match a.fault with
  | none => body
  | some .refused => []
  | some (.broken n) => body.take n

/-- The answer to a request. -/
def reply (a : Attempt) (served : ℕ × Bytes) : Except Error Reply :=
  match a.fault with
  | none => .ok ⟨served.1, .ok served.2.length, a.pieces served.2, none⟩
  | some .refused => .error ⟨.request, "Connection refused"⟩
  | some (.broken n) => .ok ⟨served.1, .ok served.2.length, a.pieces (served.2.take n), some ⟨.request, "Connection broken"⟩⟩

end Attempt

namespace Net

/-- The disk, on which no operation fails for another reason than what is there. -/
def disk (s : Net) : World := ⟨s.fs, 0, fun _ => {}, 0⟩

def perform : Prog.Sem sig Net
  | .stream _ first, s =>
    ((s.attempts 0).reply (serve s.resource s.ranges first), { s with attempts := fun i => s.attempts (i + 1) })
  | a, s => ((World.perform a s.disk).1, { s with fs := (World.perform a s.disk).2.fs })

end Net

/-! ### What comes of the partial file -/

section Partial

variable (resource : Bytes) (ranges : Bool)

/-- One attempt makes the file, or leaves another partial file. -/
def once (a : Attempt) (p : Bytes) : Except Bytes Bytes :=
  let served := serve resource ranges p.length
  if a.fault = some .refused ∨ served.1 = 416 then .error p
  else
    let got := (if served.1 = 206 then p else []) ++ a.brought served.2
    if a.fault = none then .ok got else .error got

/-- The file that the attempts make of a partial file. -/
def fetch : (ℕ → Attempt) → ℕ → Bytes → Option Bytes
  | _, 0, _ => none
  | as, n + 1, p =>
    match once resource ranges (as 0) p with
    | .ok d => some d
    | .error p' => fetch (fun i => as (i + 1)) n p'

end Partial

/-- The partial file is a part of the resource, and by the first attempt without a fault it
is not finished (or there was nothing to begin with, and there is nothing to come). -/
def Resumable (resource : Bytes) (as : ℕ → Attempt) (n : ℕ) (p : Bytes) : Prop :=
  ∀ k < n, (as k).fault = none → (∀ i < k, (as i).fault ≠ none) → p <+: resource ∧
    ((p = [] ∧ resource = []) ∨ p.length + ((List.range k).map fun i => (as i).bytes).sum < resource.length)

section Fetch

variable {resource p : Bytes} {as : ℕ → Attempt} {a : Attempt} {n : ℕ}

theorem serve_rest {first : ℕ} (h : first ≠ 0) (hlt : first < resource.length) :
    serve resource true first = (206, resource.drop first) := by
  rw [serve, if_neg (by simp [h]), if_pos hlt]

theorem serve_refused {first : ℕ} (h : first ≠ 0) (hle : resource.length ≤ first) :
    serve resource true first = (416, []) := by
  rw [serve, if_neg (by simp [h]), if_neg (by omega)]

/-- Without ranges every attempt begins anew. -/
theorem once_whole (a : Attempt) (p : Bytes) (h : a.fault = none) : once resource false a p = .ok resource := by
  simp [once, serve, h, Attempt.brought]

theorem fetch_whole : ∀ (n : ℕ) (as : ℕ → Attempt) (p : Bytes),
    (∀ d, fetch resource false as n p = some d → d = resource) ∧
      ((∃ i < n, (as i).fault = none) → (fetch resource false as n p).isSome = true)
  | 0, _, _ => ⟨nofun, fun ⟨_, hi, _⟩ => absurd hi (Nat.not_lt_zero _)⟩
  | n + 1, as, p => by
    rw [fetch]
    by_cases h : (as 0).fault = none
    · rw [once_whole _ _ h]
      exact ⟨fun d hd => (Option.some.inj hd).symm, fun _ => rfl⟩
    · obtain ⟨p', hp'⟩ : ∃ p', once resource false (as 0) p = .error p' := by
        unfold once
        dsimp only
        rw [if_neg h]
        split_ifs <;> exact ⟨_, rfl⟩
      rw [hp']
      refine ⟨(fetch_whole n _ p').1, fun ⟨i, hi, hfree⟩ => (fetch_whole n _ p').2 ?_⟩
      cases i with
      | zero => exact absurd hfree h
      | succ i => exact ⟨i, by omega, hfree⟩

/-- A partial file that is too long is never replaced. -/
theorem once_stuck (hp : p ≠ []) (hle : resource.length ≤ p.length) (a : Attempt) : once resource true a p = .error p := by
  have hne : p.length ≠ 0 := by simpa using hp
  rw [once, serve_refused hne hle]
  simp

theorem fetch_stuck (hp : p ≠ []) (hle : resource.length ≤ p.length) : ∀ (n : ℕ) (as : ℕ → Attempt),
    fetch resource true as n p = none
  | 0, _ => rfl
  | n + 1, as => by
    rw [fetch, once_stuck hp hle]
    exact fetch_stuck hp hle n _

/-- The first attempt has no fault. -/
theorem resumable_free (h : (as 0).fault = none) :
    Resumable resource as (n + 1) p ↔ p <+: resource ∧ ((p = [] ∧ resource = []) ∨ p.length < resource.length) := by
  constructor
  · intro hr
    simpa using hr 0 (by omega) h fun i hi => absurd hi (Nat.not_lt_zero _)
  · intro hp k hk hfree hfirst
    cases k with
    | zero => simpa using hp
    | succ k => exact absurd h (hfirst 0 (by omega))

/-- The first attempt has one. -/
theorem resumable_fault {p' : Bytes} (h : (as 0).fault ≠ none)
    (hp : ∀ m, (p <+: resource ∧ ((p = [] ∧ resource = []) ∨ p.length + ((as 0).bytes + m) < resource.length)) ↔
      p' <+: resource ∧ ((p' = [] ∧ resource = []) ∨ p'.length + m < resource.length)) :
    Resumable resource as (n + 1) p ↔ Resumable resource (fun i => as (i + 1)) n p' := by
  have hsum (k : ℕ) : ((List.range (k + 1)).map fun i => (as i).bytes).sum =
      (as 0).bytes + ((List.range k).map fun i => (as (i + 1)).bytes).sum := by
    rw [List.range_succ_eq_map, List.map_cons, List.sum_cons, List.map_map]
    rfl
  constructor
  · intro hr k hk hfree hfirst
    rw [← hp, ← hsum]
    refine hr (k + 1) (by omega) hfree fun i hi => ?_
    cases i with
    | zero => exact h
    | succ i => exact hfirst i (by omega)
  · intro hr k hk hfree hfirst
    cases k with
    | zero => exact absurd hfree h
    | succ k =>
      rw [hsum, hp]
      exact hr k (by omega) hfree fun i hi => hfirst (i + 1) (by omega)

/-- What a fault leaves is as much a part of the resource as what was there before. -/
theorem once_fault (resource p : Bytes) (h : a.fault ≠ none) : ∃ p', once resource true a p = .error p' ∧
    ∀ m, (p <+: resource ∧ ((p = [] ∧ resource = []) ∨ p.length + (a.bytes + m) < resource.length)) ↔
      p' <+: resource ∧ ((p' = [] ∧ resource = []) ∨ p'.length + m < resource.length) := by
  cases hf : a.fault with
  | none => exact absurd hf h
  | some f =>
    cases f with
    | refused =>
      refine ⟨p, by simp [once, hf], fun m => ?_⟩
      simp [Attempt.bytes, hf]
    | broken k =>
      have hbytes : a.bytes = k := by simp [Attempt.bytes, hf]
      rw [hbytes]
      by_cases hp : p = []
      · subst hp
        refine ⟨resource.take k, by simp [once, serve, hf, Attempt.brought], fun m => ?_⟩
        simp only [List.nil_prefix, true_and, List.take_prefix, List.length_take, List.length_nil,
          List.take_eq_nil_iff]
        by_cases hr : resource = []
        · simp [hr]
        · have hpos : 0 < resource.length := List.length_pos_iff.mpr hr
          simp only [hr, and_false, false_or]
          omega
      · have hne : p.length ≠ 0 := by simpa using hp
        rcases Nat.lt_or_ge p.length resource.length with hlt | hge
        · refine ⟨p ++ (resource.drop p.length).take k, by simp [once, serve_rest hne hlt, hf, Attempt.brought], fun m => ?_⟩
          have hunder : p ++ (resource.drop p.length).take k <+: resource ↔ p <+: resource := by
            constructor
            · exact fun h => (List.prefix_append p _).trans h
            · rintro ⟨rest, rfl⟩
              rw [List.drop_left, List.prefix_append_right_inj]
              exact List.take_prefix k rest
          rw [hunder]
          simp only [hp, false_and, false_or, List.append_eq_nil_iff, List.length_append, List.length_take,
            List.length_drop]
          refine and_congr_right fun _ => ?_
          omega
        · refine ⟨p, once_stuck hp hge a, fun m => ?_⟩
          simp only [hp, false_and, false_or]
          refine and_congr_right fun _ => ?_
          omega

/-- With ranges. -/
theorem fetch_exact_iff : ∀ (n : ℕ) (as : ℕ → Attempt) (p : Bytes),
    ((∀ d, fetch resource true as n p = some d → d = resource) ∧
      ((∃ i < n, (as i).fault = none) → (fetch resource true as n p).isSome = true)) ↔ Resumable resource as n p
  | 0, as, p => by
    refine iff_of_true ⟨nofun, fun ⟨_, hi, _⟩ => absurd hi (Nat.not_lt_zero _)⟩ fun k hk => ?_
    exact absurd hk (Nat.not_lt_zero k)
  | n + 1, as, p => by
    by_cases h : (as 0).fault = none
    · have hsome : ∃ i < n + 1, (as i).fault = none := ⟨0, by omega, h⟩
      rw [resumable_free h]
      by_cases hp : p = []
      · subst hp
        have honce : once resource true (as 0) [] = .ok resource := by simp [once, serve, h, Attempt.brought]
        rw [fetch, honce]
        refine iff_of_true ⟨fun d hd => (Option.some.inj hd).symm, fun _ => rfl⟩ ⟨List.nil_prefix, ?_⟩
        by_cases hr : resource = []
        · exact .inl ⟨rfl, hr⟩
        · exact .inr (List.length_pos_iff.mpr hr)
      · have hne : p.length ≠ 0 := by simpa using hp
        rcases Nat.lt_or_ge p.length resource.length with hlt | hge
        · have honce : once resource true (as 0) p = .ok (p ++ resource.drop p.length) := by
            simp [once, serve_rest hne hlt, h, Attempt.brought]
          rw [fetch, honce]
          constructor
          · rintro ⟨hfile, -⟩
            exact ⟨⟨resource.drop p.length, hfile _ rfl⟩, .inr hlt⟩
          · rintro ⟨⟨rest, hrest⟩, -⟩
            refine ⟨fun d hd => ?_, fun _ => rfl⟩
            rw [← Option.some.inj hd, ← hrest, List.drop_left]
        · rw [fetch_stuck hp hge]
          refine iff_of_false (fun hx => absurd (hx.2 hsome) (by simp)) ?_
          rintro ⟨-, ⟨hnil, -⟩ | hlt⟩
          · exact hp hnil
          · omega
    · obtain ⟨p', honce, hp'⟩ := once_fault resource p h
      rw [resumable_fault h hp', ← fetch_exact_iff n _ p', fetch, honce]
      refine and_congr_right fun _ => imp_congr_left ?_
      constructor
      · rintro ⟨i, hi, hfree⟩
        cases i with
        | zero => exact absurd hfree h
        | succ i => exact ⟨i, by omega, hfree⟩
      · rintro ⟨i, hi, hfree⟩
        exact ⟨i + 1, by omega, hfree⟩

end Fetch

/-! ### The code makes that of it -/

/-- There is room for a file: its directory is there, and nothing else is called like it. -/
structure Room (dest : Place) (t : Fs Bytes) : Prop where
  named : dest ≠ []
  way : ∀ q, q <+: dest.dropLast → t.node q = some .dir
  target : t.node dest ≠ some .dir

/-- What an earlier call left. -/
def Held (dest : Place) (p : Bytes) (t : Fs Bytes) : Prop :=
  (p = [] ∧ t.node (partialOf dest) = none) ∨ t.node (partialOf dest) = some (.file p)

/-- The server, with these attempts to come, and what is on the disk. -/
structure Net.At (resource : Bytes) (ranges : Bool) (as : ℕ → Attempt) (dest : Place) (P : Fs Bytes → Prop) (s : Net) : Prop where
  resource : s.resource = resource
  ranges : s.ranges = ranges
  attempts : s.attempts = as
  room : Room dest s.fs
  disk : P s.fs

section Code

variable {α β : Type} {dest : Place} {t : Fs Bytes} {p d : Bytes} {resource : Bytes} {ranges : Bool} {as : ℕ → Attempt}
  {P Q : Fs Bytes → Prop} {url : String}

theorem partialOf_ne : partialOf dest ≠ dest := by
  intro he
  have hname : dest.getLast?.getD "" ++ ".partial" = dest.getLast?.getD "" := by
    have hlast := congrArg (fun q : Place => q.getLast?.getD "") he
    simp only [partialOf, List.getLast?_append, List.getLast?_singleton, Option.some_or, Option.getD_some] at hlast
    exact hlast
  have hlength := congrArg String.length hname
  rw [String.length_append] at hlength
  have hpartial : ".partial".length = 8 := by decide
  omega

theorem partialOf_dropLast : (partialOf dest).dropLast = dest.dropLast := List.dropLast_concat

theorem Room.length (h : Room dest t) : dest.dropLast.length < dest.length := by
  rw [List.length_dropLast]
  have hpos := List.length_pos_iff.mpr h.named
  omega

theorem length_partialOf (h : dest ≠ []) : (partialOf dest).length = dest.length := by
  have hpos := List.length_pos_iff.mpr h
  rw [partialOf, List.length_append, List.length_dropLast, List.length_singleton]
  omega

/-- A change of the partial file or the file itself leaves the room. -/
theorem Room.set (h : Room dest t) {q : Place} (hq : q.length = dest.length) {n : Option Node} (hn : n ≠ some .dir) :
    Room dest (t.set q n) := by
  refine ⟨h.named, fun r hr => ?_, ?_⟩
  · have hlength := hr.length_le
    have hdrop := h.length
    rw [Fs.node_set_of_ne (by rintro rfl; omega)]
    exact h.way r hr
  · by_cases hd : dest = q
    · rw [hd, Fs.node_set_self]
      exact hn
    · rw [Fs.node_set_of_ne hd]
      exact h.target

theorem not_prefix_dest (h : dest ≠ []) : ¬partialOf dest <+: dest := fun hp =>
  partialOf_ne (hp.eq_of_length (length_partialOf h))

/-- The partial file becomes the file. -/
theorem Room.move (h : Room dest t) (hfile : t.node (partialOf dest) = some (.file d)) :
    Room dest (t.move (partialOf dest) dest) ∧ (t.move (partialOf dest) dest).node dest = some (.file d) := by
  have hmoved : (t.move (partialOf dest) dest).node dest = some (.file d) := node_moved.trans hfile
  refine ⟨⟨h.named, fun q hq => ?_, by rw [hmoved]; nofun⟩, hmoved⟩
  have hlength := hq.length_le
  have hdrop := h.length
  have hpartial := length_partialOf h.named
  rw [Fs.node_move_of_not (fun hp => absurd hp.length_le (by omega)) fun hp => absurd hp.length_le (by omega)]
  exact h.way q hq

theorem renameFails_partial (h : Room dest t) (hfile : t.node (partialOf dest) = some (.file d)) :
    renameFails (partialOf dest) dest t = none := by
  have hparent : t.isDir dest.dropLast = true := Fs.isDir_of_node (h.way _ (List.prefix_refl _))
  rw [renameFails, parentFails, hparent, hfile, if_neg partialOf_ne, if_neg (not_prefix_dest h.named), if_neg (by simp)]
  simp [refuse, h.target]

theorem partialOf_not_link (h : Held dest p t) : t.isLink (partialOf dest) = false := by
  rcases h with ⟨-, h⟩ | h
  · rw [Fs.isLink, h]
  · rw [Fs.isLink, h]

theorem sizeOf_partial (h : Held dest p t) : sizeOf (partialOf dest) t = p.length := by
  rcases h with ⟨rfl, h⟩ | h
  · rw [sizeOf, Fs.isFile, Fs.stat_of_node (by rw [Fs.isLink, h]), h]
    rfl
  · rw [sizeOf, Fs.isFile_of_node h, Fs.data_of_node h]
    rfl

/-- The partial file can be opened. -/
theorem openFails_partial (hroom : Room dest t) (h : Held dest p t) : openFails (partialOf dest) t = none := by
  have hparent : t.isDir (partialOf dest).dropLast = true := by
    rw [partialOf_dropLast]
    exact Fs.isDir_of_node (hroom.way _ (List.prefix_refl _))
  have hdir : t.isDir (partialOf dest) = false := by
    rw [Fs.isDir, Fs.stat_of_node (partialOf_not_link h)]
    rcases h with ⟨-, h⟩ | h <;> rw [h]
  rw [openFails, parentFails, hparent, hdir, Fs.follow_of_node (partialOf_not_link h)]
  rfl

abbrev NetTriple (P : Net → Prop) (x : Raising α) (R : α → Net → Prop) (E : Error → Net → Prop) : Prop :=
  Triple (σ := sig) Net.perform P x.run (Post R E)

theorem net_look {P : Net → Prop} {E : Error → Net → Prop} : NetTriple P look (fun t s => P s ∧ t = s.fs) E :=
  fun _ hs => ⟨hs, rfl⟩

/-- A change that nothing prevents is made. -/
theorem net_change {x : Script (Except Error Unit)} (fails : Fs Bytes → Option Error) (f : Fs Bytes → Fs Bytes)
    {E : Error → Net → Prop}
    (hx : ∀ s, x.run Net.perform s = (((s.disk.change (fails s.fs) f).1), { s with fs := (s.disk.change (fails s.fs) f).2.fs }))
    (hfails : ∀ t, Room dest t → P t → fails t = none) (hok : ∀ t, Room dest t → P t → Room dest (f t) ∧ Q (f t)) :
    NetTriple (Net.At resource ranges as dest P) (attempt x) (fun _ => Net.At resource ranges as dest Q) E := by
  intro s hs
  have hnone := hfails s.fs hs.room hs.disk
  have hchange : s.disk.change (fails s.fs) f = (.ok (), { s.disk.tock with fs := f s.fs }) := by
    rw [hnone]
    rfl
  change Post _ _ (x.run Net.perform s).1 (x.run Net.perform s).2
  rw [hx, hchange]
  exact ⟨hs.resource, hs.ranges, hs.attempts, (hok _ hs.room hs.disk).1, (hok _ hs.room hs.disk).2⟩

/-- The chunks are added to the partial file. -/
theorem net_writeChunks {E : Error → Net → Prop} : ∀ (chunks : List Bytes) (d : Bytes),
    NetTriple (Net.At resource ranges as dest fun t => t.node (partialOf dest) = some (.file d))
      (writeChunks (partialOf dest) chunks)
      (fun _ => Net.At resource ranges as dest fun t => t.node (partialOf dest) = some (.file (d ++ chunks.flatten))) E
  | [], d => triple_return fun s hs => by
    rw [List.flatten_nil, List.append_nil]
    exact hs
  | chunk :: chunks, d => by
    have hrest := net_writeChunks (E := E) chunks (d ++ chunk)
    rw [List.append_assoc, ← List.flatten_cons] at hrest
    rw [writeChunks]
    by_cases hc : chunk = []
    · rw [if_neg (by simp [hc])]
      rw [hc, List.append_nil] at hrest
      rw [hc]
      exact hrest
    · rw [if_pos hc]
      refine Triple.raising (R := fun _ => Net.At resource ranges as dest fun t =>
        t.node (partialOf dest) = some (.file (d ++ chunk))) ?_ fun _ => hrest
      refine net_change (openFails (partialOf dest))
        (fun t => t.set (opened (partialOf dest) t) (some (.file ((t.data (partialOf dest)).getD [] ++ chunk))))
        (fun _ => rfl) (fun t hroom ht => openFails_partial hroom (.inr ht)) fun t hroom ht => ?_
      have hopened : opened (partialOf dest) t = partialOf dest := opened_of_not_link (partialOf_not_link (.inr ht))
      rw [hopened, Fs.data_of_node ht]
      exact ⟨hroom.set (length_partialOf hroom.named) nofun, Fs.node_set_self ..⟩

/-- What an answer to a request is. -/
theorem Attempt.reply_cases (a : Attempt) (served : ℕ × Bytes) :
    (a.fault = some .refused ∧ ∃ e, a.reply served = .error e ∧ e.kind = .request) ∨
      (a.fault ≠ some .refused ∧ ∃ chunks err, a.reply served = .ok ⟨served.1, .ok served.2.length, chunks, err⟩ ∧
        chunks.flatten = a.brought served.2 ∧ (err = none ↔ a.fault = none) ∧ ∀ e ∈ err, e.kind = .request) := by
  cases hf : a.fault with
  | none =>
    refine .inr ⟨nofun, a.pieces served.2, none, ?_, ?_, by simp, by simp⟩
    · rw [reply, hf]
    · rw [brought, hf, a.whole]
  | some f =>
    cases f with
    | refused => exact .inl ⟨rfl, _, by rw [reply, hf], rfl⟩
    | broken n =>
      refine .inr ⟨nofun, a.pieces (served.2.take n), some ⟨.request, "Connection broken"⟩, ?_, ?_, by simp, by simp⟩
      · rw [reply, hf]
      · rw [brought, hf, a.whole]

/-- An attempt that failed is followed by another one. -/
def Error.Retried (e : Error) : Prop := e.kind = .request ∨ e.kind = .downloadFailed

theorem once_served {served : ℕ × Bytes} (h : serve resource ranges p.length = served) (a : Attempt) :
    once resource ranges a p = if a.fault = some .refused ∨ served.1 = 416 then .error p
      else if a.fault = none then .ok ((if served.1 = 206 then p else []) ++ a.brought served.2)
      else .error ((if served.1 = 206 then p else []) ++ a.brought served.2) := by
  subst h
  rfl

/-- What a server answers. -/
theorem serve_status (resource : Bytes) (ranges : Bool) (first : ℕ) : (serve resource ranges first).1 = 200 ∨
    ((serve resource ranges first).1 = 206 ∧ first ≠ 0) ∨ (serve resource ranges first).1 = 416 := by
  unfold serve
  split_ifs with h
  · exact .inl rfl
  · exact .inr (.inl ⟨rfl, fun h0 => h (.inl h0)⟩)
  · exact .inr (.inr rfl)

/-- The body is added to what is kept of the partial file. -/
theorem net_receive {status : ℕ} {length : Except Error ℕ} {chunks : List Bytes} {err : Option Error} :
    NetTriple (Net.At resource ranges as dest fun t => t.node (partialOf dest) = some (.file d))
      (receive dest ⟨status, length, chunks, err⟩)
      (fun _ s => err = none ∧ s.fs.node dest = some (.file (d ++ chunks.flatten)))
      (fun e s => err = some e ∧ Net.At resource ranges as dest (Held dest (d ++ chunks.flatten)) s) := by
  unfold receive
  refine Triple.raising (net_writeChunks chunks d) fun _ => ?_
  cases err with
  | some e => exact fun s hs => ⟨rfl, hs.resource, hs.ranges, hs.attempts, hs.room, .inr hs.disk⟩
  | none =>
    refine Triple.raising (R := fun _ => Net.At resource ranges as dest fun t =>
      t.node (partialOf dest) = some (.file (d ++ chunks.flatten))) (fun s hs => hs) fun _ => ?_
    refine Triple.mono (net_change (renameFails (partialOf dest) dest)
      (World.rename (partialOf dest) dest) (E := fun _ _ => False) (Q := fun t => t.node dest = some (.file (d ++ chunks.flatten)))
      (fun _ => rfl) (fun t hroom ht => renameFails_partial hroom ht) fun t hroom ht => ?_) fun r s hs => ?_
    · rw [World.rename, if_neg partialOf_ne]
      exact hroom.move ht
    · cases r with
      | ok u => exact ⟨rfl, hs.disk⟩
      | error e => exact hs.elim

/-- One attempt makes the file, or leaves a partial file. -/
theorem net_downloadOnce : NetTriple (Net.At resource ranges as dest (Held dest p)) (downloadOnce url dest)
    (fun _ s => ∃ d, once resource ranges (as 0) p = .ok d ∧ s.fs.node dest = some (.file d))
    (fun e s => e.Retried ∧ ∃ p', once resource ranges (as 0) p = .error p' ∧
      Net.At resource ranges (fun i => as (i + 1)) dest (Held dest p') s) := by
  generalize hserved : serve resource ranges p.length = served
  have honce := once_served hserved (as 0)
  unfold downloadOnce
  refine Triple.raising net_look fun t => ?_
  refine Triple.assuming (c := sizeOf (partialOf dest) t = p.length)
    (fun s hs => by rw [hs.2]; exact sizeOf_partial hs.1.disk) fun hsize => ?_
  dsimp only
  rw [hsize]
  -- the request is answered, or the attempt is over
  refine Triple.raising (R := fun r s => (as 0).reply served = .ok r ∧
    Net.At resource ranges (fun i => as (i + 1)) dest (Held dest p) s) (fun s hs => ?_) fun r => ?_
  · have hreply : Prog.run Net.perform (act (.stream url p.length)) s =
        ((as 0).reply served, { s with attempts := fun i => as (i + 1) }) := by
      change (((s.attempts 0).reply (serve s.resource s.ranges p.length)), { s with attempts := fun i => s.attempts (i + 1) }) = _
      rw [hs.1.attempts, hs.1.resource, hs.1.ranges, hserved]
    have hnext : Net.At resource ranges (fun i => as (i + 1)) dest (Held dest p) { s with attempts := fun i => as (i + 1) } :=
      ⟨hs.1.resource, hs.1.ranges, rfl, hs.1.room, hs.1.disk⟩
    change Post _ _ (Prog.run Net.perform (act (.stream url p.length)) s).1 (Prog.run Net.perform (act (.stream url p.length)) s).2
    rw [hreply]
    cases hr : (as 0).reply served with
    | ok r => exact ⟨rfl, hnext⟩
    | error e =>
      rcases (as 0).reply_cases served with ⟨hf, e', he, hkind⟩ | ⟨-, chunks, err, he, -⟩
      · obtain rfl := Except.error.inj (hr.symm.trans he)
        rw [if_pos (.inl hf)] at honce
        exact ⟨.inl hkind, p, honce, hnext⟩
      · rw [hr] at he
        cases he
  refine Triple.assuming (c := (as 0).reply served = .ok r) (fun s hs => hs.1) fun hr => ?_
  obtain ⟨hf, chunks, err, he, hflat, herr, hkind⟩ :
      (as 0).fault ≠ some .refused ∧ ∃ chunks err, (as 0).reply served = .ok ⟨served.1, .ok served.2.length, chunks, err⟩ ∧
        chunks.flatten = (as 0).brought served.2 ∧ (err = none ↔ (as 0).fault = none) ∧ ∀ e ∈ err, e.kind = .request := by
    rcases (as 0).reply_cases served with ⟨-, e, he, -⟩ | h
    · rw [hr] at he
      cases he
    · exact h
  obtain rfl := Except.ok.inj (hr.symm.trans he)
  refine Triple.pre (P := Net.At resource ranges (fun i => as (i + 1)) dest (Held dest p)) ?_ fun s hs => hs.2
  have hstatus := serve_status resource ranges p.length
  rw [hserved] at hstatus
  by_cases h416 : served.1 = 416
  · -- nothing is there to be resumed
    rw [if_pos (.inr h416)] at honce
    rw [if_pos (by simp [h416])]
    exact triple_throw fun s hs => ⟨.inr rfl, p, honce, hs⟩
  have hresumed : served.1 = 206 ↔ served.1 = 206 ∧ p.length ≠ 0 := by
    rcases hstatus with h | ⟨h, hne⟩ | h
    · simp [h]
    · simp [h, hne]
    · exact absurd h h416
  rw [if_neg (by simp [hf, h416])] at honce
  rw [if_neg (by rcases hstatus with h | ⟨h, -⟩ | h <;> simp_all)]
  refine Triple.raising (R := fun _ => Net.At resource ranges (fun i => as (i + 1)) dest (Held dest p)) (fun s hs => hs)
    fun _ => ?_
  have hend (kept : Bytes) (hkept : (if served.1 = 206 then p else []) = kept) :
      NetTriple (Net.At resource ranges (fun i => as (i + 1)) dest fun t => t.node (partialOf dest) = some (.file kept))
        (receive dest ⟨served.1, .ok served.2.length, chunks, err⟩)
        (fun _ s => ∃ d, once resource ranges (as 0) p = .ok d ∧ s.fs.node dest = some (.file d))
        (fun e s => e.Retried ∧ ∃ p', once resource ranges (as 0) p = .error p' ∧
          Net.At resource ranges (fun i => as (i + 1)) dest (Held dest p') s) := by
    rw [hkept, ← hflat] at honce
    refine Triple.mono net_receive fun r s hs => ?_
    cases r with
    | ok u =>
      rw [if_pos (herr.mp hs.1)] at honce
      exact ⟨_, honce, hs.2⟩
    | error e =>
      rw [if_neg fun h => by rw [herr.mpr h] at hs; cases hs.1] at honce
      exact ⟨.inl (hkind e (by rw [hs.1]; rfl)), _, honce, hs.2⟩
  by_cases h206 : served.1 = 206
  · obtain ⟨-, hne⟩ := hresumed.mp h206
    rw [if_neg (by simp [h206, hne])]
    refine Triple.pre (hend p (if_pos h206)) fun s hs => ⟨hs.resource, hs.ranges, hs.attempts, hs.room, ?_⟩
    rcases hs.disk with ⟨rfl, -⟩ | h
    · exact absurd rfl hne
    · exact h
  · rw [if_pos (by simp [h206])]
    refine Triple.raising (R := fun _ => Net.At resource ranges (fun i => as (i + 1)) dest fun t =>
      t.node (partialOf dest) = some (.file [])) ?_ fun _ => hend [] (if_neg h206)
    refine net_change (openFails (partialOf dest))
      (fun t => t.set (opened (partialOf dest) t) (some (.file []))) (fun _ => rfl)
      (fun t hroom ht => openFails_partial hroom ht) fun t hroom ht => ?_
    have hopened : opened (partialOf dest) t = partialOf dest := opened_of_not_link (partialOf_not_link ht)
    rw [hopened]
    exact ⟨hroom.set (length_partialOf hroom.named) nofun, Fs.node_set_self ..⟩

/-- All attempts. -/
theorem net_downloadLoop (maxRetries : ℕ) : ∀ (n : ℕ) (last : Option Error) (as : ℕ → Attempt) (p : Bytes),
    NetTriple (Net.At resource ranges as dest (Held dest p)) (downloadLoop url dest maxRetries n last)
      (fun r s => r = dest ∧ ∃ d, fetch resource ranges as n p = some d ∧ s.fs.node dest = some (.file d))
      (fun _ _ => fetch resource ranges as n p = none)
  | 0, _, _, _ => triple_throw fun _ _ => rfl
  | n + 1, last, as, p => by
    refine Triple.raising (Triple.lift net_downloadOnce) fun r => ?_
    cases r with
    | ok u =>
      refine triple_return ?_
      rintro s ⟨d, hd, hfile⟩
      exact ⟨rfl, d, by rw [fetch, hd], hfile⟩
    | error e =>
      refine Triple.assuming (c := e.kind = .request ∨ e.kind = .downloadFailed) (fun s hs => hs.1) fun he => ?_
      dsimp only
      rw [if_pos he]
      rintro s ⟨-, p', hp', hs⟩
      have hrest := net_downloadLoop maxRetries n (some e) _ p' s hs
      rw [fetch, hp']
      exact hrest

/-- The directory of the file is there. -/
theorem net_mkdirs {E : Error → Net → Prop} : NetTriple (Net.At resource ranges as dest P)
    (attempt (act (.mkdirs dest.dropLast))) (fun _ => Net.At resource ranges as dest P) E := by
  have hway {t : Fs Bytes} (h : Room dest t) : ∀ q ∈ dest.dropLast.inits, t.node q = some .dir :=
    fun q hq => h.way q ((List.mem_inits ..).mp hq)
  refine net_change (mkdirsFails dest.dropLast) (World.mkdirs dest.dropLast) (fun _ => rfl)
    (fun t hroom _ => ?_) fun t hroom ht => ?_
  · rw [mkdirsFails, refuse, if_neg]
    rw [List.any_eq_true]
    rintro ⟨q, hq, hbad⟩
    rw [Fs.isDir_of_node (hway hroom q hq)] at hbad
    simp at hbad
  · have hsame : World.mkdirs dest.dropLast t = t := by
      have hall : ∀ l : List Place, (∀ q ∈ l, t.node q = some .dir) →
          l.foldl (fun t q => if (t.node q).isSome then t else t.set q (some .dir)) t = t := by
        intro l hl
        induction l with
        | nil => rfl
        | cons q l ih =>
          rw [List.foldl_cons, if_pos (by rw [hl q List.mem_cons_self]; rfl)]
          exact ih fun r hr => hl r (List.mem_cons_of_mem q hr)
      exact hall _ (hway hroom)
    rw [hsame]
    exact ⟨hroom, ht⟩

theorem net_download (url : String) (p : Bytes) (maxRetries : ℕ) : NetTriple (Net.At resource ranges as dest (Held dest p)) (download url dest maxRetries)
    (fun r s => r = dest ∧ ∃ d, fetch resource ranges as maxRetries p = some d ∧ s.fs.node dest = some (.file d))
    (fun _ _ => fetch resource ranges as maxRetries p = none) :=
  Triple.raising net_mkdirs fun _ => net_downloadLoop maxRetries maxRetries none as p

end Code

/-- What is asked of a download: what it returns is the resource, and it returns where one
of the attempts has no fault. -/
structure Exact (url : String) (dest : Place) (maxRetries : ℕ) (s : Net) : Prop where
  file : ∀ r, (Prog.run Net.perform (download url dest maxRetries).run s).1 = .ok r →
    r = dest ∧ (Prog.run Net.perform (download url dest maxRetries).run s).2.fs.data dest = some s.resource
  returns : (∃ i < maxRetries, (s.attempts i).fault = none) →
    ∃ r, (Prog.run Net.perform (download url dest maxRetries).run s).1 = .ok r

/-- **A resumed download is exact** just where the server ignores ranges or the partial file
is a part of the resource that is not finished before the first attempt without a fault. -/
theorem download_exact_iff (url : String) (dest : Place) (maxRetries : ℕ) (s : Net) (p : Bytes) (hroom : Room dest s.fs)
    (hheld : Held dest p s.fs) : Exact url dest maxRetries s ↔
      (s.ranges = true → Resumable s.resource s.attempts maxRetries p) := by
  have hrun := net_download url p maxRetries s ⟨rfl, rfl, rfl, hroom, hheld⟩
  have hexact : Exact url dest maxRetries s ↔
      (∀ d, fetch s.resource s.ranges s.attempts maxRetries p = some d → d = s.resource) ∧
        ((∃ i < maxRetries, (s.attempts i).fault = none) → (fetch s.resource s.ranges s.attempts maxRetries p).isSome = true) := by
    cases hr : (Prog.run Net.perform (download url dest maxRetries).run s).1 with
    | ok r =>
      rw [hr] at hrun
      obtain ⟨hrun, d, hd, hfile⟩ := hrun
      have hdata := Fs.data_of_node hfile
      rw [hd]
      constructor
      · intro h
        refine ⟨fun d' hd' => ?_, fun _ => rfl⟩
        rw [← Option.some.inj hd']
        exact Option.some.inj (hdata.symm.trans (h.file r hr).2)
      · intro h
        refine ⟨fun r' hr' => ?_, fun _ => ⟨r, hr⟩⟩
        rw [← h.1 d rfl]
        exact ⟨(Except.ok.inj (hr.symm.trans hr')).symm.trans hrun, hdata⟩
    | error e =>
      rw [hr] at hrun
      have hnone : fetch s.resource s.ranges s.attempts maxRetries p = none := hrun
      rw [hnone]
      constructor
      · intro h
        refine ⟨nofun, fun hfree => ?_⟩
        obtain ⟨r, hr'⟩ := h.returns hfree
        rw [hr] at hr'
        cases hr'
      · intro h
        refine ⟨fun r hr' => ?_, fun hfree => absurd (h.2 hfree) (by simp)⟩
        rw [hr] at hr'
        cases hr'
  rw [hexact]
  cases s.ranges with
  | false => exact iff_of_true (fetch_whole ..) nofun
  | true =>
    rw [fetch_exact_iff]
    exact ⟨fun h _ => h, fun h => h rfl⟩

/-! ### A partial file that is complete -/

def stagedFile : Place := ["staging", "locai-link-llm-linux-x64.tar.gz"]

/-- The directory, and the partial file beside the file that is to come. -/
def stagingTree (p : Bytes) : Fs Bytes :=
  ((Fs.empty.set [] (some .dir)).set ["staging"] (some .dir)).set (partialOf stagedFile) (some (.file p))

/-- A server that honours ranges, and no faults. -/
def goodServer (p : Bytes) : Net := ⟨stagingTree p, [1, 2], true, fun _ => ⟨none, fun b => [b], by simp⟩⟩

theorem room_stagingTree (p : Bytes) : Room stagedFile (stagingTree p) := by
  have hway : ∀ q ∈ stagedFile.dropLast.inits, (stagingTree p).node q = some .dir := by
    intro q hq
    have hcases : q = [] ∨ q = ["staging"] := by simpa [stagedFile] using hq
    rcases hcases with rfl | rfl
    · rfl
    · rfl
  refine ⟨by decide, fun q hq => hway q ((List.mem_inits ..).mpr hq), ?_⟩
  rw [stagingTree, Fs.node_set_of_ne (Ne.symm partialOf_ne)]
  exact nofun

theorem held_stagingTree (p : Bytes) : Held stagedFile p (stagingTree p) := .inr (Fs.node_set_self ..)

/-- The process was stopped before the last rename: what is complete is asked for again, and
never there. -/
theorem complete_refused : ¬∀ (url : String) (dest : Place) (maxRetries : ℕ) (s : Net) (p : Bytes), Room dest s.fs →
    Held dest p s.fs → Exact url dest maxRetries s := by
  intro h
  have hexact := h "https://github.com/" stagedFile 3 (goodServer [1, 2]) [1, 2] (room_stagingTree _) (held_stagingTree _)
  obtain ⟨r, hr⟩ := hexact.returns ⟨0, by omega, rfl⟩
  have hrun := net_download "https://github.com/" [1, 2] 3 (goodServer [1, 2])
    ⟨rfl, rfl, rfl, room_stagingTree _, held_stagingTree _⟩
  rw [hr] at hrun
  obtain ⟨-, d, hd, -⟩ := hrun
  have hnone : fetch [1, 2] true (goodServer [1, 2]).attempts 3 [1, 2] = none := fetch_stuck (by decide) (by decide) _ _
  exact absurd (hnone.symm.trans hd) nofun

/-- A part of the resource is resumed. -/
theorem part_resumed : Exact "https://github.com/" stagedFile 3 (goodServer [1]) := by
  refine (download_exact_iff _ _ _ _ [1] (room_stagingTree _) (held_stagingTree _)).mpr fun _ k _ _ hfirst => ?_
  cases k with
  | zero => exact ⟨by decide, .inr (by decide)⟩
  | succ k => exact absurd rfl (hfirst 0 (by omega))

end Install
end LocaiLink
