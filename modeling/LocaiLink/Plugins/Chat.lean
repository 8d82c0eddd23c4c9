/-
# The terminal of a chat

The agent and the terminal of a chat send each other texts with their lengths before them. The terminal reads until it has
all bytes of a text; the agent reads once, and takes what comes. Both take a text of no bytes for the end
of the connection, the agent also one of white space (`received_iff`, `delivered_iff`).
-/
import Mathlib.Data.List.TakeWhile
import LocaiLink.Base.Cuts

namespace LocaiLink
namespace Chat

/-- What can be sent: a text whose length four bytes can hold. -/
def Message : Type := { s : String // (Bytes.encode s).length < 2 ^ 32 }

/-- `n.to_bytes(4, "big")` -/
def toBytes (n : ℕ) : Bytes :=
  [UInt8.ofNat (n / 2 ^ 24), UInt8.ofNat (n / 2 ^ 16), UInt8.ofNat (n / 2 ^ 8), UInt8.ofNat n]

/-- `int.from_bytes(b, "big")` -/
def fromBytes (b : Bytes) : ℕ := b.foldl (fun n x => 256 * n + x.toNat) 0

def Message.data (m : Message) : Bytes := Bytes.encode m.1

/-- What `_net_send` and the terminal write for a text. -/
def Message.frame (m : Message) : Bytes := toBytes m.data.length ++ m.data

def wire (ms : List Message) : Bytes := ms.flatMap Message.frame

/-! ### Sockets -/

/-- The end of a connection that is read from: the bytes that are still to come until the other end closes it, and
how many of them a read finds at the most. -/
structure Socket where
  stream : Bytes
  reads : ℕ
  cuts : ℕ → ℕ

/-- `sock.recv(n)`: at least one byte where there is one, and no more than `n`. -/
def Socket.recv (s : Socket) (n : ℕ) : Bytes × Socket :=
  (s.stream.take (min n (s.cuts s.reads + 1)), { s with stream := s.stream.drop (min n (s.cuts s.reads + 1)), reads := s.reads + 1 })

def opened (ms : List Message) (cuts : ℕ → ℕ) : Socket := ⟨wire ms, 0, cuts⟩

/-! ### The agent -/

/-- `_net_recv` -/
def netRecv (s : Socket) : Option String × Socket :=
  let (lb, s) := s.recv 4
  if lb = [] then (none, s)
  else
    let (data, s) := s.recv (fromBytes lb)
    ((Bytes.decode data).map fun t => String.ofList (Text.strip t.toList), s)

/-- Calls of `_net_recv`, one after the other. -/
def netRecvs : ℕ → Socket → List (Option String)
  | 0, _ => []
  | n + 1, s => (netRecv s).1 :: netRecvs n (netRecv s).2

/-- How the loop of `_run_remote_ui` ends. -/
inductive Ending
  | closed
  | empty
  | quit
  deriving DecidableEq

/-- What ends a chat: `user_input.lower() in ("quit", "exit")`. -/
def isQuit (s : String) : Bool := String.ofList (s.toList.map Char.toLower) ∈ ["quit", "exit"]

/-- The loop of `_run_remote_ui`, for so many rounds at most: the turns that are made, and how it ends. -/
def remoteUi : ℕ → Socket → List String × Option Ending
  | 0, _ => ([], none)
  | n + 1, s =>
    match netRecv s with
    | (none, _) => ([], some .closed)
    | (some input, s) =>
      if input = "" then ([], some .empty)
      else if isQuit input then ([input], some .quit)
      else (input :: (remoteUi n s).1, (remoteUi n s).2)

/-! ### The terminal -/

/-- `recvall`: each read gets a byte at least, or ends it. -/
def recvall : ℕ → ℕ → Bytes → Socket → Option Bytes × Socket
  | 0, _, data, s => (some data, s)
  | fuel + 1, n, data, s =>
    if data.length < n then
      match s.recv (n - data.length) with
      | ([], s) => (none, s)
      | (packet, s) => recvall fuel n (data ++ packet) s
    else (some data, s)

/-- `receive_loop`, for so many frames at most: what is printed. -/
def receiveLoop : ℕ → Socket → List Bytes
  | 0, _ => []
  | fuel + 1, s =>
    match recvall 4 4 [] s with
    | (none, _) | (some [], _) => []
    | (some lenBytes, s) =>
      match recvall (fromBytes lenBytes) (fromBytes lenBytes) [] s with
      | (none, _) | (some [], _) => []
      | (some data, s) => data :: receiveLoop fuel s

section Bytes

variable {m : Message} {ms : List Message} {s : Socket} {cuts : ℕ → ℕ}

theorem toNat_ofNat (n : ℕ) : (UInt8.ofNat n).toNat = n % 256 := UInt8.toNat_ofNat'

theorem fromBytes_toBytes {n : ℕ} (h : n < 2 ^ 32) : fromBytes (toBytes n) = n := by
  unfold fromBytes toBytes
  simp only [List.foldl_cons, List.foldl_nil, toNat_ofNat]
  omega

theorem wire_cons (m : Message) (ms : List Message) : wire (m :: ms) = toBytes m.data.length ++ (m.data ++ wire ms) := by
  unfold wire
  rw [List.flatMap_cons, Message.frame, List.append_assoc]

/-- A read that finds all it asks for. -/
theorem recv_whole {front rest : Bytes} (hstream : s.stream = front ++ rest) (hcut : front.length ≤ s.cuts s.reads + 1) :
    s.recv front.length = (front, { s with stream := rest, reads := s.reads + 1 }) := by
  unfold Socket.recv
  rw [hstream, Nat.min_eq_left hcut, List.take_left, List.drop_left]

/-- **`_net_recv` returns the text** where its two reads find all that they ask for. -/
theorem netRecv_whole (hstream : s.stream = wire (m :: ms)) (hheader : 4 ≤ s.cuts s.reads + 1)
    (hdata : m.data.length ≤ s.cuts (s.reads + 1) + 1) : netRecv s =
      (some (String.ofList (Text.strip m.1.toList)), { s with stream := wire ms, reads := s.reads + 2 }) := by
  have hfirst : s.recv 4 = (toBytes m.data.length, { s with stream := m.data ++ wire ms, reads := s.reads + 1 }) :=
    recv_whole (hstream.trans (wire_cons m ms)) hheader
  have hsecond := recv_whole (s := { s with stream := m.data ++ wire ms, reads := s.reads + 1 }) rfl hdata
  have hlength : fromBytes (toBytes m.data.length) = m.data.length := fromBytes_toBytes m.2
  have hne : toBytes m.data.length ≠ [] := List.cons_ne_nil _ _
  have hdecode : Bytes.decode m.data = some m.1 := Bytes.decode_encode m.1
  unfold netRecv
  simp only [hfirst, if_neg hne, hlength, hsecond, hdecode, Option.map_some]

/-- From a text's reads on, each of the agent's reads finds all that it asks for: four bytes, and then those of the text. -/
def WholeFrom (k : ℕ) (ms : List Message) (cuts : ℕ → ℕ) : Prop :=
  ∀ i m, ms[i]? = some m → 4 ≤ cuts (2 * (k + i)) + 1 ∧ m.data.length ≤ cuts (2 * (k + i) + 1) + 1

/-- All of them do. -/
def Whole (ms : List Message) (cuts : ℕ → ℕ) : Prop := WholeFrom 0 ms cuts

def stripped (m : Message) : String := String.ofList (Text.strip m.1.toList)

theorem WholeFrom.cons {k : ℕ} (h : WholeFrom k (m :: ms) cuts) :
    4 ≤ cuts (2 * k) + 1 ∧ m.data.length ≤ cuts (2 * k + 1) + 1 ∧ WholeFrom (k + 1) ms cuts := by
  refine ⟨(h 0 m rfl).1, (h 0 m rfl).2, fun i m' hi => ?_⟩
  have := h (i + 1) m' hi
  rwa [show k + (i + 1) = k + 1 + i by omega] at this

/-- **Calls of `_net_recv`** return the texts one after the other. -/
theorem netRecvs_whole (ms : List Message) (k : ℕ) (h : WholeFrom k ms cuts) :
    netRecvs ms.length ⟨wire ms, 2 * k, cuts⟩ = ms.map fun m => some (stripped m) := by
  induction ms generalizing k with
  | nil => rfl
  | cons m ms ih =>
    obtain ⟨hheader, hdata, hrest⟩ := h.cons
    have hrecv := netRecv_whole (s := ⟨wire (m :: ms), 2 * k, cuts⟩) rfl hheader hdata
    rw [List.length_cons, netRecvs, hrecv, List.map_cons]
    exact congrArg _ (ih (k + 1) hrest)

theorem netRecv_closed (k : ℕ) : netRecv ⟨[], k, cuts⟩ = (none, ⟨[], k + 1, cuts⟩) := by
  unfold netRecv Socket.recv
  simp

/-- The turns up to the one that ends the chat. -/
def turns : List String → List String
  | [] => []
  | s :: l => if isQuit s then [s] else s :: turns l

/-- The lines that are read before the chat ends. -/
def beforeQuit : List String → List String
  | [] => []
  | s :: l => if isQuit s then [] else s :: beforeQuit l

/-- **The loop makes all turns** but ends at an empty line. -/
theorem remoteUi_whole (ms : List Message) (k n : ℕ) (hn : ms.length < n) (h : WholeFrom k ms cuts) :
    ((remoteUi n ⟨wire ms, 2 * k, cuts⟩).2 ≠ some .empty ↔ "" ∉ beforeQuit (ms.map stripped)) ∧
      ("" ∉ beforeQuit (ms.map stripped) → (remoteUi n ⟨wire ms, 2 * k, cuts⟩).1 = turns (ms.map stripped)) := by
  induction ms generalizing k n with
  | nil =>
    obtain ⟨n, rfl⟩ : ∃ m, n = m + 1 := ⟨n - 1, by rw [List.length_nil] at hn; omega⟩
    have hclosed : netRecv ⟨wire [], 2 * k, cuts⟩ = (none, ⟨[], 2 * k + 1, cuts⟩) := netRecv_closed _
    rw [remoteUi, hclosed]
    exact ⟨iff_of_true (fun h => (by cases h)) List.not_mem_nil, fun _ => rfl⟩
  | cons m ms ih =>
    obtain ⟨n, rfl⟩ : ∃ m, n = m + 1 := ⟨n - 1, by rw [List.length_cons] at hn; omega⟩
    obtain ⟨hheader, hdata, hrest⟩ := h.cons
    have hrecv := netRecv_whole (s := ⟨wire (m :: ms), 2 * k, cuts⟩) rfl hheader hdata
    have ih := ih (k + 1) n (by rw [List.length_cons] at hn; omega) hrest
    rw [remoteUi, hrecv, List.map_cons, beforeQuit, turns]
    dsimp only
    have hinput : String.ofList (Text.strip m.1.toList) = stripped m := rfl
    rw [hinput]
    by_cases hempty : stripped m = ""
    · have hnot : isQuit (stripped m) = false := by rw [hempty]; decide
      rw [if_pos hempty, hnot, hempty]
      exact ⟨iff_of_false (fun h => h rfl) (fun h => h List.mem_cons_self), fun h => absurd List.mem_cons_self h⟩
    · rw [if_neg hempty]
      split_ifs with hquit
      · exact ⟨iff_of_true (fun h => (by cases h)) List.not_mem_nil, fun _ => rfl⟩
      · rw [List.mem_cons, not_or]
        exact ⟨ih.1.trans (and_iff_right (Ne.symm hempty)).symm, fun h => congrArg _ (ih.2 h.2)⟩

/-! ### The rounds of the loop are enough -/

theorem recv_length (s : Socket) (n : ℕ) : (s.recv n).2.stream.length ≤ s.stream.length := by
  unfold Socket.recv
  dsimp only
  rw [List.length_drop]
  omega

theorem recv_lt {n : ℕ} (h : (s.recv n).1 ≠ []) : (s.recv n).2.stream.length < s.stream.length := by
  unfold Socket.recv at h ⊢
  dsimp only at h ⊢
  have hpos := List.length_pos_iff.mpr h
  rw [List.length_take] at hpos
  rw [List.length_drop]
  omega

/-- A text that comes has taken a byte. -/
theorem netRecv_lt {t : String} (h : (netRecv s).1 = some t) : (netRecv s).2.stream.length < s.stream.length := by
  unfold netRecv at h ⊢
  dsimp only at h ⊢
  by_cases hempty : (s.recv 4).1 = []
  · rw [if_pos hempty] at h
    cases h
  · rw [if_neg hempty]
    have hlt := recv_lt hempty
    have hle := recv_length (s.recv 4).2 (fromBytes (s.recv 4).1)
    dsimp only
    omega

/-- The loop of `_run_remote_ui` over the whole stream. -/
def session (s : Socket) : List String × Option Ending := remoteUi (s.stream.length + 1) s

theorem remoteUi_ends {n : ℕ} (h : s.stream.length < n) : (remoteUi n s).2 ≠ none := by
  induction n generalizing s with
  | zero => omega
  | succ n ih =>
    rw [remoteUi]
    cases hrecv : netRecv s with
    | mk input s' =>
      cases input with
      | none => exact fun h => by cases h
      | some input =>
        dsimp only
        split_ifs
        · exact fun h => by cases h
        · exact fun h => by cases h
        · have hlt := netRecv_lt (s := s) (congrArg Prod.fst hrecv)
          rw [hrecv] at hlt
          dsimp only at hlt
          exact ih (by omega)

theorem session_ends (s : Socket) : (session s).2 ≠ none := remoteUi_ends (Nat.lt_succ_self _)

theorem length_wire (ms : List Message) : ms.length ≤ (wire ms).length := by
  induction ms with
  | nil => exact Nat.le_refl _
  | cons m ms ih =>
    have hheader : (toBytes m.data.length).length = 4 := rfl
    rw [wire_cons, List.length_append, List.length_append, List.length_cons, hheader]
    omega

/-! ### What the agent receives -/

/-- The agent gets the texts one after the other, and no empty line ends the session. -/
structure Received (ms : List Message) (cuts : ℕ → ℕ) : Prop where
  texts : netRecvs ms.length (opened ms cuts) = ms.map fun m => some (stripped m)
  goesOn : ∃ ending, (session (opened ms cuts)).2 = some ending ∧ ending ≠ .empty

theorem received_whole (h : Whole ms cuts) : Received ms cuts ↔ "" ∉ beforeQuit (ms.map stripped) := by
  have hsession := remoteUi_whole ms 0 ((wire ms).length + 1) (Nat.lt_succ_of_le (length_wire ms)) h
  constructor
  · rintro ⟨-, ending, hends, hne⟩
    exact hsession.1.mp fun hempty => hne (Option.some.inj (hends.symm.trans hempty))
  · intro hblank
    obtain ⟨ending, hends⟩ := Option.ne_none_iff_exists'.mp (session_ends (opened ms cuts))
    exact ⟨netRecvs_whole ms 0 h, ending, hends, fun hempty => hsession.1.mpr hblank (hempty ▸ hends)⟩

/-- Then the session makes a turn for each line. -/
theorem session_turns (h : Whole ms cuts) (hblank : "" ∉ beforeQuit (ms.map stripped)) :
    (session (opened ms cuts)).1 = turns (ms.map stripped) :=
  (remoteUi_whole ms 0 ((wire ms).length + 1) (Nat.lt_succ_of_le (length_wire ms)) h).2 hblank

theorem strip_singleton (c : Char) : Text.strip [c] = if Text.isSpace c then [] else [c] := by
  unfold Text.strip Text.stripBy
  by_cases h : Text.isSpace c = true <;> simp [h, List.rdropWhile]

theorem decode_byte : ∀ n < 256, Bytes.decode [UInt8.ofNat n] = none ∨
    Bytes.decode [UInt8.ofNat n] = some (String.singleton (Char.ofNat n)) ∧
      Bytes.encode (String.singleton (Char.ofNat n)) = [UInt8.ofNat n] := by decide +kernel

theorem encode_append (s t : String) : Bytes.encode (s ++ t) = Bytes.encode s ++ Bytes.encode t := by
  unfold Bytes.encode
  simp [String.toUTF8]

/-- A byte that reads as a text that is not blank is a character that is no white space. -/
theorem decode_singleton {b : UInt8} {x : String} (h : (Bytes.decode [b]).map (fun t => String.ofList (Text.strip t.toList)) = some x)
    (hne : x ≠ "") : ∃ c, Bytes.encode (String.singleton c) = [b] ∧ x = String.singleton c ∧ Text.isSpace c = false := by
  have hbyte := decode_byte b.toNat b.toNat_lt
  rw [UInt8.ofNat_toNat] at hbyte
  rcases hbyte with hnone | ⟨hsome, hencode⟩
  · rw [hnone] at h
    cases h
  · rw [hsome, Option.map_some, String.toList_singleton, strip_singleton] at h
    split_ifs at h with hspace
    · exact absurd (Option.some.inj h).symm hne
    · exact ⟨_, hencode, (Option.some.inj h).symm, by simpa using hspace⟩

/-- Of a length of which less than four bytes are read, and a text of which one or two are. -/
def cut (a b : ℕ) : ℕ → ℕ := fun i => if i = 0 then a else b

theorem netRecv_cut (lb : Bytes) {rest : Bytes} (a b : ℕ) (hstream : s.stream = lb ++ rest) (hreads : s.reads = 0) (hcuts : s.cuts = cut a b)
    (hlb : lb.length = a + 1) (ha : a < 4) (hlength : b + 1 ≤ fromBytes lb) :
    (netRecv s).1 = (Bytes.decode (rest.take (b + 1))).map fun t => String.ofList (Text.strip t.toList) := by
  have hfirst : s.recv 4 = (lb, ⟨rest, 1, cut a b⟩) := by
    unfold Socket.recv
    have hmin : min 4 (s.cuts s.reads + 1) = lb.length := by
      rw [hcuts, hreads, hlb]
      show min 4 (a + 1) = a + 1
      omega
    rw [hmin, hstream, List.take_left, List.drop_left, hreads, hcuts]
  have hsecond : ((⟨rest, 1, cut a b⟩ : Socket).recv (fromBytes lb)).1 = rest.take (b + 1) := by
    have hmin : min (fromBytes lb) (b + 1) = b + 1 := by omega
    show rest.take (min (fromBytes lb) (b + 1)) = rest.take (b + 1)
    rw [hmin]
  have hne : lb ≠ [] := fun h => by rw [h] at hlb; cases hlb
  unfold netRecv
  simp only [hfirst, if_neg hne, hsecond]

/-- Of a length that begins with zero, one byte says that there is no text. -/
theorem netRecv_zero {rest : Bytes} (hstream : s.stream = 0 :: rest) (hreads : s.reads = 0) (hcuts : s.cuts = cut 0 0) :
    (netRecv s).1 = some "" := by
  have hfirst : s.recv 4 = ([0], ⟨rest, 1, cut 0 0⟩) := by
    unfold Socket.recv
    rw [hreads, hcuts, hstream]
    rfl
  have hsecond : ((⟨rest, 1, cut 0 0⟩ : Socket).recv (fromBytes [0])).1 = [] := by
    have hzero : ((⟨rest, 1, cut 0 0⟩ : Socket).recv (fromBytes [0])).1 = rest.take (min 0 1) := rfl
    rw [hzero, Nat.zero_min, List.take_zero]
  have hdecode : (Bytes.decode []).map (fun t => String.ofList (Text.strip t.toList)) = some "" := by decide +kernel
  unfold netRecv
  have hne : ([0] : Bytes) ≠ [] := List.cons_ne_nil _ _
  simp only [hfirst, hsecond, hdecode, if_neg hne]

theorem strip_pair {c d : Char} (hc : Text.isSpace c = false) (hd : Text.isSpace d = false) : Text.strip [c, d] = [c, d] := by
  unfold Text.strip Text.stripBy
  simp [hc, hd, List.rdropWhile]

/-- **No text is safe**: a text that is not blank is not what `_net_recv` returns under some cut. -/
theorem exists_cut (m : Message) (ms : List Message) (h : stripped m ≠ "") :
    ∃ cuts, (netRecv (opened (m :: ms) cuts)).1 ≠ some (stripped m) := by
  by_contra hall
  push Not at hall
  obtain ⟨h0, h1, h2, h3, hbytes⟩ : ∃ h0 h1 h2 h3, toBytes m.data.length = [h0, h1, h2, h3] := ⟨_, _, _, _, rfl⟩
  have hstream : ∀ cuts, (opened (m :: ms) cuts).stream = h0 :: h1 :: h2 :: h3 :: (m.data ++ wire ms) := fun cuts => by
    show wire (m :: ms) = _
    rw [wire_cons, hbytes]
    rfl
  by_cases hzero : h0 = 0
  · have hempty := netRecv_zero ((hstream (cut 0 0)).trans (by rw [hzero])) rfl rfl
    rw [hall (cut 0 0)] at hempty
    exact h (Option.some.inj hempty)
  · have hpos : 1 ≤ h0.toNat := by
      have : h0.toNat ≠ 0 := fun hn => hzero (UInt8.toNat_inj.mp hn)
      omega
    have htwo : 2 ≤ fromBytes [h0, h1] := by
      show 2 ≤ 256 * (256 * 0 + h0.toNat) + h1.toNat
      omega
    have hthree : 1 ≤ fromBytes [h0, h1, h2] := by
      show 1 ≤ 256 * (256 * (256 * 0 + h0.toNat) + h1.toNat) + h2.toNat
      omega
    have hone := netRecv_cut [h0, h1] 1 0 (hstream (cut 1 0)) rfl rfl rfl (by omega) (by omega)
    have hboth := netRecv_cut [h0, h1] 1 1 (hstream (cut 1 1)) rfl rfl rfl (by omega) htwo
    have hlast := netRecv_cut [h0, h1, h2] 2 0 (hstream (cut 2 0)) rfl rfl rfl (by omega) hthree
    rw [hall] at hone hboth hlast
    obtain ⟨c, hc, htext, hspace⟩ := decode_singleton hone.symm h
    obtain ⟨d, hd, htext', hspace'⟩ := decode_singleton hlast.symm h
    have hpair : Bytes.decode [h2, h3] = some (String.singleton c ++ String.singleton d) := by
      have hsplit : [h2, h3] = Bytes.encode (String.singleton c ++ String.singleton d) := by
        rw [encode_append, hc, hd]
        rfl
      rw [hsplit, Bytes.decode_encode]
    have hstrip : Text.strip (String.singleton c ++ String.singleton d).toList = [c, d] := by
      rw [String.toList_append, String.toList_singleton, String.toList_singleton]
      exact strip_pair hspace hspace'
    have htake : (h2 :: h3 :: (m.data ++ wire ms)).take (1 + 1) = [h2, h3] := rfl
    rw [htake, hpair, Option.map_some, hstrip, htext] at hboth
    have hlength := congrArg (fun s => s.toList.length) (Option.some.inj hboth)
    simp at hlength

theorem received_iff (ms : List Message) : (∀ cuts, Received ms cuts) ↔ ms = [] := by
  constructor
  · intro hall
    cases ms with
    | nil => rfl
    | cons m ms =>
      exfalso
      by_cases hblank : stripped m = ""
      · -- an empty line ends the session even where all reads are whole
        have hwhole : Whole (m :: ms) fun _ => 2 ^ 32 := by
          intro i m' _
          have hlength : m'.data.length < 2 ^ 32 := m'.2
          dsimp only
          omega
        have hempty := (received_whole hwhole).mp (hall _)
        rw [List.map_cons, beforeQuit, hblank] at hempty
        exact hempty (by rw [if_neg (by decide)]; exact List.mem_cons_self)
      · obtain ⟨cuts, hcut⟩ := exists_cut m ms hblank
        have htexts := (hall cuts).texts
        rw [List.length_cons, netRecvs, List.map_cons] at htexts
        exact hcut (List.cons.inj htexts).1
  · rintro rfl cuts
    exact (received_whole fun i m hi => by cases hi).mpr List.not_mem_nil

/-! ### What the terminal prints -/

/-- **`recvall` gets all bytes** that there are, however they are cut. -/
theorem recvall_eq (s : Socket) (fuel n : ℕ) (data : Bytes) {front rest : Bytes} (hstream : s.stream = front ++ rest) (hn : data.length + front.length = n)
    (hfuel : front.length ≤ fuel) : ∃ reads, recvall fuel n data s = (some (data ++ front), ⟨rest, reads, s.cuts⟩) := by
  induction fuel generalizing data front s with
  | zero =>
    obtain rfl : front = [] := List.length_eq_zero_iff.mp (Nat.le_zero.mp hfuel)
    exact ⟨s.reads, by rw [recvall, List.append_nil, ← List.nil_append rest, ← hstream]⟩
  | succ fuel ih =>
    rw [recvall]
    by_cases hlt : data.length < n
    · rw [if_pos hlt]
      obtain ⟨k, hk⟩ : ∃ k, k = min (n - data.length) (s.cuts s.reads + 1) := ⟨_, rfl⟩
      have hkpos : 0 < k := by omega
      have hkle : k ≤ front.length := by omega
      have hrecv : s.recv (n - data.length) = (front.take k, ⟨front.drop k ++ rest, s.reads + 1, s.cuts⟩) := by
        unfold Socket.recv
        rw [← hk, hstream, List.take_append_of_le_length hkle, List.drop_append_of_le_length hkle]
      obtain ⟨b, packet, hpacket⟩ : ∃ b packet, front.take k = b :: packet :=
        List.exists_cons_of_ne_nil (List.ne_nil_of_length_pos (by rw [List.length_take]; omega))
      rw [hrecv, hpacket]
      dsimp only
      rw [← hpacket]
      obtain ⟨reads, hrest⟩ := ih ⟨front.drop k ++ rest, s.reads + 1, s.cuts⟩ (data ++ front.take k) rfl
        (by rw [List.length_append, List.length_take, List.length_drop]; omega) (by rw [List.length_drop]; omega)
      refine ⟨reads, hrest.trans ?_⟩
      rw [List.append_assoc, List.take_append_drop]
    · obtain rfl : front = [] := List.length_eq_zero_iff.mp (by omega)
      rw [if_neg hlt]
      exact ⟨s.reads, by rw [List.append_nil, ← List.nil_append rest, ← hstream]⟩

/-- The terminal prints the texts up to the first of no bytes. -/
theorem receiveLoop_wire (ms : List Message) (n reads : ℕ) (hn : ms.length < n) :
    receiveLoop n ⟨wire ms, reads, cuts⟩ = (ms.map Message.data).takeWhile (· ≠ []) := by
  induction ms generalizing n reads with
  | nil =>
    obtain ⟨n, rfl⟩ : ∃ m, n = m + 1 := ⟨n - 1, by rw [List.length_nil] at hn; omega⟩
    have hclosed : recvall 4 4 [] ⟨wire [], reads, cuts⟩ = (none, ⟨[], reads + 1, cuts⟩) := by
      have hrecv : (⟨wire [], reads, cuts⟩ : Socket).recv 4 = ([], ⟨[], reads + 1, cuts⟩) := by
        unfold Socket.recv wire
        rw [List.flatMap_nil, List.take_nil, List.drop_nil]
      rw [recvall, if_pos (by decide)]
      rw [List.length_nil, Nat.sub_zero, hrecv]
    rw [receiveLoop, hclosed]
    rfl
  | cons m ms ih =>
    obtain ⟨n, rfl⟩ : ∃ m, n = m + 1 := ⟨n - 1, by rw [List.length_cons] at hn; omega⟩
    obtain ⟨r, hheader⟩ := recvall_eq ⟨wire (m :: ms), reads, cuts⟩ 4 4 [] (wire_cons m ms) rfl (Nat.le_refl _)
    obtain ⟨r', hdata⟩ := recvall_eq ⟨m.data ++ wire ms, r, cuts⟩ m.data.length m.data.length [] rfl (Nat.zero_add _) (Nat.le_refl _)
    rw [receiveLoop, hheader]
    have hlength : fromBytes (toBytes m.data.length) = m.data.length := fromBytes_toBytes m.2
    obtain ⟨b, bs, hbytes⟩ : ∃ b bs, toBytes m.data.length = b :: bs := ⟨_, _, rfl⟩
    rw [List.nil_append, hbytes]
    dsimp only
    rw [← hbytes, hlength, hdata, List.map_cons]
    cases hm : m.data with
    | nil => rfl
    | cons c cs => exact congrArg (_ :: ·) (ih n r' (by rw [List.length_cons] at hn; omega))

/-- `receive_loop` over the whole stream. -/
def terminal (s : Socket) : List Bytes := receiveLoop (s.stream.length + 1) s

/-- What is printed is the texts, in their order. -/
def Delivered (ms : List Message) (cuts : ℕ → ℕ) : Prop := (terminal (opened ms cuts)).map Bytes.decode = ms.map fun m => some m.1

theorem data_eq_nil {m : Message} : m.data = [] ↔ m.1 = "" := by
  constructor
  · intro h
    have hdecode := Bytes.decode_encode m.1
    rw [show Bytes.encode m.1 = [] from h] at hdecode
    exact (Option.some.inj (hdecode.symm.trans (by decide +kernel))).trans rfl
  · intro h
    unfold Message.data
    rw [h]
    decide +kernel

theorem delivered_iff (ms : List Message) (cuts : ℕ → ℕ) : Delivered ms cuts ↔ ∀ m ∈ ms, m.1 ≠ "" := by
  have hterminal : terminal (opened ms cuts) = (ms.map Message.data).takeWhile (· ≠ []) :=
    receiveLoop_wire ms _ 0 (Nat.lt_succ_of_le (length_wire ms))
  have hdecode : ms.map (fun m => some m.1) = (ms.map Message.data).map Bytes.decode := by
    rw [List.map_map]
    exact List.map_congr_left fun m _ => (Bytes.decode_encode m.1).symm
  unfold Delivered
  rw [hterminal, hdecode]
  constructor
  · intro h m hm hempty
    have hlength := congrArg List.length h
    rw [List.length_map, List.length_map] at hlength
    have hall := List.takeWhile_eq_self_iff.mp ((List.takeWhile_prefix _).eq_of_length hlength) m.data (List.mem_map_of_mem hm)
    rw [data_eq_nil.mpr hempty] at hall
    exact absurd hall (by decide)
  · intro h
    rw [List.takeWhile_eq_self_iff.mpr]
    intro b hb
    obtain ⟨m, hm, rfl⟩ := List.mem_map.mp hb
    exact decide_eq_true fun hnil => h m hm (data_eq_nil.mp hnil)

end Bytes

/-- **The chat's frames round-trip**: under every cut only where the agent is sent no line and the terminal no empty text; and
where the agent's reads are whole, just if no line before the end of the chat is blank and the terminal gets no empty text. -/
theorem chat_iff (ms frames : List Message) :
    ((∀ cuts, Received ms cuts) ∧ (∀ cuts, Delivered frames cuts) ↔ ms = [] ∧ ∀ m ∈ frames, m.1 ≠ "") ∧
    ∀ cuts cuts', Whole ms cuts → (Received ms cuts ∧ Delivered frames cuts' ↔
      "" ∉ beforeQuit (ms.map stripped) ∧ ∀ m ∈ frames, m.1 ≠ "") := by
  constructor
  · rw [received_iff]
    refine and_congr_right fun _ => ⟨fun h => (delivered_iff frames fun _ => 0).mp (h _), fun h cuts => (delivered_iff frames cuts).mpr h⟩
  · intro cuts cuts' hwhole
    rw [received_whole hwhole, delivered_iff]

/-- A line of two characters that the agent's first read cuts. -/
def hello : Message := ⟨"hi", by decide +kernel⟩

/-- The agent takes the first byte of the length for all of it. -/
theorem line_cut : ¬∀ ms frames : List Message, (∀ cuts, Received ms cuts) ∧ ∀ cuts, Delivered frames cuts := by
  intro h
  have htexts := ((h [hello] []).1 fun _ => 0).texts
  have hrun : netRecvs 1 (opened [hello] fun _ => 0) = [some ""] := by decide +kernel
  have hline : [hello].map (fun m => some (stripped m)) = [some "hi"] := by decide +kernel
  rw [hline] at htexts
  rw [List.length_singleton, hrun] at htexts
  revert htexts
  decide

end Chat
end LocaiLink
