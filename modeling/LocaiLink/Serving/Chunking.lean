/-
# The recorder does not see the chunks

`ingest_chunk` keeps what it has received of an event and drains the events that are
complete. The two delimiters have different lengths and a chunk may end inside either,
but a delimiter that is complete is not preceded by one that completes later (`cut_append`).
So however a stream is cut into chunks, the recorder absorbs the events of the stream, in
their order, and is left with what is behind the last (`chunking_independent`).
-/
import LocaiLink.Base.Framing
import LocaiLink.Serving.Relay

namespace LocaiLink
namespace ServingProxy

open Json (dict getOr)

/-! ### The events of a stream -/

/-- What is behind an event delimiter: an empty line, ended by LF LF or by CR LF CR LF. -/
def behindDelimiter : Bytes → Option Bytes
  | 0x0a :: 0x0a :: l => some l
  | 0x0d :: 0x0a :: 0x0d :: 0x0a :: l => some l
  | _ => none

/-- The stream up to its leftmost delimiter, and from behind it. -/
def cut : Bytes → Option (Bytes × Bytes)
  | [] => none
  | b :: l =>
    match behindDelimiter (b :: l) with
    | some rest => some ([], rest)
    | none => (cut l).map fun p => (b :: p.1, p.2)

theorem cut_delimited {b : UInt8} {l rest : Bytes} (h : behindDelimiter (b :: l) = some rest) : cut (b :: l) = some ([], rest) := by
  rw [cut, h]

theorem cut_undelimited {b : UInt8} {l : Bytes} (h : behindDelimiter (b :: l) = none) :
    cut (b :: l) = (cut l).map fun p => (b :: p.1, p.2) := by
  rw [cut, h]

theorem behindDelimiter_length {l rest : Bytes} (h : behindDelimiter l = some rest) : rest.length < l.length := by
  unfold behindDelimiter at h
  split at h
  · cases h
    simp only [List.length_cons]
    omega
  · cases h
    simp only [List.length_cons]
    omega
  · cases h

theorem behindDelimiter_append {l rest : Bytes} (h : behindDelimiter l = some rest) (more : Bytes) :
    behindDelimiter (l ++ more) = some (rest ++ more) := by
  unfold behindDelimiter at h
  split at h
  · cases h
    rfl
  · cases h
    rfl
  · cases h

/-- What is no delimiter yet but becomes one holds no other. -/
theorem cut_of_unfinished {b : UInt8} {l more rest : Bytes} (h : behindDelimiter (b :: l) = none)
    (hmore : behindDelimiter (b :: l ++ more) = some rest) : cut l = none := by
  match l with
  | [] => rfl
  | [c] =>
    unfold behindDelimiter at hmore
    split at hmore
    · rename_i heq
      simp_all [behindDelimiter]
    · rename_i heq
      obtain ⟨-, heq⟩ := List.cons.inj heq
      obtain ⟨rfl, -⟩ := List.cons.inj heq
      rfl
    · cases hmore
  | [c, d] =>
    unfold behindDelimiter at hmore
    split at hmore
    · rename_i heq
      simp_all [behindDelimiter]
    · rename_i heq
      obtain ⟨-, heq⟩ := List.cons.inj heq
      obtain ⟨hc, heq'⟩ := List.cons.inj heq
      obtain ⟨hd, -⟩ := List.cons.inj heq'
      subst hc hd
      rfl
    · cases hmore
  | c :: d :: e :: l =>
    unfold behindDelimiter at hmore
    split at hmore
    · rename_i heq
      simp_all [behindDelimiter]
    · rename_i heq
      simp_all [behindDelimiter]
    · cases hmore

theorem cut_length : ∀ (l event rest : Bytes), cut l = some (event, rest) → rest.length < l.length
  | [], _, _, h => by cases h
  | b :: l, event, rest, h => by
    cases hd : behindDelimiter (b :: l) with
    | some r =>
      rw [cut_delimited hd] at h
      cases h
      exact behindDelimiter_length hd
    | none =>
      rw [cut_undelimited hd] at h
      obtain ⟨p, hp, heq⟩ := Option.map_eq_some_iff.mp h
      obtain ⟨-, rfl⟩ := Prod.mk.inj heq
      exact (cut_length l p.1 p.2 hp).trans (Nat.lt_succ_self _)

/-- The leftmost delimiter stays the leftmost, whatever arrives behind it. -/
theorem cut_append : ∀ (l event rest more : Bytes), cut l = some (event, rest) → cut (l ++ more) = some (event, rest ++ more)
  | [], _, _, _, h => by cases h
  | b :: l, event, rest, more, h => by
    cases hd : behindDelimiter (b :: l) with
    | some r =>
      rw [cut_delimited hd] at h
      cases h
      exact cut_delimited (behindDelimiter_append hd more)
    | none =>
      rw [cut_undelimited hd] at h
      obtain ⟨p, hp, heq⟩ := Option.map_eq_some_iff.mp h
      obtain ⟨rfl, rfl⟩ := Prod.mk.inj heq
      have hmore : behindDelimiter (b :: (l ++ more)) = none := by
        cases hm : behindDelimiter (b :: (l ++ more)) with
        | none => rfl
        | some r =>
          have hnone := cut_of_unfinished hd hm
          rw [hnone] at hp
          cases hp
      rw [List.cons_append, cut_undelimited hmore, cut_append l p.1 p.2 more hp]
      rfl

/-- Server-sent events are cut at the leftmost delimiters. -/
def eventFramer : Framer UInt8 := ⟨cut, cut_length, cut_append⟩

/-- The events of a stream, and what is behind the last. -/
def events (stream : Bytes) : List Bytes × Bytes := eventFramer.frames stream

/-! ### Two searches find the leftmost delimiter -/

theorem find_cons {sep l : Bytes} {b : UInt8} (h : sep.isPrefixOf (b :: l) = false) :
    find sep (b :: l) = (find sep l).map (· + 1) := by
  rw [find, if_neg (by simp [h])]

theorem find_front {sep l : Bytes} {b : UInt8} (h : sep.isPrefixOf (b :: l) = true) : find sep (b :: l) = some 0 := by
  rw [find, if_pos h]

theorem lf_eq : ascii "\n\n" = [0x0a, 0x0a] := by decide +kernel

theorem crlf_eq : ascii "\r\n\r\n" = [0x0d, 0x0a, 0x0d, 0x0a] := by decide +kernel

namespace Recorder

/-- Where neither delimiter is at the front, both are as far behind the next byte. -/
theorem nextEvent_cons {b : UInt8} {l : Bytes} (hlf : (ascii "\n\n").isPrefixOf (b :: l) = false)
    (hcrlf : (ascii "\r\n\r\n").isPrefixOf (b :: l) = false) :
    nextEvent (b :: l) = (nextEvent l).map fun p => (b :: p.1, p.2) := by
  unfold nextEvent
  rw [find_cons hlf, find_cons hcrlf]
  cases find (ascii "\n\n") l with
  | none =>
    cases find (ascii "\r\n\r\n") l with
    | none => rfl
    | some crlf => rfl
  | some lf =>
    cases find (ascii "\r\n\r\n") l with
    | none => rfl
    | some crlf =>
      simp only [Option.map_some]
      by_cases hlt : lf < crlf
      · rw [if_pos (by omega), if_pos hlt]
        rfl
      · rw [if_neg (by omega), if_neg hlt]
        rfl

theorem nextEvent_lf (l : Bytes) : nextEvent (0x0a :: 0x0a :: l) = some ([], l) := by
  have hlf : find (ascii "\n\n") (0x0a :: 0x0a :: l) = some 0 := find_front (by rw [lf_eq]; rfl)
  have hcrlf : find (ascii "\r\n\r\n") (0x0a :: 0x0a :: l) = (find (ascii "\r\n\r\n") (0x0a :: l)).map (· + 1) :=
    find_cons (by rw [crlf_eq]; rfl)
  rw [nextEvent, hlf, hcrlf]
  cases find (ascii "\r\n\r\n") (0x0a :: l) with
  | none => rfl
  | some crlf => exact if_pos (Nat.succ_pos crlf)

theorem nextEvent_crlf (l : Bytes) : nextEvent (0x0d :: 0x0a :: 0x0d :: 0x0a :: l) = some ([], l) := by
  have hcrlf : find (ascii "\r\n\r\n") (0x0d :: 0x0a :: 0x0d :: 0x0a :: l) = some 0 := find_front (by rw [crlf_eq]; rfl)
  have hlf : find (ascii "\n\n") (0x0d :: 0x0a :: 0x0d :: 0x0a :: l) =
      (find (ascii "\n\n") (0x0a :: 0x0d :: 0x0a :: l)).map (· + 1) := find_cons (by rw [lf_eq]; rfl)
  rw [nextEvent, hlf, hcrlf]
  cases find (ascii "\n\n") (0x0a :: 0x0d :: 0x0a :: l) with
  | none => rfl
  | some lf => exact if_neg (Nat.not_lt_zero _)

/-- `nextEvent` takes what is up to the leftmost delimiter. -/
theorem nextEvent_eq : ∀ l : Bytes, nextEvent l = cut l
  | [] => by
    rw [nextEvent, lf_eq, crlf_eq]
    rfl
  | b :: l => by
    cases hd : behindDelimiter (b :: l) with
    | some rest =>
      rw [cut_delimited hd]
      unfold behindDelimiter at hd
      split at hd
      · cases hd
        rename_i heq
        rw [heq]
        exact nextEvent_lf rest
      · cases hd
        rename_i heq
        rw [heq]
        exact nextEvent_crlf rest
      · cases hd
    | none =>
      have hlf : (ascii "\n\n").isPrefixOf (b :: l) = false := by
        by_contra hpre
        obtain ⟨rest, hrest⟩ := List.isPrefixOf_iff_prefix.mp (Bool.not_eq_false _ ▸ hpre)
        rw [lf_eq] at hrest
        rw [← hrest] at hd
        cases hd
      have hcrlf : (ascii "\r\n\r\n").isPrefixOf (b :: l) = false := by
        by_contra hpre
        obtain ⟨rest, hrest⟩ := List.isPrefixOf_iff_prefix.mp (Bool.not_eq_false _ ▸ hpre)
        rw [crlf_eq] at hrest
        rw [← hrest] at hd
        cases hd
      rw [nextEvent_cons hlf hcrlf, cut_undelimited hd, nextEvent_eq l]

/-! ### The buffer plays no part in an event -/

variable {L : Library}

/-- Another buffer. -/
def holding (buf : Bytes) (r : Recorder) : Recorder := { r with sseBuf := buf }

theorem absorb_holding (buf : Bytes) (d : Dict String Json) (r : Recorder) :
    (r.holding buf).absorb d = ((r.absorb d).1.holding buf, (r.absorb d).2) := by
  unfold absorb
  cases (d.get? "usage").bind dict with
  | none =>
    dsimp only
    split <;> rfl
  | some u =>
    dsimp only
    split <;> rfl

theorem consumeLine_holding (buf line : Bytes) (r : Recorder) :
    (r.holding buf).consumeLine L line = ((r.consumeLine L line).1.holding buf, (r.consumeLine L line).2) := by
  unfold consumeLine
  dsimp only
  split_ifs
  · rfl
  · cases L.loads (stripBytes ((stripBytes line).drop 5)) with
    | ok obj =>
      dsimp only
      cases dict obj with
      | some d => exact absorb_holding buf d r
      | none => rfl
    | error e => cases e <;> rfl
  · rfl

theorem consumeLines_holding (buf : Bytes) : ∀ (lines : List Bytes) (r : Recorder),
    (r.holding buf).consumeLines L lines = ((r.consumeLines L lines).1.holding buf, (r.consumeLines L lines).2)
  | [], _ => rfl
  | line :: lines, r => by
    rw [consumeLines, consumeLine_holding, consumeLines]
    rcases r.consumeLine L line with ⟨r', _ | e⟩
    · exact consumeLines_holding buf lines r'
    · rfl

theorem consumeEvent_holding (buf event : Bytes) (r : Recorder) :
    (r.holding buf).consumeEvent L event = ((r.consumeEvent L event).1.holding buf, (r.consumeEvent L event).2) :=
  consumeLines_holding buf _ r

/-! ### Draining is absorbing the events -/

/-- The events in their order, up to one that raises. -/
def absorbEvents (L : Library) : List Bytes → Recorder → Recorder × Option Raised
  | [], r => (r, none)
  | event :: l, r =>
    match r.consumeEvent L event with
    | (r, none) => absorbEvents L l r
    | (r, some e) => (r, some e)

theorem absorbEvents_append (es es' : List Bytes) {r : Recorder} (h : (absorbEvents L (es ++ es') r).2 = none) :
    (absorbEvents L es r).2 = none ∧ absorbEvents L es' (absorbEvents L es r).1 = absorbEvents L (es ++ es') r := by
  induction es generalizing r with
  | nil => exact ⟨rfl, rfl⟩
  | cons event es ih =>
    rw [List.cons_append, absorbEvents] at h ⊢
    rw [absorbEvents]
    rcases hr : r.consumeEvent L event with ⟨r', _ | e⟩
    · rw [hr] at h
      exact ih h
    · rw [hr] at h
      cases h

theorem absorbEvents_holding (buf : Bytes) : ∀ (es : List Bytes) (r : Recorder),
    absorbEvents L es (r.holding buf) = ((absorbEvents L es r).1.holding buf, (absorbEvents L es r).2)
  | [], _ => rfl
  | event :: es, r => by
    rw [absorbEvents, consumeEvent_holding, absorbEvents]
    rcases r.consumeEvent L event with ⟨r', _ | e⟩
    · exact absorbEvents_holding buf es r'
    · rfl

/-- The loop absorbs as many events as it may, and keeps what is left of the buffer. -/
theorem drain_eq : ∀ (n : ℕ) (r : Recorder), (absorbEvents L (eventFramer.take n r.sseBuf).1 r).2 = none →
    drain L n r = ((absorbEvents L (eventFramer.take n r.sseBuf).1 r).1.holding (eventFramer.take n r.sseBuf).2, none)
  | 0, _, _ => rfl
  | n + 1, r, h => by
    rw [drain, nextEvent_eq]
    cases hcut : cut r.sseBuf with
    | none =>
      rw [Framer.take_none (F := eventFramer) hcut]
      rfl
    | some p =>
      obtain ⟨event, rest⟩ := p
      rw [Framer.take_some (F := eventFramer) hcut] at h ⊢
      rw [absorbEvents] at h ⊢
      have hevent := consumeEvent_holding (L := L) rest event r
      unfold holding at hevent
      dsimp only
      rw [hevent]
      rcases hr : r.consumeEvent L event with ⟨r', _ | e⟩
      · rw [hr] at h
        have hholding := absorbEvents_holding (L := L) rest (eventFramer.take n rest).1 r'
        have hn : (absorbEvents L (eventFramer.take n (r'.holding rest).sseBuf).1 (r'.holding rest)).2 = none := by
          change (absorbEvents L (eventFramer.take n rest).1 (r'.holding rest)).2 = none
          rw [hholding]
          exact h
        refine (drain_eq n (r'.holding rest) hn).trans ?_
        change ((absorbEvents L (eventFramer.take n rest).1 (r'.holding rest)).1.holding _, none) = _
        rw [hholding]
        rfl
      · rw [hr] at h
        cases h

/-- What is left holds no event. -/
theorem cut_leftover (stream : Bytes) : cut (events stream).2 = none := Framer.next_leftover (F := eventFramer) stream

/-- A chunk is absorbed as the events that it completes. -/
theorem ingestChunk_eq {chunk : Bytes} {r : Recorder} (hr : cut r.sseBuf = none)
    (h : (absorbEvents L (events (r.sseBuf ++ chunk)).1 r).2 = none) :
    r.ingestChunk L chunk =
      ((absorbEvents L (events (r.sseBuf ++ chunk)).1 r).1.holding (events (r.sseBuf ++ chunk)).2, none) := by
  unfold ingestChunk
  split_ifs with hnil
  · have hevents : events (r.sseBuf ++ chunk) = ([], r.sseBuf) := by
      rw [hnil, List.append_nil]
      exact Framer.frames_none (F := eventFramer) hr
    rw [hevents]
    rfl
  · have hholding := absorbEvents_holding (L := L) (r.sseBuf ++ chunk) (events (r.sseBuf ++ chunk)).1 r
    have hnone : (absorbEvents L (events (r.sseBuf ++ chunk)).1 (r.holding (r.sseBuf ++ chunk))).2 = none := by
      rw [hholding]
      exact h
    refine (drain_eq _ (r.holding (r.sseBuf ++ chunk)) hnone).trans ?_
    change ((absorbEvents L (events (r.sseBuf ++ chunk)).1 (r.holding (r.sseBuf ++ chunk))).1.holding _, none) = _
    rw [hholding]
    rfl

/-- All chunks together are absorbed as the events of the stream. -/
theorem ingestAll_eq : ∀ (chunks : List Bytes) {r : Recorder}, cut r.sseBuf = none →
    (absorbEvents L (events (r.sseBuf ++ chunks.flatten)).1 r).2 = none →
    ingestAll L chunks r = ((absorbEvents L (events (r.sseBuf ++ chunks.flatten)).1 r).1.holding
      (events (r.sseBuf ++ chunks.flatten)).2, none)
  | [], r, hr, _ => by
    have hevents : events (r.sseBuf ++ List.flatten []) = ([], r.sseBuf) := by
      rw [List.flatten_nil, List.append_nil]
      exact Framer.frames_none (F := eventFramer) hr
    rw [hevents]
    rfl
  | chunk :: chunks, r, hr, h => by
    have happ := Framer.frames_append (F := eventFramer) (r.sseBuf ++ chunk) chunks.flatten
    have hevents : events (r.sseBuf ++ (chunk :: chunks).flatten) =
        ((events (r.sseBuf ++ chunk)).1 ++ (events ((events (r.sseBuf ++ chunk)).2 ++ chunks.flatten)).1,
          (events ((events (r.sseBuf ++ chunk)).2 ++ chunks.flatten)).2) := by
      rw [List.flatten_cons, ← List.append_assoc]
      exact happ
    rw [hevents] at h ⊢
    obtain ⟨hfirst, hrest⟩ := absorbEvents_append _ _ h
    -- the recorder behind the chunk: it has absorbed the events so far, and what is left is no event
    have hchunk := ingestChunk_eq hr hfirst
    have hholding := absorbEvents_holding (L := L) (events (r.sseBuf ++ chunk)).2
      (events ((events (r.sseBuf ++ chunk)).2 ++ chunks.flatten)).1 (absorbEvents L (events (r.sseBuf ++ chunk)).1 r).1
    rw [hrest] at hholding
    rw [ingestAll, hchunk]
    dsimp only
    have hnext : (absorbEvents L (events ((events (r.sseBuf ++ chunk)).2 ++ chunks.flatten)).1
        ((absorbEvents L (events (r.sseBuf ++ chunk)).1 r).1.holding (events (r.sseBuf ++ chunk)).2)).2 = none := by
      rw [hholding]
      exact h
    refine (ingestAll_eq chunks (cut_leftover (r.sseBuf ++ chunk)) hnext).trans ?_
    change (((absorbEvents L (events ((events (r.sseBuf ++ chunk)).2 ++ chunks.flatten)).1
        ((absorbEvents L (events (r.sseBuf ++ chunk)).1 r).1.holding (events (r.sseBuf ++ chunk)).2)).1.holding _), none) = _
    rw [hholding]
    rfl

end Recorder

/-- Two ways to cut a stream into chunks leave a new recorder alike: it has absorbed the events of the stream in
their order, and holds what is behind the last. -/
theorem chunking_independent (L : Library) {chunks chunks' : List Bytes} (hsame : chunks.flatten = chunks'.flatten)
    {r : Recorder} (hnew : r.sseBuf = []) (hparse : (Recorder.absorbEvents L (events chunks.flatten).1 r).2 = none) :
    ingestAll L chunks r = ingestAll L chunks' r ∧ ingestAll L chunks r =
      ((Recorder.absorbEvents L (events chunks.flatten).1 r).1.holding (events chunks.flatten).2, none) := by
  have hall (cs : List Bytes) (hcs : cs.flatten = chunks.flatten) : ingestAll L cs r =
      ((Recorder.absorbEvents L (events chunks.flatten).1 r).1.holding (events chunks.flatten).2, none) := by
    have hbuf : r.sseBuf ++ cs.flatten = chunks.flatten := by rw [hnew, List.nil_append, hcs]
    have hcut : cut r.sseBuf = none := by
      rw [hnew]
      rfl
    have heq := Recorder.ingestAll_eq (L := L) cs hcut
    rw [hbuf] at heq
    exact heq hparse
  exact ⟨(hall chunks rfl).trans (hall chunks' hsame.symm).symm, hall chunks rfl⟩

/-- A piece of content and a count of tokens are read, nothing else. -/
def sampleLibrary : Library where
  loads payload :=
    if payload = ascii "1" then .ok (.obj [("choices", .arr [.obj [("delta", .obj [("content", .str "x")])]])])
    else if payload = ascii "2" then .ok (.obj [("usage", .obj [("completion_tokens", .int 5)])])
    else .error .jsonDecode
  int _ := .ok 0

/-- A delimiter of each kind is cut apart, and the last event is not complete. -/
theorem chunks_alike :
    ingestAll sampleLibrary [ascii "data: 1\r\n\r", ascii "\ndata: 2\n", ascii "\ndata: 1\n\nda"] ⟨0, 0, [], 0, none, .null, true⟩ =
        ingestAll sampleLibrary [ascii "data: 1\r\n\r\ndata: 2\n\ndata: 1\n\nda"] ⟨0, 0, [], 0, none, .null, true⟩ ∧
      ingestAll sampleLibrary [ascii "data: 1\r\n\r", ascii "\ndata: 2\n", ascii "\ndata: 1\n\nda"] ⟨0, 0, [], 0, none, .null, true⟩ =
        ((Recorder.absorbEvents sampleLibrary
            (events [ascii "data: 1\r\n\r", ascii "\ndata: 2\n", ascii "\ndata: 1\n\nda"].flatten).1
            ⟨0, 0, [], 0, none, .null, true⟩).1.holding
          (events [ascii "data: 1\r\n\r", ascii "\ndata: 2\n", ascii "\ndata: 1\n\nda"].flatten).2, none) :=
  chunking_independent sampleLibrary (by decide +kernel) rfl (by decide +kernel)

end ServingProxy
end LocaiLink
