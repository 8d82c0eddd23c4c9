/-
# What the proxy relays

The handler with telemetry on and with telemetry off, side by side. Both post the
same request and write the same bytes, and one record is made of each reply, as
long as the recorder raises nothing before the last chunk (`undisturbed_iff`): an
exception of the recorder is one of the handler's.
-/
import LocaiLink.Base.JsonText
import LocaiLink.Serving.Proxy

namespace LocaiLink
namespace ServingProxy

open Json (dict getOr)

/-! ### Running a handler -/

/-- The result, and the exchange so far. -/
def go {α : Type} (h : Handler α) (x : Exchange) : Except Raised α × Exchange := h.run.run x

section Go

variable {α β : Type}

@[simp] theorem go_pure (a : α) (x : Exchange) : go (pure a) x = (.ok a, x) := rfl

@[simp] theorem go_throw (e : Raised) (x : Exchange) : go (throw e : Handler α) x = (.error e, x) := rfl

theorem go_bind (h : Handler α) (f : α → Handler β) (x : Exchange) : go (h >>= f) x =
    match go h x with
    | (.ok a, y) => go (f a) y
    | (.error e, y) => (.error e, y) := by
  unfold go
  rw [ExceptT.run_bind, StateT.run_bind]
  rcases h.run.run x with ⟨r | r, y⟩ <;> rfl

@[simp] theorem go_get (x : Exchange) : go get x = (.ok x, x) := rfl

@[simp] theorem go_set (y x : Exchange) : go (set y) x = (.ok (), y) := rfl

@[simp] theorem go_modify (f : Exchange → Exchange) (x : Exchange) : go (modify f) x = (.ok (), f x) := rfl

@[simp] theorem go_liftM (r : Except Raised α) (x : Exchange) : go (liftM r) x = (r, x) := rfl

theorem go_lift_run (h : Handler α) (x : Exchange) : go (ExceptT.lift h.run : Handler (Except Raised α)) x =
    (.ok (go h x).1, (go h x).2) := rfl

theorem go_tryCatch (h : Handler α) (f : Raised → Handler α) (x : Exchange) : go (tryCatch h f) x =
    match go h x with
    | (.ok a, y) => (.ok a, y)
    | (.error e, y) => go (f e) y := by
  unfold go
  rw [ExceptT.run_tryCatch, StateT.run_bind]
  rcases h.run.run x with ⟨r | r, y⟩ <;> rfl

end Go

/-! ### The chunks -/

/-- The chunks that are written, the writes made and what ends them: the reply's end,
an error of it or the client's socket. -/
def deliver (client : ℕ → Option Raised) : ℕ → List (Except Raised Bytes) → List Bytes × Option Raised
  | _, [] => ([], none)
  | _, .error e :: _ => ([], some e)
  | _, .ok [] :: _ => ([], none)
  | k, .ok (b :: chunk) :: reads =>
    match client k with
    | some e => ([], some e)
    | none => ((b :: chunk) :: (deliver client (k + 1) reads).1, (deliver client (k + 1) reads).2)

/-- Chunks go to the recorder until it raises. -/
def ingestAll (L : Library) : List Bytes → Recorder → Recorder × Option Raised
  | [], r => (r, none)
  | chunk :: l, r =>
    match r.ingestChunk L chunk with
    | (r, none) => ingestAll L l r
    | (r, some e) => (r, some e)

/-- The chunks up to the first on which the recorder raises. -/
def audible (L : Library) : List Bytes → Recorder → List Bytes
  | [], _ => []
  | chunk :: l, r =>
    chunk :: match r.ingestChunk L chunk with
      | (r, none) => audible L l r
      | (_, some _) => []

/-- Nothing is lost just where the recorder raises on no chunk but the last. -/
theorem audible_eq_iff (L : Library) : ∀ (l : List Bytes) (r : Recorder),
    audible L l r = l ↔ (ingestAll L l.dropLast r).2 = none
  | [], _ => by simp [audible, ingestAll]
  | [chunk], r => by
    rw [audible]
    rcases r.ingestChunk L chunk with ⟨r', _ | e⟩ <;> simp [audible, ingestAll]
  | chunk :: chunk' :: l, r => by
    rw [audible, List.dropLast_cons_cons, ingestAll]
    rcases r.ingestChunk L chunk with ⟨r', _ | e⟩
    · simp only [List.cons.injEq, true_and]
      exact audible_eq_iff L (chunk' :: l) r'
    · simp

/-! ### One step of the handler -/

section Steps

variable {L : Library} {V : Server} {s : Surroundings} {x : Exchange}

/-- After a write. -/
def Exchange.wrote (x : Exchange) (what : Sent) : Exchange := { x with writes := x.writes + 1, sent := x.sent ++ [what] }

theorem go_write_ok (h : s.client x.writes = none) (what : Sent) : go (write s what) x = (.ok (), x.wrote what) := by
  simp [write, go_bind, h, Exchange.wrote]

theorem go_write_error {e : Raised} (h : s.client x.writes = some e) (what : Sent) :
    go (write s what) x = (.error e, { x with writes := x.writes + 1 }) := by
  simp [write, go_bind, h]

theorem go_onRecorder_none (h : x.recorder = none) (f : Recorder → Recorder × Option Raised) :
    go (onRecorder f) x = (.ok (), x) := by
  simp [onRecorder, go_bind, h]

theorem go_onRecorder_some {r : Recorder} (h : x.recorder = some r) (f : Recorder → Recorder × Option Raised) :
    go (onRecorder f) x =
      ((match (f r).2 with | none => .ok () | some e => .error e), { x with recorder := some (f r).1 }) := by
  simp only [onRecorder, go_bind, go_get, h, go_set]
  cases (f r).2 <;> rfl

/-- How the loop ends. -/
def ends {α : Type} (a : α) : Option Raised → Except Raised α
  | none => .ok a
  | some e => .error e

/-- The loop where nothing listens to the chunks. -/
theorem go_pump_quiet (isStreaming : Bool) : ∀ (reads : List (Except Raised Bytes)) (buf : Option Bytes) (x : Exchange),
    isStreaming = false ∨ x.recorder = none ∧ buf = none → ∃ k, go (pump L s isStreaming reads buf) x =
      (ends (buf.map (· ++ (deliver s.client x.writes reads).1.flatten)) (deliver s.client x.writes reads).2,
        { x with writes := k, sent := x.sent ++ (deliver s.client x.writes reads).1.map .data })
  | [], buf, x, _ => ⟨x.writes, by simp [pump, deliver, ends]⟩
  | .error e :: reads, buf, x, _ => ⟨x.writes, by simp [pump, deliver, ends]⟩
  | .ok [] :: reads, buf, x, _ => ⟨x.writes, by simp [pump, deliver, ends]⟩
  | .ok (b :: chunk) :: reads, buf, x, h => by
    cases hw : s.client x.writes with
    | some e => exact ⟨x.writes + 1, by simp [pump, deliver, ends, go_bind, go_write_error hw, hw]⟩
    | none =>
      cases isStreaming with
      | false =>
        obtain ⟨k, hk⟩ := go_pump_quiet false reads (buf.map (· ++ b :: chunk)) (x.wrote (.data (b :: chunk))) (.inl rfl)
        refine ⟨k, ?_⟩
        rw [pump, go_bind, go_write_ok hw]
        simp only [Bool.false_eq_true, if_false, hk]
        cases buf <;> simp [deliver, hw, Exchange.wrote]
      | true =>
        obtain ⟨hr, hb⟩ := h.resolve_left (by simp)
        obtain ⟨k, hk⟩ := go_pump_quiet true reads buf (x.wrote (.data (b :: chunk))) (.inr ⟨hr, hb⟩)
        refine ⟨k, ?_⟩
        rw [pump, go_bind, go_write_ok hw]
        have hlisten := go_onRecorder_none (x := x.wrote (.data (b :: chunk))) hr (Recorder.ingestChunk L (b :: chunk))
        simp only [if_true, go_bind, hlisten, hk]
        simp [deliver, hw, hb, Exchange.wrote]

/-- The loop where the recorder hears each chunk. -/
theorem go_pump_heard : ∀ (reads : List (Except Raised Bytes)) (x : Exchange) (r : Recorder), x.recorder = some r →
    ∃ k, go (pump L s true reads none) x =
      (ends none ((ingestAll L (deliver s.client x.writes reads).1 r).2.or (deliver s.client x.writes reads).2),
        { x with
          writes := k
          sent := x.sent ++ (audible L (deliver s.client x.writes reads).1 r).map .data
          recorder := some (ingestAll L (deliver s.client x.writes reads).1 r).1 })
  | [], x, r, hr => ⟨x.writes, by simp [pump, deliver, ends, ingestAll, audible, ← hr]⟩
  | .error e :: reads, x, r, hr => ⟨x.writes, by simp [pump, deliver, ends, ingestAll, audible, ← hr]⟩
  | .ok [] :: reads, x, r, hr => ⟨x.writes, by simp [pump, deliver, ends, ingestAll, audible, ← hr]⟩
  | .ok (b :: chunk) :: reads, x, r, hr => by
    cases hw : s.client x.writes with
    | some e =>
      exact ⟨x.writes + 1, by simp [pump, deliver, ends, go_bind, go_write_error hw, hw, ingestAll, audible, ← hr]⟩
    | none =>
      have hlisten := go_onRecorder_some (x := x.wrote (.data (b :: chunk))) hr (Recorder.ingestChunk L (b :: chunk))
      rcases hi : r.ingestChunk L (b :: chunk) with ⟨r', _ | e⟩
      · rw [hi] at hlisten
        obtain ⟨k, hk⟩ := go_pump_heard reads { x.wrote (.data (b :: chunk)) with recorder := some r' } r' rfl
        refine ⟨k, ?_⟩
        rw [pump, go_bind, go_write_ok hw]
        simp only [if_true, go_bind, hlisten, hk]
        simp [deliver, hw, ingestAll, audible, hi, Exchange.wrote]
      · rw [hi] at hlisten
        refine ⟨x.writes + 1, ?_⟩
        rw [pump, go_bind, go_write_ok hw]
        simp only [if_true, go_bind, hlisten]
        simp [deliver, hw, ingestAll, audible, hi, Exchange.wrote, ends]

/-- The record of a recorder, where one can be made. -/
theorem go_fireTelemetry (hV : V.onTelemetry = true) {r : Recorder} (hr : x.recorder = some r) :
    go (fireTelemetry L V s) x =
      (.ok (), { x with
        tick := x.tick + 2
        handed := x.handed ++ (r.buildRecord L (s.clock x.tick) (s.clock (x.tick + 1))).toOption.toList }) := by
  simp only [fireTelemetry, go_bind, go_get, hr, hV, if_true, now, go_set, go_pure]
  cases r.buildRecord L (s.clock x.tick) (s.clock (x.tick + 1)) with
  | ok record => rfl
  | error e => simp [Except.toOption]

theorem go_fireTelemetry_none (hr : x.recorder = none) : go (fireTelemetry L V s) x = (.ok (), x) := by
  simp [fireTelemetry, go_bind, hr]

theorem toList_buildRecord (r : Recorder) (t u : ℕ) :
    (r.buildRecord L t u).toOption.toList.length = (r.counts L).toOption.toList.length := by
  unfold Recorder.buildRecord
  cases r.counts L with
  | ok c => rfl
  | error e => rfl

end Steps

/-! ### One reply -/

/-- The recorder when the reply is over: of a stream it has heard the chunks up to one
that makes it raise, of another reply all of it or nothing. -/
def heard (L : Library) (s : Surroundings) (p : Response) (r : Recorder) : Recorder :=
  if p.isStreaming then (ingestAll L (deliver s.client 1 p.reads).1 r).1
  else match (deliver s.client 1 p.reads).2 with
    | none => (r.ingestFullResponse L (deliver s.client 1 p.reads).1.flatten).1
    | some _ => r

/-- The chunks that are written with a recorder that listens. -/
def passed (L : Library) (s : Surroundings) (p : Response) (r : Recorder) : List Bytes :=
  if p.isStreaming then audible L (deliver s.client 1 p.reads).1 r else (deliver s.client 1 p.reads).1

section Reply

variable {L : Library} {V : Server} {s : Surroundings} {x : Exchange} {p : Response}

theorem go_settle (result : Except Raised Unit) (x : Exchange) : (go (settle result) x).2 = x := by
  rcases result with e | u
  · cases e <;> rfl
  · rfl

/-- The reply where nobody listens. -/
theorem go_streamReply_off (hr : x.recorder = none) : ∃ k, (go (streamReply L s p) x).2 =
    { x with writes := k, sent := x.sent ++ (deliver s.client x.writes p.reads).1.map .data } := by
  have hquiet : p.isStreaming = false ∨ x.recorder = none ∧ (none : Option Bytes) = none := .inr ⟨hr, rfl⟩
  obtain ⟨k, hk⟩ := go_pump_quiet (L := L) (s := s) _ p.reads none x hquiet
  refine ⟨k, ?_⟩
  simp only [streamReply, go_bind, go_get, hr, Option.isSome_none, Bool.false_and, Bool.false_eq_true, if_false, hk]
  cases (deliver s.client x.writes p.reads).2 <;> rfl

/-- The reply with a recorder. -/
theorem go_streamReply_on {r : Recorder} (hr : x.recorder = some r) (hw : x.writes = 1) :
    ∃ k, (go (streamReply L s p) x).2 =
      { x with writes := k, sent := x.sent ++ (passed L s p r).map .data, recorder := some (heard L s p r) } := by
  cases hp : p.isStreaming with
  | true =>
    obtain ⟨k, hk⟩ := go_pump_heard (L := L) (s := s) p.reads x r hr
    refine ⟨k, ?_⟩
    rw [hw] at hk
    simp only [streamReply, go_bind, go_get, hr, Option.isSome_some, Bool.true_and, hp, Bool.not_true,
      Bool.false_eq_true, if_false, hk, passed, heard, if_true]
    cases (ingestAll L (deliver s.client 1 p.reads).1 r).2.or (deliver s.client 1 p.reads).2 <;> rfl
  | false =>
    obtain ⟨k, hk⟩ := go_pump_quiet (L := L) (s := s) false p.reads (some []) x (.inl rfl)
    refine ⟨k, ?_⟩
    rw [hw] at hk
    simp only [streamReply, go_bind, go_get, hr, Option.isSome_some, Bool.true_and, hp, Bool.not_false, if_true, hk,
      passed, heard, Bool.false_eq_true, if_false]
    cases (deliver s.client 1 p.reads).2 with
    | some e => simp [ends, ← hr]
    | none =>
      simp only [ends, Option.map_some, List.nil_append]
      rw [go_onRecorder_some rfl]

/-- Once the head is written, the reply and the record follow. -/
theorem go_relay_written (hw : x.writes = 0) (hc : s.client 0 = none) {z : Exchange}
    (hfire : go (fireTelemetry L V s) (go (streamReply L s p) (x.wrote (responseHead V s.request p))).2 = (.ok (), z)) :
    (go (relay L V s p) x).2 = z := by
  have hwrite := go_write_ok (x := x) (hw ▸ hc) (responseHead V s.request p)
  simp only [relay, go_bind, hwrite, go_lift_run, hfire, go_settle]

theorem go_relay_off (hr : x.recorder = none) (hw : x.writes = 0) (hc : s.client 0 = none) :
    (go (relay L V s p) x).2.sent =
        x.sent ++ responseHead V s.request p :: (deliver s.client 1 p.reads).1.map .data ∧
      (go (relay L V s p) x).2.posted = x.posted := by
  obtain ⟨k, hk⟩ := go_streamReply_off (L := L) (s := s) (x := x.wrote (responseHead V s.request p)) (p := p) hr
  have hwrites : (x.wrote (responseHead V s.request p)).writes = 1 := by simp [Exchange.wrote, hw]
  rw [hwrites] at hk
  have hrelay := go_relay_written hw hc (go_fireTelemetry_none (L := L) (V := V) (s := s)
    (x := (go (streamReply L s p) (x.wrote (responseHead V s.request p))).2) (by rw [hk]; exact hr))
  rw [hrelay, hk]
  simp [Exchange.wrote]

theorem go_relay_on {r : Recorder} (hV : V.onTelemetry = true) (hr : x.recorder = some r) (hw : x.writes = 0)
    (hc : s.client 0 = none) :
    (go (relay L V s p) x).2.sent = x.sent ++ responseHead V s.request p :: (passed L s p r).map .data ∧
      (go (relay L V s p) x).2.posted = x.posted ∧
      (go (relay L V s p) x).2.handed.length =
        x.handed.length + ((heard L s p r).counts L).toOption.toList.length := by
  have hwrites : (x.wrote (responseHead V s.request p)).writes = 1 := by simp [Exchange.wrote, hw]
  obtain ⟨k, hk⟩ := go_streamReply_on (L := L) (s := s) (x := x.wrote (responseHead V s.request p)) (p := p) hr hwrites
  have hrelay := go_relay_written hw hc (go_fireTelemetry (L := L) (V := V) (s := s)
    (x := (go (streamReply L s p) (x.wrote (responseHead V s.request p))).2) hV (by rw [hk]))
  rw [hrelay, hk]
  simp [Exchange.wrote, toList_buildRecord]

/-- Where not even the head can be written, nothing more comes. -/
theorem go_relay_gone (hw : x.writes = 0) {e : Raised} (hc : s.client 0 = some e) :
    (go (relay L V s p) x).2 = { x with writes := 1 } := by
  have hwrite := go_write_error (x := x) (hw ▸ hc) (responseHead V s.request p)
  simp only [relay, go_bind, hwrite, hw]

end Reply

/-! ### One request -/

/-- The body that is forwarded, where the request is for a chat and its length is a number. -/
def chatBody (L : Library) (s : Surroundings) : Option Bytes :=
  if s.request.path ≠ "/v1/chat/completions" then none
  else match L.int (.str (s.request.contentLength.getD "0")) with
    | .ok n => some (if 0 < n then s.request.input.take n.toNat else [])
    | .error _ => none

/-- The server with telemetry on, or off. -/
def Server.telemetry (V : Server) (on : Bool) : Server := { V with onTelemetry := on }

section Request

variable {L : Library} {V : Server} {s : Surroundings} {body : Bytes}

/-- The request that is forwarded. -/
def forwarded (V : Server) (s : Surroundings) (body : Bytes) : Post :=
  ⟨V.upstreamBaseUrl ++ s.request.path, body, forwardHeaders s.request⟩

/-- The exchange when the request was forwarded. -/
def Exchange.asked (V : Server) (s : Surroundings) (body : Bytes) (r : Option Recorder) (tick : ℕ) : Exchange :=
  { Exchange.start with posted := [forwarded V s body], recorder := r, tick := tick }

/-- What is no chat request does not depend on telemetry. -/
theorem exchange_other (h : chatBody L s = none) (on : Bool) :
    (exchange L (V.telemetry on) s).posted = [] ∧
      exchange L (V.telemetry on) s = exchange L (V.telemetry false) s := by
  unfold exchange
  change (go (doPost L _ s) .start).2.posted = [] ∧ (go (doPost L _ s) .start).2 = (go (doPost L _ s) .start).2
  unfold chatBody at h
  by_cases hpath : s.request.path = "/v1/chat/completions"
  · simp only [hpath, ne_eq, not_true_eq_false, if_false] at h
    cases hn : L.int (.str (s.request.contentLength.getD "0")) with
    | ok n => simp [hn] at h
    | error e =>
      simp only [doPost, hpath, ne_eq, not_true_eq_false, if_false, go_bind, go_liftM, hn, Exchange.start, and_self]
  · have hwrite : (go (write s (.error 404 "Not Found")) .start).2.posted = [] := by
      cases hw : s.client Exchange.start.writes with
      | none => rw [go_write_ok hw]; rfl
      | some e => rw [go_write_error hw]; rfl
    simp only [doPost, ne_eq, hpath, not_false_eq_true, if_true, hwrite, and_self]

theorem chat_of_body (h : chatBody L s = some body) : s.request.path = "/v1/chat/completions" ∧
    ∃ n, L.int (.str (s.request.contentLength.getD "0")) = .ok n ∧
      (if 0 < n then s.request.input.take n.toNat else []) = body := by
  unfold chatBody at h
  split_ifs at h with hpath
  refine ⟨not_not.mp hpath, ?_⟩
  cases hn : L.int (.str (s.request.contentLength.getD "0")) with
  | ok n =>
    rw [hn] at h
    exact ⟨n, rfl, Option.some.inj h⟩
  | error e =>
    rw [hn] at h
    cases h

theorem exchange_off (h : chatBody L s = some body) :
    exchange L (V.telemetry false) s = (go (respond L (V.telemetry false) s) (.asked V s body none 0)).2 := by
  obtain ⟨hpath, n, hn, rfl⟩ := chat_of_body h
  change (go (doPost L _ s) .start).2 = _
  simp [doPost, hpath, go_bind, hn, Server.telemetry, Exchange.asked, Exchange.start, forwarded]

theorem exchange_on (h : chatBody L s = some body) {r : Recorder}
    (hr : Recorder.new L (s.clock 0) (s.clock 1) body = .ok r) :
    exchange L (V.telemetry true) s = (go (respond L (V.telemetry true) s) (.asked V s body (some r) 2)).2 := by
  obtain ⟨hpath, n, hn, rfl⟩ := chat_of_body h
  change (go (doPost L _ s) .start).2 = _
  simp [doPost, hpath, go_bind, hn, Server.telemetry, Exchange.asked, Exchange.start, forwarded, now, hr]

/-- An exception of the recorder's start is the end of the request. -/
theorem exchange_on_raised (h : chatBody L s = some body) {e : Raised}
    (hr : Recorder.new L (s.clock 0) (s.clock 1) body = .error e) : (exchange L (V.telemetry true) s).posted = [] := by
  obtain ⟨hpath, n, hn, rfl⟩ := chat_of_body h
  change (go (doPost L _ s) .start).2.posted = []
  simp [doPost, hpath, go_bind, hn, Server.telemetry, Exchange.start, now, hr]

/-- Without a reply of the model server nothing depends on the recorder. -/
theorem go_respond_error {e : Raised} (hu : s.upstream = .error e) (x : Exchange) :
    (go (respond L V s) x).2.posted = x.posted ∧ (go (respond L V s) x).2.sent =
      x.sent ++ (if e = .request ∧ s.client x.writes = none then [.error 502 "Upstream unavailable"] else []) := by
  cases e with
  | request =>
    cases hw : s.client x.writes with
    | none =>
      have hgo := go_write_ok (x := x) hw (.error 502 "Upstream unavailable")
      simp [respond, hu, safeSendError, go_tryCatch, hgo, Exchange.wrote]
    | some e =>
      have hgo := go_write_error (x := x) hw (.error 502 "Upstream unavailable")
      simp [respond, hu, safeSendError, go_tryCatch, hgo]
  | _ => simp [respond, hu]

theorem go_respond_ok {p : Response} (hu : s.upstream = .ok p) (x : Exchange) :
    go (respond L V s) x = go (relay L V s p) x := by
  rw [respond, hu]

end Request

/-! ### Telemetry and the exchange -/

/-- The client stays connected. -/
def Surroundings.Connected (s : Surroundings) : Prop := ∀ n, s.client n = none

/-- **Telemetry does not disturb**: the same is forwarded and the same is written with it
as without, and a request that got a reply makes one record. -/
structure Undisturbed (L : Library) (V : Server) (s : Surroundings) : Prop where
  posted : (exchange L (V.telemetry true) s).posted = (exchange L (V.telemetry false) s).posted
  sent : s.Connected → (exchange L (V.telemetry true) s).sent = (exchange L (V.telemetry false) s).sent
  handed : ∀ p, s.upstream = .ok p → (exchange L (V.telemetry true) s).posted ≠ [] →
    (exchange L (V.telemetry true) s).handed.length = 1

/-- What a reply must be for the recorder: of a stream no chunk but the last makes it raise,
the head can be written, and what it has of the usage counts tokens. -/
structure HarmlessReply (L : Library) (s : Surroundings) (p : Response) (r : Recorder) : Prop where
  chunks : s.Connected → p.isStreaming = true → (ingestAll L (deliver s.client 1 p.reads).1.dropLast r).2 = none
  head : s.client 0 = none
  counts : ∃ c, (heard L s p r).counts L = .ok c

/-- Reading the request raises nothing but that it is no JSON. -/
def Reads (L : Library) (body : Bytes) : Prop := body ≠ [] → ∀ e, L.loads body = .error e → e = .jsonDecode

/-- The recorder reads the request, and then the reply. -/
def Harmless (L : Library) (s : Surroundings) : Prop :=
  ∀ body, chatBody L s = some body → Reads L body ∧
    ∀ r p, Recorder.new L (s.clock 0) (s.clock 1) body = .ok r → s.upstream = .ok p → HarmlessReply L s p r

section Undisturbed

variable {L : Library} {V : Server} {s : Surroundings} {body : Bytes} {r : Recorder} {p : Response}

theorem new_ok_iff {t u : ℕ} : (∃ r, Recorder.new L t u body = .ok r) ↔ Reads L body := by
  unfold Recorder.new Reads
  by_cases hb : body = []
  · simp [hb, dict]
  · simp only [hb, if_false, ne_eq, not_false_eq_true, forall_const]
    cases hl : L.loads body with
    | ok req => cases hd : dict req <;> simp [hd]
    | error e => cases e <;> simp

theorem map_data_inj {l l' : List Bytes} : l.map Sent.data = l'.map Sent.data ↔ l = l' :=
  (List.map_injective_iff.mpr fun _ _ h => by cases h; rfl).eq_iff

theorem passed_eq_iff : passed L s p r = (deliver s.client 1 p.reads).1 ↔
    (p.isStreaming = true → (ingestAll L (deliver s.client 1 p.reads).1.dropLast r).2 = none) := by
  unfold passed
  cases p.isStreaming with
  | true => simp [audible_eq_iff]
  | false => simp

theorem toList_toOption {α : Type} (a : Except Raised α) : a.toOption.toList.length = 1 ↔ ∃ c, a = .ok c := by
  cases a with
  | ok c => simp [Except.toOption]
  | error e => simp [Except.toOption]

/-- A request that got a reply, with a recorder. -/
theorem undisturbed_reply_iff (hb : chatBody L s = some body)
    (hr : Recorder.new L (s.clock 0) (s.clock 1) body = .ok r) (hu : s.upstream = .ok p) :
    Undisturbed L V s ↔ HarmlessReply L s p r := by
  have hon := exchange_on (V := V) hb hr
  have hoff := exchange_off (V := V) hb
  rw [go_respond_ok hu] at hon hoff
  cases hc : s.client 0 with
  | some e =>
    have honEq := hon.trans (go_relay_gone (V := V.telemetry true) (x := .asked V s body (some r) 2) rfl hc)
    refine ⟨fun h => ?_, fun h => by rw [h.head] at hc; cases hc⟩
    have hone := h.handed p hu (by rw [honEq]; simp [Exchange.asked])
    rw [honEq] at hone
    simp [Exchange.asked, Exchange.start] at hone
  | none =>
    obtain ⟨hsent, hposted, hhanded⟩ := go_relay_on (L := L) (V := V.telemetry true) (s := s) (p := p)
      (x := .asked V s body (some r) 2) rfl rfl rfl hc
    obtain ⟨hsent', hposted'⟩ := go_relay_off (L := L) (V := V.telemetry false) (s := s) (p := p)
      (x := .asked V s body none 0) rfl rfl hc
    have hsame : (exchange L (V.telemetry true) s).sent = (exchange L (V.telemetry false) s).sent ↔
        (p.isStreaming = true → (ingestAll L (deliver s.client 1 p.reads).1.dropLast r).2 = none) := by
      rw [hon, hoff, hsent, hsent', ← passed_eq_iff]
      have hhead : responseHead (V.telemetry true) s.request p = responseHead (V.telemetry false) s.request p := rfl
      simp [Exchange.asked, hhead, map_data_inj]
    have hone : (exchange L (V.telemetry true) s).handed.length = 1 ↔ ∃ c, (heard L s p r).counts L = .ok c := by
      rw [hon, hhanded, ← toList_toOption]
      simp [Exchange.asked, Exchange.start]
    constructor
    · intro h
      refine ⟨fun hconn => hsame.mp (h.sent hconn), hc, hone.mp (h.handed p hu ?_)⟩
      rw [hon, hposted]
      simp [Exchange.asked]
    · intro h
      refine ⟨?_, fun hconn => hsame.mpr (h.chunks hconn), fun _ _ _ => hone.mpr h.counts⟩
      rw [hon, hoff, hposted, hposted']
      rfl

/-- **Where telemetry does not disturb the proxied exchange.** -/
theorem undisturbed_iff (L : Library) (V : Server) (s : Surroundings) : Undisturbed L V s ↔ Harmless L s := by
  cases hb : chatBody L s with
  | none =>
    have hother := exchange_other (V := V) hb true
    refine ⟨fun _ body h => ?_, fun _ => ⟨?_, fun _ => ?_, fun _ _ hne => absurd hother.1 hne⟩⟩
    · rw [hb] at h
      cases h
    · rw [hother.2]
    · rw [hother.2]
  | some body =>
    have hoff := exchange_off (V := V) hb
    cases hr : Recorder.new L (s.clock 0) (s.clock 1) body with
    | error e =>
      have hno : ¬Reads L body := fun h => by
        obtain ⟨r, hnew⟩ := (new_ok_iff (t := s.clock 0) (u := s.clock 1)).mpr h
        rw [hr] at hnew
        cases hnew
      refine ⟨fun h => ?_, fun h => absurd (h body hb).1 hno⟩
      -- the request is forwarded without telemetry, and with it is not
      have hposted := h.posted
      have hasked : (exchange L (V.telemetry false) s).posted = [forwarded V s body] := by
        rw [hoff]
        cases hu : s.upstream with
        | error e => exact (go_respond_error hu _).1
        | ok p =>
          rw [go_respond_ok hu]
          cases hc : s.client 0 with
          | none => exact (go_relay_off (V := V.telemetry false) (x := .asked V s body none 0) rfl rfl hc).2
          | some e =>
            rw [go_relay_gone (V := V.telemetry false) (x := .asked V s body none 0) rfl hc]
            rfl
      rw [exchange_on_raised hb hr, hasked] at hposted
      cases hposted
    | ok r =>
      have hreads : Reads L body := new_ok_iff.mp ⟨r, hr⟩
      cases hu : s.upstream with
      | ok p =>
        rw [undisturbed_reply_iff hb hr hu]
        refine ⟨fun h body' hb' => ?_, fun h => (h body hb).2 r p hr hu⟩
        obtain rfl := Option.some.inj (hb.symm.trans hb')
        refine ⟨hreads, fun r' p' hr' hp' => ?_⟩
        obtain rfl := Except.ok.inj (hu.symm.trans hp')
        obtain rfl := Except.ok.inj (hr.symm.trans hr')
        exact h
      | error e =>
        have hon := exchange_on (V := V) hb hr
        obtain ⟨hposted, hsent⟩ := go_respond_error (L := L) (V := V.telemetry true) hu (.asked V s body (some r) 2)
        obtain ⟨hposted', hsent'⟩ := go_respond_error (L := L) (V := V.telemetry false) hu (.asked V s body none 0)
        refine ⟨fun _ body' hb' => ?_, fun _ => ⟨?_, fun _ => ?_, fun p hp => by rw [hu] at hp; cases hp⟩⟩
        · obtain rfl := Option.some.inj (hb.symm.trans hb')
          refine ⟨hreads, fun _ p _ hp => ?_⟩
          rw [hu] at hp
          cases hp
        · rw [hon, hoff, hposted, hposted']
          rfl
        · rw [hon, hoff, hsent, hsent']
          rfl

/-! ### A request that is lost -/

/-- Reading as it is for UTF-8, and `int` of numbers and of plain digits. -/
def utf8Library : Library where
  loads b := match Bytes.decode b with
    | none => .error .other
    | some t => match JsonText.loads t.toList with
      | none => .error .jsonDecode
      | some j => .ok j
  int
    | .int n => .ok n
    | .bool b => .ok (if b then 1 else 0)
    | .str t => if t.toList.all Text.isDigit ∧ t ≠ "" then .ok (Text.decimal t.toList) else .error .other
    | _ => .error .other

/-- A request whose model's name is no UTF-8, to a server that answers. -/
def latinRequest : Surroundings where
  request := ⟨"/v1/chat/completions", some "14", some "application/json", none, none,
    ascii "\x7b\"model\": \"" ++ 0xe9 :: ascii "\"\x7d"⟩
  upstream := .ok ⟨400, some "application/json", [.ok (ascii "\x7b\x7d")]⟩
  client := fun _ => none
  clock := id

def localServer : Server := ⟨"http://127.0.0.1:8150", [], true⟩

/-- It is forwarded without telemetry, and is not with it. -/
theorem latin_request_lost : ¬Undisturbed utf8Library localServer latinRequest := by
  intro h
  have hsame := h.posted
  revert hsame
  decide +kernel

end Undisturbed

end ServingProxy
end LocaiLink
