/-
# The serving proxy

`_ProxyHandler.do_POST` forwards a chat request to the model server and streams
the reply to the client. With telemetry on, a `_ChatTelemetry` reads the request
before it is forwarded and every chunk of the reply right after it was written,
and one record is made at the end. What the handler writes, posts and hands over
is kept in an `Exchange`; an exception leaves what was done before it.

The reading of JSON and of numbers is the standard library's (`Library`), whose
limits are the interpreter's: it is a parameter here.
-/
import LocaiLink.Base.Lines

namespace LocaiLink
namespace ServingProxy

open Json (dict getOr)

/-- The exceptions that a handler here tells apart. -/
inductive Raised
  /-- `json.JSONDecodeError` -/
  | jsonDecode
  /-- `BrokenPipeError`, `ConnectionResetError`, `ConnectionAbortedError` -/
  | disconnected
  /-- `requests.RequestException` -/
  | request
  | other
  deriving DecidableEq

/-- `json.loads` of bytes, and `int` of a value. -/
structure Library where
  loads : Bytes → Except Raised Json
  int : Json → Except Raised ℤ

/-! ### The recorder -/

/-- `_ChatTelemetry`. -/
structure Recorder where
  startedAt : ℕ
  perfStart : ℕ
  sseBuf : Bytes
  contentChunks : ℕ
  usage : Option (Dict String Json)
  model : Json
  stream : Bool

/-- What is handed to the callback. -/
structure Record where
  model : Json
  stream : Bool
  startTime : ℕ
  endTime : ℕ
  duration : ℤ
  tokensGenerated : ℤ
  tokensPrompt : ℤ
  tokenSource : String
  source : String

def ascii (s : String) : Bytes := Bytes.encode s

/-- `bytearray.find`, from a place on. -/
def find (sep : Bytes) : Bytes → Option ℕ
  | [] => if sep = [] then some 0 else none
  | b :: l => if sep.isPrefixOf (b :: l) then some 0 else (find sep l).map (· + 1)

/-- `bytes.strip`. -/
def stripBytes (l : Bytes) : Bytes :=
  let white (b : UInt8) : Bool := b = 0x20 || (0x09 ≤ b && b ≤ 0x0d)
  (l.dropWhile white).rdropWhile white

namespace Recorder

variable (L : Library)

/-- `__init__`: what the request asks for. -/
def new (startedAt perfStart : ℕ) (body : Bytes) : Except Raised Recorder :=
  let r : Recorder := ⟨startedAt, perfStart, [], 0, none, .null, false⟩
  match if body = [] then .ok (.obj []) else L.loads body with
  | .ok req =>
    match dict req with
    | some d => .ok { r with stream := (getOr d "stream").truthy, model := getOr d "model" }
    | none => .ok r
  | .error .jsonDecode => .ok r
  | .error e => .error e

/-- One of the choices: does it hold a piece of content. -/
def hasContent (choice : Json) : Bool :=
  match (dict choice).bind fun c => (c.get? "delta").bind dict with
  | some delta => (getOr delta "content").truthy
  | none => false

/-- `_absorb`; going over the choices raises where they are no container. -/
def absorb (d : Dict String Json) (r : Recorder) : Recorder × Option Raised :=
  let r := match (d.get? "usage").bind dict with
    | some u => { r with usage := some u }
    | none => r
  let choices := getOr d "choices"
  match if choices.truthy then choices.iterate else some [] with
  | some l => ({ r with contentChunks := r.contentChunks + l.countP hasContent }, none)
  | none => (r, some .other)

/-- One line of an event. -/
def consumeLine (line : Bytes) (r : Recorder) : Recorder × Option Raised :=
  let line := stripBytes line
  if (ascii "data:").isPrefixOf line then
    let payload := stripBytes (line.drop 5)
    if payload = [] ∨ payload = ascii "[DONE]" then (r, none)
    else match L.loads payload with
      | .ok obj =>
        match dict obj with
        | some d => r.absorb d
        | none => (r, none)
      | .error .jsonDecode => (r, none)
      | .error e => (r, some e)
  else (r, none)

def consumeLines : List Bytes → Recorder → Recorder × Option Raised
  | [], r => (r, none)
  | line :: l, r =>
    match r.consumeLine L line with
    | (r, none) => consumeLines l r
    | (r, some e) => (r, some e)

/-- `_consume_event`. -/
def consumeEvent (event : Bytes) (r : Recorder) : Recorder × Option Raised :=
  r.consumeLines L (event.splitOn 0x0a)

/-- The first event of the buffer that is complete, and what is behind it. -/
def nextEvent (buf : Bytes) : Option (Bytes × Bytes) :=
  match find (ascii "\n\n") buf, find (ascii "\r\n\r\n") buf with
  | none, none => none
  | some lf, none => some (buf.take lf, buf.drop (lf + 2))
  | none, some crlf => some (buf.take crlf, buf.drop (crlf + 4))
  | some lf, some crlf =>
    if lf < crlf then some (buf.take lf, buf.drop (lf + 2)) else some (buf.take crlf, buf.drop (crlf + 4))

/-- The loop of `ingest_chunk`: at most so many events. -/
def drain : ℕ → Recorder → Recorder × Option Raised
  | 0, r => (r, none)
  | n + 1, r =>
    match nextEvent r.sseBuf with
    | none => (r, none)
    | some (event, rest) =>
      match { r with sseBuf := rest }.consumeEvent L event with
      | (r, none) => drain n r
      | (r, some e) => (r, some e)

/-- `ingest_chunk`. Each event takes two bytes at least. -/
def ingestChunk (chunk : Bytes) (r : Recorder) : Recorder × Option Raised :=
  if chunk = [] then (r, none)
  else drain L (r.sseBuf ++ chunk).length { r with sseBuf := r.sseBuf ++ chunk }

/-- `ingest_full_response`. -/
def ingestFullResponse (body : Bytes) (r : Recorder) : Recorder × Option Raised :=
  match L.loads body with
  | .ok obj =>
    match dict obj with
    | some d => r.absorb d
    | none => (r, none)
  | .error .jsonDecode => (r, none)
  | .error e => (r, some e)

/-- `int(usage.get(key) or 0)` -/
def tokens (u : Dict String Json) (key : String) : Except Raised ℤ :=
  L.int (if (getOr u key).truthy then getOr u key else .int 0)

/-- The counts of tokens, and where they are from. -/
def counts (r : Recorder) : Except Raised (ℤ × ℤ × String) :=
  match r.usage.filter fun u => u.entries ≠ [] with
  | some u => do
    let generated ← tokens L u "completion_tokens"
    let prompt ← tokens L u "prompt_tokens"
    pure (generated, prompt, "usage")
  | none => .ok (r.contentChunks, 0, "delta_count")

/-- `build_record`. -/
def buildRecord (endedAt perfEnd : ℕ) (r : Recorder) : Except Raised Record := do
  let (generated, prompt, tokenSource) ← r.counts L
  pure ⟨r.model, r.stream, r.startedAt, endedAt, (perfEnd : ℤ) - r.perfStart, generated, prompt, tokenSource, "serving_proxy"⟩

end Recorder

/-! ### The handler -/

structure Request where
  path : String
  contentLength : Option String
  contentType : Option String
  authorization : Option String
  origin : Option String
  /-- what the client sends after the headers -/
  input : Bytes

/-- The reply of the model server: what each read of it gives. After them it is at its end. -/
structure Response where
  status : ℕ
  contentType : Option String
  reads : List (Except Raised Bytes)

structure Server where
  upstreamBaseUrl : String
  allowedOrigins : List String
  onTelemetry : Bool

/-- What is outside the handler. -/
structure Surroundings where
  request : Request
  upstream : Except Raised Response
  /-- what the client's socket raises at each write -/
  client : ℕ → Option Raised
  clock : ℕ → ℕ

/-- A request to the model server. -/
structure Post where
  url : String
  body : Bytes
  headers : List (String × String)
  deriving DecidableEq

/-- What is written to the client at once. -/
inductive Sent
  | error (code : ℕ) (message : String)
  | head (status : ℕ) (headers : List (String × String))
  | data (b : Bytes)
  deriving DecidableEq

structure Exchange where
  posted : List Post
  sent : List Sent
  handed : List Record
  recorder : Option Recorder
  writes : ℕ
  tick : ℕ

def Exchange.start : Exchange := ⟨[], [], [], none, 0, 0⟩

abbrev Handler := ExceptT Raised (StateM Exchange)

/-- `_sanitize_header_value`. -/
def sanitizeHeaderValue (raw : Option String) : String :=
  String.ofList (Text.strip ((raw.getD "").toList.filter fun c => c ≠ '\r' ∧ c ≠ '\n'))

/-- `_safe_content_type`. -/
def safeContentType (raw : Option String) (default : String) : String :=
  let sanitized := sanitizeHeaderValue raw
  if sanitized = "" then default else sanitized

/-- `_resolve_echo_origin`. -/
def resolveEchoOrigin (V : Server) (q : Request) : Option String :=
  let origin := sanitizeHeaderValue q.origin
  if origin ≠ "" ∧ origin ∈ V.allowedOrigins then some origin else none

def corsResponseHeaders (echoOrigin : Option String) : List (String × String) :=
  match echoOrigin with
  | some o => [("Access-Control-Allow-Origin", o), ("Vary", "Origin")]
  | none => [("Vary", "Origin")]

def forwardHeaders (q : Request) : List (String × String) :=
  ((q.contentType.filter (· ≠ "")).map fun v => ("Content-Type", v)).toList ++
    ((q.authorization.filter (· ≠ "")).map fun v => ("Authorization", v)).toList

/-- `is_streaming`. -/
def Response.isStreaming (p : Response) : Bool := Text.startsWith (p.contentType.getD "") "text/event-stream"

def responseHead (V : Server) (q : Request) (p : Response) : Sent :=
  .head p.status ([("Content-Type", safeContentType p.contentType
      (if p.isStreaming then "text/event-stream" else "application/json")),
    ("Cache-Control", "no-cache"), ("Connection", "close"), ("X-Accel-Buffering", "no")] ++
      corsResponseHeaders (resolveEchoOrigin V q))

section Handler

variable (L : Library) (V : Server) (s : Surroundings)

def now : Handler ℕ := do
  let x ← get
  set { x with tick := x.tick + 1 }
  pure (s.clock x.tick)

/-- `self.wfile.write`, or what makes one write of its own. -/
def write (what : Sent) : Handler Unit := do
  let x ← get
  match s.client x.writes with
  | none => set { x with writes := x.writes + 1, sent := x.sent ++ [what] }
  | some e =>
    set { x with writes := x.writes + 1 }
    throw e

/-- A method of the recorder, where there is one. -/
def onRecorder (f : Recorder → Recorder × Option Raised) : Handler Unit := do
  let x ← get
  match x.recorder with
  | none => pure ()
  | some r =>
    set { x with recorder := some (f r).1 }
    match (f r).2 with
    | none => pure ()
    | some e => throw e

/-- `_safe_send_error`. -/
def safeSendError (code : ℕ) (message : String) : Handler Unit :=
  tryCatch (write s (.error code message)) fun _ => pure ()

/-- `_fire_telemetry`. -/
def fireTelemetry : Handler Unit := do
  match (← get).recorder with
  | none => pure ()
  | some r =>
    if V.onTelemetry then
      let ended ← now s
      let perfEnd ← now s
      match r.buildRecord L ended perfEnd with
      | .ok record => modify fun x => { x with handed := x.handed ++ [record] }
      | .error _ => pure ()

/-- The loop over the reply; what it has kept of it, if it keeps any. -/
def pump (isStreaming : Bool) : List (Except Raised Bytes) → Option Bytes → Handler (Option Bytes)
  | [], buf => pure buf
  | .error e :: _, _ => throw e
  | .ok [] :: _, buf => pure buf
  | .ok (b :: chunk) :: reads, buf => do
    write s (.data (b :: chunk))
    if isStreaming then
      onRecorder (Recorder.ingestChunk L (b :: chunk))
      pump isStreaming reads buf
    else pump isStreaming reads (buf.map (· ++ b :: chunk))

/-- What is tried: the loop, and then the body that was kept. -/
def streamReply (p : Response) : Handler Unit := do
  let keeps := (← get).recorder.isSome && !p.isStreaming
  match ← pump L s p.isStreaming p.reads (if keeps then some [] else none) with
  | some body => onRecorder (Recorder.ingestFullResponse L body)
  | none => pure ()

/-- A client that went away is no exception of the handler. -/
def settle : Except Raised Unit → Handler Unit
  | .ok () => pure ()
  | .error .disconnected => pure ()
  | .error e => throw e

/-- The reply, from its head to the record. -/
def relay (p : Response) : Handler Unit := do
  write s (responseHead V s.request p)
  let result ← ExceptT.lift (streamReply L s p).run
  fireTelemetry L V s
  settle result

/-- What follows the request to the model server. -/
def respond : Handler Unit :=
  match s.upstream with
  | .error .request => safeSendError s 502 "Upstream unavailable"
  | .error e => throw e
  | .ok p => relay L V s p

/-- `do_POST`. -/
def doPost : Handler Unit := do
  let q := s.request
  if q.path ≠ "/v1/chat/completions" then write s (.error 404 "Not Found")
  else
    let contentLength ← liftM (L.int (.str (q.contentLength.getD "0")))
    let body := if 0 < contentLength then q.input.take contentLength.toNat else []
    if V.onTelemetry then
      let started ← now s
      let perfStart ← now s
      let r ← liftM (Recorder.new L started perfStart body)
      modify fun x => { x with recorder := some r }
    modify fun x => { x with posted := x.posted ++ [⟨V.upstreamBaseUrl ++ q.path, body, forwardHeaders q⟩] }
    respond L V s

/-- What comes of one request. -/
def exchange : Exchange := ((doPost L V s).run.run .start).2

end Handler

end ServingProxy
end LocaiLink
