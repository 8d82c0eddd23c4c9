/-
# Listening to a microphone

The audio classifier has three threads: the sound library calls it back with a chunk at a time,
the inference thread takes the chunks from a bounded queue and classifies the window that ends
with each, and the pipeline's thread fetches what was reported and stops it all. Chunks are
dropped only where the queue is full, and windows, frames and reports follow the chunks in order
however the threads interleave (`heard_in_order`); but a stop that finds the queue full ends only
where the inference thread is about to take a chunk (`stop_iff`).
-/
import LocaiLink.Plugins.Events

namespace LocaiLink
namespace Listening

open Events (Frame Settings Payload)

/-! ### The adapter -/

/-- The lengths of the rolling buffer and of a chunk, which is no longer. -/
structure Sizes where
  window : ℕ
  hop : ℕ
  fits : hop ≤ window

/-- `PATCH_WINDOW_SECONDS` and `PATCH_HOP_SECONDS` at `SAMPLE_RATE`. -/
def yamnet : Sizes := ⟨15600, 7680, by decide⟩

/-- `audio_queue`'s `maxsize`. -/
def maxQueued : ℕ := 10

/-- `_MAX_CONSECUTIVE_FAILURES` -/
def maxConsecutiveFailures : ℕ := 5

/-- A block of the stream. -/
abbrev Chunk (z : Sizes) : Type := { samples : List ℚ // samples.length = z.hop }

/-- Where `_inference_loop` is. -/
inductive Point (z : Sizes)
  /-- `while self.running` -/
  | top
  /-- `self.audio_queue.get(timeout=1.0)` -/
  | getting
  /-- the rolling buffer, the inference and the event -/
  | inferring (chunk : Chunk z)
  /-- `if self.output_queue.full()` -/
  | reporting (payload : Payload)
  /-- `self.output_queue.get_nowait()` -/
  | evicting (payload : Payload)
  /-- `self.output_queue.put(payload)` -/
  | putting (payload : Payload)
  /-- `self.running = False`, after too many failures -/
  | failing
  | ended

/-- Where a call of `stop` is. -/
inductive StopPoint
  /-- `self.running = False` -/
  | flagging
  /-- `self.stream.stop()` -/
  | closing
  /-- `self.audio_queue.put(None)` -/
  | putting
  /-- `self.inference_thread.join(timeout=1.0)` -/
  | joining
  | done
  deriving DecidableEq

structure AudioClassifier (z : Sizes) where
  running : Bool
  streaming : Bool
  /-- The sentinel is none. -/
  audioQueue : List (Option (Chunk z))
  outputQueue : List Payload
  buffer : List ℚ
  events : Events.State
  consecutiveFailures : ℕ
  /-- A callback that has seen `self.running`. -/
  callback : Option (Chunk z)
  thread : Point z
  stops : List StopPoint

variable {z : Sizes}

/-- What `__init__` leaves. -/
def AudioClassifier.start (z : Sizes) : AudioClassifier z where
  running := true
  streaming := true
  audioQueue := []
  outputQueue := []
  buffer := List.replicate z.window 0
  events := Events.initial
  consecutiveFailures := 0
  callback := none
  thread := .top
  stops := []

/-- `np.roll`, and the chunk in place of what came round. -/
def rolled (buffer : List ℚ) (chunk : Chunk z) : List ℚ := buffer.drop z.hop ++ chunk.val

/-- What happens next: a callback comes or puts its chunk, the inference thread takes its next step (with what the
model says of the window and the time, none where it raises), the pipeline calls, or `stop` is called or takes
its next step. -/
inductive Event (z : Sizes)
  | hears (chunk : Chunk z)
  | queues
  | thread (frame : Option Frame)
  | call
  | stop
  | stopStep (i : ℕ)

namespace AudioClassifier

/-- `_audio_callback`, from its start. -/
def audioCallback (s : AudioClassifier z) (chunk : Chunk z) : Option (AudioClassifier z) :=
  if s.streaming && s.callback.isNone then some (if s.running then { s with callback := some chunk } else s) else none

/-- Its `put`, without waiting; a full queue drops the chunk. -/
def queues (s : AudioClassifier z) : Option (AudioClassifier z) :=
  s.callback.map fun chunk =>
    { s with callback := none, audioQueue := if s.audioQueue.length < maxQueued then s.audioQueue ++ [some chunk] else s.audioQueue }

/-- A failed inference. -/
def fails (s : AudioClassifier z) : AudioClassifier z :=
  { s with
    consecutiveFailures := s.consecutiveFailures + 1
    thread := if maxConsecutiveFailures ≤ s.consecutiveFailures + 1 then .failing else .top }

/-- `if payload` -/
def reports : Option Payload → Point z
  | some payload => .reporting payload
  | none => .top

/-- A frame, and what `_process_event_state` makes of it. -/
def classifies (c : Settings) (s : AudioClassifier z) (frame : Frame) : AudioClassifier z :=
  let processed := Events.AudioClassifier.processEventState c s.events frame
  { s with events := processed.2, consecutiveFailures := 0, thread := reports processed.1 }

/-- The next step of `_inference_loop`. -/
def inferenceLoop (c : Settings) (s : AudioClassifier z) (frame : Option Frame) : Option (AudioClassifier z) :=
  match s.thread with
  | .top => some { s with thread := if s.running then .getting else .ended }
  | .getting =>
    match s.audioQueue with
    | [] => some { s with thread := .top }
    | none :: queue => some { s with audioQueue := queue, thread := .ended }
    | some chunk :: queue => some { s with audioQueue := queue, thread := .inferring chunk }
  | .inferring chunk =>
    let s := { s with buffer := rolled s.buffer chunk }
    match frame with
    | some frame => some (s.classifies c frame)
    | none => some s.fails
  | .reporting payload => some { s with thread := if s.outputQueue.length = 1 then .evicting payload else .putting payload }
  | .evicting payload => some { s with outputQueue := s.outputQueue.tail, thread := .putting payload }
  | .putting payload => if s.outputQueue.length < 1 then some { s with outputQueue := s.outputQueue ++ [payload], thread := .top } else none
  | .failing => some { s with running := false, thread := .ended }
  | .ended => none

/-- `__call__` -/
def call (s : AudioClassifier z) : AudioClassifier z := { s with outputQueue := s.outputQueue.tail }

/-- The next step of a call of `stop`; its `put` waits for room. -/
def stop (s : AudioClassifier z) (i : ℕ) : Option (AudioClassifier z) :=
  match s.stops[i]? with
  | some .flagging => some { s with running := false, stops := s.stops.set i .closing }
  | some .closing => some { s with streaming := false, stops := s.stops.set i .putting }
  | some .putting =>
    if s.audioQueue.length < maxQueued then some { s with audioQueue := s.audioQueue ++ [none], stops := s.stops.set i .joining } else none
  | some .joining => some { s with stops := s.stops.set i .done }
  | _ => none

def step (c : Settings) (s : AudioClassifier z) : Event z → Option (AudioClassifier z)
  | .hears chunk => s.audioCallback chunk
  | .queues => s.queues
  | .thread frame => s.inferenceLoop c frame
  | .call => some s.call
  | .stop => some { s with stops := s.stops ++ [.flagging] }
  | .stopStep i => s.stop i

end AudioClassifier

/-- What `__call__` does. -/
inductive Answer
  | fetched (payload : Payload)
  | nothing
  /-- `StopIteration` -/
  | over

/-- `__call__`, what it returns or raises. -/
def AudioClassifier.answer (s : AudioClassifier z) : Answer :=
  match s.outputQueue with
  | payload :: _ => .fetched payload
  | [] =>
    match s.running, s.thread with
    | true, .ended | false, _ => .over
    | true, _ => .nothing

/-! ### What came and what became of it -/

structure Log (z : Sizes) where
  /-- The chunks that the queue took. -/
  heard : List (Chunk z)
  /-- Those that were classified, and the windows that they end. -/
  consumed : List (Chunk z)
  windows : List (List ℚ)
  frames : List Frame
  /-- What was put into the output queue, and what was fetched from it. -/
  reported : List Payload
  fetched : List Payload

def Log.empty : Log z := ⟨[], [], [], [], [], []⟩

/-- What an event adds. -/
def Log.note (l : Log z) (s : AudioClassifier z) : Event z → Log z
  | .queues => { l with heard := l.heard ++ (if s.audioQueue.length < maxQueued then s.callback.toList else []) }
  | .thread frame =>
    match s.thread with
    | .inferring chunk =>
      { l with consumed := l.consumed ++ [chunk], windows := l.windows ++ [rolled s.buffer chunk], frames := l.frames ++ frame.toList }
    | .putting payload => { l with reported := l.reported ++ [payload] }
    | _ => l
  | .call => { l with fetched := l.fetched ++ s.outputQueue.head?.toList }
  | _ => l

/-- Events in any order, none where one of them cannot be. -/
def run (c : Settings) (s : AudioClassifier z) (l : Log z) : List (Event z) → Option (AudioClassifier z × Log z)
  | [] => some (s, l)
  | e :: es => (s.step c e).bind fun s' => run c s' (l.note s e) es

/-- The last samples. -/
def lastSamples (n : ℕ) (samples : List ℚ) : List ℚ := samples.drop (samples.length - n)

/-- What was there before a window, and the chunks. -/
def stream (chunks : List (Chunk z)) : List ℚ := List.replicate z.window 0 ++ chunks.flatMap Subtype.val

/-- The chunk, or the report, that the inference thread has in hand. -/
def Point.chunk : Point z → List (Chunk z)
  | .inferring chunk => [chunk]
  | _ => []

def Point.report : Point z → List Payload
  | .reporting payload | .evicting payload | .putting payload => [payload]
  | _ => []

/-- The state of the events after some frames. -/
def eventsAfter (c : Settings) (frames : List Frame) : Events.State :=
  frames.foldl (fun s f => (Events.AudioClassifier.processEventState c s f).2) Events.initial

/-- **The invariant.** -/
structure Heard (c : Settings) (s : AudioClassifier z) (l : Log z) : Prop where
  queued : s.audioQueue.length ≤ maxQueued
  kept : s.outputQueue.length ≤ 1
  /-- There is room for a report that is to be put. -/
  room : ∀ payload, s.thread = .putting payload → s.outputQueue = []
  order : l.heard = l.consumed ++ s.thread.chunk ++ s.audioQueue.filterMap id
  buffer : s.buffer = lastSamples z.window (stream l.consumed)
  windows : l.windows = (List.range l.consumed.length).map fun k => lastSamples z.window (stream (l.consumed.take (k + 1)))
  events : s.events = eventsAfter c l.frames
  reports : l.reported ++ s.thread.report = Events.AudioClassifier.events c l.frames
  fetched : (l.fetched ++ s.outputQueue).Sublist l.reported
  latest : (∃ payload, s.thread = .putting payload) ∨ (l.fetched ++ s.outputQueue).getLast? = l.reported.getLast?

/-- A stop is past its first step. -/
def AudioClassifier.Called (s : AudioClassifier z) : Prop := ∃ p ∈ s.stops, p ≠ .flagging

/-- **The invariant of the end.** The thread is told to end by a stop or by its own failures. -/
structure Told (s : AudioClassifier z) : Prop where
  flag : s.running = false → s.Called ∨ maxConsecutiveFailures ≤ s.consecutiveFailures ∧ s.thread = .ended
  stopped : s.Called → s.running = false
  /-- A sentinel is a stop's. -/
  sentinel : none ∈ s.audioQueue → s.Called
  ended : s.thread = .ended → s.running = false
  failures : s.consecutiveFailures < maxConsecutiveFailures ∨ s.thread = .failing ∨ s.thread = .ended
  five : s.thread = .failing → maxConsecutiveFailures ≤ s.consecutiveFailures

section Points

variable (payload : Option Payload)

@[simp] theorem Point.chunk_reports : (AudioClassifier.reports payload : Point z).chunk = [] := by cases payload <;> rfl

@[simp] theorem Point.report_reports : (AudioClassifier.reports payload : Point z).report = payload.toList := by cases payload <;> rfl

theorem Point.reports_ne_failing : (AudioClassifier.reports payload : Point z) ≠ .failing := by
  cases payload <;> simp [AudioClassifier.reports]

theorem Point.reports_ne_ended : (AudioClassifier.reports payload : Point z) ≠ .ended := by
  cases payload <;> simp [AudioClassifier.reports]

theorem Point.reports_ne_putting (other : Payload) : (AudioClassifier.reports payload : Point z) ≠ .putting other := by
  cases payload <;> simp [AudioClassifier.reports]

end Points

section Windows

variable {chunks : List (Chunk z)} {chunk : Chunk z}

theorem length_stream (chunks : List (Chunk z)) : (stream chunks).length = z.window + z.hop * chunks.length := by
  have hflat : (chunks.flatMap Subtype.val).length = z.hop * chunks.length := by
    induction chunks with
    | nil => rfl
    | cons c chunks ih =>
      rw [List.flatMap_cons, List.length_append, ih, c.property, List.length_cons, Nat.mul_succ, Nat.add_comm]
  rw [stream, List.length_append, List.length_replicate, hflat]

theorem stream_append (chunks : List (Chunk z)) (chunk : Chunk z) : stream (chunks ++ [chunk]) = stream chunks ++ chunk.val := by
  simp [stream]

/-- A chunk moves the window. -/
theorem rolled_lastSamples (chunks : List (Chunk z)) (chunk : Chunk z) :
    rolled (lastSamples z.window (stream chunks)) chunk = lastSamples z.window (stream (chunks ++ [chunk])) := by
  have hlength : (stream chunks).length = z.window + z.hop * chunks.length := length_stream chunks
  have hfits := z.fits
  rw [rolled, lastSamples, lastSamples, stream_append, List.drop_drop, List.length_append, chunk.property, hlength,
    List.drop_append_of_le_length (by rw [hlength]; omega)]
  congr 2
  omega

end Windows

section Steps

variable {c : Settings} {s s' : AudioClassifier z} {l : Log z} {chunk : Chunk z} {frame : Option Frame} {i : ℕ}

theorem emitted_append (kind : Events.Kind) (st : Events.State) (frames : List Frame) (f : Frame) :
    Events.emitted kind c st (frames ++ [f]) = Events.emitted kind c st frames ++
      (Events.processEventState kind c (frames.foldl (fun s f => (Events.processEventState kind c s f).2) st) f).1.toList := by
  induction frames generalizing st with
  | nil => simp [Events.emitted]
  | cons g frames ih => simp [Events.emitted, ih]

/-- One more frame. -/
theorem events_append (c : Settings) (frames : List Frame) (f : Frame) :
    Events.AudioClassifier.events c (frames ++ [f]) = Events.AudioClassifier.events c frames ++
      (Events.AudioClassifier.processEventState c (eventsAfter c frames) f).1.toList :=
  emitted_append _ _ frames f

theorem Heard.hears (h : Heard c s l) (hs : s.audioCallback chunk = some s') : Heard c s' l := by
  unfold AudioClassifier.audioCallback at hs
  split_ifs at hs
  · obtain rfl := Option.some.inj hs
    exact { h with }
  · obtain rfl := Option.some.inj hs
    exact h

theorem Heard.queues (h : Heard c s l) (hs : s.queues = some s') : Heard c s' (l.note s .queues) := by
  obtain ⟨chunk, hchunk, rfl⟩ := Option.map_eq_some_iff.mp hs
  unfold Log.note
  rw [hchunk]
  by_cases hroom : s.audioQueue.length < maxQueued
  · simp only [if_pos hroom]
    refine { h with queued := ?_, order := ?_ }
    · rw [List.length_append, List.length_singleton]
      omega
    · simp [h.order]
  · simp only [if_neg hroom, List.append_nil]
    exact { h with }

theorem Heard.call (h : Heard c s l) : Heard c s.call (l.note s .call) := by
  have hsame : (l.fetched ++ s.outputQueue.head?.toList) ++ s.outputQueue.tail = l.fetched ++ s.outputQueue := by
    cases s.outputQueue <;> simp
  refine { h with kept := ?_, room := ?_, fetched := ?_, latest := ?_ }
  · have hkept := h.kept
    show s.outputQueue.tail.length ≤ 1
    rw [List.length_tail]
    omega
  · intro payload hput
    show s.outputQueue.tail = []
    rw [h.room payload hput]
    rfl
  · show ((l.fetched ++ s.outputQueue.head?.toList) ++ s.outputQueue.tail).Sublist l.reported
    rw [hsame]
    exact h.fetched
  · show _ ∨ ((l.fetched ++ s.outputQueue.head?.toList) ++ s.outputQueue.tail).getLast? = _
    rw [hsame]
    exact h.latest

/-- The thread goes on with what it has in hand. -/
theorem Heard.goes {p : Point z} (h : Heard c s l) (hchunk : p.chunk = s.thread.chunk) (hreport : p.report = s.thread.report)
    (hroom : ∀ payload, p = .putting payload → s.outputQueue = []) (hputting : ∀ payload, s.thread ≠ .putting payload) :
    Heard c { s with thread := p } l := by
  have hlatest := h.latest.resolve_left fun ⟨payload, hput⟩ => hputting payload hput
  refine { h with room := hroom, order := ?_, reports := ?_, latest := Or.inr hlatest }
  · show l.heard = l.consumed ++ p.chunk ++ s.audioQueue.filterMap id
    rw [h.order, hchunk]
  · show l.reported ++ p.report = _
    rw [← h.reports, hreport]

theorem Heard.top (h : Heard c s l) (ht : s.thread = .top) (hs : s.inferenceLoop c frame = some s') :
    Heard c s' (l.note s (.thread frame)) := by
  simp only [AudioClassifier.inferenceLoop, ht, Option.some.injEq] at hs
  simp only [Log.note, ht]
  subst hs
  apply h.goes
  · rw [ht]
    split_ifs <;> rfl
  · rw [ht]
    split_ifs <;> rfl
  · intro payload hput
    split_ifs at hput
  · simp [ht]

theorem Heard.getting (h : Heard c s l) (ht : s.thread = .getting) (hs : s.inferenceLoop c frame = some s') :
    Heard c s' (l.note s (.thread frame)) := by
  have hqueued := h.queued
  have horder := h.order
  simp only [Log.note, ht]
  rw [AudioClassifier.inferenceLoop, ht] at hs
  rw [ht] at horder
  match hqueue : s.audioQueue with
  | [] =>
    have hgoes : Heard c { s with thread := .top } l := by
      apply h.goes <;> simp [ht, Point.chunk, Point.report]
    simp only [hqueue, Option.some.injEq] at hs
    subst hs
    simpa only [hqueue] using hgoes
  | none :: queue =>
    simp only [hqueue, Option.some.injEq] at hs
    rw [hqueue, List.length_cons] at hqueued
    subst hs
    have hgoes : Heard c { s with thread := .ended } l := by
      apply h.goes <;> simp [ht, Point.chunk, Point.report]
    refine { hgoes with queued := by show queue.length ≤ maxQueued; omega, order := ?_ }
    rw [horder, hqueue]
    rfl
  | some chunk :: queue =>
    simp only [hqueue, Option.some.injEq] at hs
    rw [hqueue, List.length_cons] at hqueued
    subst hs
    refine
      { h with
        queued := by show queue.length ≤ maxQueued; omega
        room := by simp, order := ?_, reports := ?_, latest := Or.inr (h.latest.resolve_left (by simp [ht])) }
    · rw [horder, hqueue]
      simp [Point.chunk]
    · rw [← h.reports, ht]
      rfl

/-- The windows end with the chunks that were classified. -/
theorem windows_append (consumed : List (Chunk z)) (chunk : Chunk z) :
    ((List.range (consumed ++ [chunk]).length).map fun k => lastSamples z.window (stream ((consumed ++ [chunk]).take (k + 1))))
      = ((List.range consumed.length).map fun k => lastSamples z.window (stream (consumed.take (k + 1))))
          ++ [lastSamples z.window (stream (consumed ++ [chunk]))] := by
  rw [List.length_append, List.length_singleton, List.range_succ, List.map_append, List.map_singleton,
    List.take_of_length_le (by simp)]
  congr 1
  apply List.map_congr_left
  intro k hk
  rw [List.take_append_of_le_length (List.mem_range.mp hk)]

/-- The thread has taken a chunk into its window. -/
theorem Heard.consumes {p : Point z} {failures : ℕ} {events : Events.State} (h : Heard c s l) (ht : s.thread = .inferring chunk)
    (hchunk : p.chunk = []) (hputting : ∀ payload, p ≠ .putting payload)
    (hevents : events = eventsAfter c (l.frames ++ frame.toList))
    (hreports : p.report = ((frame.bind fun f => (Events.AudioClassifier.processEventState c s.events f).1).toList)) :
    Heard c { s with buffer := rolled s.buffer chunk, events := events, consecutiveFailures := failures, thread := p }
      (l.note s (.thread frame)) := by
  have hlatest := h.latest.resolve_left (by simp [ht])
  have horder := h.order
  rw [ht] at horder
  have hreported := h.reports
  rw [ht] at hreported
  simp only [Log.note, ht]
  refine
    { h with
      room := fun payload hput => absurd hput (hputting payload)
      order := ?_, buffer := ?_, windows := ?_, events := hevents, reports := ?_
      latest := Or.inr hlatest }
  · show l.heard = (l.consumed ++ [chunk]) ++ p.chunk ++ _
    rw [horder, hchunk, List.append_nil]
    rfl
  · show rolled s.buffer chunk = _
    rw [h.buffer, rolled_lastSamples]
  · show l.windows ++ [rolled s.buffer chunk] = _
    rw [windows_append, h.windows, h.buffer, rolled_lastSamples]
  · show l.reported ++ p.report = Events.AudioClassifier.events c (l.frames ++ frame.toList)
    rw [hreports]
    cases frame with
    | none => simpa [Point.report] using hreported
    | some f =>
      have hreported : l.reported = Events.AudioClassifier.events c l.frames := by simpa [Point.report] using hreported
      rw [hreported, h.events]
      exact (events_append c l.frames f).symm

theorem Heard.inferring (h : Heard c s l) (ht : s.thread = .inferring chunk) (hs : s.inferenceLoop c frame = some s') :
    Heard c s' (l.note s (.thread frame)) := by
  simp only [AudioClassifier.inferenceLoop, ht] at hs
  cases frame with
  | none =>
    simp only [Option.some.injEq] at hs
    subst hs
    unfold AudioClassifier.fails
    apply h.consumes ht
    · split_ifs <;> rfl
    · intro payload
      split_ifs <;> simp
    · simpa using h.events
    · split_ifs <;> rfl
  | some f =>
    simp only [Option.some.injEq] at hs
    subst hs
    unfold AudioClassifier.classifies
    apply h.consumes ht
    · exact Point.chunk_reports _
    · intro payload
      exact Point.reports_ne_putting _ payload
    · show (Events.AudioClassifier.processEventState c s.events f).2 = eventsAfter c (l.frames ++ [f])
      rw [h.events, eventsAfter, eventsAfter, List.foldl_append]
      rfl
    · exact Point.report_reports _

theorem Heard.reporting {payload : Payload} (h : Heard c s l) (ht : s.thread = .reporting payload)
    (hs : s.inferenceLoop c frame = some s') : Heard c s' (l.note s (.thread frame)) := by
  have hkept := h.kept
  simp only [AudioClassifier.inferenceLoop, ht, Option.some.injEq] at hs
  simp only [Log.note, ht]
  subst hs
  apply h.goes
  · rw [ht]
    split_ifs <;> rfl
  · rw [ht]
    split_ifs <;> rfl
  · intro other hput
    split_ifs at hput with hfull
    apply List.eq_nil_of_length_eq_zero
    omega
  · simp [ht]

theorem Heard.evicting {payload : Payload} (h : Heard c s l) (ht : s.thread = .evicting payload)
    (hs : s.inferenceLoop c frame = some s') : Heard c s' (l.note s (.thread frame)) := by
  have hkept := h.kept
  have horder := h.order
  have hreports := h.reports
  rw [ht] at horder hreports
  simp only [AudioClassifier.inferenceLoop, ht, Option.some.injEq] at hs
  simp only [Log.note, ht]
  subst hs
  have htail : s.outputQueue.tail = [] := by
    apply List.eq_nil_of_length_eq_zero
    rw [List.length_tail]
    omega
  refine
    { h with
      kept := ?_, room := fun _ _ => htail, order := horder, reports := hreports, fetched := ?_
      latest := Or.inl ⟨payload, rfl⟩ }
  · show s.outputQueue.tail.length ≤ 1
    rw [htail]
    exact Nat.zero_le 1
  · show (l.fetched ++ s.outputQueue.tail).Sublist l.reported
    rw [htail, List.append_nil]
    exact (List.sublist_append_left l.fetched s.outputQueue).trans h.fetched

theorem Heard.putting {payload : Payload} (h : Heard c s l) (ht : s.thread = .putting payload)
    (hs : s.inferenceLoop c frame = some s') : Heard c s' (l.note s (.thread frame)) := by
  have hempty : s.outputQueue = [] := h.room payload ht
  have horder := h.order
  have hreports := h.reports
  have hfetched := h.fetched
  rw [ht] at horder hreports
  rw [hempty, List.append_nil] at hfetched
  rw [AudioClassifier.inferenceLoop, ht] at hs
  simp only [hempty, List.length_nil, Nat.zero_lt_one, if_true, Option.some.injEq, List.nil_append] at hs
  simp only [Log.note, ht]
  subst hs
  refine
    { h with
      kept := Nat.le_refl 1, room := by simp, order := horder, reports := ?_, fetched := hfetched.append_right [payload]
      latest := ?_ }
  · simpa [Point.report] using hreports
  · right
    show (l.fetched ++ [payload]).getLast? = (l.reported ++ [payload]).getLast?
    rw [List.getLast?_concat, List.getLast?_concat]

theorem Heard.failing (h : Heard c s l) (ht : s.thread = .failing)
    (hs : s.inferenceLoop c frame = some s') : Heard c s' (l.note s (.thread frame)) := by
  have horder := h.order
  have hreports := h.reports
  have hlatest := h.latest.resolve_left (by simp [ht])
  rw [ht] at horder hreports
  simp only [AudioClassifier.inferenceLoop, ht, Option.some.injEq] at hs
  simp only [Log.note, ht]
  subst hs
  exact { h with room := by simp, order := horder, reports := hreports, latest := Or.inr hlatest }

theorem Heard.thread (h : Heard c s l) (hs : s.inferenceLoop c frame = some s') : Heard c s' (l.note s (.thread frame)) := by
  match ht : s.thread with
  | .top => exact h.top ht hs
  | .getting => exact h.getting ht hs
  | .inferring chunk => exact h.inferring ht hs
  | .reporting payload => exact h.reporting ht hs
  | .evicting payload => exact h.evicting ht hs
  | .putting payload => exact h.putting ht hs
  | .failing => exact h.failing ht hs
  | .ended =>
    rw [AudioClassifier.inferenceLoop, ht] at hs
    cases hs

theorem Heard.stopStep (h : Heard c s l) (hs : s.stop i = some s') : Heard c s' l := by
  unfold AudioClassifier.stop at hs
  split at hs
  next =>
    obtain rfl := Option.some.inj hs
    exact { h with }
  next =>
    obtain rfl := Option.some.inj hs
    exact { h with }
  next =>
    split_ifs at hs with hroom
    obtain rfl := Option.some.inj hs
    refine { h with queued := ?_, order := ?_ }
    · rw [List.length_append, List.length_singleton]
      omega
    · simp [h.order]
  next =>
    obtain rfl := Option.some.inj hs
    exact { h with }
  next => cases hs

/-- Every event keeps the invariant. -/
theorem Heard.step {e : Event z} (h : Heard c s l) (hs : s.step c e = some s') : Heard c s' (l.note s e) := by
  cases e with
  | hears chunk => exact h.hears hs
  | queues => exact h.queues hs
  | thread frame => exact h.thread hs
  | call =>
    obtain rfl := Option.some.inj hs
    exact h.call
  | stop =>
    obtain rfl := Option.some.inj hs
    exact { h with }
  | stopStep i => exact h.stopStep hs

theorem Heard.run {es : List (Event z)} {l' : Log z} (h : Heard c s l) (hr : Listening.run c s l es = some (s', l')) :
    Heard c s' l' := by
  induction es generalizing s l with
  | nil =>
    obtain ⟨rfl, rfl⟩ := Prod.mk.inj (Option.some.inj hr)
    exact h
  | cons e es ih =>
    obtain ⟨s₁, hs, hr⟩ := Option.bind_eq_some_iff.mp hr
    exact ih (h.step hs) hr

theorem heard_start (c : Settings) (z : Sizes) : Heard c (AudioClassifier.start z) Log.empty where
  queued := Nat.zero_le _
  kept := Nat.zero_le _
  room _ hput := by cases hput
  order := rfl
  buffer := by
    show List.replicate z.window 0 = lastSamples z.window (stream [])
    simp [lastSamples, stream]
  windows := rfl
  events := rfl
  reports := rfl
  fetched := List.nil_sublist _
  latest := Or.inr rfl

end Steps

/-! ### The thread is told to end -/

section Told

variable {c : Settings} {s s' : AudioClassifier z} {l l' : Log z} {frame : Option Frame} {i : ℕ}

/-- A stop that is past its flag is so from then on. -/
theorem called_set {p : StopPoint} (hp : p ≠ .flagging) (h : s.Called) (i : ℕ) : ∃ q ∈ s.stops.set i p, q ≠ .flagging := by
  obtain ⟨q, hq, hne⟩ := h
  obtain ⟨j, hj⟩ := List.mem_iff_getElem?.mp hq
  by_cases hij : i = j
  · subst hij
    exact ⟨p, List.mem_set (List.getElem?_eq_some_iff.mp hj).1 p, hp⟩
  · refine ⟨q, List.mem_of_getElem? (i := j) ?_, hne⟩
    rw [List.getElem?_set_ne hij, hj]

/-- While it runs, the thread has not failed too often. -/
theorem Told.few (h : Told s) (hfailing : s.thread ≠ .failing) (hended : s.thread ≠ .ended) :
    s.consecutiveFailures < maxConsecutiveFailures :=
  h.failures.resolve_right fun hor => hor.elim hfailing hended

/-- What keeps the flag and the stops keeps the invariant, as long as the thread ends where it is told to. -/
theorem Told.goes (h : Told s) (hstops : s'.stops = s.stops) (hrunning : s'.running = s.running)
    (hqueue : none ∈ s'.audioQueue → none ∈ s.audioQueue) (hthread : s.thread ≠ .ended)
    (hended : s'.thread = .ended → s.running = false)
    (hfailures : s'.consecutiveFailures < maxConsecutiveFailures ∨ s'.thread = .failing)
    (hfive : s'.thread = .failing → maxConsecutiveFailures ≤ s'.consecutiveFailures) : Told s' := by
  have hcalled : s'.Called ↔ s.Called := by
    unfold AudioClassifier.Called
    rw [hstops]
  refine
    { flag := ?_, stopped := ?_, sentinel := ?_, ended := ?_
      failures := hfailures.imp_right Or.inl, five := hfive }
  · intro hstopped
    rw [hrunning] at hstopped
    exact Or.inl (hcalled.mpr ((h.flag hstopped).resolve_right fun hor => hthread hor.2))
  · intro hcall
    rw [hrunning]
    exact h.stopped (hcalled.mp hcall)
  · intro hnone
    exact hcalled.mpr (h.sentinel (hqueue hnone))
  · intro hlast
    rw [hrunning]
    exact hended hlast

theorem Told.thread (h : Told s) (hs : s.inferenceLoop c frame = some s') : Told s' := by
  unfold AudioClassifier.inferenceLoop at hs
  split at hs
  next ht =>
    have hfew := h.few (by simp [ht]) (by simp [ht])
    obtain rfl := Option.some.inj hs
    by_cases hrunning : s.running = true
    all_goals apply h.goes <;> simp_all
  next ht =>
    have hfew := h.few (by simp [ht]) (by simp [ht])
    split at hs
    next hqueue =>
      obtain rfl := Option.some.inj hs
      apply h.goes <;> simp_all
    next queue hqueue =>
      have hstopped : s.running = false := h.stopped (h.sentinel (by simp [hqueue]))
      obtain rfl := Option.some.inj hs
      apply h.goes <;> simp_all
    next chunk queue hqueue =>
      obtain rfl := Option.some.inj hs
      apply h.goes <;> simp_all
  next ht =>
    split at hs
    next f =>
      obtain rfl := Option.some.inj hs
      apply h.goes
      · rfl
      · rfl
      · exact id
      · simp [ht]
      · intro hlast
        exact absurd hlast (Point.reports_ne_ended _)
      · left
        show 0 < maxConsecutiveFailures
        decide
      · intro hfailing
        exact absurd hfailing (Point.reports_ne_failing _)
    next =>
      obtain rfl := Option.some.inj hs
      have hfew := h.few (by simp [ht]) (by simp [ht])
      unfold AudioClassifier.fails
      split_ifs with hmax
      all_goals apply h.goes <;> simp_all
  next ht =>
    have hfew := h.few (by simp [ht]) (by simp [ht])
    obtain rfl := Option.some.inj hs
    by_cases hfull : s.outputQueue.length = 1
    all_goals apply h.goes <;> simp_all
  next ht =>
    have hfew := h.few (by simp [ht]) (by simp [ht])
    obtain rfl := Option.some.inj hs
    apply h.goes <;> simp_all
  next ht =>
    have hfew := h.few (by simp [ht]) (by simp [ht])
    split_ifs at hs
    obtain rfl := Option.some.inj hs
    apply h.goes <;> simp_all
  next ht =>
    obtain rfl := Option.some.inj hs
    exact
      { flag := fun _ => Or.inr ⟨h.five ht, rfl⟩
        stopped := fun _ => rfl
        sentinel := h.sentinel
        ended := fun _ => rfl
        failures := Or.inr (Or.inr rfl)
        five := by simp }
  next => cases hs

/-- A stop goes on that has flagged the thread. -/
theorem Told.stops {p : StopPoint} (h : Told s) (hi : ∃ q, s.stops[i]? = some q ∧ q ≠ .flagging) (hp : p ≠ .flagging) :
    Told { s with stops := s.stops.set i p } := by
  obtain ⟨q, hi, hq⟩ := hi
  have hcalled : s.Called := ⟨q, List.mem_of_getElem? hi, hq⟩
  exact
    { h with
      flag := fun _ => Or.inl (called_set hp hcalled i)
      stopped := fun _ => h.stopped hcalled
      sentinel := fun _ => called_set hp hcalled i }

theorem Told.stopStep (h : Told s) (hs : s.stop i = some s') : Told s' := by
  unfold AudioClassifier.stop at hs
  split at hs
  next hi =>
    obtain rfl := Option.some.inj hs
    have hcalled : ∃ q ∈ s.stops.set i .closing, q ≠ .flagging :=
      ⟨.closing, List.mem_set (List.getElem?_eq_some_iff.mp hi).1 _, by simp⟩
    exact { h with flag := fun _ => Or.inl hcalled, stopped := fun _ => rfl, sentinel := fun _ => hcalled, ended := fun _ => rfl }
  next hi =>
    obtain rfl := Option.some.inj hs
    have hstops : Told { s with stops := s.stops.set i .putting } := h.stops ⟨_, hi, by simp⟩ (by simp)
    exact { hstops with }
  next hi =>
    split_ifs at hs with hroom
    obtain rfl := Option.some.inj hs
    have hcalled : s.Called := ⟨_, List.mem_of_getElem? hi, by simp⟩
    have hstops : Told { s with stops := s.stops.set i .joining } := h.stops ⟨_, hi, by simp⟩ (by simp)
    exact { hstops with sentinel := fun _ => called_set (by simp) hcalled i }
  next hi =>
    obtain rfl := Option.some.inj hs
    exact h.stops ⟨_, hi, by simp⟩ (by simp)
  next => cases hs

/-- Every event keeps the invariant of the end. -/
theorem Told.step {e : Event z} (h : Told s) (hs : s.step c e = some s') : Told s' := by
  cases e with
  | hears chunk =>
    simp only [AudioClassifier.step, AudioClassifier.audioCallback] at hs
    split_ifs at hs
    · obtain rfl := Option.some.inj hs
      exact { h with }
    · obtain rfl := Option.some.inj hs
      exact h
  | queues =>
    obtain ⟨chunk, -, rfl⟩ := Option.map_eq_some_iff.mp hs
    refine { h with sentinel := ?_ }
    intro hnone
    apply h.sentinel
    dsimp only at hnone
    split_ifs at hnone
    · simpa using hnone
    · exact hnone
  | thread frame => exact h.thread hs
  | call =>
    obtain rfl := Option.some.inj hs
    exact { h with }
  | stop =>
    obtain rfl := Option.some.inj hs
    have hcalled : (∃ p ∈ s.stops ++ [.flagging], p ≠ StopPoint.flagging) ↔ s.Called := by
      simp [AudioClassifier.Called, or_and_right]
    exact
      { h with
        flag := fun hstopped => (h.flag hstopped).imp_left hcalled.mpr
        stopped := fun hcall => h.stopped (hcalled.mp hcall)
        sentinel := fun hnone => hcalled.mpr (h.sentinel hnone) }
  | stopStep i => exact h.stopStep hs

theorem Told.run {es : List (Event z)} (h : Told s) (hr : Listening.run c s l es = some (s', l')) : Told s' := by
  induction es generalizing s l with
  | nil =>
    obtain ⟨rfl, rfl⟩ := Prod.mk.inj (Option.some.inj hr)
    exact h
  | cons e es ih =>
    obtain ⟨s₁, hs, hr⟩ := Option.bind_eq_some_iff.mp hr
    exact ih (h.step hs) hr

theorem told_start (z : Sizes) : Told (AudioClassifier.start z) where
  flag hstopped := by cases hstopped
  stopped := by simp [AudioClassifier.start, AudioClassifier.Called]
  sentinel := by simp [AudioClassifier.start]
  ended hlast := by cases hlast
  failures := Or.inl (by show 0 < maxConsecutiveFailures; decide)
  five hfailing := by cases hfailing

end Told

/-- A stop that has put its sentinel. -/
def AudioClassifier.Sent (s : AudioClassifier z) (i : ℕ) : Prop := s.stops[i]? = some .joining ∨ s.stops[i]? = some .done

/-- Nothing makes room any more. -/
structure Starved (s : AudioClassifier z) (i : ℕ) : Prop where
  putting : s.stops[i]? = some .putting
  running : s.running = false
  full : s.audioQueue.length = maxQueued
  away : s.thread ≠ .getting

section Starved

variable {c : Settings} {s s' : AudioClassifier z} {l l' : Log z} {i : ℕ}

theorem Starved.thread {frame : Option Frame} (h : Starved s i) (hs : s.inferenceLoop c frame = some s') : Starved s' i := by
  have haway := h.away
  unfold AudioClassifier.inferenceLoop at hs
  split at hs
  next ht =>
    obtain rfl := Option.some.inj hs
    exact { h with away := by simp [h.running] }
  next ht => exact absurd ht haway
  next ht =>
    split at hs
    next f =>
      obtain rfl := Option.some.inj hs
      refine { h with away := ?_ }
      show AudioClassifier.reports _ ≠ Point.getting
      unfold AudioClassifier.reports
      split <;> simp
    next =>
      obtain rfl := Option.some.inj hs
      refine { h with away := ?_ }
      show (if _ then Point.failing else Point.top) ≠ Point.getting
      split_ifs <;> simp
  next ht =>
    obtain rfl := Option.some.inj hs
    refine { h with away := ?_ }
    show (if _ then Point.evicting _ else Point.putting _) ≠ Point.getting
    split_ifs <;> simp
  next ht =>
    obtain rfl := Option.some.inj hs
    exact { h with away := by simp }
  next ht =>
    split_ifs at hs
    obtain rfl := Option.some.inj hs
    exact { h with away := by simp }
  next ht =>
    obtain rfl := Option.some.inj hs
    exact { h with running := rfl, away := by simp }
  next => cases hs

theorem Starved.stopStep {j : ℕ} (h : Starved s i) (hs : s.stop j = some s') : Starved s' i := by
  have hother : ∀ p q, s.stops[j]? = some q → q ≠ .putting → (s.stops.set j p)[i]? = some .putting := by
    intro p q hj hq
    have hne : j ≠ i := by
      rintro rfl
      rw [h.putting] at hj
      exact hq (Option.some.inj hj).symm
    rw [List.getElem?_set_ne hne, h.putting]
  unfold AudioClassifier.stop at hs
  split at hs
  next hj =>
    obtain rfl := Option.some.inj hs
    exact { h with putting := hother _ _ hj (by simp), running := rfl }
  next hj =>
    obtain rfl := Option.some.inj hs
    exact { h with putting := hother _ _ hj (by simp) }
  next hj =>
    split_ifs at hs with hroom
    exact absurd h.full (Nat.ne_of_lt hroom)
  next hj =>
    obtain rfl := Option.some.inj hs
    exact { h with putting := hother _ _ hj (by simp) }
  next => cases hs

theorem Starved.step {e : Event z} (h : Starved s i) (hs : s.step c e = some s') : Starved s' i := by
  cases e with
  | hears chunk =>
    simp only [AudioClassifier.step, AudioClassifier.audioCallback] at hs
    split_ifs at hs with _ hrunning
    · rw [h.running] at hrunning
      cases hrunning
    · obtain rfl := Option.some.inj hs
      exact h
  | queues =>
    obtain ⟨chunk, -, rfl⟩ := Option.map_eq_some_iff.mp hs
    refine { h with full := ?_ }
    rw [if_neg (by rw [h.full]; exact Nat.lt_irrefl _), h.full]
  | thread frame => exact h.thread hs
  | call =>
    obtain rfl := Option.some.inj hs
    exact { h with }
  | stop =>
    obtain rfl := Option.some.inj hs
    refine { h with putting := ?_ }
    rw [List.getElem?_append_left (List.getElem?_eq_some_iff.mp h.putting).1, h.putting]
  | stopStep j => exact h.stopStep hs

theorem Starved.run {es : List (Event z)} (h : Starved s i) (hr : Listening.run c s l es = some (s', l')) : Starved s' i := by
  induction es generalizing s l with
  | nil =>
    obtain ⟨rfl, rfl⟩ := Prod.mk.inj (Option.some.inj hr)
    exact h
  | cons e es ih =>
    obtain ⟨s₁, hs, hr⟩ := Option.bind_eq_some_iff.mp hr
    exact ih (h.step hs) hr

/-- A stop puts its sentinel where there is room. -/
theorem sent_of_room (c : Settings) (l : Log z) (hi : s.stops[i]? = some .putting) (hroom : s.audioQueue.length < maxQueued) :
    ∃ s', Listening.run c s l [.stopStep i] = some (s', l) ∧ s'.Sent i := by
  have hlt : i < s.stops.length := (List.getElem?_eq_some_iff.mp hi).1
  refine ⟨{ s with audioQueue := s.audioQueue ++ [none], stops := s.stops.set i .joining }, ?_, ?_⟩
  · simp [Listening.run, AudioClassifier.step, AudioClassifier.stop, hi, hroom, Log.note]
  · left
    exact List.getElem?_set_self hlt

/-- The inference thread makes room where it is about to take a chunk. -/
theorem room_of_getting (c : Settings) (l : Log z) (ht : s.thread = .getting) (hfull : s.audioQueue.length = maxQueued) :
    ∃ s', Listening.run c s l [.thread none] = some (s', l) ∧ s'.stops = s.stops ∧ s'.audioQueue.length < maxQueued := by
  match hqueue : s.audioQueue with
  | [] => simp [hqueue, maxQueued] at hfull
  | item :: queue =>
    rw [hqueue, List.length_cons] at hfull
    have hlt : queue.length < maxQueued := by omega
    cases item with
    | none =>
      refine ⟨{ s with audioQueue := queue, thread := .ended }, ?_, rfl, hlt⟩
      simp [Listening.run, AudioClassifier.step, AudioClassifier.inferenceLoop, ht, hqueue, Log.note]
    | some chunk =>
      refine ⟨{ s with audioQueue := queue, thread := .inferring chunk }, ?_, rfl, hlt⟩
      simp [Listening.run, AudioClassifier.step, AudioClassifier.inferenceLoop, ht, hqueue, Log.note]

theorem run_append {es fs : List (Event z)} {s₁ : AudioClassifier z} {l₁ : Log z} (h : Listening.run c s l es = some (s₁, l₁)) :
    Listening.run c s l (es ++ fs) = Listening.run c s₁ l₁ fs := by
  induction es generalizing s l with
  | nil =>
    obtain ⟨rfl, rfl⟩ := Prod.mk.inj (Option.some.inj h)
    rfl
  | cons e es ih =>
    obtain ⟨s₂, hs, h⟩ := Option.bind_eq_some_iff.mp h
    calc Listening.run c s l (e :: es ++ fs)
        = (s.step c e).bind fun s' => Listening.run c s' (l.note s e) (es ++ fs) := rfl
      _ = Listening.run c s₂ (l.note s e) (es ++ fs) := by rw [hs, Option.bind_some]
      _ = Listening.run c s₁ l₁ fs := ih h

/-- **When a stop can end.** A stop that is to put its sentinel gets to do so, in some order of what follows, exactly
where the queue has room or the inference thread is about to take from it: nothing else empties the queue once the thread
is told to end. -/
theorem stop_iff (c : Settings) (z : Sizes) {es : List (Event z)} {s : AudioClassifier z} {l : Log z} {i : ℕ}
    (hr : run c (AudioClassifier.start z) Log.empty es = some (s, l)) (hi : s.stops[i]? = some .putting) :
    (∃ fs s' l', run c s l fs = some (s', l') ∧ s'.Sent i) ↔ s.audioQueue.length < maxQueued ∨ s.thread = .getting := by
  have hqueued : s.audioQueue.length ≤ maxQueued := ((heard_start c z).run hr).queued
  have htold : Told s := (told_start z).run hr
  constructor
  · rintro ⟨fs, s', l', hfs, hsent⟩
    by_contra hnot
    obtain ⟨hroom, haway⟩ := not_or.mp hnot
    have hstarved : Starved s i :=
      { putting := hi
        running := htold.stopped ⟨_, List.mem_of_getElem? hi, by simp⟩
        full := by omega
        away := haway }
    have hstill := (hstarved.run hfs).putting
    obtain hsent | hsent := hsent
    all_goals
      rw [hstill] at hsent
      simp at hsent
  · intro hor
    by_cases hroom : s.audioQueue.length < maxQueued
    · obtain ⟨s', hs', hsent⟩ := sent_of_room c l hi hroom
      exact ⟨_, s', l, hs', hsent⟩
    · have hfull : s.audioQueue.length = maxQueued := by omega
      obtain ⟨s₁, h₁, hstops, hroom₁⟩ := room_of_getting c l (hor.resolve_left hroom) hfull
      obtain ⟨s', hs', hsent⟩ := sent_of_room c l (hstops ▸ hi) hroom₁
      exact ⟨_, s', l, (run_append h₁).trans hs', hsent⟩

/-- Chunks come while the first of them is classified, and then a stop is called. -/
theorem stop_iff_starved :
    ∃ s l, run ⟨"yamnet", 1 / 2, 0, 0⟩ (AudioClassifier.start ⟨1, 1, by decide⟩) Log.empty
        ([.hears ⟨[1], rfl⟩, .queues, .thread none, .thread none]
          ++ (List.replicate 10 [.hears ⟨[0], rfl⟩, .queues]).flatten ++ [.stop, .stopStep 0, .stopStep 0]) = some (s, l)
      ∧ s.stops[0]? = some .putting
      ∧ ¬ ∃ fs s' l', run ⟨"yamnet", 1 / 2, 0, 0⟩ s l fs = some (s', l') ∧ s'.Sent 0 := by
  have hrun : ((run ⟨"yamnet", 1 / 2, 0, 0⟩ (AudioClassifier.start ⟨1, 1, by decide⟩) Log.empty
      ([.hears ⟨[1], rfl⟩, .queues, .thread none, .thread none]
        ++ (List.replicate 10 [.hears ⟨[0], rfl⟩, .queues]).flatten ++ [.stop, .stopStep 0, .stopStep 0])).map
      fun r => (r.1.stops[0]?, r.1.audioQueue.length, r.1.thread.chunk.length)) = some (some .putting, 10, 1) := by
    decide +kernel
  obtain ⟨⟨s, l⟩, hr, hs⟩ := Option.map_eq_some_iff.mp hrun
  obtain ⟨hputting, hs⟩ := Prod.mk.inj hs
  obtain ⟨hfull, hthread⟩ := Prod.mk.inj hs
  refine ⟨s, l, hr, hputting, ?_⟩
  rw [stop_iff _ _ hr hputting]
  rintro (hroom | hgetting)
  · rw [hfull] at hroom
    exact absurd hroom (by decide)
  · dsimp only at hthread
    rw [hgetting] at hthread
    cases hthread

end Starved

end Listening
end LocaiLink
