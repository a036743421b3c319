import AgenticOctopus.Chat.Sse
import AgenticOctopus.Chat.ToolProtocol

/-!
# Reading does not depend on the chunks

The bytes that wait in the buffer are the beginning of an event that has not ended. So the events
that the reader takes up are those of the whole stream, in order, wherever the chunks were cut;
what it yields, and the event at which it stops, follow from them.
-/
namespace AgenticOctopus.Chat
open Foundation Providers Program

variable (py : Interpreter)

/-! ## Parsing the events at once -/

/-- What a list of events yields, and the number of the event at which the parse stopped, with the
reason, if it did not come to the end. -/
structure Parse where
  yields : List SseEvent
  stop : Option (Nat × Stop)

def parseEvents : List Bytes → Parse
  | [] => ⟨[], none⟩
  | event :: events =>
    match (readEvent py event).run [] with
    | .ok _ yields =>
      let rest := parseEvents events
      ⟨yields ++ rest.yields, rest.stop.map fun p => (p.1 + 1, p.2)⟩
    | .error stop yields => ⟨yields, some (0, stop)⟩

/-- How the reader ends; the exception that breaks the stream off comes after the last event. -/
def Parse.outcome (parse : Parse) (failure : Option Raised) : Except Stop Unit :=
  match parse.stop, failure with
  | some (_, stop), _ => .error stop
  | none, some e => .error (.raised e)
  | none, none => .ok ()

/-- The number of events that are looked at, of so many. -/
def Parse.taken (parse : Parse) (total : Nat) : Nat :=
  match parse.stop with
  | some (n, _) => n + 1
  | none => total

/-- The events of a byte string that a blank line ends. -/
def completeEvents (stream : Bytes) : List Bytes :=
  (Framing.blocks Frame.feed [Frame.feed] stream).1

/-! ## The reader with a counter -/

/-- The events yielded, and the number of those taken off the stream. -/
abbrev Tally := List SseEvent × Nat

def onYields : Lens Tally (List SseEvent) := ⟨Prod.fst, fun s yields => (yields, s.2)⟩

def countEvent (event : Bytes) : Program Stop Tally Unit := do
  modify fun s => (s.1, s.2 + 1)
  zoom onYields (readEvent py event)

/-- `_iter_sse_deltas`, counting the events that it takes off its buffer. -/
def countDeltas (chunks : List Bytes) (failure : Option Raised) : Program Stop Tally Unit := do
  let _ ← Framing.readChunks (countEvent py) Frame.feed [Frame.feed] [] chunks
  match failure with
  | some e => throw (.raised e)
  | none => return

variable {py}

theorem appends_yieldIf {ε : Type} (value : Json) (event : Json → ε) :
    Appends (yieldIf value event) := by
  unfold yieldIf
  split
  · exact appends_modify _
  · exact appends_pure _

theorem appends_readChunk (chunk : Json) : Appends (readChunk chunk) := by
  refine appends_bind (appends_raises _) fun usage => ?_
  refine appends_bind (appends_yieldIf usage SseEvent.usage) fun _ => ?_
  refine appends_bind (appends_raises _) fun model => ?_
  refine appends_bind (appends_yieldIf model SseEvent.model) fun _ => ?_
  exact appends_bind (appends_raises _) fun content => appends_yieldIf content SseEvent.delta

theorem appends_readLine (line : Bytes) : Appends (readLine py line) := by
  unfold readLine
  split
  · exact appends_pure _
  · dsimp only
    split
    · exact appends_throw _
    · split
      · exact appends_throw _
      · unfold withLoaded
        split
        · exact appends_readChunk _
        · exact appends_pure _
        · exact appends_throw _

variable (py) in
theorem appends_readEvent (event : Bytes) : Appends (readEvent py event) :=
  appends_forM _ appends_readLine

/-- The result without the counter. -/
def forget : EStateM.Result Stop Tally Unit → EStateM.Result Stop (List SseEvent) Unit
  | .ok _ s => .ok () s.1
  | .error stop s => .error stop s.1

variable (py) in
theorem run_countEvent (event : Bytes) (yields : List SseEvent) (n : Nat) :
    (countEvent py event).run (yields, n) =
      match (readEvent py event).run [] with
      | .ok _ out => .ok () (yields ++ out, n + 1)
      | .error stop out => .error stop (yields ++ out, n + 1) := by
  have here : onYields.get (yields, n + 1) = yields := rfl
  unfold countEvent
  rw [EStateM.run_bind, EStateM.run_modify]
  dsimp only
  rw [run_zoom, here, appends_readEvent py event yields]
  cases (readEvent py event).run [] <;> rfl

variable (py) in
theorem run_countEvents (events : List Bytes) (yields : List SseEvent) (n : Nat) :
    let parse := parseEvents py events
    (forM events (countEvent py)).run (yields, n) =
      match parse.stop with
      | none => .ok PUnit.unit (yields ++ parse.yields, n + events.length)
      | some (k, stop) => .error stop (yields ++ parse.yields, n + (k + 1)) := by
  induction events generalizing yields n with
  | nil => simp [parseEvents]
  | cons event events ih =>
    have first := run_countEvent py event yields n
    rw [List.forM_cons]
    dsimp only
    rw [parseEvents]
    cases run : (readEvent py event).run [] with
    | error stop out =>
      rw [run] at first
      rw [run_bind_error first]
    | ok a out =>
      rw [run] at first
      rw [run_bind_ok first, ih (yields ++ out) (n + 1)]
      dsimp only
      rcases (parseEvents py events).stop with _ | ⟨k, stop⟩
      · have count : n + 1 + events.length = n + (events.length + 1) := by omega
        rw [Option.map_none, List.append_assoc, List.length_cons, count]
      · have count : n + 1 + (k + 1) = n + (k + 1 + 1) := by omega
        rw [Option.map_some, List.append_assoc]
        dsimp only
        rw [count]

variable (py) in
theorem forget_countEvents (events : List Bytes) (yields : List SseEvent) (n : Nat) :
    (forM events (readEvent py)).run yields =
      forget ((forM events (countEvent py)).run (yields, n)) := by
  induction events generalizing yields n with
  | nil => rfl
  | cons event events ih =>
    have counted := run_countEvent py event yields n
    have plain := appends_readEvent py event yields
    rw [List.forM_cons, List.forM_cons]
    cases run : (readEvent py event).run [] with
    | error stop out =>
      rw [run] at counted plain
      rw [run_bind_error counted, run_bind_error plain]
      rfl
    | ok a out =>
      rw [run] at counted plain
      rw [run_bind_ok counted, run_bind_ok plain]
      exact ih (yields ++ out) (n + 1)

/-! ## Any chunks -/

/-- The chunks that arrive are read as the events of the whole stream. -/
theorem iterSseDeltas_completeEvents (chunks : List Bytes) (failure : Option Raised) :
    iterSseDeltas py chunks failure = (do
      forM (completeEvents chunks.flatten) (readEvent py)
      match failure with
      | some e => throw (.raised e)
      | none => return) := by
  unfold iterSseDeltas
  rw [Framing.readChunks_eq, Framing.drain_eq, bind_assoc]
  rfl

theorem countDeltas_completeEvents (chunks : List Bytes) (failure : Option Raised) :
    countDeltas py chunks failure = (do
      forM (completeEvents chunks.flatten) (countEvent py)
      match failure with
      | some e => throw (.raised e)
      | none => return) := by
  unfold countDeltas
  rw [Framing.readChunks_eq, Framing.drain_eq, bind_assoc]
  rfl

/-- The counter takes no part in the reading. -/
theorem forget_countDeltas (chunks : List Bytes) (failure : Option Raised) :
    (iterSseDeltas py chunks failure).run [] =
      forget ((countDeltas py chunks failure).run ([], 0)) := by
  rw [iterSseDeltas_completeEvents, countDeltas_completeEvents]
  have same := forget_countEvents py (completeEvents chunks.flatten) [] 0
  cases run : (forM (completeEvents chunks.flatten) (countEvent py)).run ([], 0) with
  | ok a s =>
    rw [run] at same
    rw [run_bind_ok run, run_bind_ok same]
    cases failure <;> rfl
  | error stop s =>
    rw [run] at same
    rw [run_bind_error run, run_bind_error same]
    rfl

/-- The reader did what a parse of all the events says, of which there are so many. -/
structure Follows (parse : Parse) (total : Nat) (failure : Option Raised)
    (counted : EStateM.Result Stop Tally Unit) : Prop where
  yields : (state counted).1 = parse.yields
  taken : (state counted).2 = parse.taken total
  ends : outcome counted = parse.outcome failure

theorem countDeltas_follows (chunks : List Bytes) (failure : Option Raised) :
    let events := completeEvents chunks.flatten
    Follows (parseEvents py events) events.length failure
      ((countDeltas py chunks failure).run ([], 0)) := by
  intro events
  rw [countDeltas_completeEvents]
  have counted := run_countEvents py events [] 0
  dsimp only at counted
  rw [List.nil_append, Nat.zero_add] at counted
  cases stops : (parseEvents py events).stop with
  | none =>
    rw [stops] at counted
    rw [run_bind_ok counted]
    have taken : events.length = (parseEvents py events).taken events.length := by
      rw [Parse.taken, stops]
    cases failure with
    | none => exact ⟨rfl, taken, by unfold Parse.outcome; rw [stops]; rfl⟩
    | some e => exact ⟨rfl, taken, by unfold Parse.outcome; rw [stops]; rfl⟩
  | some p =>
    obtain ⟨k, stop⟩ := p
    rw [stops] at counted
    rw [run_bind_error counted]
    refine ⟨rfl, ?_, by unfold Parse.outcome; rw [stops]; rfl⟩
    rw [Parse.taken, stops]
    exact Nat.zero_add _

variable (py) in
/-- Two ways of cutting a stream are read alike: the same is yielded, and the reader stops at the
same event for the same reason, which are those of a parse of the whole stream. -/
theorem chunking_irrelevant (failure : Option Raised) {stream : Bytes}
    {chunks chunks' : List Bytes}
    (cut : chunks.flatten = stream) (cut' : chunks'.flatten = stream) :
    (iterSseDeltas py chunks failure).run [] = (iterSseDeltas py chunks' failure).run [] ∧
      (countDeltas py chunks failure).run ([], 0) = (countDeltas py chunks' failure).run ([], 0) ∧
      (iterSseDeltas py chunks failure).run [] =
        forget ((countDeltas py chunks failure).run ([], 0)) ∧
      let events := completeEvents stream
      Follows (parseEvents py events) events.length failure
        ((countDeltas py chunks failure).run ([], 0)) := by
  have same : chunks.flatten = chunks'.flatten := cut.trans cut'.symm
  refine ⟨?_, ?_, forget_countDeltas chunks failure, ?_⟩
  · rw [iterSseDeltas_completeEvents, iterSseDeltas_completeEvents, same]
  · rw [countDeltas_completeEvents, countDeltas_completeEvents, same]
  · rw [← cut]
    exact countDeltas_follows chunks failure

/-- A comment with a character of two bytes, a text, the end, and what is not read. -/
def accented : List Bytes :=
  [↑": é", ↑"data: \x7b\"choices\": [\x7b\"delta\": \x7b\"content\": \"a\"\x7d\x7d]\x7d",
    ↑"data: [DONE]", ↑"data: null"]

def accentedStream : Bytes := accented.flatMap fun event => event ++ [Frame.feed, Frame.feed]

theorem accented_bytewise :
    (iterSseDeltas plainPython (accentedStream.map fun b => [b]) none).run [] =
        (iterSseDeltas plainPython [accentedStream] none).run [] ∧
      Follows (parseEvents plainPython accented) 4 none
        ((countDeltas plainPython (accentedStream.map fun b => [b]) none).run ([], 0)) ∧
      (parseEvents plainPython accented).stop = some (2, .returned) ∧
      (parseEvents plainPython accented).yields.length = 1 := by
  have bytewise : (accentedStream.map fun b => [b]).flatten = accentedStream :=
    List.flatMap_singleton' accentedStream
  have whole : [accentedStream].flatten = accentedStream := List.append_nil _
  have events : completeEvents accentedStream = accented := by
    have alone : ∀ event ∈ accented, Framing.Standalone Frame.feed [Frame.feed] event := by
      unfold Framing.Standalone
      decide +kernel
    exact congrArg Prod.fst (Framing.blocks_flatMap alone)
  obtain ⟨same, -, -, follows⟩ := chunking_irrelevant plainPython none bytewise whole
  rw [events] at follows
  exact ⟨same, follows, by decide +kernel, by decide +kernel⟩

end AgenticOctopus.Chat
