import AgenticOctopus.Foundation.JsonNesting
import AgenticOctopus.Chat.Sse
import AgenticOctopus.Chat.Streaming

/-!
# A streamed turn from the server to the terminal

`send_message` writes the events of `send_stream` as frames; the command line reads them line
by line and prints the texts, with a line for each tool call.
-/
namespace AgenticOctopus.Api
open Foundation Providers Chat

/-! ## The server -/

/-- An event as `json.dumps` gets it. -/
def eventJson (py : Interpreter) : StreamEvent → Json
  | .chunk content =>
    .obj [(↑"object", .str ↑"chat.completion.chunk"),
      (↑"choices", .arr [.obj [(↑"delta", .obj [(↑"content", content)])]])]
  | .toolStatus tool args round =>
    .obj [(↑"tool_status", .obj [(↑"tool", .str tool), (↑"args", argsJson py args),
      (↑"round", .int round)])]
  | .done messageId usage =>
    .obj [(↑"done", .bool true), (↑"message_id", .int messageId), (↑"usage", usage)]

def errorJson (message : Text) : Json := .obj [(↑"error", .str message)]

/-- The events that get out, and the exception of `json.dumps` at the first that does not. -/
def written (py : Interpreter) : List StreamEvent → List StreamEvent × Option Raised
  | [] => ([], none)
  | event :: events =>
    match dumps py (eventJson py event) with
    | .ok _ => (event :: (written py events).1, (written py events).2)
    | .error e => ([], some e)

/-- How the loop of `sse()` ends. -/
def sseOutcome (py : Interpreter) (turn : EStateM.Result Raised Streaming Unit) :
    Except Raised Unit :=
  match (written py (Program.state turn).yielded).2 with
  | some e => .error e
  | none => Program.outcome turn

/-- The frames of `sse()`, which never closes the generator; `describe` is `str` of an
exception. -/
def sse (py : Interpreter) (describe : Raised → Text)
    (turn : EStateM.Result Raised Streaming Unit) : List Frame :=
  (written py (Program.state turn).yielded).1.map (fun event => .data (eventJson py event)) ++
    match sseOutcome py turn with
    | .ok _ => [.done]
    | .error e => [.data (errorJson (describe e)), .done]

/-! ## The terminal -/

/-- A call of `typer.echo`. -/
structure Echo where
  message : Text
  newline : Bool

def echo (message : Text) (newline : Bool) : Reader Echo Unit := yieldEvent ⟨message, newline⟩

variable (py : Interpreter)

def toolLine (tool args : Json) : Text :=
  ↑"\n[" ++ tool.toStr py ++ ↑": " ++ (args.dumped py).take 80 ++ ↑"]"

def printChunk (chunk : Json) : Reader Echo Unit := do
  let error ← fails (getField chunk ↑"error")
  if error.truthy then
    echo (↑"\n[error] " ++ error.toStr py) true
    throw .returned
  else
    let status ← fails (getField chunk ↑"tool_status")
    if status.truthy then
      let tool ← fails (item status ↑"tool")
      let args ← fails (item status ↑"args")
      echo (toolLine py tool args) true
      echo ↑"octo > " false
    else
      let done ← fails (getField chunk ↑"done")
      if done.truthy then return
      else
        let content ← fails (deltaContent chunk)
        if content.truthy then echo (content.toStr py) false

def printLine (line : Text) : Reader Echo Unit :=
  if !line.startswith ↑"data: " then return
  else
    let payload := Text.strip (line.drop 6)
    if payload = ↑"[DONE]" then do
      echo [] true
      throw .returned
    else withLoaded py payload (printChunk py)

def printStream (lines : List Text) : Reader Echo Unit := forM lines (printLine py)

/-! ## Line by line -/

variable {py}

theorem printLine_empty : printLine py [] = pure () := rfl

theorem run_printLine_done (py : Interpreter) (seen : List Echo) :
    (printLine py (Frame.done.line py)).run seen = .error .returned (seen ++ [⟨[], true⟩]) := rfl

theorem printLine_object {fields : List (Text × Json)} (trips : RoundTrips py (.obj fields)) :
    printLine py ((Frame.data (.obj fields)).line py) = printChunk py (.obj fields) := by
  have starts : Text.startswith ((Frame.data (.obj fields)).line py) ↑"data: " = true :=
    Text.startswith_iff.mpr (List.prefix_append _ _)
  have payload : ((Frame.data (.obj fields)).line py).drop 6 = Json.dumped py (.obj fields) := rfl
  have more : Json.dumped py (.obj fields) ≠ ↑"[DONE]" := Frame.object_ne_doneText py fields
  rw [printLine, starts, payload, Frame.strip_object]
  simp only [Bool.not_true, Bool.false_eq_true, if_false]
  rw [if_neg more]
  exact withLoaded_of_roundTrips trips _

/-- The empty lines between the frames print nothing. -/
theorem printStream_texts (floats : Json.PrintableFloats py) (fs : List Frame) :
    printStream py (Text.splitlines (fs.flatMap (Frame.text py))) =
      forM fs fun f => printLine py (f.line py) := by
  rw [Frame.splitlines_texts floats, printStream]
  induction fs with
  | nil => rfl
  | cons f fs ih =>
    rw [List.flatMap_cons, List.forM_append, ih, List.forM_cons, List.forM_cons, List.forM_cons,
      printLine_empty, bind_assoc, pure_bind, List.forM_nil, pure_bind]

/-! ## What is printed -/

/-- What the terminal shows of an event: the content of a chunk, and a line for a tool call. -/
def printed (py : Interpreter) : StreamEvent → List Echo
  | .chunk content => if content.truthy then [⟨content.toStr py, false⟩] else []
  | .toolStatus tool args _ =>
    [⟨toolLine py (.str tool) (argsJson py args), true⟩, ⟨↑"octo > ", false⟩]
  | .done _ _ => []

/-- What it shows at the end: a line break, or what went wrong. -/
def closing (describe : Raised → Text) : EStateM.Result Raised Streaming Unit → List Echo
  | .ok _ _ => [⟨[], true⟩]
  | .error e _ =>
    if describe e = [] then [⟨[], true⟩] else [⟨↑"\n[error] " ++ describe e, true⟩]

theorem printChunk_event (event : StreamEvent) (seen : List Echo) :
    (printChunk py (eventJson py event)).run seen = .ok () (seen ++ printed py event) := by
  cases event with
  | chunk content =>
    have reads : printChunk py (eventJson py (.chunk content)) =
        if content.truthy then echo (content.toStr py) false else pure () := rfl
    rw [reads, printed]
    split
    · rfl
    · rw [List.append_nil]
      rfl
  | toolStatus tool args round =>
    let line : Echo := ⟨toolLine py (.str tool) (argsJson py args), true⟩
    have two : seen ++ printed py (.toolStatus tool args round) =
        (seen ++ [line]) ++ [⟨↑"octo > ", false⟩] := by
      rw [List.append_assoc]
      rfl
    rw [two]
    rfl
  | done messageId usage =>
    rw [printed, List.append_nil]
    rfl

/-- The events of a turn, printed one after the other. -/
theorem run_printLines (events : List StreamEvent) (seen : List Echo)
    (trips : ∀ event ∈ events, RoundTrips py (eventJson py event)) :
    (forM (events.map fun event => Frame.data (eventJson py event)) fun f =>
      printLine py (f.line py)).run seen =
        .ok PUnit.unit (seen ++ events.flatMap (printed py)) := by
  induction events generalizing seen with
  | nil => simp
  | cons event events ih =>
    have here : (printLine py ((Frame.data (eventJson py event)).line py)).run seen =
        .ok () (seen ++ printed py event) := by
      have trips_here := trips event List.mem_cons_self
      rw [← printChunk_event event seen]
      cases event <;> exact congrArg (EStateM.run · seen) (printLine_object trips_here)
    rw [List.map_cons, List.forM_cons, Program.run_bind_ok here,
      ih _ fun e mem => trips e (List.mem_cons_of_mem event mem), List.flatMap_cons,
      List.append_assoc]

/-- What `sse()` dumps if nothing is refused. -/
def payloads (py : Interpreter) (describe : Raised → Text)
    (turn : EStateM.Result Raised Streaming Unit) : List Json :=
  (Program.state turn).yielded.map (eventJson py) ++
    match Program.outcome turn with
    | .ok _ => []
    | .error e => [errorJson (describe e)]

/-- What can be loaded again could be dumped. -/
theorem dumps_of_roundTrips (floats : Json.PrintableFloats py) {v : Json}
    (trips : RoundTrips py v) : dumps py v = .ok (v.dumped py) := by
  have range : Json.InRange (v.dumped py) := fun c mem => by
    have small := (Json.printable_dumped floats v c mem).2
    omega
  rw [dumps, if_pos (Json.nests_of_loaded v (Json.loaded_of_loads range trips))]
  rfl

theorem written_of_roundTrips (floats : Json.PrintableFloats py) {events : List StreamEvent}
    (trips : ∀ event ∈ events, RoundTrips py (eventJson py event)) :
    written py events = (events, none) := by
  induction events with
  | nil => rfl
  | cons event events ih =>
    obtain ⟨here, later⟩ := List.forall_mem_cons.mp trips
    rw [written, dumps_of_roundTrips floats here, ih later]

/-- The last frames end the printing. -/
theorem run_printStream_sse (floats : Json.PrintableFloats py) (describe : Raised → Text)
    (turn : EStateM.Result Raised Streaming Unit)
    (trips : ∀ v ∈ payloads py describe turn, RoundTrips py v) :
    (forM (sse py describe turn) fun f => printLine py (f.line py)).run [] =
      .error .returned
        ((Program.state turn).yielded.flatMap (printed py) ++ closing describe turn) := by
  have back : ∀ event ∈ (Program.state turn).yielded, RoundTrips py (eventJson py event) :=
    fun event mem => trips _ (List.mem_append_left _ (List.mem_map_of_mem mem))
  have out := written_of_roundTrips floats back
  have events := run_printLines (Program.state turn).yielded [] back
  rw [sse, sseOutcome, out, List.forM_append, Program.run_bind_ok events]
  cases turn with
  | ok _ s =>
    rw [Program.outcome, List.forM_cons]
    exact Program.run_bind_error (run_printLine_done py _)
  | error e s =>
    have error_line : printLine py ((Frame.data (errorJson (describe e))).line py) =
        printChunk py (errorJson (describe e)) :=
      printLine_object (trips (errorJson (describe e)) (by simp [payloads, Program.outcome]))
    rw [Program.outcome, List.forM_cons, error_line, closing]
    cases told : describe e with
    | nil => exact run_printLine_done py _
    | cons c message => rfl

/-- `iter_lines` of the client finds the lines of what was sent, however it was cut. -/
def FindsLines (iterLines : List Bytes → List Text) : Prop :=
  ∀ (t : Text) (chunks : List Bytes), Bytes.Ascii t → chunks.flatten = Bytes.ofText t →
    iterLines chunks = t.splitlines

/-- Both writers are understood by their readers: `_iter_sse_deltas` reads every stream of Claude
that ends well as its non-empty deltas, its model and its usage, and the terminal prints every
streamed turn, whatever the texts and however the bytes were cut. -/
theorem writers_and_readers_agree (py : Interpreter) (floats : Json.PrintableFloats py) :
    (∀ (clock : Claude.Clock) (model : Text) (events : List Claude.MessageEvent)
        (final : Claude.FinalMessage),
      ∃ frames bytes,
        (Claude.sseFromStream clock model ⟨events, .ok final⟩).run [] = .ok () frames ∧
        Frame.wire py frames = some bytes ∧
        ((∀ v, .data v ∈ frames → RoundTrips py v) →
          ∀ (chunks : List Bytes) (failure : Option Raised), chunks.flatten = bytes →
            (iterSseDeltas py chunks failure).run [] =
              .error .returned (delivered model (Claude.texts events) (Claude.usage final)))) ∧
    (∀ (describe : Raised → Text) (turn : EStateM.Result Raised Streaming Unit)
        (iterLines : List Bytes → List Text), FindsLines iterLines →
      ∃ bytes,
        Frame.wire py (sse py describe turn) = some bytes ∧
        ((∀ v ∈ payloads py describe turn, RoundTrips py v) →
          ∀ chunks : List Bytes, chunks.flatten = bytes →
            (printStream py (iterLines chunks)).run [] =
              .error .returned
                ((Program.state turn).yielded.flatMap (printed py) ++ closing describe turn))) := by
  constructor
  · intro clock model events final
    obtain ⟨first, deltas, last, written, -⟩ :=
      Claude.run_sseFromStream clock model events final
    refine ⟨_, _, written, Frame.wire_eq floats _, fun trips chunks failure whole => ?_⟩
    exact iterSseDeltas_claude floats written trips (by rw [Frame.wire_eq floats, whole])
  · intro describe turn iterLines finds
    refine ⟨_, Frame.wire_eq floats _, fun trips chunks whole => ?_⟩
    rw [finds _ chunks (Frame.ascii_texts floats _) whole, printStream_texts floats]
    exact run_printStream_sse floats describe turn trips

/-! ## A greeting that looks like the framing -/

section Greeting

def greeting : List Claude.MessageEvent :=
  [.messageStart ↑"msg_9", .textDelta ↑"he\n\n", .textDelta ↑"data: [DONE]"]

def greetingEnd : Claude.FinalMessage := ⟨some ↑"end_turn", some 10, some 2⟩

def greetingTurn : EStateM.Result Raised Streaming Unit :=
  .ok () {
    session := { ledger := ⟨.empty, .empty, []⟩, requests := [] }
    yielded := [.chunk (.str ↑"he\n\n"), .chunk (.str ↑"data: [DONE]"), .done 4 (.obj [])]
    actualModel := .null }

/-- Lines of ASCII bytes. -/
def asciiLines (chunks : List Bytes) : List Text :=
  Text.splitlines (chunks.flatten.map UInt8.toNat)

theorem findsLines_asciiLines : FindsLines asciiLines := by
  intro t chunks ascii whole
  have codes : (Bytes.ofText t).map UInt8.toNat = t := by
    rw [Bytes.ofText, List.map_map]
    exact (List.map_congr_left fun c mem => Bytes.toNat_toUInt8 (ascii c mem).2).trans
      (List.map_id t)
  rw [asciiLines, whole, codes]

set_option maxRecDepth 100000 in
theorem greeting_agrees :
    (∃ frames bytes,
      (Claude.sseFromStream (fun _ => 7) ↑"claude-opus-4-8" ⟨greeting, .ok greetingEnd⟩).run [] =
          .ok () frames ∧
        Frame.wire plainPython frames = some bytes ∧
        ∀ chunks : List Bytes, chunks.flatten = bytes →
          (iterSseDeltas plainPython chunks none).run [] =
            .error .returned (delivered ↑"claude-opus-4-8" [↑"he\n\n", ↑"data: [DONE]"]
              (Claude.usage greetingEnd))) ∧
      ∃ bytes,
        Frame.wire plainPython (sse plainPython (fun _ => ↑"failed") greetingTurn) = some bytes ∧
        ∀ chunks : List Bytes, chunks.flatten = bytes →
          (printStream plainPython (asciiLines chunks)).run [] =
            .error .returned
              [⟨↑"he\n\n", false⟩, ⟨↑"data: [DONE]", false⟩, ⟨[], true⟩] := by
  have floats := printableFloats_plainPython
  obtain ⟨provider, terminal⟩ := writers_and_readers_agree plainPython floats
  obtain ⟨frames, bytes, wrote, sent, read⟩ :=
    provider (fun _ => 7) ↑"claude-opus-4-8" greeting greetingEnd
  obtain ⟨bytes', sent', prints⟩ :=
    terminal (fun _ => ↑"failed") greetingTurn asciiLines findsLines_asciiLines
  refine ⟨⟨frames, bytes, wrote, sent, fun chunks => read ?_ chunks none⟩,
    bytes', sent', prints ?_⟩
  · cases wrote
    intro v mem
    simp only [List.mem_append, List.mem_cons, List.not_mem_nil, or_false, Frame.data.injEq,
      reduceCtorEq, false_or] at mem
    rcases mem with ((rfl | rfl) | rfl) | rfl <;> rfl
  · intro v mem
    simp only [payloads, greetingTurn, Program.state, Program.outcome, List.map_cons,
      List.map_nil, List.append_nil, List.mem_cons, List.not_mem_nil, or_false] at mem
    rcases mem with rfl | rfl | rfl <;> rfl

end Greeting

end AgenticOctopus.Api
