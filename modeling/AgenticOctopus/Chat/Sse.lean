import AgenticOctopus.Providers.Claude

/-!
# Reading a provider's stream

`_iter_sse_deltas` reads the bytes of a provider's stream as they come and yields what chat
looks at: usage, model and text deltas. A payload that is no JSON is skipped.
-/
namespace AgenticOctopus.Chat
open Foundation Providers

/-- Why a reader stopped before its input ended. -/
inductive Stop where
  | returned
  | raised (e : Raised)
  /-- `UnicodeDecodeError` -/
  | undecodable
deriving DecidableEq

section Reading

variable {ε α : Type}

/-- What was read or printed so far is the state. -/
abbrev Reader (ε α : Type) := Program Stop (List ε) α

def fails (x : Except Raised α) : Reader ε α := Program.raises (x.mapError .raised)

def yieldEvent (event : ε) : Reader ε Unit := modify (· ++ [event])

/-- `if value: yield …` -/
def yieldIf (value : Json) (event : Json → ε) : Reader ε Unit :=
  if value.truthy then yieldEvent (event value) else return

/-- `value.get(key, default)` -/
def getOr (v : Json) (key : Text) (default : Json) : Except Raised Json :=
  match v with
  | .obj fields => return (Dict.get? fields key).getD default
  | _ => throw .attributeError

/-- `(chunk.get("choices") or [{}])[0].get("delta", {})`, and then its content. -/
def deltaContent (chunk : Json) : Except Raised Json := do
  let choices ← getField chunk ↑"choices"
  let choice ← firstItem (if choices.truthy then choices else .arr [.obj []])
  let delta ← getOr choice ↑"delta" (.obj [])
  getField delta ↑"content"

/-- Go on with what `json.loads` returns; only `JSONDecodeError` is caught. -/
def withLoaded (py : Interpreter) (payload : Text) (read : Json → Reader ε Unit) :
    Reader ε Unit :=
  match Json.loads py payload with
  | .ok chunk => read chunk
  | .error .decode => return
  | .error e => throw (.raised (loadRaised e))

end Reading

variable (py : Interpreter)

def readChunk (chunk : Json) : Reader SseEvent Unit := do
  let usage ← fails (getField chunk ↑"usage")
  yieldIf usage .usage
  let model ← fails (getField chunk ↑"model")
  yieldIf model .model
  let content ← fails (deltaContent chunk)
  yieldIf content .delta

def readLine (line : Bytes) : Reader SseEvent Unit :=
  if !(↑"data: " : Bytes).isPrefixOf line then return
  else
    let payload := Bytes.strip (line.drop 6)
    if payload = ↑"[DONE]" then throw .returned
    else
      match Bytes.decodeJson payload with
      | none => throw .undecodable
      | some text => withLoaded py text readChunk

/-- `event.split(b"\n")`, line by line. -/
def readEvent (event : Bytes) : Reader SseEvent Unit :=
  forM (event.splitOn Frame.feed) (readLine py)

/-- The chunks that arrive, and the exception that the stream breaks off with, if any. -/
def iterSseDeltas (chunks : List Bytes) (failure : Option Raised) : Reader SseEvent Unit := do
  let _ ← Framing.readChunks (readEvent py) Frame.feed [Frame.feed] [] chunks
  match failure with
  | some e => throw (.raised e)
  | none => return

/-! ## Frames -/

variable {py}

/-- The value comes back from its text. -/
def RoundTrips (py : Interpreter) (v : Json) : Prop := Json.loads py (v.dumped py) = .ok v

@[simp] theorem fails_ok {ε α : Type} (a : α) : (fails (.ok a) : Reader ε α) = pure a := rfl

theorem run_yieldIf {ε : Type} (value : Json) (event : Json → ε) (seen : List ε) :
    (yieldIf value event).run seen =
      .ok () (seen ++ if value.truthy then [event value] else []) := by
  unfold yieldIf yieldEvent
  split <;> simp [*]

theorem withLoaded_of_roundTrips {ε : Type} {v : Json} (trips : RoundTrips py v)
    (read : Json → Reader ε Unit) : withLoaded py (v.dumped py) read = read v := by
  rw [RoundTrips] at trips
  rw [withLoaded, trips]

theorem drop_line (f : Frame) :
    (Bytes.ofText (f.line py)).drop 6 = Bytes.ofText (f.payload py) := by
  rw [Frame.line, Bytes.ofText_append]
  rfl

theorem isPrefixOf_line (f : Frame) :
    (↑"data: " : Bytes).isPrefixOf (Bytes.ofText (f.line py)) = true := by
  rw [List.isPrefixOf_iff_prefix, Frame.line, Bytes.ofText_append]
  exact List.prefix_append _ _

theorem readLine_done : readLine py (Bytes.ofText (Frame.done.line py)) = throw .returned := by
  rw [readLine, isPrefixOf_line, drop_line]
  rfl

theorem readLine_object (floats : Json.PrintableFloats py) {fields : List (Text × Json)}
    (trips : RoundTrips py (.obj fields)) :
    readLine py (Bytes.ofText ((Frame.data (.obj fields)).line py)) = readChunk (.obj fields) := by
  have printable := Json.printable_dumped floats (.obj fields)
  have more : Bytes.ofText (Json.dumped py (.obj fields)) ≠ ↑"[DONE]" := by
    obtain ⟨t, braces⟩ := Frame.exists_braces py fields
    rw [braces]
    intro same
    cases same
  rw [readLine, isPrefixOf_line, drop_line, Frame.payload, Frame.strip_object_bytes]
  simp only [Bool.not_true, Bool.false_eq_true, if_false]
  rw [if_neg more, Bytes.decodeJson_ascii (Bytes.ascii_of_printable printable)]
  exact withLoaded_of_roundTrips trips readChunk

/-- A frame's line is the only line of its event. -/
theorem readEvent_line (floats : Json.PrintableFloats py) (f : Frame) :
    readEvent py (Bytes.ofText (f.line py)) = readLine py (Bytes.ofText (f.line py)) := by
  have one := Frame.splitOn_line (Frame.feed_not_mem (Frame.printable_line floats f))
  rw [readEvent, one, List.forM_cons, List.forM_nil]
  exact bind_pure_unit

/-- Whatever the chunks, the frames are read one after the other. -/
theorem iterSseDeltas_wire (floats : Json.PrintableFloats py) {fs : List Frame}
    {chunks : List Bytes} (sent : Frame.wire py fs = some chunks.flatten)
    (failure : Option Raised) :
    iterSseDeltas py chunks failure = (do
      forM fs fun f => readLine py (Bytes.ofText (f.line py))
      match failure with
      | some e => throw (.raised e)
      | none => return) := by
  rw [Frame.wire_eq floats] at sent
  have alone : ∀ line ∈ fs.map fun f => Bytes.ofText (f.line py),
      Framing.Standalone Frame.feed [Frame.feed] line := by
    intro line mem
    exact Framing.standalone_of_not_mem (Frame.feed_not_mem_lines floats line mem)
  unfold iterSseDeltas
  rw [Framing.readChunks_eq, ← Option.some.inj sent, Frame.ofText_texts, Framing.drain_eq,
    Framing.blocks_flatMap alone, bind_assoc]
  have events : forM (fs.map fun f => Bytes.ofText (f.line py)) (readEvent py) =
      forM fs fun f => readLine py (Bytes.ofText (f.line py)) := by
    rw [List.forM_map]
    congr 1
    funext f
    exact readEvent_line floats f
  rw [events]
  rfl

/-! ## The stream of Claude -/

section Claude

variable {model : Text}

/-- `if model: yield {"model": model}` -/
def announced (model : Text) : List SseEvent := if model = [] then [] else [.model (.str model)]

def shown (text : Text) : List SseEvent := if text = [] then [] else [.delta (.str text)]

/-- The events of a stream with these deltas: the model comes with every chunk. -/
def delivered (model : Text) (texts : List Text) (usage : Json) : List SseEvent :=
  announced model ++ texts.flatMap (fun text => announced model ++ shown text) ++
    ([.usage usage] ++ announced model)

/-- The deltas that are read are the texts that are not empty. -/
theorem deltas_delivered (model : Text) (texts : List Text) (usage : Json) :
    ((delivered model texts usage).filterMap fun
      | .delta content => some content
      | _ => none) = (texts.filter (· ≠ [])).map .str := by
  have silent : ((announced model).filterMap fun
      | .delta content => some content
      | _ => none) = [] := by
    unfold announced
    split <;> rfl
  induction texts with
  | nil => simp [delivered, silent]
  | cons text texts ih =>
    simp only [delivered, List.filterMap_append, List.filterMap_flatMap, List.flatMap_cons,
      silent, List.nil_append] at ih ⊢
    rw [List.append_assoc, ih]
    by_cases empty : text = [] <;> simp [shown, empty]

theorem readChunk_chunk (created : Int) (msgId : Text) (delta finish usage : Json)
    (seen : List SseEvent) {content : Json} (holds : getField delta ↑"content" = .ok content) :
    (readChunk (Claude.chunk created msgId model delta finish usage)).run seen =
      .ok () (seen ++ (if usage.truthy then [.usage usage] else []) ++ announced model ++
        if content.truthy then [.delta content] else []) := by
  let chunk := Claude.chunk created msgId model delta finish usage
  have usage_field : getField chunk ↑"usage" = .ok (if usage.truthy then usage else .null) := by
    simp only [chunk, Claude.chunk]
    split <;> rfl
  have model_field : getField chunk ↑"model" = .ok (.str model) := by
    simp only [chunk, Claude.chunk]
    split <;> rfl
  have content_field : deltaContent chunk = .ok content := by
    rw [← holds]
    simp only [chunk, Claude.chunk]
    split <;> rfl
  have usage_event : (if (if usage.truthy then usage else Json.null).truthy then
      [SseEvent.usage (if usage.truthy then usage else .null)] else []) =
      if usage.truthy then [.usage usage] else [] := by
    by_cases h : usage.truthy = true
    · rw [if_pos h, if_pos h]
    · rw [if_neg h, if_neg h]
      rfl
  have model_event : (if (Json.str model).truthy then [SseEvent.model (.str model)] else []) =
      announced model := by
    cases model <;> rfl
  unfold readChunk
  rw [usage_field, model_field, content_field, fails_ok, fails_ok, fails_ok, pure_bind,
    Program.run_bind_ok (run_yieldIf _ _ _), pure_bind, Program.run_bind_ok (run_yieldIf _ _ _),
    pure_bind, run_yieldIf, usage_event, model_event]

/-- A frame of the stream is read as what its chunk carries. -/
theorem readLine_carries (floats : Json.PrintableFloats py) {delta finish usage : Json} {f : Frame}
    (carries : Claude.Carries model delta finish usage f)
    (trips : ∀ v, f = .data v → RoundTrips py v) (seen : List SseEvent) {content : Json}
    (holds : getField delta ↑"content" = .ok content) :
    (readLine py (Bytes.ofText (f.line py))).run seen =
      .ok () (seen ++ (if usage.truthy then [.usage usage] else []) ++ announced model ++
        if content.truthy then [.delta content] else []) := by
  obtain ⟨created, msgId⟩ := carries
  have trips := trips _ rfl
  rw [← readChunk_chunk created msgId delta finish usage seen holds]
  exact congrArg (EStateM.run · seen) (readLine_object floats trips)

theorem readLines_deltas (floats : Json.PrintableFloats py) {texts : List Text}
    {deltas : List Frame}
    (carry : List.Forall₂ (fun text frame =>
      Claude.Carries model (.obj [(↑"content", .str text)]) .null .null frame) texts deltas)
    (trips : ∀ v, .data v ∈ deltas → RoundTrips py v) (seen : List SseEvent) :
    (forM deltas fun f => readLine py (Bytes.ofText (f.line py))).run seen =
      .ok PUnit.unit (seen ++ texts.flatMap fun text => announced model ++ shown text) := by
  induction carry generalizing seen with
  | nil => simp
  | @cons text frame texts deltas first rest ih =>
    have holds : getField (.obj [(↑"content", .str text)]) ↑"content" = .ok (.str text) := rfl
    have here := readLine_carries floats first
      (fun v is => trips v (by rw [is]; exact List.mem_cons_self)) seen holds
    have shows : (if (Json.str text).truthy then [SseEvent.delta (.str text)] else []) =
        shown text := by
      cases text <;> rfl
    rw [shows] at here
    rw [List.forM_cons, Program.run_bind_ok here,
      ih (fun v mem => trips v (List.mem_cons_of_mem frame mem))]
    simp [Json.truthy]

/-- The bytes of a stream of Claude that ends well, cut in any way, are read as its non-empty
deltas in order, its model with each chunk, and its usage at the end. -/
theorem iterSseDeltas_claude (floats : Json.PrintableFloats py) {clock : Claude.Clock}
    {events : List Claude.MessageEvent} {final : Claude.FinalMessage} {frames : List Frame}
    {chunks : List Bytes}
    {failure : Option Raised}
    (wrote : (Claude.sseFromStream clock model ⟨events, .ok final⟩).run [] = .ok () frames)
    (trips : ∀ v, .data v ∈ frames → RoundTrips py v)
    (sent : Frame.wire py frames = some chunks.flatten) :
    (iterSseDeltas py chunks failure).run [] =
      .error .returned (delivered model (Claude.texts events) (Claude.usage final)) := by
  obtain ⟨first, deltas, last, written, opens, carry, closes⟩ :=
    Claude.run_sseFromStream clock model events final
  rw [written] at wrote
  cases wrote
  have no_content : getField Claude.opening ↑"content" = .ok (.str []) := rfl
  have no_delta : getField (.obj []) ↑"content" = .ok .null := rfl
  have read_first : (readLine py (Bytes.ofText (first.line py))).run [] =
      .ok () (announced model) := by
    have here := readLine_carries floats opens (fun v is => trips v (by simp [is])) [] no_content
    simpa [Json.truthy] using here
  have read_deltas := readLines_deltas floats carry
    (fun v mem => trips v (by simp [mem])) (announced model)
  have read_last := readLine_carries floats closes (fun v is => trips v (by simp [is]))
    (announced model ++ (Claude.texts events).flatMap fun text => announced model ++ shown text)
    no_delta
  have stops : (readLine py (Bytes.ofText (Frame.done.line py))).run
      (delivered model (Claude.texts events) (Claude.usage final)) = .error .returned
        (delivered model (Claude.texts events) (Claude.usage final)) := by
    rw [readLine_done]
    rfl
  rw [iterSseDeltas_wire floats sent, List.cons_append, List.forM_cons, List.forM_append]
  simp only [List.forM_cons, bind_assoc]
  have usage_shown : (Claude.usage final).truthy = true := rfl
  have none_shown : Json.null.truthy = false := rfl
  rw [usage_shown, none_shown, if_pos rfl, if_neg (by decide), List.append_nil,
    List.append_assoc _ [SseEvent.usage _]] at read_last
  rw [Program.run_bind_ok read_first, Program.run_bind_ok read_deltas,
    Program.run_bind_ok read_last]
  exact Program.run_bind_error stops

end Claude

end AgenticOctopus.Chat
