import AgenticOctopus.Foundation.EventStream
import AgenticOctopus.Providers.Routing

/-!
# A Claude stream as OpenAI chunks

`sse_from_stream` translates the events of the Messages API into the frames of an OpenAI
stream: one that opens it, one for each text delta, one with the reason it ended and the
usage, and the frame that says it is done.
-/
namespace AgenticOctopus.Providers.Claude
open Foundation

inductive MessageEvent where
  | messageStart (id : Text)
  /-- A content block's delta of type `text_delta`. -/
  | textDelta (text : Text)
  /-- Any other event. -/
  | other

structure FinalMessage where
  stopReason : Option Text
  inputTokens : Option Int
  outputTokens : Option Int

/-- The events, and the final message or the exception that comes after them. -/
structure MessageStream where
  events : List MessageEvent
  final : Except Raised FinalMessage

def finishReasons : Dict Text Text :=
  [(↑"end_turn", ↑"stop"), (↑"max_tokens", ↑"length"), (↑"refusal", ↑"content_filter")]

/-- `_FINISH.get(stop_reason, "stop")` -/
def finishReason (stopReason : Option Text) : Text :=
  (stopReason.bind finishReasons.get?).getD ↑"stop"

def usage (final : FinalMessage) : Json :=
  let prompt := final.inputTokens.getD 0
  let completion := final.outputTokens.getD 0
  .obj [(↑"prompt_tokens", .int prompt), (↑"completion_tokens", .int completion),
    (↑"total_tokens", .int (prompt + completion))]

/-- The dictionary that `_chunk` writes. -/
def chunk (created : Int) (msgId model : Text) (delta finish usage : Json) : Json :=
  let fields : Dict Text Json :=
    [(↑"id", .str msgId), (↑"object", .str ↑"chat.completion.chunk"), (↑"created", .int created),
      (↑"model", .str model),
      (↑"choices", .arr [.obj [(↑"index", .int 0), (↑"delta", delta), (↑"finish_reason", finish)]])]
  .obj (if usage.truthy then fields.set ↑"usage" usage else fields)

/-- The clock, by the number of frames written before it is read. -/
abbrev Clock := Nat → Int

variable (clock : Clock) (model : Text)

def yieldChunk (msgId : Text) (delta : Json) (finish usage : Json := .null) :
    Program Raised (List Frame) Unit :=
  modify fun frames =>
    frames ++ [.data (chunk (clock frames.length) msgId model delta finish usage)]

/-- The events one by one; the id that the last `message_start` gave. -/
def translate (msgId : Text) : List MessageEvent → Program Raised (List Frame) Text
  | [] => return msgId
  | .messageStart id :: events => translate id events
  | .textDelta text :: events => do
    yieldChunk clock model msgId (.obj [(↑"content", .str text)])
    translate msgId events
  | .other :: events => translate msgId events

def opening : Json := .obj [(↑"role", .str ↑"assistant"), (↑"content", .str ↑"")]

def sseFromStream (stream : MessageStream) : Program Raised (List Frame) Unit := do
  let msgId : Text := ↑"chatcmpl-octo-claude"
  yieldChunk clock model msgId opening
  let msgId ← translate clock model msgId stream.events
  let final ← Program.raises stream.final
  yieldChunk clock model msgId (.obj []) (.str (finishReason final.stopReason)) (usage final)
  modify fun frames => frames ++ [.done]

/-! ## What is written -/

/-- The texts of the deltas, in order. -/
def texts (events : List MessageEvent) : List Text :=
  events.filterMap fun
    | .textDelta text => some text
    | _ => none

/-- A chunk of this stream, whatever its id and time. -/
inductive Carries (model : Text) (delta finish usage : Json) : Frame → Prop where
  | chunk (created : Int) (msgId : Text) :
    Carries model delta finish usage (.data (chunk created msgId model delta finish usage))

theorem run_yieldChunk (msgId : Text) (delta finish usage : Json) (frames : List Frame) :
    ∃ frame, (yieldChunk clock model msgId delta finish usage).run frames =
        .ok () (frames ++ [frame]) ∧ Carries model delta finish usage frame :=
  ⟨_, rfl, .chunk _ _⟩

theorem run_translate (msgId : Text) (events : List MessageEvent) (frames : List Frame) :
    ∃ last deltas, (translate clock model msgId events).run frames = .ok last (frames ++ deltas) ∧
      List.Forall₂ (fun text frame =>
        Carries model (.obj [(↑"content", .str text)]) .null .null frame) (texts events)
          deltas := by
  induction events generalizing msgId frames with
  | nil => exact ⟨msgId, [], by rw [List.append_nil]; rfl, .nil⟩
  | cons event events ih =>
    cases event with
    | messageStart id => exact ih id frames
    | other => exact ih msgId frames
    | textDelta text =>
      obtain ⟨frame, yields, carries⟩ :=
        run_yieldChunk clock model msgId (.obj [(↑"content", .str text)]) .null .null frames
      obtain ⟨last, deltas, translated, rest⟩ := ih msgId (frames ++ [frame])
      refine ⟨last, frame :: deltas, ?_, .cons carries rest⟩
      rw [translate, Program.run_bind_ok yields, translated, List.append_assoc]
      rfl

/-- The frames of a stream that ends well. -/
theorem run_sseFromStream (events : List MessageEvent) (final : FinalMessage) :
    ∃ first deltas last,
      (sseFromStream clock model ⟨events, .ok final⟩).run [] =
          .ok () (first :: deltas ++ [last, .done]) ∧
        Carries model opening .null .null first ∧
        List.Forall₂ (fun text frame =>
          Carries model (.obj [(↑"content", .str text)]) .null .null frame) (texts events) deltas ∧
        Carries model (.obj []) (.str (finishReason final.stopReason)) (usage final) last := by
  obtain ⟨first, opens, carries_first⟩ :=
    run_yieldChunk clock model ↑"chatcmpl-octo-claude" opening .null .null []
  obtain ⟨msgId, deltas, translated, carries_deltas⟩ :=
    run_translate clock model ↑"chatcmpl-octo-claude" events [first]
  obtain ⟨last, closes, carries_last⟩ := run_yieldChunk clock model msgId (.obj [])
    (.str (finishReason final.stopReason)) (usage final) ([first] ++ deltas)
  refine ⟨first, deltas, last, ?_, carries_first, carries_deltas, carries_last⟩
  rw [sseFromStream, Program.run_bind_ok opens, List.nil_append, Program.run_bind_ok translated,
    Program.raises_ok_bind, Program.run_bind_ok closes, EStateM.run_modify]
  simp

end AgenticOctopus.Providers.Claude
