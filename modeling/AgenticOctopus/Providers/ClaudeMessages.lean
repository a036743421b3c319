import AgenticOctopus.Providers.Claude

/-!
# Claude behind the protocol of the other providers

A request goes out as the arguments of the Messages API, and the message that comes back, whole
or as a stream of events, as a completion.
-/
namespace AgenticOctopus.Providers.Claude
open Foundation

/-! ## The request -/

/-- `payload.get("messages") or []`, as a loop goes through it: the characters of a text and the
keys of an object have no `get`. -/
def messagesOf (payload : Dict Text Json) : Except Raised (List Json) :=
  match Json.orElse (payload.get? ↑"messages") (.arr []) with
  | .arr msgs => return msgs
  | .str _ | .obj _ => throw .attributeError
  | _ => throw .typeError

/-- `m.get("role") in roles` -/
def hasRole (roles : List Text) (m : Json) : Except Raised Bool := do
  match ← getField m ↑"role" with
  | .str role => return decide (role ∈ roles)
  | _ => return false

def systemContents : List Json → Except Raised (List Json)
  | [] => return []
  | m :: msgs => do
    if ← hasRole [↑"system"] m then return (← item m ↑"content") :: (← systemContents msgs)
    else systemContents msgs

def paragraph : Json → Except Raised Text
  | .str text => return text
  | _ => throw .typeError

/-- `"\n\n".join(contents)` -/
def joinParagraphs (contents : List Json) : Except Raised Text := do
  return List.intercalate ↑"\n\n" (← contents.mapM paragraph)

/-- The messages of the user and the assistant that say something. -/
def spoken : List Json → Except Raised (List Json)
  | [] => return []
  | m :: msgs => do
    if ← hasRole [↑"user", ↑"assistant"] m then
      if (← getField m ↑"content").truthy then
        let message := .obj [(↑"role", ← item m ↑"role"), (↑"content", ← item m ↑"content")]
        return message :: (← spoken msgs)
      else spoken msgs
    else spoken msgs

variable (settings : Settings)

/-- `resolve_model(payload.get("model") or "default")` -/
def requestedModel (payload : Dict Text Json) : Json :=
  match Json.orElse (payload.get? ↑"model") (.str ↑"default") with
  | .str model => .str (resolveModel settings model)
  | model => model

def toAnthropicKwargs (payload : Dict Text Json) : Except Raised (Dict Text Json) := do
  let msgs ← messagesOf payload
  let system ← joinParagraphs (← systemContents msgs)
  let kwargs : Dict Text Json :=
    [(↑"model", requestedModel settings payload),
      (↑"max_tokens", Json.orElse (payload.get? ↑"max_tokens") (.int 16000)),
      (↑"messages", .arr (← spoken msgs)),
      (↑"thinking", .obj [(↑"type", .str ↑"adaptive")])]
  return if system = [] then kwargs else kwargs.set ↑"system" (.str system)

/-! ## A whole message -/

inductive Block where
  | text (text : Text)
  /-- Any other block. -/
  | other

structure AnthropicMessage where
  id : Text
  model : Text
  content : List Block
  final : FinalMessage

def AnthropicMessage.text (msg : AnthropicMessage) : Text :=
  Text.join (msg.content.filterMap fun
    | .text text => some text
    | .other => none)

def toOpenaiResponse (created : Int) (msg : AnthropicMessage) : Json :=
  .obj [(↑"id", .str msg.id), (↑"object", .str ↑"chat.completion"), (↑"created", .int created),
    (↑"model", .str msg.model),
    (↑"choices", .arr [.obj [(↑"index", .int 0),
      (↑"message", .obj [(↑"role", .str ↑"assistant"), (↑"content", .str msg.text)]),
      (↑"finish_reason", .str (finishReason msg.final.stopReason))]]),
    (↑"usage", usage msg.final)]

/-- How a call of the Messages API ends. -/
inductive ApiResult (α : Type) where
  | ok (result : α)
  /-- `anthropic.APIStatusError` -/
  | statusError (status : Int) (message : Text)
  | raised (e : Raised)

/-- The Messages API, which sees the arguments of a call and knows how many there were. -/
structure Api where
  create : Nat → Dict Text Json → ApiResult AnthropicMessage
  stream : Nat → Dict Text Json → ApiResult MessageStream

/-- `httpx.Response(status, json=content)`, with `spell` as the way a body is written. -/
def jsonResponse (spell : Json → Text) (status : Int) (content : Json) : Response where
  status := status
  text := spell content
  json := .ok content

def errorBody (status : Int) (message : Text) : Json :=
  .obj [(↑"error", .obj [(↑"message", .str message), (↑"code", .int status)])]

/-- `AnthropicChatProvider.complete`, as the `n`-th call. -/
def complete (api : Api) (spell : Json → Text) (created : Int) (n : Nat)
    (payload : Dict Text Json) : Except Raised Response := do
  let kwargs ← toAnthropicKwargs settings payload
  match api.create n kwargs with
  | .ok msg => return jsonResponse spell 200 (toOpenaiResponse created msg)
  | .statusError status message => return jsonResponse spell status (errorBody status message)
  | .raised e => throw e

/-! ## What goes out -/

/-- A message of a chat. -/
def messageJson (role content : Text) : Json :=
  .obj [(↑"role", .str role), (↑"content", .str content)]

/-- The message goes to the Messages API as one. -/
def speaks (m : Text × Text) : Bool :=
  decide (m.1 ∈ [(↑"user" : Text), ↑"assistant"]) && decide (m.2 ≠ [])

/-- The texts of the messages with the role `system`, with blank lines between them. -/
def systemText (messages : List (Text × Text)) : Text :=
  List.intercalate ↑"\n\n" ((messages.filter fun m => m.1 = ↑"system").map Prod.snd)

theorem hasRole_messageJson (roles : List Text) (role content : Text) :
    hasRole roles (messageJson role content) = .ok (decide (role ∈ roles)) := rfl

theorem systemContents_texts (messages : List (Text × Text)) :
    systemContents (messages.map fun m => messageJson m.1 m.2) =
      .ok (((messages.filter fun m => m.1 = ↑"system").map Prod.snd).map Json.str) := by
  induction messages with
  | nil => rfl
  | cons m messages ih =>
    have content : item (messageJson m.1 m.2) ↑"content" = .ok (.str m.2) := rfl
    rw [List.map_cons, systemContents, hasRole_messageJson, ih, content]
    by_cases system : m.1 = ↑"system" <;>
      simp [system, bind, Except.bind, pure, Except.pure]

theorem joinParagraphs_texts (texts : List Text) :
    joinParagraphs (texts.map Json.str) = .ok (List.intercalate ↑"\n\n" texts) := by
  have read : (texts.map Json.str).mapM paragraph = .ok texts := by
    induction texts with
    | nil => rfl
    | cons text texts ih =>
      rw [List.map_cons, List.mapM_cons, ih]
      rfl
  unfold joinParagraphs
  rw [read]
  rfl

theorem spoken_texts (messages : List (Text × Text)) :
    spoken (messages.map fun m => messageJson m.1 m.2) =
      .ok ((messages.filter speaks).map fun m => messageJson m.1 m.2) := by
  induction messages with
  | nil => rfl
  | cons m messages ih =>
    have role : item (messageJson m.1 m.2) ↑"role" = .ok (.str m.1) := rfl
    have content : item (messageJson m.1 m.2) ↑"content" = .ok (.str m.2) := rfl
    have read : getField (messageJson m.1 m.2) ↑"content" = .ok (.str m.2) := rfl
    have truthy : (Json.str m.2).truthy = decide (m.2 ≠ []) := by
      cases m.2 <;> rfl
    simp only [List.map_cons, spoken, hasRole_messageJson, ih, role, content, read, bind,
      Except.bind, truthy]
    by_cases speaker : m.1 ∈ [(↑"user" : Text), ↑"assistant"] <;> by_cases ink : m.2 = [] <;>
      simp [speaks, speaker, ink, messageJson, pure, Except.pure]

/-- Every text of a chat goes out: those of the system before the others, and these in order. -/
theorem toAnthropicKwargs_texts (settings : Settings) (model : Text)
    (messages : List (Text × Text)) :
    toAnthropicKwargs settings [(↑"model", .str model),
        (↑"messages", .arr (messages.map fun m => messageJson m.1 m.2))] =
      .ok (
        let kwargs : Dict Text Json :=
          [(↑"model", requestedModel settings [(↑"model", .str model)]),
            (↑"max_tokens", .int 16000),
            (↑"messages", .arr ((messages.filter speaks).map fun m => messageJson m.1 m.2)),
            (↑"thinking", .obj [(↑"type", .str ↑"adaptive")])]
        if systemText messages = [] then kwargs
        else kwargs.set ↑"system" (.str (systemText messages))) := by
  have read : messagesOf [(↑"model", .str model),
      (↑"messages", .arr (messages.map fun m => messageJson m.1 m.2))] =
        .ok (messages.map fun m => messageJson m.1 m.2) := by
    cases messages <;> rfl
  unfold toAnthropicKwargs
  rw [read]
  simp only [bind, Except.bind, systemContents_texts, joinParagraphs_texts, spoken_texts]
  rfl

end AgenticOctopus.Providers.Claude
