import AgenticOctopus.Chat.Context

/-!
# A chat turn

`send` asks the provider for one round after the other until a round asks for no tool or the
budget is used up. A round that asks for a tool leaves a tool row and goes into the context
of the next.
-/
namespace AgenticOctopus.Chat
open Foundation Providers
open Spine (LoadedAgent Registry)

/-- Everything a turn runs against. -/
structure Host where
  settings : Settings
  registry : Registry
  upstream : Upstream
  columns : Columns
  /-- The result of the last of these calls. -/
  runTool : List ToolCall → Except Raised Json
  /-- What the clock says at the end of the turn. -/
  durationMs : Int

variable (host : Host)

/-! ## Preparation -/

structure Prepared where
  provider : Provider
  providerName : Text
  model : Text
  context : List ChatMessage
  allowedTools : List Text
  persona : Option Text

def prepare (conversationId : ConversationId) (userText : Text) :
    Program Raised Ledger Prepared := do
  match getConversation (← get) conversationId with
  | none => throw (.lookupError (↑"conversation " ++ conversationId ++ ↑" not found"))
  | some convo =>
    let (provider, model, providerName) ← Program.raises
      (routeChatModel host.settings host.upstream (orDefault convo.model ↑"default"))
    let _ ← append conversationId .user userText {}
    let history := getMessages (← get) conversationId
    return {
      provider, providerName, model,
      context := buildContext host.settings
        (systemPromptFor host.settings convo.persona host.registry) history none
      allowedTools := toolsFor host.settings convo.persona host.registry
      persona := convo.persona }

/-- A turn that is prepared has the conversation's model routed and its persona's tools. -/
theorem prepare_ok {conversationId : ConversationId} {userText : Text} {ledger ledger' : Ledger}
    {p : Prepared} (h : (prepare host conversationId userText).run ledger = .ok p ledger') :
    ∃ convo, getConversation ledger conversationId = some convo ∧
      routeChatModel host.settings host.upstream (orDefault convo.model ↑"default") =
        .ok (p.provider, p.model, p.providerName) ∧
      p.allowedTools = toolsFor host.settings convo.persona host.registry := by
  unfold prepare at h
  obtain ⟨_, _, read, h⟩ := Program.bind_eq_ok.mp h
  cases read
  cases found : getConversation ledger conversationId with
  | none =>
    rw [found] at h
    cases h
  | some convo =>
    rw [found] at h
    obtain ⟨⟨provider, model, name⟩, _, route, h⟩ := Program.bind_eq_ok.mp h
    obtain ⟨routed, -⟩ := Program.raises_eq_ok.mp route
    obtain ⟨_, _, -, h⟩ := Program.bind_eq_ok.mp h
    obtain ⟨_, _, -, h⟩ := Program.bind_eq_ok.mp h
    cases h
    exact ⟨convo, rfl, routed, rfl⟩

/-! ## Tool rounds -/

def toolResultMaxChars : Nat := 4000

/-- A key of an object as `json.dumps` writes it. -/
def keyText (py : Interpreter) : Json → Text
  | .str s => s
  | k => k.dumped py

def argsJson (py : Interpreter) (args : PyDict) : Json :=
  .obj (args.map fun p => (keyText py p.1, p.2))

def runTool (call : ToolCall) : Program Raised Ledger Json := do
  modify fun ledger => { ledger with toolCalls := ledger.toolCalls ++ [call] }
  Program.raises (host.runTool (← get).toolCalls)

def notEnabled (tool : Text) : Json :=
  .obj [(↑"error", .str (↑"tool '" ++ tool ++ ↑"' not enabled for this persona"))]

/-- `json.loads(result_json)`, whose exceptions nothing catches. -/
def reloaded (py : Interpreter) (resultJson : Text) : Except Raised Json :=
  (Json.loads py resultJson).mapError loadRaised

/-- `Jsonb(value)`, which is dumped as the row is sent. -/
def jsonb (py : Interpreter) (v : Json) : Except Raised Json := do
  let _ ← dumps py v
  return v

def toolResultMessage (tool resultJson : Text) : Text :=
  ↑"[tool result: " ++ tool ++ ↑"]\n" ++ resultJson ++
    ↑("\nUse this. Cite source URLs in your answer. " ++
      "Call another tool only if you still need more information.")

/-- What a tool round writes: the result as the next request carries it, and the content and the
metadata of its row. -/
structure Audit where
  resultJson : Text
  content : Text
  metadata : Json

def audit (py : Interpreter) (tool : Text) (args : PyDict) (result : Json) :
    Except Raised Audit := do
  let resultJson := (← dumps py result).take toolResultMaxChars
  let argsText ← dumps py (argsJson py args)
  let recorded ← reloaded py resultJson
  let call : Json := .obj [(↑"tool", .str tool), (↑"args", argsJson py args)]
  return {
    resultJson
    content := tool ++ ↑"(" ++ argsText.take 500 ++ ↑")"
    metadata := ← jsonb py (.obj [(↑"call", call), (↑"result", recorded)]) }

/-- One tool call, its audit row, and the context for the next round. -/
def executeToolRound (conversationId : ConversationId) (context : List ChatMessage)
    (assistantText tool : Text) (args : PyDict) (allowed : List Text) :
    Program Raised Ledger (List ChatMessage) := do
  let result ← if tool ∈ allowed then runTool host ⟨tool, args⟩ else pure (notEnabled tool)
  let audit ← Program.raises (audit host.upstream.py tool args result)
  let _ ← append conversationId .tool audit.content { metadata := audit.metadata }
  return context ++
    [⟨↑"assistant", assistantText⟩, ⟨↑"user", toolResultMessage tool audit.resultJson⟩]

/-! ## send -/

/-- The state of a turn: the ledger, and the requests that it made. -/
structure Session where
  ledger : Ledger
  requests : List Request

def onLedger : Program.Lens Session Ledger where
  get s := s.ledger
  set s ledger := { s with ledger }

def onRequests : Program.Lens Session (List Request) where
  get s := s.requests
  set s requests := { s with requests }

def payload (model : Text) (context : List ChatMessage) : Dict Text Json :=
  [(↑"model", .str model), (↑"messages", .arr (context.map ChatMessage.json))]

/-- What the rounds so far have yielded. -/
structure Answer where
  content : Json
  usage : Json
  actualModel : Json

/-- `value or default` -/
def orElse (v default : Json) : Json := if v.truthy then v else default

/-- What the code reads out of the body of a response. -/
def readResponse (py : Interpreter) (r : Response) (before : Answer) : Except Raised Answer :=
  if r.status ≠ 200 then
    throw (.runtimeError (↑"provider error " ++ Text.ofInt r.status ++ ↑": " ++ r.text.take 300))
  else do
    let data ← r.json
    let error ← getField data ↑"error"
    if error.truthy then
      throw (.runtimeError (↑"provider error: " ++ (error.toStr py).take 300))
    else
      let choice ← firstItem (← item data ↑"choices")
      let content ← item (← item choice ↑"message") ↑"content"
      return {
        content
        usage := orElse (← getField data ↑"usage") before.usage
        actualModel := orElse (← getField data ↑"model") before.actualModel }

def asText (v : Json) (otherwise : Raised) : Except Raised Text :=
  match v with
  | .str s => return s
  | _ => throw otherwise

@[simp] theorem asText_str (t : Text) (e : Raised) : asText (.str t) e = .ok t := rfl

/-- `parse_tool_call(content) if allowed_tools else None` -/
def requestedCall (py : Interpreter) (allowed : List Text) (content : Json) :
    Except Raised (Option (Text × PyDict)) :=
  if allowed.isEmpty then return none
  else do parseToolCall py (← asText content .attributeError)

/-- What follows an answer: the context of the next round, or `none` after the last. -/
def followUp (conversationId : ConversationId) (p : Prepared) (roundNo : Nat)
    (context : List ChatMessage) (answer : Answer) :
    Program Raised Session (Option (List ChatMessage)) := do
  let call ← Program.raises (requestedCall host.upstream.py p.allowedTools answer.content)
  match call with
  | none => return none
  | some (tool, args) =>
    if (roundNo : Int) ≥ host.settings.chatMaxToolCalls then return none
    else
      let content ← Program.raises (asText answer.content .typeError)
      let context ← Program.zoom onLedger
        (executeToolRound host conversationId context content tool args p.allowedTools)
      return some context

def sendRound (conversationId : ConversationId) (p : Prepared) (roundNo : Nat)
    (context : List ChatMessage) (before : Answer) :
    Program Raised Session (Answer × Option (List ChatMessage)) := do
  let r ← Program.zoom onRequests
    (complete host.upstream ⟨p.provider, false, payload p.model context⟩)
  let answer ← Program.raises (readResponse host.upstream.py r before)
  return (answer, ← followUp host conversationId p roundNo context answer)

/-- The rounds of `send`, of which `left` are left; `roundNo` have been made. -/
def sendRounds (conversationId : ConversationId) (p : Prepared) :
    (left roundNo : Nat) → List ChatMessage → Answer → Program Raised Session Answer
  | 0, _, _, answer => return answer
  | left + 1, roundNo, context, before => do
    match ← sendRound host conversationId p roundNo context before with
    | (answer, none) => return answer
    | (answer, some context) => sendRounds conversationId p left (roundNo + 1) context answer

/-- `range(settings.chat_max_tool_calls + 1)` -/
def maxRounds : Nat := (host.settings.chatMaxToolCalls + 1).toNat

def autoTags (conversationId : ConversationId) (p : Prepared) : Dict Text Json :=
  [(↑"surface", .str ↑"native"), (↑"provider", .str p.providerName),
    (↑"persona", (p.persona.map Json.str).getD .null),
    (↑"conversation", .str conversationId),
    (↑"routed", .bool (p.model = OpenRouter.autoModel))]

/-- `usage.get("prompt_tokens"), usage.get("completion_tokens")` -/
def usageFigures (usage : Json) : Except Raised (Json × Json) := do
  return (← getField usage ↑"prompt_tokens", ← getField usage ↑"completion_tokens")

/-- The columns of the assistant's row that the answer decides. -/
def answerFields (figures : Json × Json) (actualModel : Json) : Except Raised Fields := do
  return {
    model := ← host.columns.text actualModel
    promptTokens := ← host.columns.int figures.1
    completionTokens := ← host.columns.int figures.2
    durationMs := some host.durationMs }

/-- The assistant's row. -/
def reply (conversationId : ConversationId) (p : Prepared) (tags : Option (Dict Text Json))
    (answer : Answer) : Program Raised Session Message := do
  let figures ← Program.raises (usageFigures answer.usage)
  let content ← Program.raises (asText answer.content .typeError)
  let fields ← Program.raises (answerFields host figures answer.actualModel)
  Program.zoom onLedger (append conversationId .assistant
    (routedModelPrefix host.settings host.upstream.py p.model answer.actualModel ++ content)
    { fields with tags := mergeTags host.upstream.py (autoTags conversationId p) tags })

def send (conversationId : ConversationId) (userText : Text) (tags : Option (Dict Text Json)) :
    Program Raised Session Message := do
  let p ← Program.zoom onLedger (prepare host conversationId userText)
  let answer ← sendRounds host conversationId p (maxRounds host) 0 p.context
    ⟨.str [], .obj [], .str p.model⟩
  reply host conversationId p tags answer

/-! ## What the rounds keep -/

section Rounds

open Program (Keeps keeps_pure keeps_raises keeps_bind)

variable {I : Session → Prop} {p : Prepared} (conversationId : ConversationId)

theorem keeps_followUp (roundNo : Nat) (context : List ChatMessage)
    (executes : ∀ content tool args, Keeps I (Program.zoom onLedger
      (executeToolRound host conversationId context content tool args p.allowedTools)))
    (answer : Answer) : Keeps I (followUp host conversationId p roundNo context answer) := by
  unfold followUp
  refine keeps_bind (keeps_raises _) fun call => ?_
  cases call with
  | none => exact keeps_pure _
  | some call =>
    obtain ⟨tool, args⟩ := call
    dsimp only
    split
    · exact keeps_pure _
    · exact keeps_bind (keeps_raises _) fun content =>
        keeps_bind (executes content tool args) fun _ => keeps_pure _

theorem keeps_sendRounds
    (asks : ∀ context, Keeps I (Program.zoom onRequests
      (complete host.upstream ⟨p.provider, false, payload p.model context⟩)))
    (executes : ∀ context content tool args, Keeps I (Program.zoom onLedger
      (executeToolRound host conversationId context content tool args p.allowedTools)))
    (left roundNo : Nat) (context : List ChatMessage) (before : Answer) :
    Keeps I (sendRounds host conversationId p left roundNo context before) := by
  induction left generalizing roundNo context before with
  | zero => exact keeps_pure _
  | succ left ih =>
    unfold sendRounds sendRound
    refine keeps_bind ?_ fun (answer, next) => ?_
    · exact keeps_bind (asks context) fun _ => keeps_bind (keeps_raises _) fun _ =>
        keeps_bind (keeps_followUp host conversationId roundNo context (executes context) _)
          fun _ => keeps_pure _
    · cases next with
      | none => exact keeps_pure _
      | some context => exact ih (roundNo + 1) context answer

end Rounds

/-! ## The requests of a turn -/

section Requests

open Program (Keeps keeps_raises keeps_bind keeps_zoom)

variable {J : List Request → Prop} {p : Prepared}

/-- What every call of the provider keeps of the requests, the whole turn keeps. -/
def KeepsRequests {α : Type} (J : List Request → Prop) (q : Program Raised Session α) : Prop :=
  Keeps (fun s => J s.requests) q

theorem keepsRequests_onLedger {α : Type} (q : Program Raised Ledger α) :
    KeepsRequests J (Program.zoom onLedger q) := keeps_zoom fun _ h => h

theorem keepsRequests_onRequests {α : Type} {q : Program Raised (List Request) α}
    (h : Keeps J q) : KeepsRequests J (Program.zoom onRequests q) :=
  keeps_zoom fun s => h s.requests

theorem keepsRequests_followUp (conversationId : ConversationId) (roundNo : Nat)
    (context : List ChatMessage) (answer : Answer) :
    KeepsRequests J (followUp host conversationId p roundNo context answer) :=
  keeps_followUp host conversationId roundNo context
    (fun _ _ _ => keepsRequests_onLedger _) answer

theorem keepsRequests_sendRounds (conversationId : ConversationId)
    (asks : ∀ context, Keeps J
      (complete host.upstream ⟨p.provider, false, payload p.model context⟩))
    (left roundNo : Nat) (context : List ChatMessage) (before : Answer) :
    KeepsRequests J (sendRounds host conversationId p left roundNo context before) :=
  keeps_sendRounds host conversationId (fun context => keepsRequests_onRequests (asks context))
    (fun _ _ _ _ => keepsRequests_onLedger _) left roundNo context before

theorem keepsRequests_reply (conversationId : ConversationId) (tags : Option (Dict Text Json))
    (answer : Answer) : KeepsRequests J (reply host conversationId p tags answer) :=
  keeps_bind (keeps_raises _) fun _ =>
    keeps_bind (keeps_raises _) fun _ =>
    keeps_bind (keeps_raises _) fun _ => keepsRequests_onLedger _

end Requests

/-! ## The rows of a turn -/

section Rows

open Program (Keeps keeps_pure keeps_throw keeps_get keeps_raises keeps_modify keeps_bind
  keeps_zoom)

/-- Rows of the user and of tools, which carry no counts, may be added to these. -/
def Aside (J : List Message → Prop) : Prop :=
  ∀ rows m, m.role ≠ .assistant → m.promptTokens = none → J rows → J (rows ++ [m])

variable {J : List Message → Prop} {p : Prepared}

def KeepsRows {α : Type} (J : List Message → Prop) (q : Program Raised Ledger α) : Prop :=
  Keeps (fun ledger => J ledger.messages.rows) q

theorem keepsRows_append (aside : Aside J) (conversationId : ConversationId) {role : Role}
    (other : role ≠ .assistant) (content : Text) {fields : Fields}
    (uncounted : fields.promptTokens = none) :
    KeepsRows J (append conversationId role content fields) := by
  intro ledger rows
  rw [run_append]
  split
  · exact aside _ _ other uncounted rows
  · exact rows

/-- Until its answer a turn adds no other rows. -/
theorem keepsRows_executeToolRound (aside : Aside J) (conversationId : ConversationId)
    (context : List ChatMessage) (assistantText tool : Text) (args : PyDict)
    (allowed : List Text) :
    KeepsRows J (executeToolRound host conversationId context assistantText tool args allowed) := by
  have other : Role.tool ≠ .assistant := by decide
  unfold executeToolRound
  dsimp only
  split
  · refine keeps_bind (keeps_bind (keeps_modify fun _ rows => rows) fun _ =>
      keeps_bind keeps_get fun _ => keeps_raises _) fun _ => keeps_bind (keeps_raises _) fun _ => ?_
    exact keeps_bind (keepsRows_append aside conversationId other _ rfl) fun _ => keeps_pure _
  · refine keeps_bind (keeps_pure _) fun _ => keeps_bind (keeps_raises _) fun _ => ?_
    exact keeps_bind (keepsRows_append aside conversationId other _ rfl) fun _ => keeps_pure _

theorem keepsRows_prepare (aside : Aside J) (conversationId : ConversationId) (userText : Text) :
    KeepsRows J (prepare host conversationId userText) := by
  have other : Role.user ≠ .assistant := by decide
  refine keeps_bind keeps_get fun ledger => ?_
  split
  · exact keeps_throw _
  · exact keeps_bind (keeps_raises _) fun _ =>
      keeps_bind (keepsRows_append aside conversationId other _ rfl) fun _ =>
      keeps_bind keeps_get fun _ => keeps_pure _

theorem keepsRows_sendRounds (aside : Aside J) (conversationId : ConversationId)
    (left roundNo : Nat) (context : List ChatMessage) (before : Answer) :
    Keeps (fun s : Session => J s.ledger.messages.rows)
      (sendRounds host conversationId p left roundNo context before) := by
  refine keeps_sendRounds host conversationId (fun _ => keeps_zoom fun _ rows => rows) ?_
    left roundNo context before
  intro context content tool args
  exact keeps_zoom fun s => keepsRows_executeToolRound host aside conversationId context content
    tool args p.allowedTools s.ledger

end Rows

end AgenticOctopus.Chat
