import AgenticOctopus.Foundation.Table
import AgenticOctopus.Providers.Routing

/-!
# Conversations and messages

The two chat tables, the log of tool calls, and `_append`. Every statement is a transaction
of its own, so what was appended stays when the caller raises later.
-/
namespace AgenticOctopus.Chat
open Foundation Providers

abbrev ConversationId := Text

structure Conversation where
  id : ConversationId
  title : Option Text := none
  persona : Option Text := none
  model : Option Text := none

inductive Role where
  | system | user | assistant | tool
deriving DecidableEq, Repr

def Role.value : Role → Text
  | .system => ↑"system"
  | .user => ↑"user"
  | .assistant => ↑"assistant"
  | .tool => ↑"tool"

structure Message where
  id : Nat
  conversationId : ConversationId
  role : Role
  content : Text
  model : Option Text := none
  metadata : Json := .obj []
  promptTokens : Option Int := none
  completionTokens : Option Int := none
  durationMs : Option Int := none
  tags : Dict Text Json := []

/-- A Python dictionary made by `dict(…)`: its keys need not be strings. -/
abbrev PyDict := List (Json × Json)

/-- A call of `run_tool`. -/
structure ToolCall where
  tool : Text
  args : PyDict

structure Ledger where
  conversations : Table ConversationId Conversation Conversation.id
  messages : SerialTable Message Message.id
  toolCalls : List ToolCall

/-- One conversation, and no message in it. -/
def Ledger.started (conversation : Conversation) : Ledger where
  conversations := Table.empty.insert conversation rfl
  messages := .empty
  toolCalls := []

def titleMax : Nat := 40

/-- `title = COALESCE(title, …)` -/
def titleSet (title : Option Text) : Table.Assignment Conversation.id where
  apply c := { c with title := c.title <|> title }

/-- The columns that `_append` sets by name. -/
structure Fields where
  model : Option Text := none
  metadata : Json := .obj []
  promptTokens : Option Int := none
  completionTokens : Option Int := none
  durationMs : Option Int := none
  tags : Dict Text Json := []

def newMessage (conversationId : ConversationId) (role : Role) (content : Text) (fields : Fields)
    (id : Nat) : Message where
  id := id
  conversationId := conversationId
  role := role
  content := content
  model := fields.model
  metadata := fields.metadata
  promptTokens := fields.promptTokens
  completionTokens := fields.completionTokens
  durationMs := fields.durationMs
  tags := fields.tags

/-- The columns take the content and the fields. -/
def Fields.storable (fields : Fields) (content : Text) : Bool :=
  content.storable && fields.model.all Text.storable && fields.metadata.storable &&
    Json.storable (.obj fields.tags)

def append (conversationId : ConversationId) (role : Role) (content : Text) (fields : Fields) :
    Program Raised Ledger Message := do
  let ledger ← get
  if ledger.conversations.contains conversationId && fields.storable content then
    let title := if role = .user then some (content.take titleMax) else none
    set
      { ledger with
        messages := ledger.messages.append (newMessage conversationId role content fields)
        conversations :=
          ledger.conversations.update (fun c => decide (c.id = conversationId)) (titleSet title) }
    return newMessage conversationId role content fields ledger.messages.next
  else throw .databaseError

/-- The ledger with one more message. -/
def Ledger.appended (ledger : Ledger) (conversationId : ConversationId) (role : Role)
    (content : Text) (fields : Fields) : Ledger :=
  { ledger with
    messages := ledger.messages.append (newMessage conversationId role content fields)
    conversations :=
      ledger.conversations.update (fun c => decide (c.id = conversationId))
        (titleSet (if role = .user then some (content.take titleMax) else none)) }

theorem run_append (ledger : Ledger) (conversationId : ConversationId) (role : Role)
    (content : Text) (fields : Fields) :
    (append conversationId role content fields).run ledger =
      if ledger.conversations.contains conversationId && fields.storable content then
        .ok (newMessage conversationId role content fields ledger.messages.next)
          (ledger.appended conversationId role content fields)
      else .error .databaseError ledger := by
  unfold append
  rw [EStateM.run_bind, EStateM.run_get]
  simp only
  split <;> rfl

@[simp] theorem Ledger.rows_appended (ledger : Ledger) (conversationId : ConversationId)
    (role : Role) (content : Text) (fields : Fields) :
    (ledger.appended conversationId role content fields).messages.rows =
      ledger.messages.rows ++
        [newMessage conversationId role content fields ledger.messages.next] := rfl

def getConversation (ledger : Ledger) (conversationId : ConversationId) : Option Conversation :=
  ledger.conversations.find? conversationId

def getMessages (ledger : Ledger) (conversationId : ConversationId) : List Message :=
  ledger.messages.select fun m => decide (m.conversationId = conversationId)

end AgenticOctopus.Chat
