import AgenticOctopus.Api.LeadIn
import AgenticOctopus.Chat.Accounting
import AgenticOctopus.Chat.WebTools

/-!
# The status of a chat turn

`send_message` maps what `send` raises to a status by its class. What `send` raises depends on
each response that it reads, so the status names the cause only if these responses do.
-/
namespace AgenticOctopus.Api.ChatRoutes
open Foundation Foundation.Program Providers Chat
open OpenAICompat (fieldOf)

/-! ## send_message -/

/-- The `except` clauses: `KeyError` and `IndexError` are lookup errors, and `RecursionError` is a
runtime error. -/
def clause : Raised → Option Nat
  | .lookupError _ | .keyError _ | .indexError => some 404
  | .paidModelRefused _ | .ollamaUnavailable _ => some 400
  | .quotaExceeded _ => some 429
  | .providerError _ _ | .runtimeError _ | .recursionError => some 502
  | .typeError | .attributeError | .valueError _ | .jsonDecodeError | .httpError
  | .databaseError | .osError | .toolError | .generatorExit => none

/-- What is not caught is answered by the server. -/
def status (turn : EStateM.Result Raised Session Message) : Nat :=
  match outcome turn with
  | .ok _ => 200
  | .error e => (clause e).getD 500

variable (host : Host) (uuid : Text → Option ConversationId) (path content : Text)
  (tags : Dict Text Json)

/-- A round that is about to ask. -/
structure Asked where
  p : Prepared
  roundNo : Nat
  context : List ChatMessage
  before : Answer
  session : Session

namespace Asked

variable (a : Asked)

def response : Except Raised Response :=
  host.upstream.respond (a.session.requests ++ [request false a.p a.context])

def round (conversationId : ConversationId) :
    EStateM.Result Raised Session (Answer × Option (List ChatMessage)) :=
  (sendRound host conversationId a.p a.roundNo a.context a.before).run a.session

end Asked

/-- The rounds that a turn comes to. -/
inductive Reached (conversationId : ConversationId) (start : Session) : Asked → Prop
  | first {p : Prepared} {ready : Session} (some_round : 0 < maxRounds host)
      (prepared : (zoom onLedger (prepare host conversationId content)).run start = .ok p ready) :
      Reached conversationId start ⟨p, 0, p.context, ⟨.str [], .obj [], .str p.model⟩, ready⟩
  | next {a : Asked} {answer : Answer} {context : List ChatMessage} {session : Session}
      (reached : Reached conversationId start a)
      (tools : a.round host conversationId = .ok (answer, some context) session) :
      Reached conversationId start ⟨a.p, a.roundNo + 1, context, answer, session⟩

/-- A round that the turn comes to, if there is a conversation for the path. -/
def Reads (start : Session) (a : Asked) : Prop :=
  ∃ conversationId, uuid path = some conversationId ∧ Reached host content conversationId start a

/-! ## Usable responses -/

/-- The counts that go into the row, if any, fit their columns. -/
def usageFits : Json → Bool
  | .obj usage =>
    host.columns.takesInt (fieldOf usage ↑"prompt_tokens") &&
      host.columns.takesInt (fieldOf usage ↑"completion_tokens")
  | _ => false

/-- The turn ends with the answer to this round. -/
def Ending (a : Asked) (call : Option (Text × PyDict)) : Prop :=
  call = none ∨ host.settings.chatMaxToolCalls ≤ a.roundNo

section Rounds

variable {host content} {conversationId : ConversationId} {start : Session} {a : Asked}

theorem Reached.within (reached : Reached host content conversationId start a) :
    (a.roundNo : Int) ≤ host.settings.chatMaxToolCalls := by
  induction reached with
  | first some_round _ =>
    unfold maxRounds at some_round
    change ((0 : Nat) : Int) ≤ _
    omega
  | @next a answer context session _ tools ih =>
    have ends : Ends (fun r => AfterOne host conversationId a.p false a.roundNo a.context a.session
        r.2) _ (a.round host conversationId) :=
      triple_sendRound ih a.before a.session a.session rfl
    rw [tools] at ends
    exact ends.1

theorem rounds_left {roundNo : Nat} (within : (roundNo : Int) ≤ host.settings.chatMaxToolCalls) :
    maxRounds host - roundNo = maxRounds host - (roundNo + 1) + 1 := by
  unfold maxRounds
  omega

/-- The turn goes on from each round that it comes to. -/
theorem Reached.run (reached : Reached host content conversationId start a)
    (tags : Option (Dict Text Json)) :
    (send host conversationId content tags).run start =
      (sendRounds host conversationId a.p (maxRounds host - a.roundNo) a.roundNo a.context a.before
        >>= reply host conversationId a.p tags).run a.session := by
  induction reached with
  | first _ prepared => exact run_bind_ok prepared
  | @next a answer context session reached tools ih =>
    rw [ih, rounds_left reached.within, sendRounds, bind_assoc, run_bind_ok tools]

end Rounds

/-! ## One round -/

section Round

variable {host} {conversationId : ConversationId} {a : Asked} {r : Response}

/-- The session once the round has asked. -/
def Asked.asked (a : Asked) : Session :=
  { a.session with requests := a.session.requests ++ [request false a.p a.context] }

theorem item_eq_ok {v w : Json} {key : Text} :
    item v key = .ok w ↔ ∃ fields, v = .obj fields ∧ Dict.get? fields key = some w := by
  cases v with
  | obj fields =>
    simp only [item]
    cases found : Dict.get? fields key <;> simp [found, pure, Except.pure, throw, throwThe,
      MonadExceptOf.throw]
  | _ => simp [item, throw, throwThe, MonadExceptOf.throw]

end Round

/-! ## The status of a turn -/

section Turn

variable {host content} {conversationId : ConversationId} {start : Session} {a : Asked}
  {tags : Option (Dict Text Json)}

theorem Reached.prepared (reached : Reached host content conversationId start a) :
    ∃ p ready, (zoom onLedger (prepare host conversationId content)).run start = .ok p ready := by
  induction reached with
  | first _ prepared => exact ⟨_, _, prepared⟩
  | next _ _ ih => exact ih

theorem Reached.some_round (reached : Reached host content conversationId start a) :
    0 < maxRounds host := by
  induction reached with
  | first some_round _ => exact some_round
  | next _ _ ih => exact ih

variable {uuid : Text → Option ConversationId} {path : Text}

end Turn

section Answers

/-- A host whose provider gives one answer to everything. -/
def answering (r : Response) : Host where
  settings := {}
  registry := []
  upstream := {
    py := plainPython
    installedTags := []
    respond := fun _ => .ok r
    openStream := fun _ => .error .httpError }
  columns := plainColumns
  runTool := webTools fun _ => Web.empty
  durationMs := 7

end Answers

end AgenticOctopus.Api.ChatRoutes
