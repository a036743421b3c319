import AgenticOctopus.Chat.Store
import AgenticOctopus.Chat.Streaming

/-!
# What a turn does to the store

A turn writes by `append` alone, and in its own conversation. So a turn over the ledger is a
series of appends to the store, and whatever holds in every order of the callers holds with turns
among them.
-/
namespace AgenticOctopus.Chat
open Foundation Providers Program
open Spine (Time)

/-! ## The writes of a turn -/

/-- A message is appended to this conversation, or a tool is called. -/
inductive Writes (c : ConversationId) : Ledger → Ledger → Prop where
  | append {ledger role content fields}
      (accepted : (ledger.conversations.contains c && fields.storable content) = true) :
      Writes c ledger (ledger.appended c role content fields)
  | call {ledger} (call : ToolCall) :
      Writes c ledger { ledger with toolCalls := ledger.toolCalls ++ [call] }

/-- The ledger is reached from `start` by such writes. -/
def Written (c : ConversationId) (start : Ledger) : Ledger → Prop :=
  Relation.ReflTransGen (Writes c) start

section Keeps

variable {c : ConversationId} {start : Ledger} (host : Host)

theorem keeps_append (role : Role) (content : Text) (fields : Fields) :
    Keeps (Written c start) (append c role content fields) := by
  intro ledger written
  rw [run_append]
  split_ifs with accepted
  · exact written.tail (.append accepted)
  · exact written

theorem keeps_runTool (call : ToolCall) : Keeps (Written c start) (runTool host call) := by
  refine keeps_bind (keeps_modify fun ledger written => ?_) fun _ =>
    keeps_bind keeps_get fun _ => keeps_raises _
  exact written.tail (.call call)

theorem keeps_executeToolRound (context : List ChatMessage) (text tool : Text) (args : PyDict)
    (allowed : List Text) :
    Keeps (Written c start) (executeToolRound host c context text tool args allowed) := by
  unfold executeToolRound
  dsimp only
  split
  · exact keeps_bind (keeps_runTool host _) fun _ => keeps_bind (keeps_raises _) fun _ =>
      keeps_bind (keeps_append .tool _ _) fun _ => keeps_pure _
  · exact keeps_bind (keeps_pure _) fun _ => keeps_bind (keeps_raises _) fun _ =>
      keeps_bind (keeps_append .tool _ _) fun _ => keeps_pure _

theorem keeps_prepare (userText : Text) : Keeps (Written c start) (prepare host c userText) := by
  refine keeps_bind keeps_get fun ledger => ?_
  split
  · exact keeps_throw _
  · exact keeps_bind (keeps_raises _) fun _ => keeps_bind (keeps_append .user _ _) fun _ =>
      keeps_bind keeps_get fun _ => keeps_pure _

/-- The session's ledger is reached by such writes. -/
def SessionWritten (c : ConversationId) (start : Ledger) (s : Session) : Prop :=
  Written c start s.ledger

theorem keeps_onLedger {α : Type} {q : Program Raised Ledger α} (kept : Keeps (Written c start) q) :
    Keeps (SessionWritten c start) (zoom onLedger q) :=
  keeps_zoom fun s written => kept s.ledger written

theorem keeps_onRequests {α : Type} (q : Program Raised (List Request) α) :
    Keeps (SessionWritten c start) (zoom onRequests q) := keeps_zoom fun _ written => written

theorem keeps_send (userText : Text) (tags : Option (Dict Text Json)) :
    Keeps (SessionWritten c start) (send host c userText tags) := by
  refine keeps_bind (keeps_onLedger (keeps_prepare host userText)) fun p => ?_
  refine keeps_bind (keeps_sendRounds host c (fun _ => keeps_onRequests _)
    (fun _ _ _ _ => keeps_onLedger (keeps_executeToolRound host _ _ _ _ _)) _ _ _ _) fun answer => ?_
  exact keeps_bind (keeps_raises _) fun _ => keeps_bind (keeps_raises _) fun _ =>
    keeps_bind (keeps_raises _) fun _ => keeps_onLedger (keeps_append .assistant _ _)

/-! ### Streams -/

variable (consumer : Consumer)

theorem written_sendStream (userText : Text) (tags : Option (Dict Text Json)) {session : Session}
    (written : SessionWritten c start session) :
    SessionWritten c start (state (sendStream host consumer c userText tags session)).session := by
  have prepared := keeps_onLedger (keeps_prepare host userText) session written
  unfold sendStream
  cases run : (zoom onLedger (prepare host c userText)).run session with
  | error e after =>
    rw [run] at prepared
    exact prepared
  | ok p after =>
    rw [run] at prepared
    exact keepsSession_stream tags (fun _ => keeps_onRequests _)
      (fun _ _ _ _ => keeps_onLedger (keeps_executeToolRound host _ _ _ _ _))
      (fun _ _ => keeps_onLedger (keeps_append .assistant _ _)) _ prepared

end Keeps

/-! ## The store under a turn -/

theorem conversation_id (r : ConversationRow) : r.conversation.id = r.id := rfl

theorem message_id (m : MessageRow) : m.message.id = m.id := rfl

/-- The ledger of the store: without times, after these calls. -/
def Store.ledger (store : Store) (toolCalls : List ToolCall) : Ledger where
  conversations := store.conversations.map ConversationRow.conversation conversation_id
  messages := store.messages.map MessageRow.message message_id
  toolCalls := toolCalls

theorem Store.ledger_posted (store : Store) (now : Time) (c : ConversationId) (role : Role)
    (content : Text) (fields : Fields) (calls : List ToolCall) :
    (store.posted now c role content fields).ledger calls =
      (store.ledger calls).appended c role content fields := by
  have conversations : ((store.posted now c role content fields).ledger calls).conversations =
      ((store.ledger calls).appended c role content fields).conversations :=
    store.conversations.map_update ConversationRow.conversation conversation_id (fun _ => rfl)
      fun _ => rfl
  have messages : ((store.posted now c role content fields).ledger calls).messages =
      ((store.ledger calls).appended c role content fields).messages :=
    store.messages.map_append _ (fun _ => rfl) MessageRow.message message_id fun _ => rfl
  exact congrArg₂ (fun t u => (⟨t, u, calls⟩ : Ledger)) conversations messages

theorem Store.contains_ledger (store : Store) (calls : List ToolCall) (c : ConversationId) :
    (store.ledger calls).conversations.contains c = store.conversations.contains c := by
  have found : (store.ledger calls).conversations.find? c =
      (store.conversations.find? c).map ConversationRow.conversation :=
    store.conversations.find?_map ConversationRow.conversation conversation_id c
  rw [Table.contains, Table.contains]
  exact (congrArg Option.isSome found).trans Option.isSome_map

/-- So many appends to this conversation, the `i`th at the instant `clock i`. -/
inductive Posts (c : ConversationId) (clock : Nat → Time) (store : Store) : Nat → Store → Prop where
  | none : Posts c clock store 0 store
  | post {n mid} (role content fields) (posts : Posts c clock store n mid)
      (accepted : (mid.conversations.contains c && fields.storable content) = true) :
      Posts c clock store (n + 1) (mid.posted (clock n) c role content fields)

section Posts

variable {c : ConversationId} {clock : Nat → Time} {store store' : Store} {n : Nat}

theorem ChatOp.after_append {now : Time} {role : Role} {content : Text} {fields : Fields}
    (accepted : (store.conversations.contains c && fields.storable content) = true) :
    (ChatOp.append c role content fields).after now store =
      store.posted now c role content fields := by
  have ran : ((ChatOp.append c role content fields).block now).run store =
      .ok ((), store.posted now c role content fields) :=
    Txn.discard_ok.mpr ⟨_, Store.append_ok.mpr ⟨accepted, rfl, rfl⟩⟩
  rw [ChatOp.after, Txn.after, Txn.commit_ok ran]

theorem Posts.reachable (posts : Posts c clock store n store') (h : chats.Reachable store) :
    chats.Reachable store' := by
  induction posts with
  | none => exact h
  | @post n mid role content fields posts accepted ih =>
    refine ih.step (l := (clock n, .append c role content fields)) ?_
    exact congrArg some (ChatOp.after_append accepted)

theorem Posts.others (posts : Posts c clock store n store') {d : ConversationId} (other : d ≠ c) :
    store'.thread d = store.thread d := by
  induction posts with
  | none => rfl
  | post role content fields posts accepted ih =>
    rw [Store.thread_posted, if_neg other]
    exact ih

/-- The rows of these appends come at the end, in order. -/
theorem Posts.rows (posts : Posts c clock store n store') :
    ∃ added, store'.messages.rows = store.messages.rows ++ added ∧ (∀ m ∈ added, m.thread = c) ∧
      added.map MessageRow.createdAt = (List.range n).map clock := by
  induction posts with
  | none => exact ⟨[], by simp, by simp, rfl⟩
  | @post n mid role content fields posts accepted ih =>
    obtain ⟨added, rows, own, times⟩ := ih
    refine ⟨added ++ [⟨newMessage c role content fields mid.messages.next, clock n⟩], ?_, ?_, ?_⟩
    · rw [← List.append_assoc, ← rows]
      rfl
    · intro m mem
      rcases List.mem_append.mp mem with old | new
      · exact own m old
      · rw [List.mem_singleton.mp new]
        rfl
    · rw [List.map_append, times, List.range_succ, List.map_append]
      rfl

theorem Posts.goesOn (posts : Posts c clock store n store') :
    (store.thread c).GoesOn (store'.thread c) := by
  induction posts with
  | none => exact .refl _
  | @post n mid role content fields posts accepted ih =>
    refine ih.trans ?_
    rw [← ChatOp.after_append accepted]
    rcases ChatOp.step_after (clock n) (.append c role content fields) mid c with same | ⟨-, step⟩
    · rw [same]
      exact .refl _
    · exact step.goesOn (by simp)

/-- Each write of a turn is an append to the store, or leaves the store alone. -/
theorem posts_of_written {calls : List ToolCall} {ledger : Ledger} (clock : Nat → Time)
    (written : Written c (store.ledger calls) ledger) :
    ∃ n store', Posts c clock store n store' ∧ store'.ledger ledger.toolCalls = ledger := by
  induction written with
  | refl => exact ⟨0, store, .none, rfl⟩
  | @tail mid ledger _ writes ih =>
    obtain ⟨n, store', posts, view⟩ := ih
    cases writes with
    | @append role content fields accepted =>
      have known : (store'.conversations.contains c && fields.storable content) = true := by
        rwa [← Store.contains_ledger store' mid.toolCalls, view]
      refine ⟨n + 1, _, .post role content fields posts known, ?_⟩
      rw [Store.ledger_posted]
      exact congrArg (fun l : Ledger => l.appended c role content fields) view
    | call call =>
      exact ⟨n, store', posts, congrArg (fun l : Ledger =>
        ({ l with toolCalls := mid.toolCalls ++ [call] } : Ledger)) view⟩

end Posts

/-- A turn that leaves this ledger leaves this store, by a series of appends: its messages came at
the end, one after the other, and no other conversation changed. -/
structure Extends (c : ConversationId) (clock : Nat → Time) (store : Store) (ledger : Ledger)
    (store' : Store) : Prop where
  view : store'.ledger ledger.toolCalls = ledger
  posts : ∃ n, Posts c clock store n store'
  reachable : chats.Reachable store → chats.Reachable store'
  rows : ∃ added, store'.messages.rows = store.messages.rows ++ added ∧
    (∀ m ∈ added, m.thread = c) ∧ ∃ n, added.map MessageRow.createdAt = (List.range n).map clock
  goesOn : (store.thread c).GoesOn (store'.thread c)
  others : ∀ d, d ≠ c → store'.thread d = store.thread d

theorem extends_of_written {c : ConversationId} {store : Store} {calls : List ToolCall}
    {ledger : Ledger} (clock : Nat → Time) (written : Written c (store.ledger calls) ledger) :
    ∃ store', Extends c clock store ledger store' := by
  obtain ⟨n, store', posts, view⟩ := posts_of_written clock written
  obtain ⟨added, rows, own, times⟩ := posts.rows
  exact ⟨store', view, ⟨n, posts⟩, posts.reachable, ⟨added, rows, own, n, times⟩, posts.goesOn,
    fun _ => posts.others⟩

/-- A turn, sent or streamed, however it ends and whoever listens, is a series of appends to its
conversation; every other conversation is as before. -/
theorem turn_extends_store (host : Host) (c : ConversationId) (userText : Text)
    (tags : Option (Dict Text Json)) (store : Store) (calls : List ToolCall)
    (requests : List Request) (clock : Nat → Time) :
    let session : Session := ⟨store.ledger calls, requests⟩
    (∃ store', Extends c clock store
        (Program.state ((send host c userText tags).run session)).ledger store') ∧
      ∀ consumer, ∃ store', Extends c clock store
        (Program.state (sendStream host consumer c userText tags session)).session.ledger store' := by
  intro session
  have start : SessionWritten c (store.ledger calls) session := .refl
  exact ⟨extends_of_written clock (keeps_send host userText tags session start),
    fun consumer => extends_of_written clock (written_sendStream host consumer userText tags start)⟩

end AgenticOctopus.Chat
