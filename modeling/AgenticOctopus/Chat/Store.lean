import AgenticOctopus.Chat.Ledger
import AgenticOctopus.Chat.ToolProtocol
import AgenticOctopus.Foundation.Machine
import AgenticOctopus.Spine.Schema

/-!
# The store of conversations

The two chat tables with their time columns, and the functions that create, list, read, delete
and extend a conversation. Each is a transaction. Seen from one conversation, a transaction
creates its row, appends a message, or deletes both the row and its messages; what the row says
of its messages follows from this, in any order of the callers.
-/
namespace AgenticOctopus.Chat
open Foundation Providers
open Spine (Time)

structure ConversationRow where
  conversation : Conversation
  createdAt : Time
  updatedAt : Time

structure MessageRow where
  message : Message
  createdAt : Time

def ConversationRow.id (r : ConversationRow) : ConversationId := r.conversation.id

def MessageRow.id (m : MessageRow) : Nat := m.message.id

/-- `messages.conversation_id` -/
def MessageRow.thread (m : MessageRow) : ConversationId := m.message.conversationId

structure Store where
  conversations : Table ConversationId ConversationRow ConversationRow.id
  messages : SerialTable MessageRow MessageRow.id

namespace Store

def empty : Store := ⟨.empty, .empty⟩

/-- One `async with pool.connection()` block. -/
abbrev Block (α : Type) := Txn Store Raised α

/-- `persona or DEFAULT_PERSONA`, and the times of the insert. -/
def newRow (now : Time) (id : ConversationId) (model : Text) (persona : Option Text) :
    ConversationRow where
  conversation := { id, model := some model, persona := some (orDefault persona defaultPersona) }
  createdAt := now
  updatedAt := now

def createConversation (now : Time) (id : ConversationId) (model : Text) (persona : Option Text) :
    Block ConversationRow := do
  let store ← get
  let row := newRow now id model persona
  if !(model.storable && persona.all Text.storable) then throw .databaseError
  else if fresh : store.conversations.find? row.id = none then
    set { store with conversations := store.conversations.insert row fresh }
    return row
  else throw .databaseError

def getConversation (store : Store) (conversationId : ConversationId) : Option ConversationRow :=
  store.conversations.find? conversationId

def getMessages (store : Store) (conversationId : ConversationId) : List MessageRow :=
  store.messages.select fun m => decide (m.thread = conversationId)

/-- `SELECT c.*, (SELECT count(*) …) … ORDER BY updated_at DESC LIMIT …` -/
def listConversations (store : Store) (limit : Int) : Except Raised (List (ConversationRow × Nat)) :=
  if limit < 0 then throw .databaseError
  else return ((store.conversations.rows.mergeSort fun a b => decide (b.updatedAt ≤ a.updatedAt)).take
    limit.toNat).map fun r => (r, store.messages.rows.countP fun m => decide (m.thread = r.id))

/-- The messages go with their conversation. -/
def deleteConversation (conversationId : ConversationId) : Block Bool := do
  let store ← get
  set
    ({ conversations := store.conversations.delete fun r => decide (r.id = conversationId)
       messages := store.messages.delete fun m => decide (m.thread = conversationId) } : Store)
  return store.conversations.rowcount (fun r => decide (r.id = conversationId)) = 1

/-- `updated_at = now(), title = COALESCE(title, …)` -/
def touchSet (now : Time) (title : Option Text) : Table.Assignment ConversationRow.id where
  apply r := { r with conversation := (titleSet title).apply r.conversation, updatedAt := now }

def titleOf (role : Role) (content : Text) : Option Text :=
  if role = .user then some (content.take titleMax) else none

def append (now : Time) (conversationId : ConversationId) (role : Role) (content : Text)
    (fields : Fields) : Block MessageRow := do
  let store ← get
  if store.conversations.contains conversationId && fields.storable content then
    set
      ({ conversations := store.conversations.update (fun r => decide (r.id = conversationId))
          (touchSet now (titleOf role content))
         messages := store.messages.append fun id =>
          ⟨newMessage conversationId role content fields id, now⟩ } : Store)
    return ⟨newMessage conversationId role content fields store.messages.next, now⟩
  else throw .databaseError

end Store

/-! ## The callers, in any order -/

inductive ChatOp where
  | create (id : ConversationId) (model : Text) (persona : Option Text)
  | append (conversationId : ConversationId) (role : Role) (content : Text) (fields : Fields)
  | delete (conversationId : ConversationId)

namespace ChatOp

def block (now : Time) : ChatOp → Store.Block Unit
  | create id model persona => do
    let _ ← Store.createConversation now id model persona
  | append conversationId role content fields => do
    let _ ← Store.append now conversationId role content fields
  | delete conversationId => do
    let _ ← Store.deleteConversation conversationId

def after (now : Time) (op : ChatOp) (store : Store) : Store := (op.block now).after store

end ChatOp

/-- Any transaction at any instant, in any order. -/
def chats : Machine Store (Time × ChatOp) :=
  .ofStep (fun store => store = Store.empty) fun store l => some (l.2.after l.1 store)

/-! ## One conversation -/

/-- What the store holds of one conversation. -/
structure Thread where
  row : Option ConversationRow
  history : List MessageRow

def Store.thread (store : Store) (c : ConversationId) : Thread :=
  ⟨store.getConversation c, store.getMessages c⟩

/-- What a transaction does to its conversation. -/
inductive Thread.Step (now : Time) : ChatOp → Thread → Thread → Prop where
  | create {history} (c model persona) :
    Step now (.create c model persona) ⟨none, history⟩
      ⟨some (Store.newRow now c model persona), history⟩
  | append {row history} (c role content fields n) :
    Step now (.append c role content fields) ⟨some row, history⟩
      ⟨some ((Store.touchSet now (Store.titleOf role content)).apply row),
        history ++ [⟨newMessage c role content fields n, now⟩]⟩
  | delete {thread} (c) : Step now (.delete c) thread ⟨none, []⟩

/-- The conversation that the transaction names. -/
def ChatOp.thread : ChatOp → ConversationId
  | create id _ _ => id
  | append conversationId _ _ _ => conversationId
  | delete conversationId => conversationId

namespace Store

variable {store store' : Store} {c d : ConversationId} {now : Time}

/-- The store with one more message. -/
def posted (store : Store) (now : Time) (c : ConversationId) (role : Role) (content : Text)
    (fields : Fields) : Store where
  conversations := store.conversations.update (fun r => decide (r.id = c))
    (touchSet now (titleOf role content))
  messages := store.messages.append fun id => ⟨newMessage c role content fields id, now⟩

/-- The store without this conversation. -/
def removed (store : Store) (c : ConversationId) : Store where
  conversations := store.conversations.delete fun r => decide (r.id = c)
  messages := store.messages.delete fun m => decide (m.thread = c)

theorem createConversation_ok {id : ConversationId} {model : Text} {persona : Option Text}
    {row : ConversationRow}
    (h : (createConversation now id model persona).run store = .ok (row, store')) :
    row = newRow now id model persona ∧ ∃ fresh : store.conversations.find? row.id = none,
      store' = { store with conversations := store.conversations.insert row fresh } := by
  simp only [createConversation, Txn.bind_ok, Txn.get_ok] at h
  obtain ⟨_, _, ⟨rfl, rfl⟩, h⟩ := h
  split_ifs at h with _ fresh
  · exact (Txn.throw_ok.mp h).elim
  · obtain ⟨_, _, wrote, h⟩ := Txn.bind_ok.mp h
    obtain ⟨rfl, rfl⟩ := Txn.pure_ok.mp h
    exact ⟨rfl, fresh, (Txn.set_ok.mp wrote).symm⟩
  · exact (Txn.throw_ok.mp h).elim

theorem append_ok {role : Role} {content : Text} {fields : Fields} {m : MessageRow} :
    (append now c role content fields).run store = .ok (m, store') ↔
      (store.conversations.contains c && fields.storable content) = true ∧
        m = ⟨newMessage c role content fields store.messages.next, now⟩ ∧
        store' = store.posted now c role content fields := by
  simp only [append, Txn.bind_ok, Txn.get_ok]
  constructor
  · rintro ⟨_, _, ⟨rfl, rfl⟩, h⟩
    split_ifs at h with accepted
    · obtain ⟨_, _, wrote, h⟩ := Txn.bind_ok.mp h
      obtain ⟨rfl, rfl⟩ := Txn.pure_ok.mp h
      exact ⟨accepted, rfl, (Txn.set_ok.mp wrote).symm⟩
    · exact (Txn.throw_ok.mp h).elim
  · rintro ⟨accepted, rfl, rfl⟩
    refine ⟨store, store, ⟨rfl, rfl⟩, ?_⟩
    rw [if_pos accepted]
    exact Txn.bind_ok.mpr ⟨⟨⟩, _, Txn.set_ok.mpr rfl, rfl⟩

theorem deleteConversation_ok {deleted : Bool}
    (h : (deleteConversation c).run store = .ok (deleted, store')) :
    (deleted = true ↔ store.conversations.contains c = true) ∧ store' = store.removed c := by
  simp only [deleteConversation, Txn.bind_ok, Txn.get_ok, Txn.set_ok, Txn.pure_ok] at h
  obtain ⟨_, _, ⟨rfl, rfl⟩, _, _, rfl, rfl, rfl⟩ := h
  refine ⟨?_, rfl⟩
  have count := store.conversations.rowcount_key c fun _ => true
  simp only [Bool.and_true] at count
  rw [count, Table.contains]
  cases store.conversations.find? c <;> simp

/-! ### What each transaction does to a conversation -/

theorem thread_empty : empty.thread c = ⟨none, []⟩ := by
  rw [thread, getMessages, SerialTable.select_eq]
  rfl

theorem thread_inserted {row : ConversationRow} (fresh : store.conversations.find? row.id = none) :
    thread { store with conversations := store.conversations.insert row fresh } c =
      if row.id = c then ⟨some row, store.getMessages c⟩ else store.thread c := by
  rw [thread, getConversation, Table.find?_insert]
  split_ifs <;> rfl

theorem thread_posted {role : Role} {content : Text} {fields : Fields} :
    (store.posted now c role content fields).thread d =
      if d = c then
        ⟨(store.getConversation d).map (touchSet now (titleOf role content)).apply,
          store.getMessages d ++ [⟨newMessage c role content fields store.messages.next, now⟩]⟩
      else store.thread d := by
  have messages : (store.posted now c role content fields).getMessages d =
      store.getMessages d ++
        if d = c then [⟨newMessage c role content fields store.messages.next, now⟩] else [] := by
    have selected := store.messages.select_append
      (fun id => (⟨newMessage c role content fields id, now⟩ : MessageRow)) (fun _ => rfl)
      fun m => decide (m.thread = d)
    refine selected.trans ?_
    by_cases own : d = c
    · simp [own, MessageRow.thread, newMessage, getMessages]
    · simp [own, MessageRow.thread, newMessage, getMessages, Ne.symm own]
  rw [thread, messages, getConversation, posted, Table.find?_update_key]
  split_ifs
  · rfl
  · rw [List.append_nil]
    rfl

theorem thread_removed :
    (store.removed c).thread d = if d = c then ⟨none, []⟩ else store.thread d := by
  have messages : (store.removed c).getMessages d =
      if d = c then [] else store.getMessages d := by
    rw [getMessages, removed, SerialTable.select_delete, getMessages, SerialTable.select_eq,
      List.filter_filter]
    split_ifs with own
    · simp [own]
    · refine List.filter_congr fun m _ => ?_
      by_cases mine : m.thread = d <;> simp [mine, own]
  rw [thread, messages, getConversation, removed, Table.find?_delete_key]
  split_ifs <;> rfl

end Store

/-! ## What every step leaves -/

section Steps

variable {store store' : Store} {c : ConversationId} {now : Time} {op : ChatOp}

/-- A transaction that commits takes a step in its conversation and none in another. -/
theorem ChatOp.step_of_ok (h : (op.block now).run store = .ok ((), store')) :
    Thread.Step now op (store.thread op.thread) (store'.thread op.thread) ∧
      ∀ d, d ≠ op.thread → store'.thread d = store.thread d := by
  cases op with
  | create id model persona =>
    obtain ⟨row, ran⟩ := Txn.discard_ok.mp h
    obtain ⟨rfl, fresh, rfl⟩ := Store.createConversation_ok ran
    have blank : store.thread id = ⟨none, store.getMessages id⟩ := by
      rw [Store.thread, Store.getConversation, show store.conversations.find? id = none from fresh]
    have own : (Store.newRow now id model persona).id = id := rfl
    refine ⟨?_, fun d other => ?_⟩
    · rw [ChatOp.thread, Store.thread_inserted fresh, if_pos own, blank]
      exact .create id model persona
    · rw [Store.thread_inserted fresh]
      exact if_neg (Ne.symm other)
  | append conversationId role content fields =>
    obtain ⟨m, ran⟩ := Txn.discard_ok.mp h
    obtain ⟨accepted, -, rfl⟩ := Store.append_ok.mp ran
    have known : store.conversations.contains conversationId = true := by simp_all
    obtain ⟨row, there⟩ := Option.isSome_iff_exists.mp known
    have before : store.thread conversationId = ⟨some row, store.getMessages conversationId⟩ := by
      rw [Store.thread, Store.getConversation, there]
    refine ⟨?_, fun d other => ?_⟩
    · rw [ChatOp.thread, Store.thread_posted, if_pos rfl, before, Store.getConversation, there]
      exact .append conversationId role content fields store.messages.next
    · rw [Store.thread_posted]
      exact if_neg other
  | delete conversationId =>
    obtain ⟨deleted, ran⟩ := Txn.discard_ok.mp h
    obtain ⟨-, rfl⟩ := Store.deleteConversation_ok ran
    refine ⟨?_, fun d other => ?_⟩
    · rw [ChatOp.thread, Store.thread_removed, if_pos rfl]
      exact .delete conversationId
    · rw [Store.thread_removed]
      exact if_neg other

theorem ChatOp.step_after (now : Time) (op : ChatOp) (store : Store) (c : ConversationId) :
    (op.after now store).thread c = store.thread c ∨
      op.thread = c ∧ Thread.Step now op (store.thread c) ((op.after now store).thread c) := by
  rcases Txn.after_cases (op.block now) store with same | ⟨_, ran⟩
  · rw [ChatOp.after, same]
    exact .inl rfl
  · obtain ⟨step, others⟩ := ChatOp.step_of_ok ran
    by_cases own : c = op.thread
    · subst own
      exact .inr ⟨rfl, step⟩
    · exact .inl (others c own)

namespace Thread

/-- When the conversation was last written to, if this is its row. -/
def lastActivity (t : Thread) (row : ConversationRow) : Time :=
  (t.history.getLast?.map MessageRow.createdAt).getD row.createdAt

/-- The beginning of the first thing that the user said. -/
def firstWords (t : Thread) : Option Text :=
  (t.history.find? fun m => m.message.role = .user).map fun m => m.message.content.take titleMax

/-- The row says what the messages say. -/
structure Told (t : Thread) : Prop where
  blank : t.row = none → t.history = []
  updated : ∀ row, t.row = some row → row.updatedAt = t.lastActivity row
  title : ∀ row, t.row = some row → row.conversation.title = t.firstWords

theorem Told.step {t t' : Thread} (told : t.Told) (h : Step now op t t') : t'.Told := by
  cases h with
  | create c model persona =>
    obtain rfl : _ = [] := told.blank rfl
    refine ⟨fun none => (by cases none), ?_, ?_⟩
    · rintro _ ⟨⟩
      rfl
    · rintro _ ⟨⟩
      rfl
  | @append row history c role content fields n =>
    refine ⟨fun none => (by cases none), ?_, ?_⟩
    · rintro _ ⟨⟩
      simp [lastActivity, Store.touchSet]
    · rintro _ ⟨⟩
      have before : row.conversation.title = _ := told.title row rfl
      simp only [Store.touchSet, titleSet, before, firstWords, List.find?_append]
      cases history.find? fun m => m.message.role = .user with
      | some m => rfl
      | none => by_cases user : role = .user <;> simp [Store.titleOf, newMessage, user]
  | delete => exact ⟨fun _ => rfl, fun _ there => (by cases there), fun _ there => by cases there⟩

/-- The later thread goes on from the earlier one. -/
structure GoesOn (t t' : Thread) : Prop where
  history : t.history <+: t'.history
  row : ∀ row, t.row = some row → ∃ row', t'.row = some row' ∧
    row'.createdAt = row.createdAt ∧ row'.conversation.persona = row.conversation.persona ∧
    row'.conversation.model = row.conversation.model ∧
    ∀ title, row.conversation.title = some title → row'.conversation.title = some title

theorem GoesOn.refl (t : Thread) : t.GoesOn t :=
  ⟨List.prefix_refl _, fun row there => ⟨row, there, rfl, rfl, rfl, fun _ is => is⟩⟩

theorem GoesOn.trans {t u v : Thread} (first : t.GoesOn u) (second : u.GoesOn v) : t.GoesOn v := by
  refine ⟨first.history.trans second.history, fun row there => ?_⟩
  obtain ⟨row', there', created, persona, model, title⟩ := first.row row there
  obtain ⟨row'', there'', created', persona', model', title'⟩ := second.row row' there'
  exact ⟨row'', there'', created'.trans created, persona'.trans persona, model'.trans model,
    fun t is => title' t (title t is)⟩

/-- Only a deletion takes something away. -/
theorem Step.goesOn {t t' : Thread} (h : Step now op t t') (kept : op ≠ .delete op.thread) :
    t.GoesOn t' := by
  cases h with
  | create => exact ⟨List.prefix_refl _, fun _ there => by cases there⟩
  | append c role content fields n =>
    refine ⟨List.prefix_append _ _, ?_⟩
    rintro row ⟨⟩
    refine ⟨_, rfl, rfl, rfl, rfl, fun title is => ?_⟩
    simp [Store.touchSet, titleSet, is]
  | delete c => exact (kept rfl).elim

theorem Step.stays_gone {t' : Thread} (h : Step now op ⟨none, []⟩ t')
    (absent : ∀ model persona, op ≠ .create op.thread model persona) : t' = ⟨none, []⟩ := by
  cases h with
  | create c model persona => exact (absent model persona rfl).elim
  | delete => rfl

end Thread

/-- A deletion never raises. -/
theorem ChatOp.after_delete : (ChatOp.delete c).after now store = store.removed c := rfl

theorem reachable_told (h : chats.Reachable store) (c : ConversationId) : (store.thread c).Told := by
  refine h.invariant (P := fun store => (store.thread c).Told) ?_ fun store l store' _ told after => ?_
  · rintro _ rfl
    rw [Store.thread_empty]
    exact ⟨fun _ => rfl, fun _ there => (by cases there), fun _ there => by cases there⟩
  · rw [← Option.some.inj after]
    rcases ChatOp.step_after l.1 l.2 store c with same | ⟨-, step⟩
    · rwa [same]
    · exact told.step step

/-! ## The list of conversations -/

/-- These are the most recent conversations, each with what its messages say. -/
structure Lists (store : Store) (limit : Nat) (listed : List (ConversationRow × Nat)) : Prop where
  length : listed.length = min limit store.conversations.rows.length
  distinct : (listed.map fun entry => entry.1.id).Nodup
  recent : listed.Pairwise fun a b => b.1.updatedAt ≤ a.1.updatedAt
  rest : ∀ row ∈ store.conversations, (∀ entry ∈ listed, entry.1.id ≠ row.id) →
    ∀ entry ∈ listed, row.updatedAt ≤ entry.1.updatedAt
  entry : ∀ entry ∈ listed, (store.thread entry.1.id).row = some entry.1 ∧
    entry.2 = (store.thread entry.1.id).history.length ∧
    entry.1.updatedAt = (store.thread entry.1.id).lastActivity entry.1 ∧
    entry.1.conversation.title = (store.thread entry.1.id).firstWords

/-- In every reachable state the list shows the conversations in the order of their last messages,
with their lengths and the user's first words. -/
theorem listing_tells_messages (h : chats.Reachable store) (limit : Nat) :
    ∃ listed, store.listConversations limit = .ok listed ∧ Lists store limit listed := by
  let sorted := store.conversations.rows.mergeSort fun a b => decide (b.updatedAt ≤ a.updatedAt)
  let entry (row : ConversationRow) : ConversationRow × Nat :=
    (row, store.messages.rows.countP fun m => decide (m.thread = row.id))
  have perm : sorted.Perm store.conversations.rows := List.mergeSort_perm _ _
  have order : sorted.Pairwise fun a b => b.updatedAt ≤ a.updatedAt := by
    have sorts : sorted.Pairwise fun a b => decide (b.updatedAt ≤ a.updatedAt) = true :=
      List.pairwise_mergeSort (by grind) (by grind) _
    exact sorts.imp of_decide_eq_true
  have taken : ∀ row ∈ sorted.take limit, row ∈ store.conversations := fun row mem =>
    perm.mem_iff.mp (List.mem_of_mem_take mem)
  refine ⟨(sorted.take limit).map entry, ?_, ?_, ?_, ?_, ?_, ?_⟩
  · rw [Store.listConversations, if_neg (by omega)]
    rfl
  · rw [List.length_map, List.length_take, perm.length_eq]
  · have ids : ((sorted.take limit).map ConversationRow.id).Nodup :=
      (((perm.map _).nodup_iff.mpr store.conversations.distinct).sublist
        ((List.take_sublist limit sorted).map _))
    rw [List.map_map]
    exact ids
  · rw [List.pairwise_map]
    exact order.sublist (List.take_sublist limit sorted)
  · intro row mem absent e listed
    obtain ⟨shown, mem', rfl⟩ := List.mem_map.mp listed
    have left : row ∈ sorted.drop limit := by
      have whole : row ∈ sorted.take limit ++ sorted.drop limit := by
        rw [List.take_append_drop]
        exact perm.mem_iff.mpr mem
      refine (List.mem_append.mp whole).resolve_left fun taken => ?_
      exact absent (entry row) (List.mem_map_of_mem taken) rfl
    rw [← List.take_append_drop limit sorted, List.pairwise_append] at order
    exact order.2.2 shown mem' row left
  · intro e listed
    obtain ⟨row, mem, rfl⟩ := List.mem_map.mp listed
    have there : (store.thread row.id).row = some row := Table.find?_of_mem (taken row mem)
    have told := reachable_told h row.id
    refine ⟨there, ?_, told.updated row there, told.title row there⟩
    have length := List.countP_eq_length_filter (p := fun m : MessageRow => decide (m.thread = row.id))
      (l := store.messages.rows)
    rw [Store.thread, Store.getMessages, SerialTable.select_eq]
    exact length

/-! ## Whole histories -/

/-- Until it is deleted, a conversation only goes on; once it is, nothing of it is left before it
is created again. -/
theorem threads_go_on (e : chats.Execution) {i j : Nat} (hij : i ≤ j) (hj : j ≤ e.length)
    (c : ConversationId) :
    ((∀ k, i ≤ k → k < j → (e.label k).2 ≠ .delete c) →
        ((e.state i).thread c).GoesOn ((e.state j).thread c)) ∧
      (∀ now, i < j → e.label i = (now, .delete c) →
        (∀ k model persona, i < k → k < j → (e.label k).2 ≠ .create c model persona) →
          (e.state j).thread c = ⟨none, []⟩) := by
  have next : ∀ k, k < e.length → e.state (k + 1) = (e.label k).2.after (e.label k).1 (e.state k) :=
    fun k hk => (Option.some.inj (e.next k hk)).symm
  constructor
  · intro kept
    refine e.persists (P := fun store => ((e.state i).thread c).GoesOn (store.thread c)) hij
      (fun k hik hkj before => ?_) (.refl _)
    rw [next k (by omega)]
    rcases ChatOp.step_after (e.label k).1 (e.label k).2 (e.state k) c with same | ⟨own, step⟩
    · rwa [same]
    · refine before.trans (step.goesOn ?_)
      rw [own]
      exact kept k hik hkj
  · intro now inside label absent
    refine e.persists (P := fun store => store.thread c = ⟨none, []⟩) inside
      (fun k hik hkj before => ?_) ?_
    · rw [next k (by omega)]
      rcases ChatOp.step_after (e.label k).1 (e.label k).2 (e.state k) c with same | ⟨own, step⟩
      · rwa [same]
      · rw [before] at step
        refine step.stays_gone fun model persona => ?_
        rw [own]
        exact absent k model persona hik hkj
    · rw [next i (by omega), label, ChatOp.after_delete, Store.thread_removed, if_pos rfl]

end Steps

/-- Two conversations; one gets a message, the other is deleted. -/
def twoChats : chats.Execution :=
  Machine.replay _ Store.empty rfl
    [(0, .create ↑"a" ↑"default" none), (1, .create ↑"b" ↑"octo/auto" none),
      (2, .append ↑"a" .user ↑"Hello there" {}), (3, .delete ↑"b")]
    (0, .delete []) (by decide)

theorem twoChats_listed : ∃ listed, (twoChats.state 3).listConversations (50 : Nat) = .ok listed ∧
    Lists (twoChats.state 3) 50 listed :=
  listing_tells_messages (twoChats.reachable (i := 3) (by decide)) 50

theorem twoChats_deleted : (twoChats.state 4).thread ↑"b" = ⟨none, []⟩ :=
  (threads_go_on twoChats (i := 3) (j := 4) (by decide) (by decide) ↑"b").2 3 (by decide) rfl
    fun k _ _ after before => by omega

end AgenticOctopus.Chat
