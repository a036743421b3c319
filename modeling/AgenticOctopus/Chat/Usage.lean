import AgenticOctopus.Chat.Accounting
import AgenticOctopus.Chat.StoredTurns

/-!
# What the usage report counts

`usage_today` counts the rows of answers and tool rounds that were made since midnight, and so
estimates the requests to the providers. Over the turns of a day the two differ by the turns that
asked and stored no answer, and by the rows that went with their conversation.
-/
namespace AgenticOctopus.Chat
open Foundation Providers Program
open Spine (Time)

/-! ## The report -/

def madeSince (midnight : Time) (role : Role) (m : MessageRow) : Bool :=
  decide (m.message.role = role) && decide (midnight ≤ m.createdAt)

structure Usage where
  nativeRequestsToday : Nat
  openaiCompatRequestsToday : Nat
  freeTierDailyLimit : Nat

/-- `usage_today`, where `midnight` is `date_trunc('day', now())` and `completions` are the times
of the shim's log. -/
def usageToday (midnight : Time) (store : Store) (completions : List Time) : Usage where
  nativeRequestsToday := store.messages.rows.countP (madeSince midnight .assistant) +
    store.messages.rows.countP (madeSince midnight .tool)
  openaiCompatRequestsToday := completions.countP fun ts => decide (midnight ≤ ts)
  freeTierDailyLimit := 50

/-! ## A day of turns -/

/-- A turn over the store, by `send` or, with a consumer, by `send_stream`. -/
structure TimedTurn where
  host : Host
  conversationId : ConversationId
  userText : Text
  tags : Option (Dict Text Json)
  consumer : Option Consumer
  clock : Nat → Time

def TimedTurn.after (t : TimedTurn) (session : Session) : Session :=
  match t.consumer with
  | none => state ((send t.host t.conversationId t.userText t.tags).run session)
  | some consumer =>
    (state (sendStream t.host consumer t.conversationId t.userText t.tags session)).session

/-- The store, and what the turns have asked of tools and providers. -/
structure Service where
  store : Store
  toolCalls : List ToolCall
  requests : List Request

def Service.session (s : Service) : Session := ⟨s.store.ledger s.toolCalls, s.requests⟩

/-- The turn leaves this store. -/
def TimedTurn.leaves (t : TimedTurn) (s : Service) (store : Store) : Service where
  store := store
  toolCalls := (t.after s.session).ledger.toolCalls
  requests := (t.after s.session).requests

inductive ServiceLabel where
  | create (now : Time) (id : ConversationId) (model : Text) (persona : Option Text)
  | delete (now : Time) (conversationId : ConversationId)
  | turn (t : TimedTurn)

inductive ServiceStep : Service → ServiceLabel → Service → Prop where
  | create {s} (now id model persona) : ServiceStep s (.create now id model persona)
      { s with store := (ChatOp.create id model persona).after now s.store }
  | delete {s} (now c) : ServiceStep s (.delete now c)
      { s with store := (ChatOp.delete c).after now s.store }
  | turn {s store} (t : TimedTurn)
      (extends_ : Extends t.conversationId t.clock s.store (t.after s.session).ledger store) :
      ServiceStep s (.turn t) (t.leaves s store)

/-- Turns, new conversations and deletions, one after the other. -/
def service : Machine Service ServiceLabel where
  start s := s = ⟨.empty, [], []⟩
  step := ServiceStep

/-! ## One turn -/

variable {midnight : Time}

/-- The rows that the report counts. -/
def counted (midnight : Time) (m : MessageRow) : Bool :=
  madeSince midnight .assistant m || madeSince midnight .tool m

theorem usage_counted (store : Store) (completions : List Time) :
    (usageToday midnight store completions).nativeRequestsToday =
      store.messages.rows.countP (counted midnight) := by
  rw [usageToday]
  induction store.messages.rows with
  | nil => rfl
  | cons m rows ih =>
    have apart : ¬ (madeSince midnight .assistant m = true ∧ madeSince midnight .tool m = true) := by
      simp only [madeSince, Bool.and_eq_true, decide_eq_true_eq]
      grind
    rw [List.countP_cons, List.countP_cons, List.countP_cons]
    grind [counted]

/-- The turn asked a provider and stored no answer. -/
def Unanswered (before after : Service) : Prop :=
  after.requests ≠ before.requests ∧
    after.store.messages.rows.countP (fun m => decide (m.message.role = .assistant)) =
      before.store.messages.rows.countP fun m => decide (m.message.role = .assistant)

theorem view_rows {store : Store} {calls : List ToolCall} {ledger : Ledger}
    (view : store.ledger calls = ledger) :
    store.messages.rows.map MessageRow.message = ledger.messages.rows := by
  rw [← view]
  rfl

theorem TimedTurn.accounted (t : TimedTurn) (budget : 0 ≤ t.host.settings.chatMaxToolCalls)
    (session : Session) :
    t.after session = session ∨ ∃ streamed returned shown, ∃ added : Added,
      added.Accounts t.host t.conversationId t.userText streamed session (t.after session) returned
        shown := by
  unfold TimedTurn.after
  cases t.consumer with
  | none =>
    rcases send_accounted t.host t.conversationId t.userText t.tags budget session with
      ⟨-, -, same⟩ | ⟨added, accounts⟩
    · exact .inl same
    · exact .inr ⟨_, _, _, added, accounts⟩
  | some consumer =>
    rcases stream_accounted consumer budget t.userText t.tags session with
      ⟨-, -, same⟩ | ⟨added, accounts⟩
    · exact .inl same
    · exact .inr ⟨_, _, _, added, accounts⟩

/-- The rows that a turn adds, by their roles. -/
structure Roles (added : Added) : Prop where
  user : added.user.role = .user
  tools : ∀ m ∈ added.tools, m.role = .tool
  answer : ∀ m ∈ added.answer, m.role = .assistant
  one : added.answer.length ≤ 1

theorem roles_of_accounts {host : Host} {c : ConversationId} {userText shown : Text}
    {streamed returned : Bool} {before after : Session} {added : Added}
    (accounts : added.Accounts host c userText streamed before after returned shown) :
    Roles added where
  user := accounts.user.1
  tools := by
    intro m mem
    obtain ⟨n, hn, rfl⟩ := List.getElem_of_mem mem
    exact (accounts.tools.get (accounts.tools.length_eq ▸ hn) hn).role
  answer := by
    intro m mem
    rcases accounts.answer with none | ⟨row, one, assistant, -⟩
    · rw [none] at mem
      cases mem
    · rw [one] at mem
      rwa [List.mem_singleton.mp mem]
  one := by
    rcases accounts.answer with none | ⟨row, one, -⟩
    · simp [none]
    · simp [one]

theorem Roles.countP {added : Added} (roles : Roles added) (p : Role → Bool) :
    (added.user :: (added.tools ++ added.answer)).countP (fun m => p m.role) =
      (if p .user then 1 else 0) + (if p .tool then added.tools.length else 0) +
        if p .assistant then added.answer.length else 0 := by
  have tools : added.tools.countP (fun m => p m.role) =
      if p .tool then added.tools.length else 0 := by
    split_ifs with holds
    · exact List.countP_eq_length.mpr fun m mem => by rw [roles.tools m mem, holds]
    · exact List.countP_eq_zero.mpr fun m mem => by rwa [roles.tools m mem]
  have answer : added.answer.countP (fun m => p m.role) =
      if p .assistant then added.answer.length else 0 := by
    split_ifs with holds
    · exact List.countP_eq_length.mpr fun m mem => by rw [roles.answer m mem, holds]
    · exact List.countP_eq_zero.mpr fun m mem => by rwa [roles.answer m mem]
  rw [List.countP_cons, List.countP_append, tools, answer, roles.user]
  omega

open Classical in
/-- A turn after midnight adds as many counted rows as it makes requests, less the answer that it
does not store. -/
theorem turn_charges {s : Service} {store : Store} {t : TimedTurn}
    (extends_ : Extends t.conversationId t.clock s.store (t.after s.session).ledger store)
    (budget : 0 ≤ t.host.settings.chatMaxToolCalls) (late : ∀ n, midnight ≤ t.clock n) :
    (t.after s.session).requests.length + s.store.messages.rows.countP (counted midnight) =
      s.requests.length + store.messages.rows.countP (counted midnight) +
        if Unanswered s (t.leaves s store) then 1 else 0 := by
  obtain ⟨fresh, rows, -, n, times⟩ := extends_.rows
  have before : s.store.messages.rows.map MessageRow.message = s.session.ledger.messages.rows := rfl
  have after := view_rows extends_.view
  rw [rows, List.map_append, before] at after
  have timely : ∀ m ∈ fresh, midnight ≤ m.createdAt := by
    intro m mem
    have drawn : m.createdAt ∈ (List.range n).map t.clock := times ▸ List.mem_map_of_mem mem
    obtain ⟨k, -, is⟩ := List.mem_map.mp drawn
    exact is ▸ late k
  have counts : fresh.countP (counted midnight) = (fresh.map MessageRow.message).countP
      fun m => decide (m.role = .assistant) || decide (m.role = .tool) := by
    rw [List.countP_map]
    exact List.countP_congr fun m mem => by simp [counted, madeSince, timely m mem]
  have answers : fresh.countP (fun m => decide (m.message.role = .assistant)) =
      (fresh.map MessageRow.message).countP fun m => decide (m.role = .assistant) := by
    rw [List.countP_map]
    rfl
  rcases t.accounted budget s.session with same | ⟨_, _, _, added, accounts⟩
  · have none : fresh.map MessageRow.message = [] := by
      rw [same] at after
      exact List.append_right_eq_self.mp after
    have answered : ¬ Unanswered s (t.leaves s store) :=
      fun unanswered => unanswered.1 (congrArg Session.requests same)
    rw [if_neg answered, rows, List.countP_append, counts, none]
    exact congrArg (fun session => session.requests.length + _) same
  · have roles := roles_of_accounts accounts
    have added_rows : fresh.map MessageRow.message =
        added.user :: (added.tools ++ added.answer) :=
      List.append_cancel_left (after.trans accounts.rows)
    obtain ⟨provider, model, asked⟩ := accounts.requests
    have length : (t.after s.session).requests.length =
        s.requests.length + (1 + added.tools.length) := by
      rw [asked, List.length_append, List.length_map, accounts.count]
      rfl
    have more : (t.after s.session).requests ≠ s.requests := by
      intro same
      rw [same] at length
      omega
    have unanswered : Unanswered s (t.leaves s store) ↔ added.answer.length = 0 := by
      rw [Unanswered, TimedTurn.leaves, rows, List.countP_append, answers, added_rows,
        roles.countP fun role => decide (role = .assistant)]
      simp [more]
    rw [rows, List.countP_append, counts, added_rows, roles.countP fun role =>
      decide (role = .assistant) || decide (role = .tool)]
    have one := roles.one
    simp only [unanswered, length, reduceCtorEq, decide_false, decide_true, Bool.or_false,
      Bool.or_true, Bool.false_eq_true, if_false, if_true]
    split_ifs <;> omega

/-! ## A whole day -/

/-- The counted rows that go with a deleted conversation at this step. -/
def lostAt (midnight : Time) (s : Service) : ServiceLabel → Nat
  | .delete _ c => s.store.messages.rows.countP fun m => decide (m.thread = c) && counted midnight m
  | _ => 0

theorem counted_removed (store : Store) (c : ConversationId) :
    (store.removed c).messages.rows.countP (counted midnight) +
        store.messages.rows.countP (fun m => decide (m.thread = c) && counted midnight m) =
      store.messages.rows.countP (counted midnight) := by
  rw [Store.removed, SerialTable.delete, List.countP_filter]
  induction store.messages.rows with
  | nil => rfl
  | cons m rows ih =>
    rw [List.countP_cons, List.countP_cons, List.countP_cons]
    grind

theorem messages_create (store : Store) (now : Time) (id : ConversationId) (model : Text)
    (persona : Option Text) :
    ((ChatOp.create id model persona).after now store).messages = store.messages := by
  rcases Txn.after_cases ((ChatOp.create id model persona).block now) store with same | ⟨_, ran⟩
  · rw [ChatOp.after, same]
  · obtain ⟨row, ran⟩ := Txn.discard_ok.mp ran
    obtain ⟨-, fresh, is⟩ := Store.createConversation_ok ran
    rw [ChatOp.after, is]

open Classical in
/-- One step of the service, charged to what the report counts. -/
theorem service_charges {s s' : Service} {l : ServiceLabel} (step : ServiceStep s l s')
    (timely : ∀ t, l = .turn t →
      0 ≤ t.host.settings.chatMaxToolCalls ∧ ∀ n, midnight ≤ t.clock n) :
    s'.requests.length + s.store.messages.rows.countP (counted midnight) =
      s.requests.length + s'.store.messages.rows.countP (counted midnight) +
        (if (∃ t, l = .turn t) ∧ Unanswered s s' then 1 else 0) + lostAt midnight s l := by
  cases step with
  | create now id model persona => simp [messages_create, lostAt]
  | delete now c =>
    rw [if_neg (by rintro ⟨⟨t, is⟩, -⟩; cases is), ChatOp.after_delete, lostAt]
    have gone : _ = s.store.messages.rows.countP (counted midnight) := counted_removed s.store c
    dsimp only
    omega
  | turn t extends_ =>
    obtain ⟨budget, late⟩ := timely t rfl
    have charges := turn_charges extends_ budget late
    simp only [ServiceLabel.turn.injEq, exists_eq', true_and, lostAt, add_zero]
    exact charges

/-- Since midnight, the requests are what the report counts, and one for each turn that stored no
answer, and those whose rows went with their conversation. -/
theorem usage_accounts (e : service.Execution) {i j : Nat} (hij : i ≤ j) (hj : j ≤ e.length)
    {midnight : Time}
    (timely : ∀ k t, i ≤ k → k < j → e.label k = .turn t →
      0 ≤ t.host.settings.chatMaxToolCalls ∧ ∀ n, midnight ≤ t.clock n)
    (completions : List Time) :
    (e.state j).requests.length +
        (usageToday midnight (e.state i).store completions).nativeRequestsToday =
      (e.state i).requests.length +
        (usageToday midnight (e.state j).store completions).nativeRequestsToday +
        Machine.Execution.steps (fun k => (∃ t, e.label k = .turn t) ∧
          Unanswered (e.state k) (e.state (k + 1))) i j +
        ∑ k ∈ Finset.Ico i j, lostAt midnight (e.state k) (e.label k) := by
  rw [usage_counted, usage_counted]
  induction j, hij using Nat.le_induction with
  | base => simp [Machine.Execution.steps_self]
  | succ j hij ih =>
    have before := ih (by omega) fun k t hik hkj => timely k t hik (by omega)
    have step : ServiceStep (e.state j) (e.label j) (e.state (j + 1)) := e.next j (by omega)
    have charges := service_charges step fun t => timely j t hij (by omega)
    rw [Machine.Execution.steps_succ _ hij, Finset.sum_Ico_succ_top hij]
    split_ifs at charges ⊢ <;> omega

/-! ### A greeting and a deletion -/

section Greeting

def hello : TimedTurn := ⟨greeter, ↑"c", ↑"Hi", none, some fun _ => false, fun n => n + 1⟩

def begun : Service := ⟨(ChatOp.create ↑"c" ↑"default" none).after 0 .empty, [], []⟩

theorem hello_extends : ∃ store, Extends hello.conversationId hello.clock begun.store
    (hello.after begun.session).ledger store :=
  (turn_extends_store greeter ↑"c" ↑"Hi" none begun.store [] [] hello.clock).2 fun _ => false

noncomputable def greetedThenDeleted : service.Execution where
  length := 3
  state
    | 0 => ⟨.empty, [], []⟩
    | 1 => begun
    | 2 => hello.leaves begun hello_extends.choose
    | _ => { hello.leaves begun hello_extends.choose with
        store := (ChatOp.delete ↑"c").after 9 hello_extends.choose }
  label
    | 0 => .create 0 ↑"c" ↑"default" none
    | 1 => .turn hello
    | _ => .delete 9 ↑"c"
  start := rfl
  next i hi := by
    interval_cases i
    · exact .create (s := ⟨.empty, [], []⟩) 0 ↑"c" ↑"default" none
    · exact .turn hello hello_extends.choose_spec
    · exact .delete 9 ↑"c"

theorem greetedThenDeleted_accounts :
    (greetedThenDeleted.state 3).requests.length +
        (usageToday 0 (greetedThenDeleted.state 0).store []).nativeRequestsToday =
      (greetedThenDeleted.state 0).requests.length +
        (usageToday 0 (greetedThenDeleted.state 3).store []).nativeRequestsToday +
        Machine.Execution.steps (fun k => (∃ t, greetedThenDeleted.label k = .turn t) ∧
          Unanswered (greetedThenDeleted.state k) (greetedThenDeleted.state (k + 1))) 0 3 +
        ∑ k ∈ Finset.Ico 0 3, lostAt 0 (greetedThenDeleted.state k) (greetedThenDeleted.label k) := by
  refine usage_accounts greetedThenDeleted (i := 0) (j := 3) (by decide) (by decide) ?_ []
  intro k t _ hk label
  interval_cases k
  · cases label
  · cases label
    exact ⟨by decide, fun n => show (0 : Int) ≤ (n : Int) + 1 by omega⟩
  · cases label

end Greeting

end AgenticOctopus.Chat
