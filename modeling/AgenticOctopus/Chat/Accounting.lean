import AgenticOctopus.Chat.Agreement
import AgenticOctopus.Chat.Record
import AgenticOctopus.Chat.ToolRounds

/-!
# What a chat turn spends

Two loops, `send` and `send_stream`, make the rounds of a turn. Each round makes one request;
it ends the turn, or it is a tool round that leaves one row and two messages for the next
request. So a turn is accounted for by its tool rounds.
-/
namespace AgenticOctopus.Chat
open Foundation Providers Program

/-! ## Tool rounds -/

/-- What the model wrote, the call in it, and the result that it is told. -/
structure ToolRound where
  text : Text
  call : ToolCall
  resultJson : Text

/-- The context of the next request. -/
def ToolRound.extend (context : List ChatMessage) (round : ToolRound) : List ChatMessage :=
  context ++ [⟨↑"assistant", round.text⟩,
    ⟨↑"user", toolResultMessage round.call.tool round.resultJson⟩]

/-- The audit row of a tool round. -/
structure Audits (py : Interpreter) (conversationId : ConversationId) (round : ToolRound)
    (row : Message) : Prop where
  role : row.role = .tool
  conversation : row.conversationId = conversationId
  content : row.content = roundContent round.call.tool round.call.args py

def request (streamed : Bool) (p : Prepared) (context : List ChatMessage) : Request :=
  ⟨p.provider, streamed, payload p.model context⟩

variable (host : Host) (conversationId : ConversationId) (p : Prepared)

def enabled (call : ToolCall) : Bool := call.tool ∈ p.allowedTools

/-- A tool round from one ledger to the next. -/
structure LeavesRound (round : ToolRound) (before after : Ledger) : Prop where
  parses : parseToolCall host.upstream.py round.text = .ok (some (round.call.tool, round.call.args))
  row : ∃ row, after.messages.rows = before.messages.rows ++ [row] ∧
    Audits host.upstream.py conversationId round row
  calls : after.toolCalls = before.toolCalls ++ [round.call].filter (enabled p)

/-- A tool round that raised: its tool may have been called. -/
structure Breaks (before after : Ledger) : Prop where
  rows : after.messages.rows = before.messages.rows
  calls : ∃ call, after.toolCalls = before.toolCalls ++ [call].filter (enabled p)

theorem toolCalls_afterCall (tool : Text) (args : PyDict) (before : Ledger) :
    (afterCall tool args p.allowedTools before).toolCalls =
      before.toolCalls ++ [⟨tool, args⟩].filter (enabled p) := by
  unfold afterCall
  split
  next some_tool => simp [enabled, some_tool]
  next no_tool => simp [enabled, no_tool]

theorem rows_afterCall (tool : Text) (args : PyDict) (before : Ledger) :
    (afterCall tool args p.allowedTools before).messages.rows = before.messages.rows := by
  unfold afterCall
  split <;> rfl

theorem breaks_afterCall (tool : Text) (args : PyDict) (before : Ledger) :
    Breaks p before (afterCall tool args p.allowedTools before) :=
  ⟨rows_afterCall p tool args before, _, toolCalls_afterCall p tool args before⟩

/-- The tool raised. -/
theorem run_executeToolRound_error {tool : Text} {args : PyDict} {before : Ledger}
    (context : List ChatMessage) (text : Text)
    (none_results : ∀ result, ¬ Results host tool args p.allowedTools before result) :
    ∃ e, (executeToolRound host conversationId context text tool args p.allowedTools).run before =
      .error e (afterCall tool args p.allowedTools before) := by
  by_cases some_tool : tool ∈ p.allowedTools
  · cases returns : host.runTool (before.toolCalls ++ [⟨tool, args⟩]) with
    | ok result => exact absurd (by rwa [Results, if_pos some_tool]) (none_results result)
    | error e =>
      refine ⟨e, ?_⟩
      have called : (runTool host ⟨tool, args⟩).run before =
          .error e { before with toolCalls := before.toolCalls ++ [⟨tool, args⟩] } := by
        unfold runTool
        rw [EStateM.run_bind, EStateM.run_modify]
        dsimp only
        rw [EStateM.run_bind, EStateM.run_get]
        dsimp only
        rw [returns, run_raises_error]
      unfold executeToolRound afterCall
      dsimp only
      rw [if_pos some_tool, if_pos some_tool, run_bind_error called]
  · exact absurd (by rw [Results, if_neg some_tool]) (none_results (notEnabled tool))

/-- A tool round that returns leaves its row and its messages, one that raises leaves no row. -/
theorem triple_executeToolRound (context : List ChatMessage) {text tool : Text} {args : PyDict}
    (parses : parseToolCall host.upstream.py text = .ok (some (tool, args))) (before : Ledger) :
    Triple (· = before) (executeToolRound host conversationId context text tool args p.allowedTools)
      (fun next after => ∃ round, next = round.extend context ∧
        LeavesRound host conversationId p round before after)
      (fun _ after => Breaks p before after) := by
  rintro ledger rfl
  let called := afterCall tool args p.allowedTools ledger
  have broken : Breaks p ledger called := breaks_afterCall p tool args ledger
  by_cases results : ∃ result, Results host tool args p.allowedTools ledger result
  · obtain ⟨result, results⟩ := results
    rw [run_executeToolRound host conversationId context text tool args p.allowedTools results]
    have audited : Triple (· = called) (raises (audit host.upstream.py tool args result))
        (fun a after => after = called ∧ audit host.upstream.py tool args result = .ok a)
        (fun _ after => Breaks p ledger after) :=
      triple_raises (fun _ _ written is => ⟨is, written⟩) fun _ _ is => is ▸ broken
    refine triple_bind audited (fun a => ?_) called rfl
    rintro after ⟨is, written⟩
    obtain ⟨recorded, _, -, -, -, -, -, rfl⟩ := (audit_ok tool args).mp written
    rw [is, EStateM.run_bind, run_append]
    split_ifs
    · have rows (content : Text) (fields : Fields) :
          (called.appended conversationId .tool content fields).messages.rows =
            ledger.messages.rows ++
              [newMessage conversationId .tool content fields called.messages.next] := by
        rw [Ledger.rows_appended, rows_afterCall]
      exact ⟨⟨text, ⟨tool, args⟩, (result.dumped host.upstream.py).take toolResultMaxChars⟩, rfl,
        parses, ⟨_, rows _ _, rfl, rfl, rfl⟩, toolCalls_afterCall p tool args ledger⟩
    · exact broken
  · obtain ⟨e, ran⟩ := run_executeToolRound_error host conversationId p context text
      (not_exists.mp results)
    rw [ran]
    exact broken

/-! ## Rounds -/

/-- What rounds that start with a context spend from one session to the next, and the call of a
tool round that broke. -/
structure Spent (streamed : Bool) (context : List ChatMessage) (rounds : List ToolRound)
    (broken : List ToolCall) (before after : Session) : Prop where
  requests : after.requests =
    before.requests ++ (rounds.scanl ToolRound.extend context).map (request streamed p)
  rows : ∃ rows, after.ledger.messages.rows = before.ledger.messages.rows ++ rows ∧
    List.Forall₂ (Audits host.upstream.py conversationId) rounds rows
  parses : ∀ round ∈ rounds,
    parseToolCall host.upstream.py round.text = .ok (some (round.call.tool, round.call.args))
  calls : after.ledger.toolCalls =
    before.ledger.toolCalls ++ (rounds.map ToolRound.call ++ broken).filter (enabled p)

variable {host conversationId p} {streamed : Bool} {context : List ChatMessage}
  {before middle after : Session}

/-- One request and nothing else. -/
theorem Spent.asked (requests : after.requests = before.requests ++ [request streamed p context])
    (ledger : after.ledger = before.ledger) :
    Spent host conversationId p streamed context [] [] before after where
  requests := requests
  rows := ⟨[], by rw [ledger, List.append_nil], .nil⟩
  parses := by simp
  calls := by simp [ledger]

theorem Spent.broke (requests : after.requests = before.requests ++ [request streamed p context])
    (breaks : Breaks p before.ledger after.ledger) :
    ∃ call, Spent host conversationId p streamed context [] [call] before after := by
  obtain ⟨call, calls⟩ := breaks.calls
  exact ⟨call, requests, ⟨[], by rw [breaks.rows, List.append_nil], .nil⟩, by simp, calls⟩

/-- A tool round before others. -/
theorem Spent.cons {round : ToolRound} {rounds : List ToolRound} {broken : List ToolCall}
    (requests : middle.requests = before.requests ++ [request streamed p context])
    (first : LeavesRound host conversationId p round before.ledger middle.ledger)
    (rest : Spent host conversationId p streamed (round.extend context) rounds broken middle
      after) :
    Spent host conversationId p streamed context (round :: rounds) broken before after := by
  obtain ⟨row, added, audits⟩ := first.row
  obtain ⟨rows, others, audit⟩ := rest.rows
  refine ⟨?_, ⟨row :: rows, ?_, .cons audits audit⟩, ?_, ?_⟩
  · rw [rest.requests, requests, List.append_assoc, List.scanl_cons, List.map_cons,
      List.singleton_append]
  · rw [others, added, List.append_assoc]
    rfl
  · exact List.forall_mem_cons.mpr ⟨first.parses, rest.parses⟩
  · rw [rest.calls, first.calls, List.append_assoc, ← List.filter_append]
    rfl

variable (host conversationId p streamed)

/-- The rounds from this one on, when they are over: all of them, or up to an exception. -/
def Finishes (roundNo : Nat) (context : List ChatMessage) (before after : Session) : Prop :=
  ∃ rounds, (roundNo + rounds.length : Int) ≤ host.settings.chatMaxToolCalls ∧
    Spent host conversationId p streamed context rounds [] before after

def Stops (roundNo : Nat) (context : List ChatMessage) (before after : Session) : Prop :=
  ∃ rounds broken,
    (roundNo + rounds.length + broken.length : Int) ≤ host.settings.chatMaxToolCalls ∧
    Spent host conversationId p streamed context rounds broken before after

/-- A round is the last one, or a tool round with the context of the next. -/
def AfterOne (roundNo : Nat) (context : List ChatMessage) (before : Session) :
    Option (List ChatMessage) → Session → Prop
  | none, after => Spent host conversationId p streamed context [] [] before after
  | some next, after => (roundNo : Int) < host.settings.chatMaxToolCalls ∧
      ∃ round, next = round.extend context ∧
        after.requests = before.requests ++ [request streamed p context] ∧
        LeavesRound host conversationId p round before.ledger after.ledger

variable {host conversationId p streamed} {roundNo : Nat}

theorem Spent.stops (spent : Spent host conversationId p streamed context [] [] before after)
    (within : (roundNo : Int) ≤ host.settings.chatMaxToolCalls) :
    Stops host conversationId p streamed roundNo context before after :=
  ⟨[], [], by simpa using within, spent⟩

theorem stops_of_breaks (within : (roundNo : Int) < host.settings.chatMaxToolCalls)
    (requests : after.requests = before.requests ++ [request streamed p context])
    (breaks : Breaks p before.ledger after.ledger) :
    Stops host conversationId p streamed roundNo context before after := by
  obtain ⟨call, spent⟩ : ∃ call, Spent host conversationId p streamed context [] [call]
      before after := Spent.broke requests breaks
  exact ⟨[], [call], by simpa using Int.add_one_le_of_lt within, spent⟩

theorem Spent.finishes (spent : Spent host conversationId p streamed context [] [] before after)
    (within : (roundNo : Int) ≤ host.settings.chatMaxToolCalls) :
    Finishes host conversationId p streamed roundNo context before after :=
  ⟨[], by simpa using within, spent⟩

/-- A tool round and the rounds after it. -/
theorem AfterOne.finishes {next : List ChatMessage}
    (first : AfterOne host conversationId p streamed roundNo context before (some next) middle)
    (rest : Finishes host conversationId p streamed (roundNo + 1) next middle after) :
    Finishes host conversationId p streamed roundNo context before after := by
  obtain ⟨-, round, rfl, requests, leaves⟩ := first
  obtain ⟨rounds, within, spent⟩ := rest
  refine ⟨round :: rounds, ?_, spent.cons requests leaves⟩
  rw [List.length_cons]
  omega

theorem AfterOne.stops {next : List ChatMessage}
    (first : AfterOne host conversationId p streamed roundNo context before (some next) middle)
    (rest : Stops host conversationId p streamed (roundNo + 1) next middle after) :
    Stops host conversationId p streamed roundNo context before after := by
  obtain ⟨-, round, rfl, requests, leaves⟩ := first
  obtain ⟨rounds, broken, within, spent⟩ := rest
  refine ⟨round :: rounds, broken, ?_, spent.cons requests leaves⟩
  rw [List.length_cons]
  omega

/-! ## send -/

theorem requestedCall_eq_some {py : Interpreter} {allowed : List Text} {content : Json}
    {call : Text × PyDict} (asks : requestedCall py allowed content = .ok (some call)) :
    ∃ text, content = .str text ∧ parseToolCall py text = .ok (some call) := by
  unfold requestedCall at asks
  split at asks
  · cases asks
  · cases content with
    | str text => exact ⟨text, rfl, asks⟩
    | _ => cases asks

theorem triple_followUp (within : (roundNo : Int) ≤ host.settings.chatMaxToolCalls)
    (answer : Answer) (requests : middle.requests = before.requests ++ [request false p context])
    (ledger : middle.ledger = before.ledger) :
    Triple (· = middle) (followUp host conversationId p roundNo context answer)
      (AfterOne host conversationId p false roundNo context before)
      (fun _ => Stops host conversationId p false roundNo context before) := by
  have asked : Spent host conversationId p false context [] [] before middle :=
    .asked requests ledger
  have stopped : ∀ after, after = middle →
      Stops host conversationId p false roundNo context before after :=
    fun _ is => is ▸ asked.stops within
  unfold followUp
  refine triple_bind (Q := fun call after => after = middle ∧
    requestedCall host.upstream.py p.allowedTools answer.content = .ok call)
    (triple_raises (fun _ _ is same => ⟨same, is⟩) fun _ _ => stopped _) fun call => ?_
  cases call with
  | none => exact triple_pure fun _ is => is.1 ▸ asked
  | some call =>
    obtain ⟨tool, args⟩ := call
    refine triple_ite (fun _ => triple_pure fun _ is => is.1 ▸ asked) fun fits => ?_
    rintro _ ⟨is, asks⟩
    obtain ⟨text, content, parses⟩ := requestedCall_eq_some asks
    rw [is, content, asText_str, raises_ok_bind]
    have fits := not_le.mp fits
    have round : Triple (· = middle) (zoom onLedger
        (executeToolRound host conversationId context text tool args p.allowedTools))
        (fun next after => AfterOne host conversationId p false roundNo context before (some next)
          after)
        (fun _ => Stops host conversationId p false roundNo context before) := by
      refine (triple_zoom_at (triple_executeToolRound host conversationId p context parses
        middle.ledger)).mono (fun _ is => is) ?_ ?_
      · rintro _ _ ⟨after, rfl, round, next, leaves⟩
        rw [ledger] at leaves
        exact ⟨fits, round, next, requests, leaves⟩
      · rintro _ _ ⟨after, rfl, breaks⟩
        rw [ledger] at breaks
        exact stops_of_breaks fits requests breaks
    exact triple_bind round (fun _ => triple_pure fun _ leaves => leaves) middle rfl

theorem triple_sendRound (within : (roundNo : Int) ≤ host.settings.chatMaxToolCalls)
    (answer : Answer) (before : Session) :
    Triple (· = before) (sendRound host conversationId p roundNo context answer)
      (fun r => AfterOne host conversationId p false roundNo context before r.2)
      (fun _ => Stops host conversationId p false roundNo context before) := by
  let middle : Session :=
    { before with requests := before.requests ++ [request false p context] }
  have asked : Spent host conversationId p false context [] [] before middle := .asked rfl rfl
  have completes : Triple (· = before)
      (zoom onRequests (complete host.upstream (request false p context)))
      (fun _ after => after = middle) (fun _ after => after = middle) := by
    refine triple_of_state fun s same => ?_
    rw [state_zoom, state_complete, same]
    rfl
  have stopped : ∀ after, after = middle →
      Stops host conversationId p false roundNo context before after :=
    fun _ is => is ▸ asked.stops within
  refine triple_bind (completes.mono (fun _ is => is) (fun _ _ is => is) fun _ => stopped)
    fun r => ?_
  refine triple_bind (triple_raises (fun _ _ _ is => is) fun _ => stopped) fun answer => ?_
  refine triple_bind (triple_followUp within answer rfl rfl) fun _ => ?_
  exact triple_pure fun _ ends => ends

variable (host conversationId p) in
theorem triple_sendRounds (left roundNo : Nat) (context : List ChatMessage) (answer : Answer)
    (before : Session) (budget : (roundNo + left : Int) = host.settings.chatMaxToolCalls) :
    Triple (· = before) (sendRounds host conversationId p (left + 1) roundNo context answer)
      (fun _ => Finishes host conversationId p false roundNo context before)
      (fun _ => Stops host conversationId p false roundNo context before) := by
  have within : (roundNo : Int) ≤ host.settings.chatMaxToolCalls := by omega
  induction left generalizing roundNo context answer before with
  | zero =>
    refine triple_bind (triple_sendRound within answer before) fun (answer, next) => ?_
    cases next with
    | none => exact triple_pure fun _ spent => Spent.finishes spent within
    | some next =>
      rintro middle ⟨less, -⟩
      omega
  | succ left ih =>
    refine triple_bind (triple_sendRound within answer before) fun (answer, next) => ?_
    cases next with
    | none => exact triple_pure fun _ spent => Spent.finishes spent within
    | some next =>
      intro middle first
      have rest := ih (roundNo + 1) next answer middle (by omega) (by omega) middle rfl
      exact rest.mono (fun _ _ => first.finishes) fun _ _ => first.stops

/-! ## The account of a turn -/

/-- The tool is one of the persona's agent and of the registry, and tools are on. -/
def Enabled (host : Host) (persona : Option Text) (call : ToolCall) : Prop :=
  host.settings.chatToolsEnabled = true ∧
    ∃ agent, host.registry.get? (orDefault persona defaultPersona) = some agent ∧
      call.tool ∈ agent.manifest.tools ∧ (toolRegistry.get? call.tool).isSome = true

theorem mem_toolsFor {host : Host} {persona : Option Text} {call : ToolCall} :
    call.tool ∈ toolsFor host.settings persona host.registry ↔ Enabled host persona call := by
  unfold toolsFor Enabled
  cases host.settings.chatToolsEnabled with
  | false => simp
  | true => cases host.registry.get? (orDefault persona defaultPersona) <;> simp

/-- The next context is this one and two more messages. -/
def TwoMore (context next : List ChatMessage) : Prop :=
  ∃ written told, next = context ++ [written, told]

theorem isChain_scanl (context : List ChatMessage) (rounds : List ToolRound) :
    (rounds.scanl ToolRound.extend context).IsChain TwoMore := by
  induction rounds generalizing context with
  | nil =>
    rw [List.scanl_nil]
    exact .singleton context
  | cons round rounds ih =>
    have rest := ih (round.extend context)
    have step : TwoMore context (round.extend context) := ⟨_, _, rfl⟩
    rw [List.scanl_cons]
    cases rounds with
    | nil =>
      rw [List.scanl_nil] at rest ⊢
      exact .cons_cons step rest
    | cons round' rounds =>
      rw [List.scanl_cons] at rest ⊢
      exact .cons_cons step rest

/-- What a turn adds once it is prepared. -/
structure Added where
  convo : Conversation
  user : Message
  rounds : List ToolRound
  /-- The call of a tool round that raised. -/
  broken : List ToolCall
  tools : List Message
  answer : List Message
  contexts : List (List ChatMessage)
  calls : List ToolCall

/-- The rows, requests and calls of a turn that returned or raised, and the text that it showed
before its end. -/
structure Added.Accounts (added : Added) (host : Host) (conversationId : ConversationId)
    (userText : Text) (streamed : Bool) (before after : Session) (returned : Bool) (shown : Text) :
    Prop where
  found : getConversation before.ledger conversationId = some added.convo
  rows : after.ledger.messages.rows =
    before.ledger.messages.rows ++ added.user :: (added.tools ++ added.answer)
  user : added.user.role = .user ∧ added.user.conversationId = conversationId ∧
    added.user.content = userText
  tools : List.Forall₂ (Audits host.upstream.py conversationId) added.rounds added.tools
  answer : added.answer = [] ∨
    ∃ row, added.answer = [row] ∧ row.role = .assistant ∧ row.conversationId = conversationId
  budget : (added.rounds.length + added.broken.length : Int) ≤ host.settings.chatMaxToolCalls
  requests : ∃ provider model, after.requests =
    before.requests ++ added.contexts.map fun context => ⟨provider, streamed, payload model context⟩
  count : added.contexts.length = 1 + added.tools.length
  contexts : ∃ first, added.contexts = added.rounds.scanl ToolRound.extend first
  grows : added.contexts.IsChain TwoMore
  calls : after.ledger.toolCalls = before.ledger.toolCalls ++ added.calls
  enabled : ∀ call ∈ added.calls, Enabled host added.convo.persona call
  inOrder : added.calls = (added.rounds.map ToolRound.call ++ added.broken).filter fun call =>
    decide (call.tool ∈ toolsFor host.settings added.convo.persona host.registry)
  whole : returned = true → added.broken = []
  unanswered : returned = false → shown = [] → added.answer = []

/-- A turn is accounted for, or its preparation raised and left nothing. -/
def Accounted (host : Host) (conversationId : ConversationId) (userText : Text) (streamed : Bool)
    (before after : Session) (returned : Bool) (shown : Text) : Prop :=
  ((∃ e, outcome ((prepare host conversationId userText).run before.ledger) = .error e) ∧
      returned = false ∧ after = before) ∨
    ∃ added : Added,
      added.Accounts host conversationId userText streamed before after returned shown

/-- The ledger once the turn is prepared. -/
structure Readied (host : Host) (conversationId : ConversationId) (userText : Text) (p : Prepared)
    (convo : Conversation) (user : Message) (before after : Ledger) : Prop where
  found : getConversation before conversationId = some convo
  tools : p.allowedTools = toolsFor host.settings convo.persona host.registry
  rows : after.messages.rows = before.messages.rows ++ [user]
  calls : after.toolCalls = before.toolCalls
  user : user.role = .user ∧ user.conversationId = conversationId ∧ user.content = userText

theorem triple_prepare (host : Host) (conversationId : ConversationId) (userText : Text)
    (before : Ledger) :
    Triple (· = before) (prepare host conversationId userText)
      (fun p after => ∃ convo user, Readied host conversationId userText p convo user before after)
      (fun _ after => after = before) := by
  unfold prepare
  refine triple_get_bind fun ledger same => ?_
  rw [same]
  cases found : getConversation before conversationId with
  | none => exact rfl
  | some convo =>
    dsimp only
    refine triple_bind (triple_raises (fun _ _ _ is => is) fun _ _ is => is) (fun route => ?_)
      before rfl
    have appends : Triple (· = before) (append conversationId .user userText {})
        (fun _ after => after = before.appended conversationId .user userText {})
        (fun _ after => after = before) := by
      intro ledger same
      rw [same, run_append]
      split_ifs
      · exact rfl
      · exact rfl
    refine triple_bind appends fun _ => triple_get_bind fun after is => ?_
    exact ⟨convo, _, found, rfl, by rw [is, Ledger.rows_appended], by rw [is]; rfl, rfl, rfl, rfl⟩

/-- The end of a turn adds the assistant's row, if any. -/
structure Answers (conversationId : ConversationId) (answer : List Message)
    (before after : Session) : Prop where
  requests : after.requests = before.requests
  calls : after.ledger.toolCalls = before.ledger.toolCalls
  rows : after.ledger.messages.rows = before.ledger.messages.rows ++ answer
  one : answer = [] ∨
    ∃ row, answer = [row] ∧ row.role = .assistant ∧ row.conversationId = conversationId

theorem Answers.none (conversationId : ConversationId) (session : Session) :
    Answers conversationId [] session session :=
  ⟨rfl, rfl, (List.append_nil _).symm, .inl rfl⟩

/-- The account from the three parts of a turn. -/
theorem accounted_of_parts {userText : Text} {convo : Conversation} {user : Message}
    {rounds : List ToolRound} {broken : List ToolCall} {answer : List Message}
    {ready done : Session} {returned : Bool} {shown : Text}
    (readied : Readied host conversationId userText p convo user before.ledger ready.ledger)
    (quiet : ready.requests = before.requests)
    (within : (rounds.length + broken.length : Int) ≤ host.settings.chatMaxToolCalls)
    (spent : Spent host conversationId p streamed context rounds broken ready done)
    (answers : Answers conversationId answer done after) (whole : returned = true → broken = [])
    (unanswered : returned = false → shown = [] → answer = []) :
    Accounted host conversationId userText streamed before after returned shown := by
  obtain ⟨tools, rows, audits⟩ := spent.rows
  have allowed : (fun call : ToolCall => decide
      (call.tool ∈ toolsFor host.settings convo.persona host.registry)) = enabled p := by
    rw [← readied.tools]
    rfl
  refine .inr ⟨⟨convo, user, rounds, broken, tools, answer,
    rounds.scanl ToolRound.extend context,
    (rounds.map ToolRound.call ++ broken).filter (enabled p)⟩, ?_⟩
  exact {
    found := readied.found
    rows := by
      rw [answers.rows, rows, readied.rows]
      simp
    user := readied.user
    tools := audits
    answer := answers.one
    budget := within
    requests := ⟨p.provider, p.model, by rw [answers.requests, spent.requests, quiet]; rfl⟩
    count := by rw [List.length_scanl, audits.length_eq, Nat.add_comm]
    contexts := ⟨context, rfl⟩
    grows := isChain_scanl context rounds
    calls := by rw [answers.calls, spent.calls, readied.calls]
    enabled := by
      intro call mem
      rw [← mem_toolsFor, ← readied.tools]
      exact of_decide_eq_true (List.mem_filter.mp mem).2
    inOrder := by rw [allowed]
    whole := whole
    unanswered := unanswered }

variable (host conversationId) (userText : Text) (tags : Option (Dict Text Json))

/-- A row is appended, or nothing is changed. -/
theorem triple_answer (content : Text) (fields : Fields) (done : Session) :
    Triple (· = done) (zoom onLedger (append conversationId .assistant content fields))
      (fun _ after => ∃ row, Answers conversationId [row] done after)
      (fun _ after => after = done) := by
  intro session same
  rw [same, run_zoom, run_append]
  split_ifs
  · exact ⟨_, rfl, rfl, Ledger.rows_appended .., .inr ⟨_, rfl, rfl, rfl⟩⟩
  · exact rfl

theorem triple_reply (answer : Answer) (done : Session) :
    Triple (· = done) (reply host conversationId p tags answer)
      (fun _ after => ∃ row, Answers conversationId [row] done after)
      (fun _ after => after = done) := by
  unfold reply
  refine triple_bind (triple_raises (fun _ _ _ is => is) fun _ _ is => is) fun figures => ?_
  refine triple_bind (triple_raises (fun _ _ _ is => is) fun _ _ is => is) fun content => ?_
  refine triple_bind (triple_raises (fun _ _ _ is => is) fun _ _ is => is) fun fields => ?_
  exact triple_answer conversationId _ _ done

theorem maxRounds_eq (budget : 0 ≤ host.settings.chatMaxToolCalls) :
    maxRounds host = host.settings.chatMaxToolCalls.toNat + 1 := by
  unfold maxRounds
  omega

/-- The preparation raises and leaves the session as it is, or the turn goes on. -/
theorem prepare_or (session : Session) :
    (∃ e, (zoom onLedger (prepare host conversationId userText)).run session = .error e session ∧
        outcome ((prepare host conversationId userText).run session.ledger) = .error e) ∨
      ∃ p ready convo user,
        (zoom onLedger (prepare host conversationId userText)).run session = .ok p ready ∧
        ready.requests = session.requests ∧
        Readied host conversationId userText p convo user session.ledger ready.ledger := by
  have prepares := triple_prepare host conversationId userText session.ledger session.ledger rfl
  cases run : (prepare host conversationId userText).run session.ledger with
  | error e after =>
    rw [run] at prepares
    obtain rfl : after = session.ledger := prepares
    exact .inl ⟨e, run_zoom_error run, rfl⟩
  | ok p after =>
    rw [run] at prepares
    obtain ⟨convo, user, readied⟩ := prepares
    exact .inr ⟨p, _, convo, user, run_zoom_ok run, rfl, readied⟩

theorem send_accounted (budget : 0 ≤ host.settings.chatMaxToolCalls) (session : Session) :
    let turn := (send host conversationId userText tags).run session
    Accounted host conversationId userText false session (state turn) (outcome turn).isOk [] := by
  intro turn
  rcases prepare_or host conversationId userText session with
    ⟨e, failed, why⟩ | ⟨p, ready, convo, user, prepared, quiet, readied⟩
  · have raised : turn = .error e session := run_bind_error failed
    rw [raised]
    exact .inl ⟨⟨e, why⟩, rfl, rfl⟩
  · have goes_on : turn = (sendRounds host conversationId p (maxRounds host) 0 p.context
        ⟨.str [], .obj [], .str p.model⟩ >>= reply host conversationId p tags).run ready :=
      run_bind_ok prepared
    have rounds := triple_sendRounds host conversationId p
      host.settings.chatMaxToolCalls.toNat 0 p.context ⟨.str [], .obj [], .str p.model⟩ ready
      (by omega)
    have whole : Triple (· = ready) (sendRounds host conversationId p (maxRounds host) 0 p.context
        ⟨.str [], .obj [], .str p.model⟩ >>= reply host conversationId p tags)
        (fun _ after => Accounted host conversationId userText false session after true [])
        (fun _ after => Accounted host conversationId userText false session after false []) := by
      rw [maxRounds_eq host budget]
      refine triple_bind (rounds.mono (fun _ is => is) (fun _ _ finishes => finishes) ?_)
        fun answer done finishes => ?_
      · rintro e after ⟨rounds, broken, within, spent⟩
        exact accounted_of_parts readied quiet (by simpa using within) spent
          (.none conversationId after)
          (fun is => by cases is) fun _ _ => rfl
      · obtain ⟨rounds, within, spent⟩ := finishes
        refine (triple_reply host conversationId tags answer done done rfl).mono ?_ ?_
        · rintro _ after ⟨row, answers⟩
          exact accounted_of_parts readied quiet (by simpa using within) spent answers
            (fun _ => rfl)
            fun is => by cases is
        · rintro _ after rfl
          exact accounted_of_parts readied quiet (by simpa using within) spent
            (.none conversationId after)
            (fun _ => rfl) fun _ _ => rfl
    have ends := whole ready rfl
    rw [← goes_on] at ends
    cases run : turn <;> rwa [run] at ends

/-! ## send_stream -/

section Stream

variable (consumer : Consumer) {host conversationId} {roundNo : Nat}

/-- Between the request and the end of its round nothing is spent. -/
theorem triple_of_keeps {α : Type} {q : Program Raised Streaming α}
    (kept : Keeps (fun s => s.session = middle) q)
    (asked : Spent host conversationId p streamed context [] [] before middle)
    (within : (roundNo : Int) ≤ host.settings.chatMaxToolCalls) :
    Triple (fun s => s.session = middle) q (fun _ s => s.session = middle)
      (fun _ s => Stops host conversationId p streamed roundNo context before s.session) :=
  kept.triple.mono (fun _ is => is) (fun _ _ is => is) fun _ _ is => is ▸ asked.stops within

/-- A tool round of a stream, in terms of the session. -/
theorem triple_answerToolRound_session (within : (roundNo : Int) ≤ host.settings.chatMaxToolCalls)
    (fullRound : Text) (requests : middle.requests = before.requests ++ [request true p context])
    (ledger : middle.ledger = before.ledger) :
    Triple (fun s => s.session = middle)
      (answerToolRound host consumer conversationId p roundNo context fullRound)
      (fun next s => AfterOne host conversationId p true roundNo context before next s.session)
      (fun _ s => Stops host conversationId p true roundNo context before s.session) := by
  have carries := carries_session (· = middle)
  have asked : Spent host conversationId p true context [] [] before middle :=
    .asked requests ledger
  have as_it_is : Triple (fun s => s.session = middle)
      (do flush host consumer p fullRound; markCompleted; return none)
      (fun next s => AfterOne host conversationId p true roundNo context before next s.session)
      (fun _ s => Stops host conversationId p true roundNo context before s.session) := by
    refine triple_bind (triple_of_keeps (carries.keeps_flush _) asked within) fun _ => ?_
    refine triple_bind (triple_of_keeps carries.keeps_markCompleted asked within) fun _ => ?_
    exact triple_pure fun _ is => is ▸ asked
  unfold answerToolRound
  refine triple_bind (Q := fun call s => s.session = middle ∧
    parseToolCall host.upstream.py fullRound = .ok call)
    (triple_raises (fun _ _ parses is => ⟨is, parses⟩) fun _ _ is => is ▸ asked.stops within)
    fun call => ?_
  cases call with
  | none => exact as_it_is.pre fun _ is => is.1
  | some call =>
    obtain ⟨tool, args⟩ := call
    refine triple_ite (fun _ => as_it_is.pre fun _ is => is.1) fun fits => ?_
    have fits := not_le.mp fits
    rintro s ⟨is, parses⟩
    have tells : Keeps (fun s => s.session = middle)
        (emit consumer (.toolStatus tool args (roundNo + 1))) := carries.keeps_emit _
    refine triple_bind (triple_of_keeps tells asked within) (fun _ => ?_) s is
    have round : Triple (fun s => s.session = middle) (zoom onSession (zoom onLedger
        (executeToolRound host conversationId context fullRound tool args p.allowedTools)))
        (fun next s => AfterOne host conversationId p true roundNo context before (some next)
          s.session)
        (fun _ s => Stops host conversationId p true roundNo context before s.session) := by
      rintro t rfl
      refine (triple_zoom_at (l := onSession) (triple_zoom_at (l := onLedger)
        (triple_executeToolRound host conversationId p context parses t.session.ledger)) t rfl).mono
        ?_ ?_
      · rintro _ _ ⟨_, rfl, after, rfl, round, next, leaves⟩
        rw [ledger] at leaves
        exact ⟨fits, round, next, requests, leaves⟩
      · rintro _ _ ⟨_, rfl, after, rfl, breaks⟩
        rw [ledger] at breaks
        exact stops_of_breaks fits requests breaks
    exact triple_bind round fun _ => triple_pure fun _ leaves => leaves

theorem triple_streamRound_session (within : (roundNo : Int) ≤ host.settings.chatMaxToolCalls)
    (before : Session) :
    Triple (fun s => s.session = before)
      (streamRound host consumer conversationId p roundNo context)
      (fun next s => AfterOne host conversationId p true roundNo context before next s.session)
      (fun _ s => Stops host conversationId p true roundNo context before s.session) := by
  let middle : Session :=
    { before with requests := before.requests ++ [request true p context] }
  have carries := carries_session (· = middle)
  have asked : Spent host conversationId p true context [] [] before middle := .asked rfl rfl
  have opens : Triple (fun s => s.session = before)
      (zoom onSession (zoom onRequests (openStream host.upstream (request true p context))))
      (fun _ s => s.session = middle) (fun _ s => s.session = middle) := by
    refine triple_of_state fun s same => ?_
    rw [state_zoom, state_zoom, state_openStream]
    change Session.mk s.session.ledger (s.session.requests ++ _) = middle
    rw [same]
  refine triple_bind (opens.mono (fun _ is => is) (fun _ _ is => is)
    fun _ _ is => is ▸ asked.stops within) fun r => ?_
  refine triple_bind (triple_of_keeps (carries.keeps_consume {} fun _ _ => trivial) asked within)
    fun round => ?_
  cases r.failure with
  | some e => exact triple_throw fun _ is => is ▸ asked.stops within
  | none =>
    refine triple_bind (triple_of_keeps (keeps_raises _) asked within) fun fullRound => ?_
    refine triple_bind (triple_of_keeps (carries.keeps_decideLate round fullRound) asked within)
      fun toolRound => ?_
    cases toolRound with
    | true => exact triple_answerToolRound_session consumer within _ rfl rfl
    | false =>
      refine triple_bind (triple_of_keeps carries.keeps_markCompleted asked within) fun _ => ?_
      exact triple_pure fun _ is => is ▸ asked

variable (host conversationId p) in
theorem triple_streamRounds_session (left roundNo : Nat) (context : List ChatMessage)
    (before : Session) (budget : (roundNo + left : Int) = host.settings.chatMaxToolCalls) :
    Triple (fun s => s.session = before)
      (streamRounds host consumer conversationId p (left + 1) roundNo context)
      (fun _ s => Finishes host conversationId p true roundNo context before s.session)
      (fun _ s => Stops host conversationId p true roundNo context before s.session) := by
  have within : (roundNo : Int) ≤ host.settings.chatMaxToolCalls := by omega
  induction left generalizing roundNo context before with
  | zero =>
    refine triple_bind (triple_streamRound_session consumer within before) fun next => ?_
    cases next with
    | none => exact triple_pure fun _ spent => Spent.finishes spent within
    | some next =>
      rintro s ⟨less, -⟩
      omega
  | succ left ih =>
    refine triple_bind (triple_streamRound_session consumer within before) fun next => ?_
    cases next with
    | none => exact triple_pure fun _ spent => Spent.finishes spent within
    | some next =>
      intro s first
      have rest := ih (roundNo + 1) next s.session (by omega) (by omega) s rfl
      exact rest.mono (fun _ _ => first.finishes) fun _ _ => first.stops

/-- The `finally` block adds a row only if a text was passed on, and shows no text. -/
structure Persists (conversationId : ConversationId) (before after : Streaming) : Prop where
  answers : ∃ answer, Answers conversationId answer before.session after.session ∧
    (textsOf before.parts = [] → answer = [])
  shown : shownText after.yielded = shownText before.yielded

theorem Persists.refl (s : Streaming) : Persists conversationId s s :=
  ⟨⟨[], .none conversationId s.session, fun _ => rfl⟩, rfl⟩

theorem triple_emit_done {messageId : Nat} {usage : Json} (before : Streaming) :
    Triple (Persists conversationId before) (emit consumer (.done messageId usage))
      (fun _ => Persists conversationId before) (fun _ => Persists conversationId before) := by
  refine (triple_emit consumer _).pre fun s persists => ⟨persists.answers, ?_⟩
  rw [← persists.shown, shownText, shownText, List.filterMap_append]
  simp

variable (host conversationId p) in
theorem triple_persist (tags : Option (Dict Text Json)) (done : Streaming) :
    Triple (· = done) (persist host consumer conversationId p tags)
      (fun _ => Persists conversationId done) (fun _ => Persists conversationId done) := by
  have same : ∀ s, s = done → Persists conversationId done s := by
    rintro _ rfl
    exact .refl _
  unfold persist
  refine triple_get_bind fun s is => ?_
  rw [is]
  cases whole : joined done.parts with
  | error e => exact .refl done
  | ok content =>
    rw [raises_ok_bind]
    split
    next ink =>
      unfold persistShown appendShown
      refine triple_bind (triple_raises (fun _ _ _ is => is) fun _ => same) (fun figures => ?_) done
        rfl
      have appends (fields : Fields) : Triple (· = done) (zoom onSession (zoom onLedger
          (append conversationId .assistant content fields)))
          (fun _ => Persists conversationId done) (fun _ => Persists conversationId done) := by
        refine (triple_zoom_at (l := onSession) (triple_answer conversationId _ _ done.session)).mono
          (fun _ is => is) ?_ ?_
        · rintro _ _ ⟨after, rfl, row, answers⟩
          have blank_content (blank : textsOf done.parts = []) : content = [] :=
            (joined_iff.mp whole).1.trans blank
          exact ⟨⟨[row], answers, fun blank => absurd (blank_content blank) ink⟩, rfl⟩
        · rintro _ _ ⟨after, rfl, rfl⟩
          exact .refl done
      refine triple_bind (triple_bind (triple_raises (fun _ _ _ is => is) fun _ => same) fun fields =>
        appends _) fun msg => ?_
      split
      · exact triple_emit_done consumer done
      · exact triple_pure fun _ persists => persists
    next => exact .refl done

/-- After the rounds the parts hold what was shown. -/
theorem shownText_streamRounds {base : List Message} {s : Streaming} (quiet : Quiet base s)
    (left roundNo : Nat) (context : List ChatMessage) :
    let done := state ((streamRounds host consumer conversationId p left roundNo context).run s)
    shownText done.yielded = textsOf done.parts := by
  have ends := triple_streamRounds host consumer conversationId p left roundNo context s quiet
  cases run : (streamRounds host consumer conversationId p left roundNo context).run s with
  | ok a t =>
    rw [run] at ends
    rcases ends with quiet | shows
    · exact quiet.shows.shown
    · exact shows.shown
  | error e t =>
    rw [run] at ends
    exact Shows.shown ends

theorem stream_accounted (consumer : Consumer) (budget : 0 ≤ host.settings.chatMaxToolCalls)
    (userText : Text) (tags : Option (Dict Text Json)) (session : Session) :
    let turn := sendStream host consumer conversationId userText tags session
    Accounted host conversationId userText true session (state turn).session (outcome turn).isOk
      (shownText (state turn).yielded) := by
  intro turn
  rcases prepare_or host conversationId userText session with
    ⟨e, failed, why⟩ | ⟨p, ready, convo, user, prepared, quiet, readied⟩
  · have raised : turn = .error e { session, actualModel := .null } := by
      change sendStream host consumer conversationId userText tags session = _
      rw [sendStream, failed]
    rw [raised]
    exact .inl ⟨⟨e, why⟩, rfl, rfl⟩
  · let start : Streaming := { session := ready, actualModel := .str p.model }
    let rounds := streamRounds host consumer conversationId p
      (host.settings.chatMaxToolCalls.toNat + 1) 0 p.context
    have goes_on : turn = (tryFinally rounds
        (persist host consumer conversationId p tags)).run start := by
      change sendStream host consumer conversationId userText tags session = _
      rw [sendStream, prepared]
      dsimp only
      rw [stream, maxRounds_eq host budget]
    have no_text : Quiet (assistantRows ready.ledger) start :=
      ⟨fun _ mem => absurd mem List.not_mem_nil, rfl, rfl, rfl, rfl⟩
    have shown : shownText (state (rounds.run start)).yielded =
        textsOf (state (rounds.run start)).parts :=
      shownText_streamRounds consumer no_text _ 0 p.context
    have spends := triple_streamRounds_session host conversationId p consumer
      host.settings.chatMaxToolCalls.toNat 0 p.context
      ready (by omega) start rfl
    change Ends _ _ (rounds.run start) at spends
    have persists := (triple_persist host conversationId p consumer tags
      (state (rounds.run start)) _ rfl).holds
    obtain ⟨answer, answers, silent⟩ := persists.answers
    have unanswered (blank : shownText (state ((persist host consumer conversationId p tags).run
        (state (rounds.run start)))).yielded = []) : answer = [] := by
      rw [persists.shown, shown] at blank
      exact silent blank
    rw [goes_on, state_tryFinally, isOk_tryFinally]
    cases run : rounds.run start with
    | ok a done =>
      rw [run] at spends answers unanswered
      obtain ⟨made, within, spent⟩ := spends
      exact accounted_of_parts readied quiet (by simpa using within) spent answers (fun _ => rfl)
        fun _ => unanswered
    | error e done =>
      rw [run] at spends answers unanswered
      obtain ⟨made, broken, within, spent⟩ := spends
      exact accounted_of_parts readied quiet (by simpa using within) spent answers
          (fun is => by cases is)
        fun _ => unanswered

end Stream

/-- Both loops end within the budget, and what they spend is accounted for. -/
theorem turn_accounted (host : Host) (budget : 0 ≤ host.settings.chatMaxToolCalls)
    (conversationId : ConversationId) (userText : Text) (tags : Option (Dict Text Json))
    (session : Session) :
    let sent := (send host conversationId userText tags).run session
    Accounted host conversationId userText false session (state sent) (outcome sent).isOk [] ∧
      ∀ consumer : Consumer,
        let streamed := sendStream host consumer conversationId userText tags session
        Accounted host conversationId userText true session (state streamed).session
          (outcome streamed).isOk (shownText (state streamed).yielded) :=
  ⟨send_accounted host conversationId userText tags budget session,
    fun consumer => stream_accounted consumer budget userText tags session⟩

/-- A model that asks for one more search each time. -/
def insatiable : Host := searchHost (List.replicate 5 searchRound)

theorem insatiable_accounted :
    let start : Session := ⟨oneConversation, []⟩
    let sent := (send insatiable ↑"c" ↑"hi" none).run start
    let streamed := sendStream insatiable toTheEnd ↑"c" ↑"hi" none start
    (Accounted insatiable ↑"c" ↑"hi" false start (state sent) (outcome sent).isOk [] ∧
      Accounted insatiable ↑"c" ↑"hi" true start (state streamed).session (outcome streamed).isOk
        (shownText (state streamed).yielded)) ∧
    (state sent).requests.length = 3 ∧ (state streamed).session.requests.length = 3 := by
  have accounted := turn_accounted insatiable (by decide) ↑"c" ↑"hi" none ⟨oneConversation, []⟩
  exact ⟨⟨accounted.1, accounted.2 toTheEnd⟩, by decide +kernel, by decide +kernel⟩

end AgenticOctopus.Chat
