import AgenticOctopus.Foundation.Triple
import AgenticOctopus.Chat.Service

/-!
# A streamed chat turn

`send_stream` is a generator: a yield hands an event to the consumer, who may close the
generator there. It holds back the first characters of each round until they tell whether
the round starts with the tool marker; such a round is not shown, any other is passed on as
it comes. What was passed on is persisted at the end, however the end comes.
-/
namespace AgenticOctopus.Chat
open Foundation Providers
open Spine (LoadedAgent Registry)

/-- What the generator yields. -/
inductive StreamEvent where
  /-- What the provider sends as content is not always a text. -/
  | chunk (content : Json)
  | toolStatus (tool : Text) (args : PyDict) (round : Nat)
  | done (messageId : Nat) (usage : Json)

/-- A consumer closes the generator at a yield or not, knowing all it was handed. -/
abbrev Consumer := List StreamEvent → Bool

/-- The state of the generator: the turn, what it yielded, and its local variables. -/
structure Streaming where
  session : Session
  yielded : List StreamEvent := []
  usage : Json := .obj []
  actualModel : Json
  parts : List Json := []
  completed : Bool := false
  prefixDone : Bool := false

def onSession : Program.Lens Streaming Session where
  get s := s.session
  set s session := { s with session }

variable (host : Host) (consumer : Consumer)

def emit (event : StreamEvent) : Program Raised Streaming Unit := do
  modify fun s => { s with yielded := s.yielded ++ [event] }
  if consumer (← get).yielded then throw .generatorExit

/-- The lead-in, the first time it is asked for. -/
def prefixChunk (p : Prepared) : Program Raised Streaming Text := do
  let s ← get
  if s.prefixDone then return []
  else
    let lead := routedModelPrefix host.settings host.upstream.py p.model s.actualModel
    set { s with
      prefixDone := true
      parts := if lead = [] then s.parts else s.parts ++ [Json.str lead] }
    return lead

def passOn (content : Json) : Program Raised Streaming Unit := do
  modify fun s => { s with parts := s.parts ++ [content] }
  emit consumer (.chunk content)

/-- Pass on what was held back, behind the lead-in. -/
def flush (p : Prepared) (text : Text) : Program Raised Streaming Unit := do
  let lead ← prefixChunk host p
  if lead ≠ [] then emit consumer (.chunk (.str lead))
  passOn consumer (.str text)

/-! ## One round -/

structure RoundState where
  held : Text := []
  decided : Bool := false
  toolRound : Bool := false
  roundText : List Json := []

/-- `bool(allowed_tools) and text.startswith(TOOL_MARKER)` -/
def startsToolRound (p : Prepared) (stripped : Text) : Bool :=
  !p.allowedTools.isEmpty && stripped.startswith toolMarker

/-- `"".join(contents)` -/
def joined : List Json → Except Raised Text
  | [] => return []
  | content :: contents => do return (← asText content .typeError) ++ (← joined contents)

/-- Once a round is decided, its contents are not looked at before they are passed on. -/
def onDelta (p : Prepared) (r : RoundState) (content : Json) :
    Program Raised Streaming RoundState := do
  let r := { r with roundText := r.roundText ++ [content] }
  if r.decided then
    if !r.toolRound then passOn consumer content
    return r
  else
    let held := r.held ++ (← Program.raises (asText content .typeError))
    let stripped := held.lstrip
    if stripped.length ≥ toolMarker.length ∨ 10 ∈ held then
      let toolRound := startsToolRound p stripped
      if !toolRound && held ≠ [] then flush host consumer p held
      return { r with held, decided := true, toolRound }
    else return { r with held }

def consume (p : Prepared) (r : RoundState) : List SseEvent → Program Raised Streaming RoundState
  | [] => return r
  | .usage usage :: events => do
    modify fun s => { s with usage }
    consume p r events
  | .model actualModel :: events => do
    modify fun s => { s with actualModel }
    consume p r events
  | .delta content :: events => do
    let r ← onDelta host consumer p r content
    consume p r events

/-- The decision on a response that ended before it was decided. -/
def decideLate (p : Prepared) (r : RoundState) (fullRound : Text) :
    Program Raised Streaming Bool := do
  if r.decided then return r.toolRound
  else
    let toolRound := startsToolRound p fullRound.lstrip
    if !toolRound && fullRound ≠ [] then flush host consumer p fullRound
    return toolRound

def markCompleted : Program Raised Streaming Unit := modify fun s => { s with completed := true }

/-- The rest of a tool round: the call, or the text as it is if it holds no call or the budget
is used up. -/
def answerToolRound (conversationId : ConversationId) (p : Prepared) (roundNo : Nat)
    (context : List ChatMessage) (fullRound : Text) :
    Program Raised Streaming (Option (List ChatMessage)) := do
  let call ← Program.raises (parseToolCall host.upstream.py fullRound)
  match call with
  | some (tool, args) =>
    if (roundNo : Int) ≥ host.settings.chatMaxToolCalls then
      flush host consumer p fullRound
      markCompleted
      return none
    else
      emit consumer (.toolStatus tool args (roundNo + 1))
      let context ← Program.zoom onSession (Program.zoom onLedger
        (executeToolRound host conversationId context fullRound tool args p.allowedTools))
      return some context
  | none =>
    flush host consumer p fullRound
    markCompleted
    return none

/-- One round; the context of the next, or `none` after the last. -/
def streamRound (conversationId : ConversationId) (p : Prepared) (roundNo : Nat)
    (context : List ChatMessage) : Program Raised Streaming (Option (List ChatMessage)) := do
  let r ← Program.zoom onSession (Program.zoom onRequests
    (openStream host.upstream ⟨p.provider, true, payload p.model context⟩))
  let round ← consume host consumer p {} r.events
  match r.failure with
  | some e => throw e
  | none =>
    let fullRound ← Program.raises (joined round.roundText)
    let toolRound ← decideLate host consumer p round fullRound
    if toolRound then
      answerToolRound host consumer conversationId p roundNo context fullRound
    else
      markCompleted
      return none

def streamRounds (conversationId : ConversationId) (p : Prepared) :
    (left roundNo : Nat) → List ChatMessage → Program Raised Streaming Unit
  | 0, _, _ => return
  | left + 1, roundNo, context => do
    match ← streamRound host consumer conversationId p roundNo context with
    | none => return
    | some context => streamRounds conversationId p left (roundNo + 1) context

/-! ## send_stream -/

/-- `{"truncated": True}` unless the stream ran to its end. -/
def truncation (completed : Bool) : Json :=
  if completed then .obj [] else .obj [(↑"truncated", .bool true)]

/-- The assistant's row. -/
def appendShown (conversationId : ConversationId) (p : Prepared)
    (tags : Option (Dict Text Json)) (content : Text) (figures : Json × Json) (s : Streaming) :
    Program Raised Streaming Message := do
  let fields ← Program.raises (answerFields host figures s.actualModel)
  Program.zoom onSession (Program.zoom onLedger
    (append conversationId .assistant content
      { fields with
        metadata := truncation s.completed
        tags := mergeTags host.upstream.py
          ((autoTags conversationId p).set ↑"stream" (.bool true)) tags }))

/-- The row, and the last event of a stream that ran to its end. -/
def persistShown (conversationId : ConversationId) (p : Prepared)
    (tags : Option (Dict Text Json)) (content : Text) (s : Streaming) :
    Program Raised Streaming Unit := do
  let figures ← Program.raises (usageFigures s.usage)
  let msg ← appendShown host conversationId p tags content figures s
  if s.completed then emit consumer (.done msg.id s.usage)

/-- The `finally` block. -/
def persist (conversationId : ConversationId) (p : Prepared) (tags : Option (Dict Text Json)) :
    Program Raised Streaming Unit := do
  let s ← get
  let content ← Program.raises (joined s.parts)
  if content ≠ [] then persistShown host consumer conversationId p tags content s

/-- The generator, once it has prepared the turn. -/
def stream (conversationId : ConversationId) (p : Prepared) (tags : Option (Dict Text Json)) :
    Program Raised Streaming Unit :=
  tryFinally (streamRounds host consumer conversationId p (maxRounds host) 0 p.context)
    (persist host consumer conversationId p tags)

/-- The whole of `send_stream`: how it ended, and the state that it leaves. -/
def sendStream (conversationId : ConversationId) (userText : Text)
    (tags : Option (Dict Text Json)) (session : Session) :
    EStateM.Result Raised Streaming Unit :=
  match (Program.zoom onLedger (prepare host conversationId userText)).run session with
  | .error e session => .error e { session, actualModel := .null }
  | .ok p session =>
    (stream host consumer conversationId p tags).run { session, actualModel := .str p.model }

/-! ## Contents -/

/-- The contents that are texts, one after the other. -/
def textsOf : List Json → Text
  | [] => []
  | .str text :: contents => text ++ textsOf contents
  | _ :: contents => textsOf contents

theorem textsOf_append (front rest : List Json) :
    textsOf (front ++ rest) = textsOf front ++ textsOf rest := by
  induction front with
  | nil => rfl
  | cons content front ih => cases content <;> simp [textsOf, ih]

theorem joined_append {front rest : List Json} {s t : Text} (before : joined front = .ok s)
    (after : joined rest = .ok t) : joined (front ++ rest) = .ok (s ++ t) := by
  induction front generalizing s with
  | nil =>
    cases before
    exact after
  | cons content front ih =>
    obtain ⟨text, is, before⟩ := Program.except_bind_eq_ok.mp before
    obtain ⟨later, ahead, whole⟩ := Program.except_bind_eq_ok.mp before
    cases whole
    rw [List.cons_append, joined, is, ih ahead, List.append_assoc]
    rfl

theorem joined_text (text : Text) : joined [.str text] = .ok text := by
  simp [joined, bind, Except.bind, pure, Except.pure]

theorem joined_concat {contents : List Json} {s : Text} (before : joined contents = .ok s)
    (text : Text) : joined (contents ++ [.str text]) = .ok (s ++ text) :=
  joined_append before (joined_text text)

theorem joined_iff {contents : List Json} {text : Text} :
    joined contents = .ok text ↔
      text = textsOf contents ∧ ∀ content ∈ contents, ∃ t, content = .str t := by
  induction contents generalizing text with
  | nil => simp [joined, textsOf, pure, Except.pure, eq_comm]
  | cons content contents ih =>
    unfold joined
    rw [Program.except_bind_eq_ok]
    constructor
    · rintro ⟨t, is, rest⟩
      obtain ⟨later, ahead, whole⟩ := Program.except_bind_eq_ok.mp rest
      cases whole
      obtain ⟨rfl, texts⟩ := ih.mp ahead
      cases content with
      | str _ =>
        cases is
        exact ⟨rfl, List.forall_mem_cons.mpr ⟨⟨t, rfl⟩, texts⟩⟩
      | _ => cases is
    · rintro ⟨rfl, texts⟩
      obtain ⟨⟨t, rfl⟩, later⟩ := List.forall_mem_cons.mp texts
      refine ⟨t, rfl, ?_⟩
      rw [ih.mpr ⟨rfl, later⟩]
      rfl

section Persist

variable {host consumer} {conversationId : ConversationId} {p : Prepared}
  {tags : Option (Dict Text Json)} {s : Streaming} {content : Text}

theorem run_persist_nothing (blank : joined s.parts = .ok []) :
    (persist host consumer conversationId p tags).run s = .ok () s := by
  unfold persist
  rw [EStateM.run_bind, EStateM.run_get]
  dsimp only
  rw [blank]
  rfl

theorem run_persist_shown (whole : joined s.parts = .ok content) (ink : content ≠ []) :
    (persist host consumer conversationId p tags).run s =
      (persistShown host consumer conversationId p tags content s).run s := by
  unfold persist
  rw [EStateM.run_bind, EStateM.run_get]
  dsimp only
  rw [whole, Program.raises_ok_bind, if_pos ink]

end Persist

/-! ## What the generator keeps -/

section Keeps

open Program

/-- The generator's own assignments keep `I` as long as only such events come in. -/
structure Carries (I : Streaming → Prop) (E : SseEvent → Prop) : Prop where
  texts : ∀ text, E (.delta (.str text))
  yielded : ∀ s event, I s → I { s with yielded := s.yielded ++ [event] }
  parts : ∀ s content, E (.delta content) → I s → I { s with parts := s.parts ++ [content] }
  usage : ∀ s usage, E (.usage usage) → I s → I { s with usage }
  actualModel : ∀ s actualModel, E (.model actualModel) → I s → I { s with actualModel }
  prefixDone : ∀ s, I s → I { s with prefixDone := true }
  completed : ∀ s, I s → I { s with completed := true }

/-- What is said of the session alone is kept by all of them. -/
theorem carries_session (J : Session → Prop) : Carries (fun s => J s.session) fun _ => True where
  texts _ := trivial
  yielded _ _ kept := kept
  parts _ _ _ kept := kept
  usage _ _ _ kept := kept
  actualModel _ _ _ kept := kept
  prefixDone _ kept := kept
  completed _ kept := kept

variable {host consumer} {I : Streaming → Prop} {E : SseEvent → Prop} (carries : Carries I E)
  {p : Prepared} {conversationId : ConversationId}

include carries

theorem Carries.keeps_emit (event : StreamEvent) : Keeps I (emit consumer event) := by
  refine keeps_bind (keeps_modify (carries.yielded · event)) fun _ =>
    keeps_bind keeps_get fun _ => ?_
  split
  · exact keeps_throw _
  · exact keeps_pure _

theorem Carries.keeps_passOn {content : Json} (good : E (.delta content)) :
    Keeps I (passOn consumer content) :=
  keeps_bind (keeps_modify (carries.parts · content good)) fun _ => carries.keeps_emit _

theorem Carries.keeps_prefixChunk : Keeps I (prefixChunk host p) := by
  intro s kept
  unfold prefixChunk
  rw [EStateM.run_bind, EStateM.run_get]
  dsimp only
  split
  · exact kept
  · have marked := carries.prefixDone s kept
    change I { s with prefixDone := true, parts := ite _ _ _ }
    split
    · exact marked
    · exact carries.parts _ _ (carries.texts _) marked

theorem Carries.keeps_flush (text : Text) : Keeps I (flush host consumer p text) := by
  refine keeps_bind carries.keeps_prefixChunk fun lead => ?_
  dsimp only
  split
  · exact keeps_bind (carries.keeps_emit _) fun _ => carries.keeps_passOn (carries.texts text)
  · exact carries.keeps_passOn (carries.texts text)

theorem Carries.keeps_onDelta (r : RoundState) {content : Json} (good : E (.delta content)) :
    Keeps I (onDelta host consumer p r content) := by
  unfold onDelta
  dsimp only
  split
  · split_ifs
    · exact keeps_bind (carries.keeps_passOn good) fun _ => keeps_pure _
    · exact keeps_pure _
  · refine keeps_bind (keeps_raises _) fun _ => ?_
    split_ifs
    · exact keeps_bind (carries.keeps_flush _) fun _ => keeps_pure _
    · exact keeps_pure _
    · exact keeps_pure _

theorem Carries.keeps_consume (r : RoundState) {events : List SseEvent} (good : ∀ e ∈ events, E e) :
    Keeps I (consume host consumer p r events) := by
  induction events generalizing r with
  | nil => exact keeps_pure r
  | cons event events ih =>
    obtain ⟨here, later⟩ := List.forall_mem_cons.mp good
    cases event with
    | usage usage =>
      exact keeps_bind (keeps_modify (carries.usage · usage here)) fun _ => ih r later
    | model model =>
      exact keeps_bind (keeps_modify (carries.actualModel · model here)) fun _ => ih r later
    | delta content => exact keeps_bind (carries.keeps_onDelta r here) fun r => ih r later

theorem Carries.keeps_decideLate (r : RoundState) (fullRound : Text) :
    Keeps I (decideLate host consumer p r fullRound) := by
  unfold decideLate
  dsimp only
  split_ifs
  · exact keeps_pure _
  · exact keeps_bind (carries.keeps_flush _) fun _ => keeps_pure _
  · exact keeps_pure _

theorem Carries.keeps_markCompleted : Keeps I markCompleted := keeps_modify carries.completed

theorem Carries.keeps_answerToolRound (roundNo : Nat) {context : List ChatMessage} (fullRound : Text)
    (executes : ∀ tool args, Keeps I (zoom onSession (zoom onLedger
      (executeToolRound host conversationId context fullRound tool args p.allowedTools)))) :
    Keeps I (answerToolRound host consumer conversationId p roundNo context fullRound) := by
  have as_it_is : Keeps I (do
      flush host consumer p fullRound
      markCompleted
      return (none : Option (List ChatMessage))) :=
    keeps_bind (carries.keeps_flush fullRound) fun _ =>
      keeps_bind carries.keeps_markCompleted fun _ => keeps_pure _
  refine keeps_bind (keeps_raises _) fun call => ?_
  cases call with
  | none => exact as_it_is
  | some call =>
    dsimp only
    split_ifs
    · exact as_it_is
    · exact keeps_bind (carries.keeps_emit _) fun _ =>
        keeps_bind (executes call.1 call.2) fun _ => keeps_pure _

/-- Only what the provider streams and the tool rounds can break it. -/
theorem Carries.keeps_streamRounds
    (opens : ∀ context, Triple I (zoom onSession (zoom onRequests
        (openStream host.upstream ⟨p.provider, true, payload p.model context⟩)))
      (fun r s => I s ∧ ∀ e ∈ r.events, E e) (fun _ => I))
    (executes : ∀ context fullRound tool args, Keeps I (zoom onSession (zoom onLedger
      (executeToolRound host conversationId context fullRound tool args p.allowedTools))))
    (left roundNo : Nat) (context : List ChatMessage) :
    Keeps I (streamRounds host consumer conversationId p left roundNo context) := by
  have round : ∀ roundNo context,
      Keeps I (streamRound host consumer conversationId p roundNo context) := by
    intro roundNo context
    unfold streamRound
    refine keeps_of_triple (triple_bind (opens context) fun r s ⟨kept, good⟩ => ?_)
    refine (keeps_bind (carries.keeps_consume {} good) fun round => ?_).triple s kept
    cases r.failure with
    | some e => exact keeps_throw _
    | none =>
      refine keeps_bind (keeps_raises _) fun fullRound =>
        keeps_bind (carries.keeps_decideLate round fullRound) fun toolRound => ?_
      split_ifs
      · exact carries.keeps_answerToolRound roundNo fullRound (executes context fullRound)
      · exact keeps_bind carries.keeps_markCompleted fun _ => keeps_pure _
  induction left generalizing roundNo context with
  | zero => exact keeps_pure _
  | succ left ih =>
    refine keeps_bind (round roundNo context) fun next => ?_
    cases next with
    | none => exact keeps_pure _
    | some context => exact ih (roundNo + 1) context

theorem Carries.keeps_persist (tags : Option (Dict Text Json))
    (appends : ∀ content fields, Keeps I (zoom onSession (zoom onLedger
      (append conversationId .assistant content fields)))) :
    Keeps I (persist host consumer conversationId p tags) := by
  refine keeps_bind keeps_get fun s => keeps_bind (keeps_raises _) fun content => ?_
  split_ifs
  · refine keeps_bind (keeps_raises _) fun _ =>
      keeps_bind (keeps_bind (keeps_raises _) fun _ => appends _ _) fun _ => ?_
    split_ifs
    · exact carries.keeps_emit _
    · exact keeps_pure _
  · exact keeps_pure _

omit carries in
/-- What is kept of the session, the whole generator keeps. -/
theorem keepsSession_stream {J : Session → Prop} (tags : Option (Dict Text Json))
    (opens : ∀ context, Keeps J (zoom onRequests
      (openStream host.upstream ⟨p.provider, true, payload p.model context⟩)))
    (executes : ∀ context fullRound tool args, Keeps J (zoom onLedger
      (executeToolRound host conversationId context fullRound tool args p.allowedTools)))
    (appends : ∀ content fields, Keeps J (zoom onLedger
      (append conversationId .assistant content fields))) :
    Keeps (fun s => J s.session) (stream host consumer conversationId p tags) := by
  have carries := carries_session J
  have on_session : ∀ {α : Type} {q : Program Raised Session α}, Keeps J q →
      Keeps (fun s => J s.session) (zoom onSession q) :=
    fun kept => keeps_zoom fun s => kept s.session
  refine keeps_tryFinally (carries.keeps_streamRounds (fun context => ?_)
    (fun context fullRound tool args => on_session (executes context fullRound tool args)) _ _ _)
    (carries.keeps_persist tags fun content fields => on_session (appends content fields))
  exact (on_session (opens context)).triple.post fun _ _ kept => ⟨kept, fun _ _ => trivial⟩

end Keeps

end AgenticOctopus.Chat
