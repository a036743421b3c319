import AgenticOctopus.Chat.Rounds
import AgenticOctopus.Chat.Tags

/-!
# Streamed and unstreamed turns

The same rounds, delivered whole or cut into deltas, lead to the same turn, if every round
with a call starts with it. The two loops are run side by side: until the last round both
have made the same requests and tool calls and the generator has shown nothing.
-/
namespace AgenticOctopus.Chat
open Foundation Providers
open Spine (LoadedAgent Registry)

/-! ## Side by side -/

/-- Both turns have come to the same rows, the same tool calls and the same requests. -/
structure SameSoFar (w : Session) (v : Session) : Prop where
  ledger : v.ledger = w.ledger
  payloads : v.requests.map Request.payload = w.requests.map Request.payload

theorem SameSoFar.length {w v : Session} (same : SameSoFar w v) :
    v.requests.length = w.requests.length := by
  simpa using congrArg List.length same.payloads

/-- Between two rounds: the generator has shown nothing yet. -/
structure Mirrors (w : Session) (answer : Answer) (v : Streaming) : Prop where
  same : SameSoFar w v.session
  usage : v.usage = answer.usage
  model : v.actualModel = answer.actualModel
  silent : v.parts = []
  first : v.prefixDone = false

section SideBySide

variable (host : Host) (conversationId : ConversationId) (p : Prepared)

/-- After the last round: the generator has shown the lead-in and the answer. -/
structure Finished (w : Session) (answer : Answer) (v : Streaming) : Prop where
  same : SameSoFar w v.session
  usage : v.usage = answer.usage
  model : v.actualModel = answer.actualModel
  completed : v.completed = true
  shown : ∃ text, answer.content = .str text ∧ text ≠ [] ∧ joined v.parts = .ok
    (routedModelPrefix host.settings host.upstream.py p.model answer.actualModel ++ text)

/-- This round ends alike on both sides. -/
inductive RoundsAlike (roundNo : Nat) :
    EStateM.Result Raised Session (Answer × Option (List ChatMessage)) →
    EStateM.Result Raised Streaming (Option (List ChatMessage)) → Prop where
  | raised {e w v} (same : SameSoFar w v.session) (silent : v.parts = []) :
      RoundsAlike roundNo (.error e w) (.error e v)
  | last {answer w v} (finished : Finished host p w answer v) :
      RoundsAlike roundNo (.ok (answer, none) w) (.ok none v)
  | next {answer context w v} (mirrors : Mirrors w answer v)
      (count : w.requests.length = roundNo + 1)
      (budget : (roundNo : Int) < host.settings.chatMaxToolCalls) :
      RoundsAlike roundNo (.ok (answer, some context) w) (.ok (some context) v)

/-- Showing the text as it is ends the turn. -/
theorem finished_of_flush {w : Session} {answer : Answer} {v : Streaming} {text : Text}
    (mirrors : Mirrors w answer v) (content : answer.content = .str text) (ink : text ≠ []) :
    ∃ v', (do flush host toTheEnd p text; markCompleted; return none :
        Program Raised Streaming (Option (List ChatMessage))).run v = .ok none v' ∧
      Finished host p w answer v' := by
  refine ⟨_, Program.run_bind_ok (run_flush host p mirrors.first rfl), mirrors.same, mirrors.usage,
    mirrors.model, rfl, text, content, ink, ?_⟩
  simp only [mirrors.silent, mirrors.model, List.nil_append]
  exact joined_leadParts _ text

/-- What a tool call leaves of a turn. -/
def Session.after (s : Session) (ledger : Ledger) : Session := { s with ledger }

theorem run_followUp {w : Session} {answer : Answer} {text tool : Text} {args : PyDict}
    {roundNo : Nat} {context : List ChatMessage} (content : answer.content = .str text)
    (asked : requestedCall host.upstream.py p.allowedTools answer.content = .ok (some (tool, args)))
    (budget : ¬ (roundNo : Int) ≥ host.settings.chatMaxToolCalls) :
    (followUp host conversationId p roundNo context answer).run w =
      match (executeToolRound host conversationId context text tool args p.allowedTools).run
        w.ledger with
      | .ok context ledger => .ok (some context) (w.after ledger)
      | .error e ledger => .error e (w.after ledger) := by
  unfold followUp
  rw [asked, content]
  simp only [Program.raises, pure_bind, asText, if_neg budget]
  change (Program.zoom onLedger
    (executeToolRound host conversationId context text tool args p.allowedTools) >>= fun context =>
      pure (some context)).run w = _
  rw [EStateM.run_bind, Program.run_zoom]
  simp only [onLedger]
  cases (executeToolRound host conversationId context text tool args p.allowedTools).run
    w.ledger <;> rfl

theorem run_answerToolRound {v : Streaming} {text tool : Text} {args : PyDict} {roundNo : Nat}
    (context : List ChatMessage)
    (parsed : parseToolCall host.upstream.py text = .ok (some (tool, args)))
    (budget : ¬ (roundNo : Int) ≥ host.settings.chatMaxToolCalls) :
    ∃ yielded, (answerToolRound host toTheEnd conversationId p roundNo context text).run v =
      match (executeToolRound host conversationId context text tool args p.allowedTools).run
        v.session.ledger with
      | .ok context ledger =>
        .ok (some context) { v with session := v.session.after ledger, yielded }
      | .error e ledger => .error e { v with session := v.session.after ledger, yielded } := by
  refine ⟨v.yielded ++ [.toolStatus tool args (roundNo + 1)], ?_⟩
  unfold answerToolRound
  rw [parsed]
  simp only [Program.raises, pure_bind, if_neg budget]
  rw [Program.run_bind_ok (run_emit _ v), EStateM.run_bind, Program.run_zoom, Program.run_zoom]
  simp only [onSession, onLedger]
  cases (executeToolRound host conversationId context text tool args p.allowedTools).run
    v.session.ledger <;> rfl

/-- A tool round leads to the same on both sides. -/
theorem toolRound_alike {w : Session} {answer : Answer} {v : Streaming} {text : Text}
    {roundNo : Nat} {context : List ChatMessage} (mirrors : Mirrors w answer v)
    (content : answer.content = .str text) (ink : text ≠ []) (tools : p.allowedTools ≠ [])
    (count : w.requests.length = roundNo + 1) :
    RoundsAlike host p roundNo
      ((do return (answer, ← followUp host conversationId p roundNo context answer)).run w)
      ((answerToolRound host toTheEnd conversationId p roundNo context text).run v) := by
  obtain ⟨v', flushed, finished⟩ := finished_of_flush host p mirrors content ink
  have asked : requestedCall host.upstream.py p.allowedTools answer.content =
      parseToolCall host.upstream.py text := by
    simp [requestedCall, tools, content, asText]
  cases parsed : parseToolCall host.upstream.py text with
  | error e =>
    unfold followUp answerToolRound
    rw [asked, parsed]
    exact .raised mirrors.same mirrors.silent
  | ok call =>
    rcases call with _ | ⟨tool, args⟩
    · unfold followUp answerToolRound
      rw [asked, parsed]
      exact flushed ▸ .last finished
    · by_cases spent : (roundNo : Int) ≥ host.settings.chatMaxToolCalls
      · unfold followUp answerToolRound
        rw [asked, parsed]
        simp only [Program.raises, pure_bind, if_pos spent]
        rw [flushed]
        exact .last finished
      · obtain ⟨yielded, streamed⟩ :=
          run_answerToolRound host conversationId p (v := v) context parsed spent
        rw [streamed, EStateM.run_bind,
          run_followUp host conversationId p content (asked.trans parsed) spent,
          mirrors.same.ledger]
        cases (executeToolRound host conversationId context text tool args p.allowedTools).run
          w.ledger with
        | error e ledger => exact .raised ⟨rfl, mirrors.same.payloads⟩ mirrors.silent
        | ok context ledger =>
          exact .next ⟨⟨rfl, mirrors.same.payloads⟩, mirrors.usage, mirrors.model, mirrors.silent,
            mirrors.first⟩ count (not_le.mp spent)

/-- A text that both loops take alike in this round: it holds no call, or starts with one, or
holds one that can be read but not made any more. -/
def Fits (roundNo : Nat) (text : Text) : Prop :=
  parseToolCall host.upstream.py text = .ok none ∨ Announced text ∨
    (host.settings.chatMaxToolCalls ≤ roundNo ∧
      ∃ call, parseToolCall host.upstream.py text = .ok (some call))

/-- A round that was shown is the last one on the other side too. -/
theorem followUp_of_plain (w : Session) {answer : Answer} {text : Text} {roundNo : Nat}
    (context : List ChatMessage) (content : answer.content = .str text)
    (fits : p.allowedTools ≠ [] → Fits host roundNo text)
    (plain : p.allowedTools ≠ [] → ¬ Announced text) :
    (followUp host conversationId p roundNo context answer).run w = .ok none w := by
  unfold followUp requestedCall
  by_cases tools : p.allowedTools = []
  · simp only [tools, List.isEmpty_nil, if_true]
    rfl
  · rw [if_neg (by simpa using tools), content]
    rcases fits tools with silent | announced | ⟨spent, call, parsed⟩
    · simp only [asText]
      change (Program.raises (parseToolCall host.upstream.py text) >>= _).run w = _
      rw [silent]
      rfl
    · exact (plain tools announced).elim
    · change (Program.raises (parseToolCall host.upstream.py text) >>= _).run w = _
      rw [parsed]
      change EStateM.run (if (roundNo : Int) ≥ host.settings.chatMaxToolCalls then pure none
        else _) w = _
      rw [if_pos spent]
      rfl

theorem round_alike {rounds : List Round} (delivers : Delivers host.upstream p rounds) {w : Session}
    {before : Answer} {v : Streaming} {roundNo : Nat} (context : List ChatMessage)
    (mirrors : Mirrors w before v) (count : w.requests.length = roundNo)
    (fits : p.allowedTools ≠ [] → ∀ r, rounds[roundNo]? = some r → Fits host roundNo r.text) :
    RoundsAlike host p roundNo
      ((sendRound host conversationId p roundNo context before).run w)
      ((streamRound host toTheEnd conversationId p roundNo context).run v) := by
  let whole_request : Request := ⟨p.provider, false, payload p.model context⟩
  let cut_request : Request := ⟨p.provider, true, payload p.model context⟩
  have whole := delivers.whole w.requests context
  have inDeltas := delivers.inDeltas v.session.requests context
  rw [count] at whole
  rw [mirrors.same.length, count] at inDeltas
  dsimp only at whole inDeltas
  have payloads : (v.session.requests ++ [cut_request]).map Request.payload =
      (w.requests ++ [whole_request]).map Request.payload := by
    rw [List.map_append, List.map_append, mirrors.same.payloads]
    rfl
  cases there : rounds[roundNo]? with
  | none =>
    rw [there] at whole inDeltas
    unfold sendRound streamRound
    rw [Program.run_bind_error (Program.run_zoom_error (l := onRequests)
        (run_complete_error whole)),
      Program.run_bind_error (Program.run_zoom_error (l := onSession)
        (Program.run_zoom_error (l := onRequests) (run_openStream_error inDeltas)))]
    exact .raised ⟨mirrors.same.ledger, payloads⟩ mirrors.silent
  | some r =>
    rw [there] at whole inDeltas
    obtain ⟨response, responded, read⟩ := whole
    obtain ⟨streamed, opened, streams⟩ := inDeltas
    let w₁ : Session := { w with requests := w.requests ++ [whole_request] }
    have answered : (sendRound host conversationId p roundNo context before).run w =
        (do return (r.answer before,
          ← followUp host conversationId p roundNo context (r.answer before))).run w₁ := by
      unfold sendRound
      rw [Program.run_bind_ok (Program.run_zoom_ok (l := onRequests)
          (run_complete responded read.status)), read.read]
      rfl
    have made : w₁.requests.length = roundNo + 1 := by
      rw [List.length_append, count]
      rfl
    rw [answered]
    rcases run_streamRound host conversationId p roundNo context mirrors.silent mirrors.first
        mirrors.usage mirrors.model opened streams with
      ⟨marker, yielded, ran⟩ | ⟨parts, yielded, prefixDone, ran, shown, plain⟩
    · rw [ran]
      exact toolRound_alike host conversationId p ⟨⟨mirrors.same.ledger, payloads⟩, rfl, rfl,
        mirrors.silent, mirrors.first⟩ rfl r.ink ((startsToolRound_iff p).mp marker).1 made
    · have content : (r.answer before).content = .str r.text := rfl
      have last := followUp_of_plain host conversationId p w₁ context content
        (fun tools => fits tools r there) plain
      rw [ran, Program.run_bind_ok last]
      exact .last ⟨⟨mirrors.same.ledger, payloads⟩, rfl, rfl, rfl, r.text, rfl, r.ink, shown⟩

/-- The loops end alike. -/
inductive LoopsAlike :
    EStateM.Result Raised Session Answer → EStateM.Result Raised Streaming Unit → Prop where
  | raised {e w v} (same : SameSoFar w v.session) (silent : v.parts = []) :
      LoopsAlike (.error e w) (.error e v)
  | finished {answer w v} (finished : Finished host p w answer v) :
      LoopsAlike (.ok answer w) (.ok () v)

theorem loops_alike {rounds : List Round} (delivers : Delivers host.upstream p rounds)
    (fits : p.allowedTools ≠ [] → ∀ (i : Nat) (r : Round), i ≤ host.settings.chatMaxToolCalls →
      rounds[i]? = some r → Fits host i r.text) (left : Nat) :
    ∀ {w : Session} {before : Answer} {v : Streaming} {roundNo : Nat}
      {context : List ChatMessage}, Mirrors w before v → w.requests.length = roundNo →
      (roundNo : Int) + left = host.settings.chatMaxToolCalls →
      LoopsAlike host p
        ((sendRounds host conversationId p (left + 1) roundNo context before).run w)
        ((streamRounds host toTheEnd conversationId p (left + 1) roundNo context).run v) := by
  induction left with
  | zero =>
    intro w before v roundNo context mirrors count last
    have alike := round_alike host conversationId p delivers context mirrors count
      fun tools r => fits tools roundNo r (by omega)
    unfold sendRounds streamRounds
    rw [EStateM.run_bind, EStateM.run_bind]
    generalize (sendRound host conversationId p roundNo context before).run w = x at alike ⊢
    generalize (streamRound host toTheEnd conversationId p roundNo context).run v = y at alike ⊢
    cases alike with
    | raised same silent => exact .raised same silent
    | last finished => exact .finished finished
    | next mirrors count budget => omega
  | succ left ih =>
    intro w before v roundNo context mirrors count later
    have alike := round_alike host conversationId p delivers context mirrors count
      fun tools r => fits tools roundNo r (by omega)
    unfold sendRounds streamRounds
    rw [EStateM.run_bind, EStateM.run_bind]
    generalize (sendRound host conversationId p roundNo context before).run w = x at alike ⊢
    generalize (streamRound host toTheEnd conversationId p roundNo context).run v = y at alike ⊢
    cases alike with
    | raised same silent => exact .raised same silent
    | last finished => exact .finished finished
    | next mirrors count budget => exact ih mirrors count (by push_cast; omega)

/-! ## Whole turns -/

def toolRows (ledger : Ledger) : List Message :=
  ledger.messages.rows.filter fun m => decide (m.role = .tool)

def contents (ledger : Ledger) : List (ConversationId × Role × Text) :=
  ledger.messages.rows.map fun m => (m.conversationId, m.role, m.content)

/-- Two turns made the same tool calls and the same requests and left the same tool rows and
rows of the same contents. -/
structure SameTurn (w v : Session) : Prop where
  toolCalls : v.ledger.toolCalls = w.ledger.toolCalls
  requests : v.requests.length = w.requests.length
  payloads : v.requests.map Request.payload = w.requests.map Request.payload
  toolRows : toolRows v.ledger = toolRows w.ledger
  contents : contents v.ledger = contents w.ledger

theorem SameSoFar.sameTurn {w v : Session} (same : SameSoFar w v) : SameTurn w v where
  toolCalls := by rw [same.ledger]
  requests := same.length
  payloads := same.payloads
  toolRows := by rw [same.ledger]
  contents := by rw [same.ledger]

/-- The tag that marks a stream fits the column. -/
theorem storable_streamTags (py : Interpreter) (tags : Option (Dict Text Json)) :
    Json.storable (.obj (mergeTags py
      ((autoTags conversationId p).set ↑"stream" (.bool true)) tags)) =
      Json.storable (.obj (mergeTags py (autoTags conversationId p) tags)) := by
  let keys : List Text := [↑"surface", ↑"provider", ↑"persona", ↑"conversation", ↑"routed"]
  have distinct : (Dict.keys (autoTags conversationId p)).Nodup :=
    show keys.Nodup by decide
  have new : ↑"stream" ∉ Dict.keys (autoTags conversationId p) :=
    show Text.ofString "stream" ∉ keys by decide
  have fine : Json.storable (.str ((Json.toStr py (.bool true)).take 200)) = true :=
    show Json.storable (.str (List.take 200 ↑"True")) = true by decide
  exact storable_mergeTags (by decide) py distinct new rfl ⟨by decide, fine⟩ tags

theorem metadata_answerFields {figures : Json × Json} {actualModel : Json} {fields : Fields}
    (h : answerFields host figures actualModel = .ok fields) : fields.metadata = .obj [] := by
  unfold answerFields at h
  obtain ⟨model, -, h⟩ := Program.except_bind_eq_ok.mp h
  obtain ⟨first, -, h⟩ := Program.except_bind_eq_ok.mp h
  obtain ⟨second, -, h⟩ := Program.except_bind_eq_ok.mp h
  cases h
  rfl

/-- Appending one assistant's content on both sides, whatever the other columns, if they are
taken on both. -/
theorem append_alike {w v : Session} (same : SameSoFar w v) (content : Text)
    {fields fields' : Fields} (storable : fields'.storable content = fields.storable content) :
    (∃ a b w' v', (append conversationId .assistant content fields).run w.ledger = .ok a w' ∧
        (append conversationId .assistant content fields').run v.ledger = .ok b v' ∧
        SameTurn (w.after w') (v.after v')) ∨
      ((append conversationId .assistant content fields).run w.ledger =
          .error .databaseError w.ledger ∧
        (append conversationId .assistant content fields').run v.ledger =
          .error .databaseError v.ledger) := by
  unfold append
  rw [EStateM.run_bind, EStateM.run_bind, EStateM.run_get, EStateM.run_get, same.ledger]
  simp only [storable]
  by_cases there :
      (w.ledger.conversations.contains conversationId && fields.storable content) = true
  · rw [if_pos there, if_pos there]
    refine .inl ⟨_, _, _, _, rfl, rfl, rfl, same.length, same.payloads, ?_, ?_⟩
    · simp [toolRows, Session.after, SerialTable.append, newMessage]
    · simp [contents, Session.after, SerialTable.append, newMessage]
  · rw [if_neg there, if_neg there]
    exact .inr ⟨rfl, rfl⟩

/-- The last rows agree: what was shown is what `send` stores. -/
theorem reply_alike {w : Session} {answer : Answer} {v : Streaming} {text : Text}
    (finished : Finished host p w answer v) (content : answer.content = .str text)
    (tags : Option (Dict Text Json)) :
    SameTurn (Program.state ((reply host conversationId p tags answer).run w))
      (Program.state ((persistShown host toTheEnd conversationId p tags
        (routedModelPrefix host.settings host.upstream.py p.model answer.actualModel ++ text)
        v).run v)).session := by
  unfold reply persistShown appendShown
  rw [content, finished.usage, finished.model, finished.completed]
  cases usageFigures answer.usage with
  | error e => exact finished.same.sameTurn
  | ok figures =>
    simp only [Program.raises_ok_bind, asText_str]
    cases found : answerFields host figures answer.actualModel with
    | error e => exact finished.same.sameTurn
    | ok fields =>
      simp only [Program.raises_ok_bind]
      let content :=
        routedModelPrefix host.settings host.upstream.py p.model answer.actualModel ++ text
      have storable : Fields.storable
          { fields with
            metadata := truncation true
            tags := mergeTags host.upstream.py
              ((autoTags conversationId p).set ↑"stream" (.bool true)) tags } content =
          Fields.storable
            { fields with
              tags := mergeTags host.upstream.py (autoTags conversationId p) tags } content := by
        unfold Fields.storable
        rw [storable_streamTags, metadata_answerFields host found]
        rfl
      rcases append_alike conversationId finished.same content storable with
        ⟨a, b, w', v', stored, stored', turn⟩ | ⟨failed, failed'⟩
      · rw [Program.run_zoom_ok (l := onLedger) stored,
          Program.run_bind_ok (Program.run_zoom_ok (l := onSession)
            (Program.run_zoom_ok (l := onLedger) stored'))]
        exact turn
      · rw [Program.run_zoom_error (l := onLedger) failed,
          Program.run_bind_error (Program.run_zoom_error (l := onSession)
            (Program.run_zoom_error (l := onLedger) failed'))]
        exact finished.same.sameTurn

/-- The turns agree once they are prepared. -/
theorem delivered_alike {w v : Session} {rounds : List Round}
    (delivers : Delivers host.upstream p rounds)
    (budget : 0 ≤ host.settings.chatMaxToolCalls)
    (fits : p.allowedTools ≠ [] → ∀ (i : Nat) (r : Round), i ≤ host.settings.chatMaxToolCalls →
      rounds[i]? = some r → Fits host i r.text)
    (same : SameSoFar w v) (none_made : w.requests = []) (tags : Option (Dict Text Json)) :
    SameTurn
      (Program.state ((sendRounds host conversationId p (maxRounds host) 0 p.context
        ⟨.str [], .obj [], .str p.model⟩ >>= reply host conversationId p tags).run w))
      (Program.state ((stream host toTheEnd conversationId p tags).run
        { session := v, actualModel := .str p.model })).session := by
  obtain ⟨left, rounds_left⟩ := Int.eq_ofNat_of_zero_le budget
  have fuel : maxRounds host = left + 1 := by
    unfold maxRounds
    omega
  let begun : Streaming := { session := v, actualModel := .str p.model }
  have start : Mirrors w ⟨.str [], .obj [], .str p.model⟩ begun := ⟨same, rfl, rfl, rfl, rfl⟩
  have alike : LoopsAlike host p
      ((sendRounds host conversationId p (left + 1) 0 p.context
        ⟨.str [], .obj [], .str p.model⟩).run w)
      ((streamRounds host toTheEnd conversationId p (left + 1) 0 p.context).run begun) :=
    loops_alike host conversationId p delivers fits left start (by rw [none_made]; rfl)
      (by rw [rounds_left]; simp)
  unfold stream
  rw [fuel, EStateM.run_bind]
  generalize (sendRounds host conversationId p (left + 1) 0 p.context
    ⟨.str [], .obj [], .str p.model⟩).run w = x at alike ⊢
  generalize ran : (streamRounds host toTheEnd conversationId p (left + 1) 0 p.context).run begun =
    y at alike
  cases alike with
  | @raised e w v same silent =>
    -- nothing was shown, so nothing is stored
    have quiet : (persist host toTheEnd conversationId p tags).run v = .ok () v :=
      run_persist_nothing (by rw [silent]; rfl)
    rw [Program.run_tryFinally_error ran, quiet]
    exact same.sameTurn
  | @finished answer w v finished =>
    obtain ⟨text, content, ink, shown⟩ := finished.shown
    have turn := reply_alike host conversationId p finished content tags
    rw [Program.run_tryFinally_ok ran,
      run_persist_shown shown (List.append_ne_nil_of_right_ne_nil _ ink)]
    generalize (persistShown host toTheEnd conversationId p tags _ v).run v = last at turn ⊢
    cases last <;> exact turn

theorem stream_alike {w v : Session} {rounds : List Round} (offers : Offers host.upstream rounds)
    (budget : 0 ≤ host.settings.chatMaxToolCalls)
    (fits : p.allowedTools ≠ [] → ∀ (i : Nat) (r : Round), i ≤ host.settings.chatMaxToolCalls →
      rounds[i]? = some r → Fits host i r.text)
    (same : SameSoFar w v) (none_made : w.requests = []) (tags : Option (Dict Text Json)) :
    SameTurn
      (Program.state ((sendRounds host conversationId p (maxRounds host) 0 p.context
        ⟨.str [], .obj [], .str p.model⟩ >>= reply host conversationId p tags).run w))
      (Program.state ((stream host toTheEnd conversationId p tags).run
        { session := v, actualModel := .str p.model })).session :=
  delivered_alike host conversationId p (offers.delivers p) budget fits same none_made tags

end SideBySide

/-- Delivered whole or in deltas, the same rounds lead to the same turn: the same tool calls and
requests, the same tool rows and the same contents of the rows. -/
theorem streamed_turn_agrees (host : Host) (conversationId : ConversationId) (userText : Text)
    (tags : Option (Dict Text Json)) (ledger : Ledger) (rounds : List Round)
    (budget : 0 ≤ host.settings.chatMaxToolCalls) (offers : Offers host.upstream rounds)
    (fits : ∀ convo, getConversation ledger conversationId = some convo →
      toolsFor host.settings convo.persona host.registry ≠ [] →
      ∀ (i : Nat) (r : Round), i ≤ host.settings.chatMaxToolCalls → rounds[i]? = some r →
        Fits host i r.text) :
    SameTurn
      (Program.state ((send host conversationId userText tags).run ⟨ledger, []⟩))
      (Program.state (sendStream host toTheEnd conversationId userText tags
        ⟨ledger, []⟩)).session := by
  unfold send sendStream
  cases prepared : (prepare host conversationId userText).run ledger with
  | error e ledger' =>
    rw [Program.run_bind_error (Program.run_zoom_error (l := onLedger) prepared),
      Program.run_zoom_error (l := onLedger) prepared]
    exact SameSoFar.sameTurn ⟨rfl, rfl⟩
  | ok p ledger' =>
    obtain ⟨convo, found, -, tools⟩ := prepare_ok host prepared
    rw [Program.run_bind_ok (Program.run_zoom_ok (l := onLedger) prepared),
      Program.run_zoom_ok (l := onLedger) prepared]
    refine stream_alike host conversationId p offers budget (fun some_tool => ?_) ⟨rfl, rfl⟩ rfl
      tags
    exact fits convo found (tools ▸ some_tool)

/-! ## A search, announced and unannounced -/

section Search

def searcher : LoadedAgent where
  manifest := { name := ↑"chat-assistant", tools := [↑"web_search"] }
  prompt := ↑"Search."

def searchHost (rounds : List Round) : Host where
  settings := {}
  registry := [(↑"chat-assistant", searcher)]
  upstream := letterByLetter plainPython rounds
  columns := plainColumns
  runTool _ := .ok (.obj [(↑"results", .arr [])])
  durationMs := 7

def oneConversation : Ledger := .started { id := ↑"c" }

def searchCall : Text :=
  ↑"TOOL_CALL \x7b\"tool\": \"web_search\", \"args\": \x7b\"query\": \"k8s\"\x7d\x7d"

def searchRound : Round := ⟨searchCall, by decide, ↑"m:free", []⟩

def announcedSearch : List Round :=
  [searchRound, ⟨↑"Found.", by decide, ↑"m:free", []⟩]

theorem announcedSearch_agrees :
    SameTurn
      (Program.state ((send (searchHost announcedSearch) ↑"c" ↑"hi" none).run
        ⟨oneConversation, []⟩))
      (Program.state (sendStream (searchHost announcedSearch) toTheEnd ↑"c" ↑"hi" none
        ⟨oneConversation, []⟩)).session ∧
      (Program.state ((send (searchHost announcedSearch) ↑"c" ↑"hi" none).run
        ⟨oneConversation, []⟩)).ledger.toolCalls.length = 1 := by
  refine ⟨streamed_turn_agrees (searchHost announcedSearch) ↑"c" ↑"hi" none oneConversation
    announcedSearch (by decide) (letterByLetter_offers plainPython announcedSearch) ?_,
    by decide +kernel⟩
  rintro _ - - (_ | _ | i) r - there
  · cases there
    exact .inr (.inl ⟨[], _, rfl, by simp⟩)
  · cases there
    exact .inl rfl
  · cases there

def laterSearch : List Round :=
  [⟨↑"Let me search.\n" ++ searchCall, by decide, ↑"m:free", []⟩,
    ⟨↑"Found.", by decide, ↑"m:free", []⟩]

/-- A call that does not come first is made by `send` and shown by `send_stream`. -/
theorem laterSearch_disagrees :
    Offers (searchHost laterSearch).upstream laterSearch ∧
      0 ≤ (searchHost laterSearch).settings.chatMaxToolCalls ∧
      (Program.state ((send (searchHost laterSearch) ↑"c" ↑"hi" none).run
        ⟨oneConversation, []⟩)).ledger.toolCalls.length = 1 ∧
      (Program.state (sendStream (searchHost laterSearch) toTheEnd ↑"c" ↑"hi" none
        ⟨oneConversation, []⟩)).session.ledger.toolCalls.length = 0 ∧
      ¬ SameTurn
        (Program.state ((send (searchHost laterSearch) ↑"c" ↑"hi" none).run
          ⟨oneConversation, []⟩))
        (Program.state (sendStream (searchHost laterSearch) toTheEnd ↑"c" ↑"hi" none
          ⟨oneConversation, []⟩)).session := by
  have made : (Program.state ((send (searchHost laterSearch) ↑"c" ↑"hi" none).run
      ⟨oneConversation, []⟩)).ledger.toolCalls.length = 1 := by decide +kernel
  have shown : (Program.state (sendStream (searchHost laterSearch) toTheEnd ↑"c" ↑"hi" none
      ⟨oneConversation, []⟩)).session.ledger.toolCalls.length = 0 := by decide +kernel
  refine ⟨letterByLetter_offers plainPython laterSearch, by decide, made, shown, fun same => ?_⟩
  rw [same.toolCalls, made] at shown
  cases shown

end Search

end AgenticOctopus.Chat
