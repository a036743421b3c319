import AgenticOctopus.Chat.Agreement
import AgenticOctopus.Chat.Sse
import AgenticOctopus.Foundation.JsonRounding
import AgenticOctopus.Providers.ClaudeMessages

/-!
# Turns with Claude

The two translations of Claude's answers, of a whole message and of its stream, carry the same
text, model and usage, so a turn that is sent and a turn that is streamed come to the same.
-/
namespace AgenticOctopus.Chat
open Foundation Providers

/-! ## Claude as a provider -/

/-- What the reader hands on, and the exception that it ends with; `UnicodeDecodeError` is a
`ValueError`. -/
def received : EStateM.Result Stop (List SseEvent) Unit → Streamed
  | .ok _ seen => ⟨200, [], seen, none⟩
  | .error .returned seen => ⟨200, [], seen, none⟩
  | .error (.raised e) seen => ⟨200, [], seen, some e⟩
  | .error .undecodable seen => ⟨200, [], seen, some (.valueError [])⟩

/-- The Messages API, and what the clock and the HTTP library make of its answers. -/
structure ClaudeSide where
  py : Interpreter
  installedTags : List Text
  api : Claude.Api
  spell : Json → Text
  created : Nat → Int
  clock : Nat → Claude.Clock

namespace ClaudeSide

variable (side : ClaudeSide) (settings : Settings)

/-- `AnthropicChatProvider.stream`, as the `n`-th call, read by `_iter_sse_deltas`: each chunk of
bytes is one that `sse_from_stream` yields. -/
def openStream (n : Nat) (payload : Dict Text Json) : Except Raised Streamed := do
  let kwargs ← Claude.toAnthropicKwargs settings payload
  match side.api.stream n kwargs, Claude.requestedModel settings payload with
  | .ok stream, .str model =>
    let written := (Claude.sseFromStream (side.clock n) model stream).run []
    let failure :=
      match written with
      | .ok _ _ => none
      | .error e _ => some e
    let chunks := (Program.state written).map fun f => Bytes.ofText (f.text side.py)
    return received ((iterSseDeltas side.py chunks failure).run [])
  | .raised e, _ => throw e
  | _, _ => throw .httpError

/-- Each request is answered as the last of those so far. -/
def upstream : Upstream where
  py := side.py
  installedTags := side.installedTags
  respond reqs :=
    match reqs.getLast? with
    | some request => Claude.complete settings side.api side.spell (side.created reqs.length)
        reqs.length request.payload
    | none => throw .httpError
  openStream reqs :=
    match reqs.getLast? with
    | some request => side.openStream settings reqs.length request.payload
    | none => throw .httpError

end ClaudeSide

/-! ## Chunks that are read back -/

/-- A text that JSON carries: code points, and no surrogates. -/
def Clean (t : Text) : Prop := Json.InRange t ∧ t.wellFormed = true

instance (t : Text) : Decidable (Clean t) := inferInstanceAs (Decidable (_ ∧ _))

/-- An integer that Python reads. -/
def Short (n : Int) : Prop := (Nat.toDigits 10 n.natAbs).length ≤ intMaxStrDigits

instance (n : Int) : Decidable (Short n) := inferInstanceAs (Decidable (_ ≤ _))

def usageDict (final : Claude.FinalMessage) : Dict Text Json :=
  let prompt := final.inputTokens.getD 0
  let completion := final.outputTokens.getD 0
  [(↑"prompt_tokens", .int prompt), (↑"completion_tokens", .int completion),
    (↑"total_tokens", .int (prompt + completion))]

structure ShortUsage (final : Claude.FinalMessage) : Prop where
  prompt : Short (final.inputTokens.getD 0)
  completion : Short (final.outputTokens.getD 0)
  total : Short (final.inputTokens.getD 0 + final.outputTokens.getD 0)

section Chunks

variable {py : Interpreter} {created : Int} {msgId model : Text}

theorem clean_ofString (s : String) : Clean ↑s := by
  have valid : ∀ c ∈ (↑s : Text), c < 0x110000 ∧ Text.isSurrogate c = false := by
    intro c mem
    obtain ⟨char, -, rfl⟩ := List.mem_map.mp mem
    have range := char.valid
    simp only [Text.isSurrogate, Text.isHigh, Text.isLow, Char.toNat] at *
    rcases range with low | ⟨high, low⟩ <;> constructor <;> grind
  exact ⟨fun c mem => (valid c mem).1, List.all_eq_true.mpr fun c mem => by simp [valid c mem]⟩

/-- A value that is written in a chunk. -/
structure Carried (py : Interpreter) (v : Json) : Prop where
  fits : ∀ depth, Json.Serialisable py (depth + 1) v
  clean : Json.wellFormed v = true

theorem carried_null : Carried py .null := ⟨fun _ => trivial, rfl⟩

theorem carried_str {t : Text} (clean : Clean t) : Carried py (.str t) := ⟨fun _ => clean.1, clean.2⟩

theorem carried_usage {final : Claude.FinalMessage} (short : ShortUsage final) :
    Carried py (Claude.usage final) := by
  constructor
  · intro depth
    refine ⟨(by decide : ([↑"prompt_tokens", ↑"completion_tokens", ↑"total_tokens"] : List Text).Nodup),
      ?_⟩
    simp only [Json.SerialisableFields, Json.Serialisable]
    exact ⟨(clean_ofString _).1, short.prompt, (clean_ofString _).1, short.completion,
      (clean_ofString _).1, short.total, trivial⟩
  · rfl

theorem roundTrips_chunk (deep : 4 ≤ py.nesting) (time : Short created) (id : Clean msgId)
    (name : Clean model) {delta finish usage : Json} (holds : Carried py delta)
    (reason : Carried py finish) (counts : Carried py usage) :
    RoundTrips py (Claude.chunk created msgId model delta finish usage) := by
  obtain ⟨depth, nesting⟩ : ∃ depth, py.nesting = depth + 4 := ⟨py.nesting - 4, by omega⟩
  let choice : Json :=
    .obj [(↑"index", .int 0), (↑"delta", delta), (↑"finish_reason", finish)]
  have choice_fits : Json.Serialisable py (depth + 2) choice := by
    refine ⟨(by decide : ([↑"index", ↑"delta", ↑"finish_reason"] : List Text).Nodup), ?_⟩
    simp only [Json.SerialisableFields]
    exact ⟨(clean_ofString _).1, (by decide : Short 0), (clean_ofString _).1, holds.fits depth,
      (clean_ofString _).1, reason.fits depth, trivial⟩
  have choice_clean : Json.wellFormed choice = true := by
    simp [choice, Json.wellFormed, Json.wellFormedFields, holds.clean, reason.clean,
      (clean_ofString _).2]
  have fields_fit : ∀ fields, Json.SerialisableFields py (depth + 3) fields →
      Json.SerialisableFields py (depth + 3) ((↑"id", .str msgId) ::
        (↑"object", .str ↑"chat.completion.chunk") :: (↑"created", .int created) ::
        (↑"model", .str model) :: (↑"choices", .arr [choice]) :: fields) := by
    intro fields fit
    simp only [Json.SerialisableFields]
    exact ⟨(clean_ofString _).1, id.1, (clean_ofString _).1, (clean_ofString _).1,
      (clean_ofString _).1, time, (clean_ofString _).1, name.1, (clean_ofString _).1,
      ⟨choice_fits, trivial⟩, fit⟩
  have fields_clean : ∀ fields, Json.wellFormedFields fields = true →
      Json.wellFormedFields ((↑"id", .str msgId) ::
        (↑"object", .str ↑"chat.completion.chunk") :: (↑"created", .int created) ::
        (↑"model", .str model) :: (↑"choices", .arr [choice]) :: fields) = true := by
    intro fields clean
    simp [Json.wellFormedFields, Json.wellFormed, Json.wellFormedItems, clean, choice_clean, id.2,
      name.2, (clean_ofString _).2]
  refine Json.loads_dumped ?_ ?_
  · rw [nesting]
    unfold Claude.chunk
    dsimp only
    split_ifs
    · exact ⟨(by decide : ([↑"id", ↑"object", ↑"created", ↑"model", ↑"choices", ↑"usage"] :
        List Text).Nodup), fields_fit [(↑"usage", usage)]
          ⟨(clean_ofString _).1, counts.fits (depth + 2), trivial⟩⟩
    · exact ⟨(by decide : ([↑"id", ↑"object", ↑"created", ↑"model", ↑"choices"] :
        List Text).Nodup), fields_fit [] trivial⟩
  · unfold Claude.chunk
    dsimp only
    split_ifs
    · exact fields_clean [(↑"usage", usage)] (by
        simp [Json.wellFormedFields, counts.clean, (clean_ofString _).2])
    · exact fields_clean [] rfl

/-! ### The frames of a stream -/

/-- A chunk that was written is read back. -/
def ReadBack (py : Interpreter) (frames : List Frame) : Prop :=
  ∀ v, .data v ∈ frames → RoundTrips py v

/-- An event whose text or id JSON carries. -/
def CleanEvent : Claude.MessageEvent → Prop
  | .messageStart id => Clean id
  | .textDelta text => Clean text
  | .other => True

theorem readBack_append {frames : List Frame} (before : ReadBack py frames) {v : Json}
    (trips : RoundTrips py v) : ReadBack py (frames ++ [.data v]) := by
  intro w mem
  obtain mem | last := List.mem_append.mp mem
  · exact before w mem
  · cases List.mem_singleton.mp last
    exact trips

theorem carried_content {t : Text} (clean : Clean t) :
    Carried py (.obj [(↑"content", .str t)]) := by
  constructor
  · intro depth
    refine ⟨List.nodup_singleton _, ?_⟩
    simp only [Json.SerialisableFields]
    exact ⟨(clean_ofString _).1, clean.1, trivial⟩
  · simp [Json.wellFormed, Json.wellFormedFields, clean.2, (clean_ofString _).2]

theorem carried_opening : Carried py Claude.opening := by
  constructor
  · intro depth
    refine ⟨(by decide : ([↑"role", ↑"content"] : List Text).Nodup), ?_⟩
    simp only [Json.SerialisableFields]
    exact ⟨(clean_ofString _).1, (clean_ofString _).1, (clean_ofString _).1, (clean_ofString _).1,
      trivial⟩
  · decide

variable {clock : Claude.Clock}

theorem readBack_translate (deep : 4 ≤ py.nesting) (times : ∀ n, Short (clock n))
    (name : Clean model) {events : List Claude.MessageEvent}
    (clean : ∀ event ∈ events, CleanEvent event) :
    ∀ {msgId : Text}, Clean msgId → ∀ {frames : List Frame}, ReadBack py frames →
      ∃ last frames', (Claude.translate clock model msgId events).run frames = .ok last frames' ∧
        Clean last ∧ ReadBack py frames' := by
  induction events with
  | nil => exact fun id frames before => ⟨_, frames, rfl, id, before⟩
  | cons event events ih =>
    rw [List.forall_mem_cons] at clean
    intro msgId id frames before
    cases event with
    | messageStart msgId' => exact ih clean.2 clean.1 before
    | other => exact ih clean.2 id before
    | textDelta text =>
      refine ih clean.2 id (readBack_append before ?_)
      exact roundTrips_chunk deep (times _) id name (carried_content clean.1) carried_null
        carried_null

theorem clean_finishReason (stopReason : Option Text) :
    Clean (Claude.finishReason stopReason) := by
  cases stopReason with
  | none => exact clean_ofString "stop"
  | some reason =>
    simp only [Claude.finishReason, Option.bind_some, Claude.finishReasons, Dict.get?_cons]
    split_ifs <;> exact clean_ofString _

theorem readBack_sseFromStream (deep : 4 ≤ py.nesting) (times : ∀ n, Short (clock n))
    (name : Clean model) {events : List Claude.MessageEvent}
    (clean : ∀ event ∈ events, CleanEvent event) {final : Claude.FinalMessage}
    (short : ShortUsage final) {frames : List Frame}
    (wrote : (Claude.sseFromStream clock model ⟨events, .ok final⟩).run [] = .ok () frames) :
    ReadBack py frames := by
  have id := clean_ofString "chatcmpl-octo-claude"
  have none_yet : ReadBack py [] := fun v mem => absurd mem List.not_mem_nil
  have opened := readBack_append none_yet
    (roundTrips_chunk deep (times 0) id name carried_opening carried_null carried_null)
  obtain ⟨last, frames', translated, last_id, translated_back⟩ :=
    readBack_translate deep times name clean id opened
  have ended : Carried py (.obj []) := ⟨fun _ => ⟨List.nodup_nil, trivial⟩, rfl⟩
  have closed := readBack_append translated_back (roundTrips_chunk deep (times frames'.length)
    last_id name ended (carried_str (clean_finishReason final.stopReason)) (carried_usage short))
  have opens : (Claude.yieldChunk clock model ↑"chatcmpl-octo-claude" Claude.opening).run [] =
      .ok () ([] ++ [.data (Claude.chunk (clock 0) ↑"chatcmpl-octo-claude" model Claude.opening
        .null .null)]) := rfl
  have closes : (Claude.yieldChunk clock model last (.obj [])
      (.str (Claude.finishReason final.stopReason)) (Claude.usage final)).run frames' =
      .ok () (frames' ++ [.data (Claude.chunk (clock frames'.length) last model (.obj [])
        (.str (Claude.finishReason final.stopReason)) (Claude.usage final))]) := rfl
  rw [Claude.sseFromStream, Program.run_bind_ok opens, Program.run_bind_ok translated,
    Program.raises_ok_bind, Program.run_bind_ok closes, EStateM.run_modify] at wrote
  cases wrote
  intro v mem
  obtain mem | done := List.mem_append.mp mem
  · exact closed v mem
  · cases List.mem_singleton.mp done

end Chunks

/-! ## Rounds of Claude -/

/-- One answer of Claude's, as a message and as the events of its stream: the deltas make up the
text of the message, its model is the one that was asked, and JSON carries what is written. -/
structure Reply (model : Text) where
  message : Claude.AnthropicMessage
  events : List Claude.MessageEvent
  ink : message.text ≠ []
  same : Text.join (Claude.texts events) = message.text
  named : message.model = model
  clean : ∀ event ∈ events, CleanEvent event
  short : ShortUsage message.final

def Reply.round {model : Text} (r : Reply model) : Round where
  text := r.message.text
  ink := r.ink
  model := r.message.model
  usage := usageDict r.message.final

theorem Reply.whole {model : Text} (r : Reply model) (py : Interpreter) (spell : Json → Text)
    (created : Int) : r.round.Whole py
      (Claude.jsonResponse spell 200 (Claude.toOpenaiResponse created r.message)) where
  status := rfl
  read _ := rfl

theorem textOf_append (events events' : List SseEvent) :
    textOf (events ++ events') = textOf events ++ textOf events' := by
  fun_induction textOf events with
  | case1 => rfl
  | case2 text events ih => rw [List.cons_append, textOf, ih, List.append_assoc]
  | case3 event events other ih =>
    rw [List.cons_append, textOf.eq_3 _ _ other, ih]

theorem mem_announced {model : Text} {event : SseEvent} :
    event ∈ announced model ↔ model ≠ [] ∧ event = .model (.str model) := by
  unfold announced
  split_ifs with blank <;> simp [blank]

theorem mem_shown {text : Text} {event : SseEvent} :
    event ∈ shown text ↔ text ≠ [] ∧ event = .delta (.str text) := by
  unfold shown
  split_ifs with blank <;> simp [blank]

theorem mem_delivered {model : Text} {texts : List Text} {usage : Json} {event : SseEvent} :
    event ∈ delivered model texts usage ↔ (model ≠ [] ∧ event = .model (.str model)) ∨
      (∃ text ∈ texts, text ≠ [] ∧ event = .delta (.str text)) ∨ event = .usage usage := by
  simp only [delivered, List.mem_append, List.mem_flatMap, List.mem_singleton, mem_announced,
    mem_shown]
  grind

theorem textOf_delivered (model : Text) (texts : List Text) (usage : Json) :
    textOf (delivered model texts usage) = Text.join texts := by
  have silent : textOf (announced model) = [] := by
    unfold announced
    split_ifs <;> rfl
  have one (text : Text) : textOf (shown text) = text := by
    unfold shown
    split_ifs with blank
    · exact blank.symm
    · exact List.append_nil text
  have all : textOf (texts.flatMap fun text => announced model ++ shown text) = Text.join texts := by
    induction texts with
    | nil => rfl
    | cons text texts ih =>
      rw [List.flatMap_cons, textOf_append, ih, textOf_append, silent, one]
      rfl
  unfold delivered
  rw [textOf_append, textOf_append, silent, all, textOf_append, silent]
  simp [textOf]

theorem delivered_streams {model : Text} (r : Reply model) :
    r.round.Streams ⟨200, [], delivered r.message.model (Claude.texts r.events)
      (Claude.usage r.message.final), none⟩ := by
  refine ⟨rfl, rfl, (textOf_delivered _ _ _).trans r.same, ?_, ?_, ?_, ?_, ?_⟩
  · intro content mem
    obtain ⟨-, is⟩ | ⟨text, -, ink, is⟩ | is := mem_delivered.mp mem <;> cases is
    exact ⟨text, ink, rfl⟩
  · intro m mem
    obtain ⟨named, is⟩ | ⟨text, -, ink, is⟩ | is := mem_delivered.mp mem <;> cases is
    exact ⟨named, rfl⟩
  · intro named
    change r.message.model ≠ [] at named
    unfold delivered announced
    rw [if_neg named]
    rfl
  · intro u mem
    obtain ⟨-, is⟩ | ⟨text, -, ink, is⟩ | is := mem_delivered.mp mem <;> cases is
    exact ⟨List.cons_ne_nil _ _, rfl⟩
  · intro _
    exact mem_delivered.mpr (.inr (.inr rfl))

/-! ## The provider of a turn -/

/-- The frames go over the wire one by one. -/
theorem wire_chunks {py : Interpreter} (floats : Json.PrintableFloats py) (fs : List Frame) :
    Frame.wire py fs = some (fs.map fun f => Bytes.ofText (f.text py)).flatten := by
  rw [Frame.wire_eq floats]
  congr 1
  induction fs with
  | nil => rfl
  | cons f fs ih => rw [List.flatMap_cons, Bytes.ofText_append, ih, List.map_cons, List.flatten_cons]

/-- The Messages API that gives these answers, one for each call, and then fails. -/
def answering {model : Text} (replies : List (Reply model)) : Claude.Api where
  create n _ :=
    match replies[n - 1]? with
    | some r => .ok r.message
    | none => .raised .httpError
  stream n _ :=
    match replies[n - 1]? with
    | some r => .ok ⟨r.events, .ok r.message.final⟩
    | none => .raised .httpError

/-- A conversation is with Claude. -/
def WithClaude (convo : Conversation) : Prop :=
  orDefault convo.model ↑"default" = Claude.claudeModel ∨
    (orDefault convo.model ↑"default").startswith ↑"claude-" = true

section Provider

variable {settings : Settings}

theorem exists_kwargs (settings : Settings) (model : Text) (context : List ChatMessage) :
    ∃ kwargs, Claude.toAnthropicKwargs settings (payload model context) = .ok kwargs := by
  have texts : payload model context = [(↑"model", .str model), (↑"messages", .arr
      ((context.map fun m => (m.role, m.content)).map fun m => Claude.messageJson m.1 m.2))] := by
    simp [payload, ChatMessage.json, Claude.messageJson]
  rw [texts, Claude.toAnthropicKwargs_texts]
  exact ⟨_, rfl⟩

/-- A model of Claude's that was resolved is asked for as it is. -/
theorem requestedModel_resolved {requested : Text}
    (claude : requested = Claude.claudeModel ∨ requested.startswith ↑"claude-" = true)
    (context : List ChatMessage) :
    Claude.requestedModel settings (payload (Claude.resolveModel settings requested) context) =
      .str (Claude.resolveModel settings requested) := by
  have twice (model : Text) : Claude.requestedModel settings (payload model context) =
      .str (Claude.resolveModel settings (if model = [] then ↑"default" else model)) := by
    cases model <;> rfl
  have default : Claude.resolveModel settings ↑"default" = settings.anthropicDefaultModel :=
    if_pos (.inl rfl)
  rw [twice]
  congr 1
  obtain rfl | marked := claude
  · have resolved : Claude.resolveModel settings Claude.claudeModel =
        settings.anthropicDefaultModel := if_pos (.inr rfl)
    rw [resolved]
    split_ifs
    · exact default
    · exact ite_self _
  · have other : ¬ (requested = ↑"default" ∨ requested = Claude.claudeModel) := by
      rintro (rfl | rfl) <;> cases marked
    have ink : requested ≠ [] := by
      rintro rfl
      cases marked
    have resolved : Claude.resolveModel settings requested = requested := if_neg other
    rw [resolved, if_neg ink, resolved]

variable {side : ClaudeSide} {p : Prepared} {replies : List (Reply p.model)}

theorem claude_delivers (floats : Json.PrintableFloats side.py) (deep : 4 ≤ side.py.nesting)
    (times : ∀ n i, Short (side.clock n i)) (answers : side.api = answering replies)
    (name : Clean p.model)
    (asked : ∀ context, Claude.requestedModel settings (payload p.model context) = .str p.model) :
    Delivers (side.upstream settings) p (replies.map Reply.round) where
  whole reqs context := by
    obtain ⟨kwargs, goes⟩ := exists_kwargs settings p.model context
    dsimp only [ClaudeSide.upstream]
    rw [List.getLast?_concat, List.getElem?_map]
    dsimp only
    rw [Claude.complete, goes, answers]
    simp only [answering, List.length_append, List.length_singleton, Nat.add_sub_cancel]
    cases replies[reqs.length]? with
    | none => rfl
    | some r => exact ⟨_, rfl, r.whole side.py side.spell _⟩
  inDeltas reqs context := by
    obtain ⟨kwargs, goes⟩ := exists_kwargs settings p.model context
    dsimp only [ClaudeSide.upstream]
    rw [List.getLast?_concat, List.getElem?_map]
    dsimp only
    rw [ClaudeSide.openStream, goes, answers, asked]
    simp only [answering, List.length_append, List.length_singleton, Nat.add_sub_cancel]
    cases replies[reqs.length]? with
    | none => rfl
    | some r =>
      let n := reqs.length + 1
      obtain ⟨first, deltas, last, written, -⟩ :=
        Claude.run_sseFromStream (side.clock n) p.model r.events r.message.final
      have back := readBack_sseFromStream deep (times n) name r.clean r.short written
      have read := @iterSseDeltas_claude _ _ floats _ _ _ _ _ none written back
        (wire_chunks floats _)
      refine ⟨_, ?_, delivered_streams r⟩
      change Except.ok (received ((iterSseDeltas side.py ((Program.state
        ((Claude.sseFromStream (side.clock n) p.model ⟨r.events, .ok r.message.final⟩).run [])).map
          fun f => Bytes.ofText (f.text side.py)) _).run [])) = _
      rw [written, r.named]
      dsimp only [Program.state]
      rw [read]
      rfl

end Provider

/-! ## Whole turns -/

theorem route_claude {settings : Settings} {upstream : Upstream} {requested model name : Text}
    {provider : Provider}
    (claude : requested = Claude.claudeModel ∨ requested.startswith ↑"claude-" = true)
    (routed : routeChatModel settings upstream requested = .ok (provider, model, name)) :
    model = Claude.resolveModel settings requested := by
  have elsewhere : requested.startswith Ollama.localPrefix = false := by
    obtain rfl | marked := claude
    · decide
    · by_contra marked'
      rw [Bool.not_eq_false, Text.startswith_iff] at marked'
      obtain ⟨t, rfl⟩ := marked'
      cases marked
  unfold routeChatModel at routed
  rw [if_neg (by simp [elsewhere]), if_pos claude] at routed
  split_ifs at routed
  cases routed
  rfl

/-- A turn with Claude that is streamed and one that is sent come to the same: the same requests,
the same tool calls and rows of the same contents. -/
theorem claude_turn_agrees (host : Host) (side : ClaudeSide)
    (behind : host.upstream = side.upstream host.settings)
    (floats : Json.PrintableFloats side.py) (deep : 4 ≤ side.py.nesting)
    (times : ∀ n i, Short (side.clock n i)) (budget : 0 ≤ host.settings.chatMaxToolCalls)
    (ledger : Ledger) (conversationId : ConversationId) {convo : Conversation}
    (found : getConversation ledger conversationId = some convo) (claude : WithClaude convo)
    (name : Clean (Claude.resolveModel host.settings (orDefault convo.model ↑"default")))
    (replies : List (Reply (Claude.resolveModel host.settings
      (orDefault convo.model ↑"default")))) (answers : side.api = answering replies)
    (fits : toolsFor host.settings convo.persona host.registry ≠ [] → ∀ (i : Nat),
      i ≤ host.settings.chatMaxToolCalls → ∀ r, replies[i]? = some r →
        Fits host i r.message.text)
    (userText : Text) (tags : Option (Dict Text Json)) :
    SameTurn
      (Program.state ((send host conversationId userText tags).run ⟨ledger, []⟩))
      (Program.state (sendStream host toTheEnd conversationId userText tags
        ⟨ledger, []⟩)).session := by
  unfold send sendStream
  cases prepared : (prepare host conversationId userText).run ledger with
  | error e ledger' =>
    rw [Program.run_bind_error (Program.run_zoom_error (l := onLedger) prepared),
      Program.run_zoom_error (l := onLedger) prepared]
    exact SameSoFar.sameTurn ⟨rfl, rfl⟩
  | ok p ledger' =>
    obtain ⟨convo', found', routed, tools⟩ := prepare_ok host prepared
    rw [found] at found'
    cases found'
    have model := route_claude claude routed
    obtain ⟨provider, providerName, _, context, allowedTools, persona⟩ := p
    dsimp only at model tools
    subst model tools
    rw [Program.run_bind_ok (Program.run_zoom_ok (l := onLedger) prepared),
      Program.run_zoom_ok (l := onLedger) prepared]
    have delivers : Delivers (side.upstream host.settings)
        ⟨provider, providerName, _, context, toolsFor host.settings convo.persona host.registry,
          persona⟩ (replies.map Reply.round) :=
      claude_delivers floats deep times answers name (requestedModel_resolved claude)
    rw [← behind] at delivers
    refine delivered_alike host conversationId _ delivers budget ?_ ⟨rfl, rfl⟩ rfl tags
    intro some_tool i r within there
    rw [List.getElem?_map, Option.map_eq_some_iff] at there
    obtain ⟨reply, there, rfl⟩ := there
    exact fits some_tool i within reply there

/-! ## A search with Claude -/

section Search

def opted : Settings := { anthropicApiKey := ↑"sk-ant" }

def claudeConversation : Conversation := { id := ↑"c", model := some Claude.claudeModel }

def opus : Text := Claude.resolveModel opted (orDefault claudeConversation.model ↑"default")

/-- A message of one block, which the stream cuts after its first character. -/
def spokenReply (text : Text) (ink : text ≠ []) (clean : Clean text) : Reply opus where
  message := ⟨↑"msg_1", opus, [.text text], ⟨some ↑"end_turn", some 20, some 5⟩⟩
  events := [.messageStart ↑"msg_1", .textDelta (text.take 1), .other, .textDelta (text.drop 1)]
  ink := by simpa [Claude.AnthropicMessage.text, Text.join] using ink
  same := by
    have whole : text.take 1 ++ text.drop 1 = text := List.take_append_drop 1 text
    simpa [Claude.texts, Claude.AnthropicMessage.text, Text.join] using whole
  named := rfl
  clean := by
    have kept : ∀ t : Text, t ⊆ text → Clean t := fun t sub =>
      ⟨fun c mem => clean.1 c (sub mem), List.all_eq_true.mpr fun c mem =>
        List.all_eq_true.mp clean.2 c (sub mem)⟩
    have first := kept (text.take 1) (List.take_subset 1 text)
    have rest := kept (text.drop 1) (List.drop_subset 1 text)
    simp only [List.forall_mem_cons, CleanEvent]
    exact ⟨clean_ofString _, first, trivial, rest, by simp⟩
  short := ⟨(by decide : Short 20), (by decide : Short 5), (by decide : Short (20 + 5))⟩

theorem searchCall_ink : searchCall ≠ [] := by decide

theorem searchCall_clean : Clean searchCall := by decide

def foundText : Text := ↑"Found."

theorem foundText_ink : foundText ≠ [] := by decide

theorem foundText_clean : Clean foundText := by decide

def claudeSearch : List (Reply opus) :=
  [spokenReply searchCall searchCall_ink searchCall_clean,
    spokenReply foundText foundText_ink foundText_clean]

def claudeSide : ClaudeSide where
  py := plainPython
  installedTags := []
  api := answering claudeSearch
  spell _ := ↑"\x7b\x7d"
  created _ := 1760000000
  clock _ _ := 1760000000

def claudeHost : Host :=
  { searchHost [] with settings := opted, upstream := claudeSide.upstream opted }

theorem claudeSearch_agrees :
    SameTurn
      (Program.state ((send claudeHost ↑"c" ↑"hi" none).run ⟨.started claudeConversation, []⟩))
      (Program.state (sendStream claudeHost toTheEnd ↑"c" ↑"hi" none
        ⟨.started claudeConversation, []⟩)).session ∧
      (Program.state ((send claudeHost ↑"c" ↑"hi" none).run
        ⟨.started claudeConversation, []⟩)).ledger.toolCalls.length = 1 := by
  refine ⟨claude_turn_agrees claudeHost claudeSide rfl printableFloats_plainPython (by decide)
    (fun _ _ => (by decide : Short 1760000000)) (by decide) (.started claudeConversation) ↑"c" rfl
    (.inl rfl) (by decide) claudeSearch rfl ?_ ↑"hi" none, by decide +kernel⟩
  rintro - (_ | _ | i) - r there
  · cases there
    exact .inr (.inl ⟨[], _, rfl, by simp⟩)
  · cases there
    exact .inl rfl
  · cases there

end Search

end AgenticOctopus.Chat
