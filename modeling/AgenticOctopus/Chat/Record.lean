import AgenticOctopus.Foundation.Triple
import AgenticOctopus.Chat.Streaming

/-!
# What was streamed is what is stored

Text leaves the generator from several places, and each of them adds it to the stored parts
in step with the yield. So wherever the generator ends, the row that its `finally` block
appends holds what the consumer was handed.
-/
namespace AgenticOctopus.Chat
open Foundation Providers Program

/-! ## Rows of the assistant -/

def assistantRows (ledger : Ledger) : List Message :=
  ledger.messages.rows.filter fun m => m.role = .assistant

/-- A row of another role changes nothing here. -/
theorem aside_assistantRows (base : List Message) :
    Aside fun rows => (rows.filter fun m => m.role = .assistant) = base := by
  intro rows m other _ same
  rw [List.filter_append, same]
  simp [other]

variable (host : Host) (consumer : Consumer)

/-! ## In step -/

def StreamEvent.IsCall : StreamEvent → Prop
  | .toolStatus _ _ _ => True
  | _ => False

/-- No text has left the generator: it yielded tool calls only. -/
structure Quiet (base : List Message) (s : Streaming) : Prop where
  calls : ∀ event ∈ s.yielded, event.IsCall
  parts : s.parts = []
  rows : assistantRows s.session.ledger = base
  running : s.completed = false
  first : s.prefixDone = false

/-- Tool calls and then the parts were yielded. What is no text comes behind some text. -/
structure Shows (base : List Message) (completed : Bool) (s : Streaming) : Prop where
  events : ∃ calls, s.yielded = calls ++ s.parts.map .chunk ∧ ∀ event ∈ calls, event.IsCall
  texts : textsOf s.parts ≠ [] ∨ ∀ content ∈ s.parts, ∃ text, content = .str text
  rows : assistantRows s.session.ledger = base
  status : s.completed = completed

/-- Like `Quiet`, but a lead-in was put into the parts and is yet to be yielded. -/
structure Owes (base : List Message) (lead : Text) (s : Streaming) : Prop where
  calls : ∀ event ∈ s.yielded, event.IsCall
  parts : s.parts = if lead = [] then [] else [.str lead]
  rows : assistantRows s.session.ledger = base
  running : s.completed = false

variable {base : List Message}

theorem Quiet.shows {s : Streaming} (quiet : Quiet base s) : Shows base false s where
  events := ⟨s.yielded, by simp [quiet.parts], quiet.calls⟩
  texts := .inr (by simp [quiet.parts])
  rows := quiet.rows
  status := quiet.running

theorem Owes.shows_nothing {s : Streaming} (owes : Owes base [] s) : Shows base false s where
  events := ⟨s.yielded, by simp [owes.parts], owes.calls⟩
  texts := .inr (by simp [owes.parts])
  rows := owes.rows
  status := owes.running

theorem Owes.shows_lead {s : Streaming} {lead : Text} (owes : Owes base lead s)
    (owed : lead ≠ []) :
    Shows base false { s with yielded := s.yielded ++ [.chunk (.str lead)] } where
  events := ⟨s.yielded, by simp [owes.parts, owed], owes.calls⟩
  texts := .inr (by simp [owes.parts, owed])
  rows := owes.rows
  status := owes.running

theorem textsOf_concat_ne_nil {contents : List Json} {content : Json}
    (ink : textsOf contents ≠ [] ∨ ∃ text, text ≠ [] ∧ content = .str text) :
    textsOf (contents ++ [content]) ≠ [] := by
  rw [textsOf_append]
  rcases ink with ink | ⟨text, ink, rfl⟩
  · exact List.append_ne_nil_of_left_ne_nil ink _
  · exact List.append_ne_nil_of_right_ne_nil _ (by simpa [textsOf] using ink)

/-- One content more, which is a text unless there is one before it. -/
theorem Shows.passed {s : Streaming} {content : Json} (shows : Shows base false s)
    (legible : textsOf s.parts ≠ [] ∨ ∃ text, content = .str text) :
    Shows base false
      { s with parts := s.parts ++ [content], yielded := s.yielded ++ [.chunk content] } where
  events := by
    obtain ⟨calls, yielded, are_calls⟩ := shows.events
    exact ⟨calls, by simp [yielded], are_calls⟩
  texts := by
    rcases shows.texts with ink | texts
    · exact .inl (textsOf_concat_ne_nil (.inl ink))
    · rcases legible with ink | is_text
      · exact .inl (textsOf_concat_ne_nil (.inl ink))
      · refine .inr fun other mem => ?_
        rcases List.mem_append.mp mem with mem | mem
        · exact texts other mem
        · exact List.mem_singleton.mp mem ▸ is_text
  rows := shows.rows
  status := shows.status

/-- Something was shown, and some of it is a text. -/
def Inked (base : List Message) (s : Streaming) : Prop :=
  Shows base false s ∧ textsOf s.parts ≠ []

/-- A yield comes after its event, whether the consumer closes the generator there or not. -/
theorem triple_emit {I : Streaming → Prop} (event : StreamEvent) :
    Triple (fun s => I { s with yielded := s.yielded ++ [event] }) (emit consumer event)
      (fun _ => I) (fun _ => I) := by
  have yields : Triple (fun s => I { s with yielded := s.yielded ++ [event] })
      (modify fun s => { s with yielded := s.yielded ++ [event] } : Program Raised Streaming PUnit)
      (fun _ => I) (fun _ => I) := triple_modify fun _ holds => holds
  refine triple_bind yields fun _ => triple_get_bind fun s holds => ?_
  split
  · exact holds
  · exact holds

theorem triple_passOn {I : Streaming → Prop} (content : Json) :
    Triple
      (fun s => I
        { s with parts := s.parts ++ [content], yielded := s.yielded ++ [.chunk content] })
      (passOn consumer content) (fun _ => I) (fun _ => I) :=
  triple_bind (triple_modify fun _ holds => holds) fun _ => triple_emit consumer (.chunk content)

theorem triple_passOn_text (text : Text) :
    Triple (Shows base false) (passOn consumer (.str text))
      (fun _ s => Shows base false s ∧ (text ≠ [] → textsOf s.parts ≠ []))
      (fun _ => Shows base false) := by
  refine (triple_passOn consumer (.str text)).mono (fun s shows => ?_) (fun _ _ after => after)
    fun _ _ after => after.1
  exact ⟨shows.passed (.inr ⟨text, rfl⟩), fun ink => textsOf_concat_ne_nil (.inr ⟨text, ink, rfl⟩)⟩

theorem triple_prefixChunk (p : Prepared) :
    Triple (Quiet base) (prefixChunk host p) (fun lead => Owes base lead)
      (fun _ => Shows base false) := by
  refine triple_get_bind fun s quiet => ?_
  split
  · exact ⟨quiet.calls, by rw [quiet.parts]; rfl, quiet.rows, quiet.running⟩
  · refine ⟨quiet.calls, ?_, quiet.rows, quiet.running⟩
    simp only [quiet.parts, List.nil_append]

/-- What was held back leaves behind the lead-in. -/
theorem triple_flush (p : Prepared) (text : Text) :
    Triple (Quiet base) (flush host consumer p text)
      (fun _ s => Shows base false s ∧ (text ≠ [] → textsOf s.parts ≠ []))
      (fun _ => Shows base false) := by
  refine triple_bind (triple_prefixChunk host p) fun lead => ?_
  refine triple_ite (fun owed => ?_) fun none_owed => ?_
  · exact triple_bind ((triple_emit consumer (.chunk (.str lead))).pre fun _ owes =>
      owes.shows_lead owed) fun _ => triple_passOn_text consumer text
  · rw [not_not] at none_owed
    subst none_owed
    exact (triple_passOn_text consumer text).pre fun s owes => owes.shows_nothing

/-! ## Rounds -/

/-- While a round comes in, text has left the generator only if the round was told to be no
tool round. -/
def During (base : List Message) (r : RoundState) (s : Streaming) : Prop :=
  if r.decided && !r.toolRound then Inked base s else Quiet base s

theorem During.shows {r : RoundState} {s : Streaming} (during : During base r s) :
    Shows base false s := by
  unfold During at during
  split at during
  · exact during.1
  · exact during.shows

/-- The usage and the model are no part of it. -/
theorem During.of_same {r : RoundState} {s t : Streaming} (during : During base r s)
    (session : t.session = s.session) (yielded : t.yielded = s.yielded) (parts : t.parts = s.parts)
    (completed : t.completed = s.completed) (prefixDone : t.prefixDone = s.prefixDone) :
    During base r t := by
  unfold During at during ⊢
  split at during
  next showing =>
    rw [if_pos showing]
    obtain ⟨shows, ink⟩ := during
    exact ⟨⟨by rw [yielded, parts]; exact shows.events, by rw [parts]; exact shows.texts,
      by rw [session]; exact shows.rows, completed.trans shows.status⟩, by rwa [parts]⟩
  next silent =>
    rw [if_neg silent]
    exact ⟨by rw [yielded]; exact during.calls, parts.trans during.parts,
      by rw [session]; exact during.rows, completed.trans during.running,
      prefixDone.trans during.first⟩

theorem triple_onDelta (p : Prepared) (r : RoundState) (content : Json) :
    Triple (During base r) (onDelta host consumer p r content)
      (fun r => During base r) (fun _ => Shows base false) := by
  unfold onDelta
  dsimp only
  refine triple_ite (fun decided => ?_) fun undecided => ?_
  · cases tool : r.toolRound with
    | true => exact triple_pure fun s during => by simpa [During, decided, tool] using during
    | false =>
      have inked : ∀ s, During base r s → Inked base s := fun s during => by
        simpa [During, decided, tool] using during
      have passes : Triple (Inked base) (passOn consumer content) (fun _ => Inked base)
          (fun _ => Shows base false) := by
        refine (triple_passOn consumer content).mono ?_ (fun _ _ after => after)
          fun _ _ after => after.1
        exact fun s ⟨shows, ink⟩ => ⟨shows.passed (.inl ink), textsOf_concat_ne_nil (.inl ink)⟩
      refine triple_bind (passes.pre inked) fun _ => ?_
      exact triple_pure fun s inked => by simpa [During, decided, tool] using inked
  · have quiet : ∀ s, During base r s → Quiet base s := by
      intro s during
      simpa [During, undecided] using during
    refine triple_bind (Q := fun _ => Quiet base) (triple_raises (fun _ s _ during => quiet s during)
      fun _ s during => during.shows) fun text => ?_
    refine triple_ite (fun decides => ?_) fun _ => ?_
    · have ink : r.held ++ text ≠ [] := by
        intro blank
        rw [blank] at decides
        exact absurd decides (by decide)
      refine triple_ite (fun shown => ?_) fun hidden => ?_
      · have no_tool := (Bool.and_eq_true _ _ ▸ shown).1
        refine triple_bind (triple_flush host consumer p _) fun _ => ?_
        refine triple_pure fun s shows => ?_
        simpa [During, no_tool] using ⟨shows.1, shows.2 ink⟩
      · have tool : startsToolRound p (r.held ++ text).lstrip = true := by
          simpa [ink] using hidden
        exact triple_pure fun s quiet => by simpa [During, tool] using quiet
    · exact triple_pure fun s quiet => by simpa [During, undecided] using quiet

theorem triple_consume (p : Prepared) (events : List SseEvent) (r : RoundState) :
    Triple (During base r) (consume host consumer p r events)
      (fun r => During base r) (fun _ => Shows base false) := by
  induction events generalizing r with
  | nil => exact triple_pure fun s during => during
  | cons event events ih =>
    cases event with
    | usage usage =>
      refine triple_bind (triple_modify fun s during => ?_) fun _ => ih r
      exact during.of_same rfl rfl rfl rfl rfl
    | model model =>
      refine triple_bind (triple_modify fun s during => ?_) fun _ => ih r
      exact during.of_same rfl rfl rfl rfl rfl
    | delta content => exact triple_bind (triple_onDelta host consumer p r content) ih

/-- After the decision, nothing has left the generator in a tool round. -/
theorem triple_decideLate (p : Prepared) (r : RoundState) (fullRound : Text) :
    Triple (During base r) (decideLate host consumer p r fullRound)
      (fun toolRound s => if toolRound then Quiet base s else Shows base false s)
      (fun _ => Shows base false) := by
  unfold decideLate
  refine triple_ite (fun decided => ?_) fun undecided => ?_
  · refine triple_pure fun s during => ?_
    cases tool : r.toolRound with
    | true => simpa [During, decided, tool] using during
    | false => simpa using during.shows
  · have quiet : ∀ s, During base r s → Quiet base s := by
      intro s during
      simpa [During, undecided] using during
    dsimp only
    refine triple_ite (fun shown => ?_) fun hidden => ?_
    · have no_tool := (Bool.and_eq_true _ _ ▸ shown).1
      refine triple_bind ((triple_flush host consumer p _).pre quiet) fun _ => ?_
      rw [Bool.not_eq_true'] at no_tool
      exact triple_pure fun s shows => by simpa [no_tool] using shows.1
    · refine triple_pure fun s during => ?_
      split
      · exact quiet s during
      · exact (quiet s during).shows

theorem triple_markCompleted :
    Triple (Shows base false) markCompleted (fun _ => Shows base true)
      (fun _ => Shows base false) :=
  triple_modify fun _ shows => ⟨shows.events, shows.texts, shows.rows, rfl⟩

/-- A turn goes on with nothing shown, or it is completed. -/
def AfterRound (base : List Message) : Option (List ChatMessage) → Streaming → Prop
  | some _, s => Quiet base s
  | none, s => Shows base true s

theorem triple_answerToolRound (conversationId : ConversationId) (p : Prepared) (roundNo : Nat)
    (context : List ChatMessage) (fullRound : Text) :
    Triple (Quiet base)
      (answerToolRound host consumer conversationId p roundNo context fullRound)
      (AfterRound base) (fun _ => Shows base false) := by
  have as_it_is : Triple (Quiet base)
      (do flush host consumer p fullRound; markCompleted; return none) (AfterRound base)
      (fun _ => Shows base false) :=
    triple_bind ((triple_flush host consumer p fullRound).post fun _ _ shows => shows.1)
      fun _ => triple_bind triple_markCompleted fun _ => triple_pure fun _ completed => completed
  have reads : Triple (Quiet base) (raises (parseToolCall host.upstream.py fullRound) :
      Program Raised Streaming _) (fun _ => Quiet base) (fun _ => Shows base false) :=
    triple_raises (fun _ _ _ quiet => quiet) fun _ _ quiet => quiet.shows
  refine triple_bind reads fun call => ?_
  cases call with
  | none => exact as_it_is
  | some call =>
    obtain ⟨tool, args⟩ := call
    refine triple_ite (fun _ => as_it_is) fun _ => ?_
    have tells : Triple (Quiet base) (emit consumer (.toolStatus tool args (roundNo + 1)))
        (fun _ => Quiet base) (fun _ => Quiet base) := by
      refine (triple_emit consumer _).pre fun s quiet =>
        ⟨?_, quiet.parts, quiet.rows, quiet.running, quiet.first⟩
      intro event mem
      rcases List.mem_append.mp mem with mem | mem
      · exact quiet.calls event mem
      · rw [List.mem_singleton.mp mem]
        trivial
    have rows_kept : Keeps (fun session : Session => assistantRows session.ledger = base)
        (zoom onLedger
          (executeToolRound host conversationId context fullRound tool args p.allowedTools)) :=
      keeps_zoom fun session rows => keepsRows_executeToolRound host (aside_assistantRows base)
        conversationId context fullRound tool args p.allowedTools session.ledger rows
    have calls : Triple (Quiet base) (zoom onSession (zoom onLedger
        (executeToolRound host conversationId context fullRound tool args p.allowedTools)))
        (fun _ => Quiet base) (fun _ => Quiet base) :=
      triple_zoom fun s quiet =>
        ⟨quiet.calls, quiet.parts, rows_kept s.session quiet.rows, quiet.running, quiet.first⟩
    have goes_on : Triple (Quiet base) (do
        emit consumer (.toolStatus tool args (roundNo + 1))
        let context ← zoom onSession (zoom onLedger
          (executeToolRound host conversationId context fullRound tool args p.allowedTools))
        return some context) (AfterRound base) (fun _ => Quiet base) :=
      triple_bind tells fun _ => triple_bind calls fun _ => triple_pure fun _ quiet => quiet
    exact goes_on.mono (fun _ quiet => quiet) (fun _ _ after => after) fun _ _ quiet => quiet.shows

theorem triple_openStream (upstream : Upstream) (request : Request) :
    Triple (Quiet base) (zoom onSession (zoom onRequests (openStream upstream request)))
      (fun _ => Quiet base) (fun _ => Shows base false) := by
  have rows_kept : Keeps (fun session : Session => assistantRows session.ledger = base)
      (zoom onRequests (openStream upstream request)) := keeps_zoom fun _ rows => rows
  have kept : Triple (Quiet base) (zoom onSession (zoom onRequests (openStream upstream request)))
      (fun _ => Quiet base) (fun _ => Quiet base) :=
    triple_zoom fun s quiet =>
      ⟨quiet.calls, quiet.parts, rows_kept s.session quiet.rows, quiet.running, quiet.first⟩
  exact kept.mono (fun _ quiet => quiet) (fun _ _ quiet => quiet) fun _ _ quiet => quiet.shows

theorem triple_streamRound (conversationId : ConversationId) (p : Prepared) (roundNo : Nat)
    (context : List ChatMessage) :
    Triple (Quiet base) (streamRound host consumer conversationId p roundNo context)
      (AfterRound base) (fun _ => Shows base false) := by
  refine triple_bind (triple_openStream host.upstream _) fun r => ?_
  have nothing_yet : ∀ s, Quiet base s → During base {} s := fun s quiet => quiet
  refine triple_bind ((triple_consume host consumer p r.events {}).pre nothing_yet) fun round => ?_
  cases r.failure with
  | some e => exact triple_throw fun s during => during.shows
  | none =>
    refine triple_bind (Q := fun _ => During base round)
      (triple_raises (fun _ _ _ during => during) fun _ _ during => during.shows) fun fullRound => ?_
    refine triple_bind (triple_decideLate host consumer p round fullRound) fun toolRound => ?_
    cases toolRound with
    | true => exact triple_answerToolRound host consumer conversationId p roundNo context _
    | false =>
      exact triple_bind triple_markCompleted fun _ => triple_pure fun _ completed => completed

/-- However the rounds end, what was yielded is in the parts, and they are completed unless they
raised or showed nothing. -/
theorem triple_streamRounds (conversationId : ConversationId) (p : Prepared) (left roundNo : Nat)
    (context : List ChatMessage) :
    Triple (Quiet base) (streamRounds host consumer conversationId p left roundNo context)
      (fun _ s => Quiet base s ∨ Shows base true s) (fun _ => Shows base false) := by
  induction left generalizing roundNo context with
  | zero => exact triple_pure fun _ quiet => .inl quiet
  | succ left ih =>
    refine triple_bind (triple_streamRound host consumer conversationId p roundNo context)
      fun next => ?_
    cases next with
    | none => exact triple_pure fun _ completed => .inr completed
    | some context => exact ih (roundNo + 1) context

/-! ## The last row -/

/-- Where the `finally` block calls `_append`, the call returns. -/
def Appends (conversationId : ConversationId) (p : Prepared) (tags : Option (Dict Text Json))
    (s : Streaming) : Prop :=
  ∀ content figures, joined s.parts = .ok content → content ≠ [] →
    usageFigures s.usage = .ok figures →
      ∃ row t, (appendShown host conversationId p tags content figures s).run s = .ok row t

/-- The state after the row was appended. -/
structure RowAdded (conversationId : ConversationId) (s : Streaming) (row : Message)
    (t : Streaming) : Prop where
  rows : assistantRows t.session.ledger = assistantRows s.session.ledger ++ [row]
  conversation : row.conversationId = conversationId
  content : joined s.parts = .ok row.content
  metadata : row.metadata = truncation s.completed
  yielded : t.yielded = s.yielded

theorem RowAdded.of_appendShown {conversationId : ConversationId} {p : Prepared}
    {tags : Option (Dict Text Json)} {content : Text} {figures : Json × Json} {s t : Streaming}
    {row : Message} (whole : joined s.parts = .ok content)
    (stored : (appendShown host conversationId p tags content figures s).run s = .ok row t) :
    RowAdded conversationId s row t := by
  unfold appendShown at stored
  obtain ⟨fields, _, fits, stored⟩ := bind_eq_ok.mp stored
  obtain ⟨-, rfl⟩ := raises_eq_ok.mp fits
  rw [run_zoom, run_zoom, run_append] at stored
  by_cases taken : ((onLedger.get (onSession.get s)).conversations.contains conversationId &&
      ({ fields with metadata := truncation s.completed,
                     tags := mergeTags host.upstream.py ((autoTags conversationId p).set
                       ↑"stream" (.bool true)) tags } : Fields).storable content) = true
  · rw [if_pos taken] at stored
    cases stored
    refine ⟨?_, rfl, whole, rfl, rfl⟩
    change assistantRows (Ledger.appended _ _ _ _ _) = _
    rw [assistantRows, Ledger.rows_appended, List.filter_append]
    rfl
  · rw [if_neg taken] at stored
    cases stored

/-- The `finally` block can use what it finds: no text was passed on, or every content that was is
a text and the usage is an object. -/
def Legible (s : Streaming) : Prop :=
  textsOf s.parts = [] ∨
    (∀ content ∈ s.parts, ∃ text, content = .str text) ∧ ∃ fields, s.usage = .obj fields

section Persist

variable {host consumer} {conversationId : ConversationId} {p : Prepared}
  {tags : Option (Dict Text Json)} {s : Streaming} {content : Text}

theorem usageFigures_ok_iff {usage : Json} :
    (∃ figures, usageFigures usage = .ok figures) ↔ ∃ fields, usage = .obj fields := by
  cases usage <;> simp [usageFigures, getField, bind, Except.bind, pure, Except.pure]

variable (consumer) in
theorem run_persist (appends : Appends host conversationId p tags s)
    (whole : joined s.parts = .ok content) (ink : content ≠ [])
    (metered : ∃ fields, s.usage = .obj fields) :
    ∃ row t, RowAdded conversationId s row t ∧
      (persist host consumer conversationId p tags).run s =
        (if s.completed then emit consumer (.done row.id s.usage) else pure ()).run t := by
  obtain ⟨figures, read⟩ := usageFigures_ok_iff.mpr metered
  obtain ⟨row, t, stored⟩ := appends content figures whole ink read
  refine ⟨row, t, .of_appendShown host whole stored, ?_⟩
  rw [run_persist_shown whole ink]
  unfold persistShown
  rw [read, raises_ok_bind, run_bind_ok stored]

variable (host consumer conversationId p tags) in
/-- A content that is no text, or a usage that is no object, breaks the block off. -/
theorem run_persist_illegible (illegible : ¬ Legible s) :
    ∃ e, (persist host consumer conversationId p tags).run s = .error e s := by
  obtain ⟨ink, broken⟩ := not_or.mp illegible
  unfold persist
  rw [EStateM.run_bind, EStateM.run_get]
  dsimp only
  cases whole : joined s.parts with
  | error e => exact ⟨e, rfl⟩
  | ok content =>
    obtain ⟨rfl, texts⟩ := joined_iff.mp whole
    rw [raises_ok_bind, if_pos ink]
    unfold persistShown
    cases read : usageFigures s.usage with
    | error e => exact ⟨e, rfl⟩
    | ok figures => exact absurd ⟨texts, usageFigures_ok_iff.mp ⟨figures, read⟩⟩ broken

end Persist

/-! ## The whole turn -/

/-- The texts of the chunks, joined. -/
def shownText (events : List StreamEvent) : Text :=
  textsOf (events.filterMap fun
    | .chunk content => some content
    | _ => none)

/-- The generator raised, or was closed at a chunk. -/
def StoppedEarly (consumer : Consumer) : EStateM.Result Raised Streaming Unit → Prop
  | .ok _ _ => False
  | .error _ s =>
    consumer s.yielded = true → ∃ content, s.yielded.getLast? = some (.chunk content)

/-- What a turn leaves agrees with what it yielded. -/
structure Recorded (consumer : Consumer) (conversationId : ConversationId) (before : Ledger)
    (turn : EStateM.Result Raised Streaming Unit) : Prop where
  /-- If nothing was shown, no row of the assistant is added. -/
  nothing : shownText (state turn).yielded = [] →
    assistantRows (state turn).session.ledger = assistantRows before ∧
      ∀ messageId usage, .done messageId usage ∉ (state turn).yielded
  /-- Else there is one, with what was shown; it is marked if the generator was stopped early. The
  event that names the row comes last, and only if it was not. -/
  row : shownText (state turn).yielded ≠ [] →
    ∃ row, assistantRows (state turn).session.ledger = assistantRows before ++ [row] ∧
      row.conversationId = conversationId ∧
      row.content = shownText (state turn).yielded ∧
      (StoppedEarly consumer turn → row.metadata = .obj [(↑"truncated", .bool true)]) ∧
      (¬ StoppedEarly consumer turn → row.metadata = .obj [] ∧
        ∃ usage, .done row.id usage ∈ (state turn).yielded) ∧
      ∀ messageId usage, .done messageId usage ∈ (state turn).yielded →
        ¬ StoppedEarly consumer turn ∧ messageId = row.id ∧
          ∃ front, (state turn).yielded = front ++ [.done messageId usage] ∧
            ∀ messageId usage, .done messageId usage ∉ front

theorem shownText_of_events {calls : List StreamEvent} (are_calls : ∀ event ∈ calls, event.IsCall)
    (contents : List Json) : shownText (calls ++ contents.map .chunk) = textsOf contents := by
  have silent : (calls.filterMap fun
      | .chunk content => some content
      | _ => none) = [] := by
    rw [List.filterMap_eq_nil_iff]
    intro event mem
    cases event with
    | chunk content => exact absurd (are_calls _ mem) id
    | toolStatus tool args round => rfl
    | done messageId usage => rfl
  rw [shownText, List.filterMap_append, silent, List.nil_append, List.filterMap_map]
  congr 1
  exact List.filterMap_some

theorem Shows.shown {completed : Bool} {s : Streaming} (shows : Shows base completed s) :
    shownText s.yielded = textsOf s.parts := by
  obtain ⟨calls, yielded, are_calls⟩ := shows.events
  rw [yielded, shownText_of_events are_calls]

/-- Where no text is shown, nothing is. -/
theorem Shows.joined_nil {completed : Bool} {s : Streaming} (shows : Shows base completed s)
    (blank : textsOf s.parts = []) : joined s.parts = .ok [] := by
  rcases shows.texts with ink | texts
  · exact absurd blank ink
  · exact joined_iff.mpr ⟨blank.symm, texts⟩

theorem Shows.not_done {completed : Bool} {s : Streaming} (shows : Shows base completed s)
    (messageId : Nat) (usage : Json) : .done messageId usage ∉ s.yielded := by
  obtain ⟨calls, yielded, are_calls⟩ := shows.events
  rw [yielded, List.mem_append, not_or]
  exact ⟨fun mem => are_calls _ mem, by simp⟩

/-- After a content, only contents come. -/
theorem Shows.last_chunk {completed : Bool} {s : Streaming} (shows : Shows base completed s)
    (ink : textsOf s.parts ≠ []) : ∃ content, s.yielded.getLast? = some (.chunk content) := by
  obtain ⟨calls, yielded, are_calls⟩ := shows.events
  rcases List.eq_nil_or_concat s.parts with none_shown | ⟨front, content, some_shown⟩
  · exact absurd (congrArg textsOf none_shown) ink
  · exact ⟨content, by simp [yielded, some_shown]⟩

theorem run_yield (event : StreamEvent) (s : Streaming) :
    (emit consumer event).run s =
      if consumer (s.yielded ++ [event]) then
        .error .generatorExit { s with yielded := s.yielded ++ [event] }
      else .ok () { s with yielded := s.yielded ++ [event] } := by
  unfold emit
  rw [EStateM.run_bind, EStateM.run_modify]
  dsimp only
  rw [EStateM.run_bind, EStateM.run_get]
  dsimp only
  split <;> rfl

variable {consumer} {conversationId : ConversationId} {before : Ledger} {t : Streaming}

/-- Nothing was shown, and nothing is stored. -/
theorem Shows.recorded_nothing {completed : Bool} {turn : EStateM.Result Raised Streaming Unit}
    (shows : Shows (assistantRows before) completed t) (leaves : state turn = t)
    (blank : textsOf t.parts = []) : Recorded consumer conversationId before turn where
  nothing _ := by
    rw [leaves]
    exact ⟨shows.rows, shows.not_done⟩
  row ink := by
    rw [leaves, shows.shown] at ink
    exact absurd blank ink

/-- Something was shown, and nothing is stored. -/
theorem Shows.not_recorded {completed : Bool} {turn : EStateM.Result Raised Streaming Unit}
    (shows : Shows (assistantRows before) completed t) (leaves : state turn = t)
    (ink : textsOf t.parts ≠ []) : ¬ Recorded consumer conversationId before turn := by
  intro recorded
  have row := recorded.row
  rw [leaves, shows.shown] at row
  obtain ⟨row, added, -⟩ := row ink
  rw [shows.rows] at added
  exact absurd (congrArg List.length added) (by simp)

/-- The generator was stopped after it showed something. -/
theorem Shows.recorded_stopped {e : Raised} {t' : Streaming} {row : Message}
    (shows : Shows (assistantRows before) false t) (ink : textsOf t.parts ≠ [])
    (added : RowAdded conversationId t row t') :
    Recorded consumer conversationId before (.error e t') := by
  have shown : shownText t'.yielded = textsOf t.parts := by rw [added.yielded, shows.shown]
  have content : row.content = textsOf t.parts := (joined_iff.mp added.content).1
  have early : StoppedEarly consumer (.error e t') := by
    intro _
    rw [added.yielded]
    exact shows.last_chunk ink
  refine ⟨fun blank => absurd (shown.symm.trans blank) ink, fun _ => ⟨row, ?_, added.conversation,
    content.trans shown.symm, fun _ => ?_, fun late => absurd early late, ?_⟩⟩
  · change assistantRows t'.session.ledger = _
    rw [added.rows, shows.rows]
  · rw [added.metadata, shows.status]
    rfl
  · intro messageId usage mem
    change _ ∈ t'.yielded at mem
    rw [added.yielded] at mem
    exact absurd mem (shows.not_done messageId usage)

/-- The generator was completed: its last event names the row, whether it is closed there or
not. -/
theorem Shows.recorded_completed {t' : Streaming} {row : Message} {usage : Json}
    {turn : EStateM.Result Raised Streaming Unit}
    (shows : Shows (assistantRows before) true t) (ink : textsOf t.parts ≠ [])
    (added : RowAdded conversationId t row t')
    (leaves : state turn = { t' with yielded := t'.yielded ++ [.done row.id usage] })
    (closes : ∀ e s, turn = .error e s → consumer s.yielded = true) :
    Recorded consumer conversationId before turn := by
  have events : (state turn).yielded = t.yielded ++ [.done row.id usage] := by
    rw [leaves, ← added.yielded]
  have shown : shownText (state turn).yielded = textsOf t.parts := by
    rw [events, ← shows.shown, shownText, shownText, List.filterMap_append]
    simp
  have content : row.content = textsOf t.parts := (joined_iff.mp added.content).1
  have late : ¬ StoppedEarly consumer turn := by
    intro early
    cases turn with
    | ok a s => exact early
    | error e s =>
      obtain ⟨text, last⟩ := early (closes e s rfl)
      change s.yielded = _ at events
      rw [events, List.getLast?_concat] at last
      cases last
  refine ⟨fun blank => absurd (shown.symm.trans blank) ink, fun _ => ⟨row, ?_, added.conversation,
    content.trans shown.symm, fun early => absurd early late, fun _ => ⟨?_, usage, ?_⟩, ?_⟩⟩
  · rw [leaves]
    change assistantRows t'.session.ledger = _
    rw [added.rows, shows.rows]
  · rw [added.metadata, shows.status]
    rfl
  · rw [events]
    exact List.mem_append_right _ List.mem_cons_self
  · intro messageId usage' mem
    rw [events, List.mem_append, List.mem_singleton] at mem
    rcases mem with mem | same
    · exact absurd mem (shows.not_done messageId usage')
    · cases same
      exact ⟨late, rfl, t.yielded, events, shows.not_done⟩

/-- However the turn ends, it is recorded if and only if the `finally` block can use what the
rounds left. -/
theorem recorded_iff (host : Host) (tags : Option (Dict Text Json)) (p : Prepared)
    {ready : Session} (rows : assistantRows ready.ledger = assistantRows before)
    (appends : Appends host conversationId p tags (state
      ((streamRounds host consumer conversationId p (maxRounds host) 0 p.context).run
        { session := ready, actualModel := .str p.model }))) :
    Recorded consumer conversationId before
        ((stream host consumer conversationId p tags).run
          { session := ready, actualModel := .str p.model }) ↔
      Legible (state
        ((streamRounds host consumer conversationId p (maxRounds host) 0 p.context).run
          { session := ready, actualModel := .str p.model })) := by
  have quiet : Quiet (assistantRows before) { session := ready, actualModel := .str p.model } :=
    ⟨by simp, rfl, rows, rfl, rfl⟩
  have ends := triple_streamRounds host consumer conversationId p (maxRounds host) 0 p.context _
    quiet
  unfold stream
  cases run : (streamRounds host consumer conversationId p (maxRounds host) 0 p.context).run
      { session := ready, actualModel := .str p.model } with
  | error e t =>
    rw [run] at ends appends
    change Appends host conversationId p tags t at appends
    change Shows _ false t at ends
    rw [run_tryFinally_error run]
    change _ ↔ Legible t
    by_cases blank : textsOf t.parts = []
    · rw [run_persist_nothing (ends.joined_nil blank)]
      exact iff_of_true (ends.recorded_nothing rfl blank) (.inl blank)
    by_cases legible : Legible t
    · obtain ⟨texts, metered⟩ := legible.resolve_left blank
      obtain ⟨row, t', added, last⟩ :=
        run_persist consumer appends (joined_iff.mpr ⟨rfl, texts⟩) blank metered
      rw [last, ends.status]
      exact iff_of_true (ends.recorded_stopped blank added) legible
    · obtain ⟨e', broken⟩ := run_persist_illegible host consumer conversationId p tags legible
      rw [broken]
      exact iff_of_false (ends.not_recorded rfl blank) legible
  | ok _ t =>
    rw [run] at ends appends
    change Appends host conversationId p tags t at appends
    rw [run_tryFinally_ok run]
    change _ ↔ Legible t
    rcases ends with quiet | shows
    · have blank : textsOf t.parts = [] := by rw [quiet.parts]; rfl
      rw [run_persist_nothing (quiet.shows.joined_nil blank)]
      exact iff_of_true (quiet.shows.recorded_nothing rfl blank) (.inl blank)
    by_cases blank : textsOf t.parts = []
    · rw [run_persist_nothing (shows.joined_nil blank)]
      exact iff_of_true (shows.recorded_nothing rfl blank) (.inl blank)
    by_cases legible : Legible t
    · obtain ⟨texts, metered⟩ := legible.resolve_left blank
      obtain ⟨row, t', added, last⟩ :=
        run_persist consumer appends (joined_iff.mpr ⟨rfl, texts⟩) blank metered
      refine iff_of_true ?_ legible
      rw [last, shows.status, if_pos rfl, run_yield]
      by_cases closed : consumer (t'.yielded ++ [.done row.id t.usage]) = true
      · rw [if_pos closed]
        exact shows.recorded_completed blank added rfl fun _ _ is => by cases is; exact closed
      · rw [if_neg closed]
        exact shows.recorded_completed blank added rfl fun _ _ is => by cases is
    · obtain ⟨e', broken⟩ := run_persist_illegible host consumer conversationId p tags legible
      rw [broken]
      exact iff_of_false (shows.not_recorded rfl blank) legible

/-! ## Streams of the documented type -/

/-- `{'delta': str} | {'usage': {...}} | {'model': str}`, as far as the `finally` block needs it. -/
def WellTyped : SseEvent → Prop
  | .delta content => ∃ text, content = .str text
  | .usage usage => ∃ fields, usage = .obj fields
  | .model _ => True

/-- The parts and the usage, as such events leave them. -/
structure Typed (s : Streaming) : Prop where
  parts : ∀ content ∈ s.parts, ∃ text, content = .str text
  usage : ∃ fields, s.usage = .obj fields

theorem carries_typed : Carries Typed WellTyped where
  texts text := ⟨text, rfl⟩
  yielded _ _ typed := ⟨typed.parts, typed.usage⟩
  parts s content is_text typed := by
    refine ⟨fun other mem => ?_, typed.usage⟩
    rcases List.mem_append.mp mem with mem | mem
    · exact typed.parts other mem
    · exact List.mem_singleton.mp mem ▸ is_text
  usage _ _ is_object typed := ⟨typed.parts, is_object⟩
  actualModel _ _ _ typed := ⟨typed.parts, typed.usage⟩
  prefixDone _ typed := ⟨typed.parts, typed.usage⟩
  completed _ typed := ⟨typed.parts, typed.usage⟩

/-- What is opened is one of the streams of the provider. -/
theorem triple_opened {I : Streaming → Prop} {E : SseEvent → Prop} {upstream : Upstream}
    (good : ∀ requests r, upstream.openStream requests = .ok r → ∀ event ∈ r.events, E event)
    (request : Request)
    (kept : Keeps I (zoom onSession (zoom onRequests (openStream upstream request)))) :
    Triple I (zoom onSession (zoom onRequests (openStream upstream request)))
      (fun r s => I s ∧ ∀ event ∈ r.events, E event) (fun _ => I) := by
  intro s holds
  have after := kept s holds
  rw [run_zoom, run_zoom] at after ⊢
  cases run : (openStream upstream request).run (onRequests.get (onSession.get s)) with
  | error e requests =>
    rw [run] at after
    exact after
  | ok r requests =>
    rw [run] at after
    exact ⟨after, good _ r (openStream_eq_ok _ _ _ run)⟩

theorem keeps_typed (host : Host) (consumer : Consumer) (conversationId : ConversationId) (p : Prepared)
    (typed : ∀ requests r, host.upstream.openStream requests = .ok r →
      ∀ event ∈ r.events, WellTyped event)
    (left roundNo : Nat) (context : List ChatMessage) :
    Keeps Typed (streamRounds host consumer conversationId p left roundNo context) :=
  carries_typed.keeps_streamRounds
    (fun _ => triple_opened typed _ (keeps_zoom fun _ kept => ⟨kept.parts, kept.usage⟩))
    (fun _ _ _ _ => keeps_zoom fun _ kept => ⟨kept.parts, kept.usage⟩) left roundNo context

/-- What was streamed is what is stored, however the provider behaves and wherever the consumer
closes the generator, if and only if the `finally` block can use what the rounds left, and so
whenever the provider streams events of the documented type. -/
theorem streamed_is_stored_iff (host : Host) (consumer : Consumer)
    (conversationId : ConversationId) (userText : Text) (tags : Option (Dict Text Json))
    (session : Session)
    (appends : ∀ p ready,
      (zoom onLedger (prepare host conversationId userText)).run session = .ok p ready →
        Appends host conversationId p tags (state
          ((streamRounds host consumer conversationId p (maxRounds host) 0 p.context).run
            { session := ready, actualModel := .str p.model }))) :
    (Recorded consumer conversationId session.ledger
        (sendStream host consumer conversationId userText tags session) ↔
      ∀ p ready,
        (zoom onLedger (prepare host conversationId userText)).run session = .ok p ready →
          Legible (state
            ((streamRounds host consumer conversationId p (maxRounds host) 0 p.context).run
              { session := ready, actualModel := .str p.model }))) ∧
      ((∀ requests r, host.upstream.openStream requests = .ok r →
          ∀ event ∈ r.events, WellTyped event) →
        Recorded consumer conversationId session.ledger
          (sendStream host consumer conversationId userText tags session)) := by
  have prepared : Keeps
      (fun s : Session => assistantRows s.ledger = assistantRows session.ledger)
      (zoom onLedger (prepare host conversationId userText)) :=
    keeps_zoom fun s rows =>
      keepsRows_prepare host (aside_assistantRows _) conversationId userText s.ledger rows
  have rows := prepared session rfl
  unfold sendStream
  cases ready : (zoom onLedger (prepare host conversationId userText)).run session with
  | error e s =>
    rw [ready] at rows
    have shows : Shows (assistantRows session.ledger) false
        { session := s, actualModel := .null } := ⟨⟨[], rfl, by simp⟩, .inr (by simp), rows, rfl⟩
    have recorded : Recorded consumer conversationId session.ledger
        (.error e { session := s, actualModel := .null }) := shows.recorded_nothing rfl rfl
    exact ⟨iff_of_true recorded (by rintro _ _ ⟨⟩), fun _ => recorded⟩
  | ok p s =>
    rw [ready] at rows
    have turn := recorded_iff host tags p rows (appends p s ready)
    have known : Legible _ ↔ ∀ p' ready,
        (EStateM.Result.ok p s : EStateM.Result Raised Session Prepared) = .ok p' ready →
          Legible (state
            ((streamRounds host consumer conversationId p' (maxRounds host) 0 p'.context).run
              { session := ready, actualModel := .str p'.model })) :=
      ⟨by rintro legible _ _ ⟨⟩; exact legible, fun legible => legible p s rfl⟩
    refine ⟨turn.trans known, fun typed => turn.mpr (.inr ?_)⟩
    have kept := keeps_typed host consumer conversationId p typed (maxRounds host) 0 p.context
      { session := s, actualModel := .str p.model } ⟨by simp, [], rfl⟩
    exact ⟨kept.parts, kept.usage⟩

/-! ## A stream that is closed early -/

section Closed

/-- A host whose provider streams these events. -/
def streaming (events : List SseEvent) : Host where
  settings := {}
  registry := []
  upstream := {
    py := plainPython
    installedTags := []
    respond := fun _ => .error .httpError
    openStream := fun _ => .ok ⟨200, [], events, none⟩ }
  columns := plainColumns
  runTool _ := .error .toolError
  durationMs := 7

def greeter : Host :=
  streaming [.model (.str ↑"m:free"), .delta (.str ↑"Hello there"), .delta (.str ↑", friend")]

def greeted : Session where
  ledger := .started { id := ↑"c" }
  requests := []

/-- Closes the generator at its second event. -/
def impatient : Consumer := fun events => events.length == 2

/-- The rounds leave what is to be stored, and its `_append` returns. -/
def appendsRow (host : Host) (consumer : Consumer) (conversationId : ConversationId)
    (userText : Text) (session : Session) : Bool :=
  match (zoom onLedger (prepare host conversationId userText)).run session with
  | .ok p ready =>
    let s := state ((streamRounds host consumer conversationId p (maxRounds host) 0 p.context).run
      { session := ready, actualModel := .str p.model })
    match joined s.parts, usageFigures s.usage with
    | .ok content, .ok figures =>
      (outcome ((appendShown host conversationId p none content figures s).run s)).isOk
    | _, _ => false
  | .error _ _ => false

theorem closedGreeting_recorded :
    Recorded impatient ↑"c" greeted.ledger (sendStream greeter impatient ↑"c" ↑"hi" none greeted) ∧
      (assistantRows
        (state (sendStream greeter impatient ↑"c" ↑"hi" none greeted)).session.ledger).length =
          1 := by
  have appended : appendsRow greeter impatient ↑"c" ↑"hi" greeted = true := by decide +kernel
  unfold appendsRow at appended
  refine ⟨(streamed_is_stored_iff greeter impatient ↑"c" ↑"hi" none greeted ?_).2 ?_,
    by decide +kernel⟩
  · intro p ready prepared content figures whole ink read
    rw [prepared] at appended
    dsimp only at appended
    rw [whole, read] at appended
    dsimp only at appended
    generalize EStateM.run _ _ = stored at appended ⊢
    cases stored with
    | ok row t => exact ⟨row, t, rfl⟩
    | error e t => cases appended
  · rintro requests r opened event mem
    cases opened
    fin_cases mem
    · trivial
    · exact ⟨_, rfl⟩
    · exact ⟨_, rfl⟩

/-- A usage that is no object: the text was shown, and the `finally` block stores nothing. -/
theorem meteredGreeting_lost :
    ¬ Recorded (fun _ => false) ↑"c" greeted.ledger
      (sendStream (streaming [.delta (.str ↑"Hello there"), .usage (.int 5)]) (fun _ => false)
        ↑"c" ↑"hi" none greeted) := by
  intro recorded
  obtain ⟨row, added, -⟩ := recorded.row (by decide +kernel)
  have one := congrArg List.length added
  rw [List.length_append] at one
  have none_stored : (assistantRows (state (sendStream
      (streaming [.delta (.str ↑"Hello there"), .usage (.int 5)]) (fun _ => false) ↑"c" ↑"hi" none
      greeted)).session.ledger).length = 0 := by decide +kernel
  rw [none_stored] at one
  cases one

end Closed

end AgenticOctopus.Chat
