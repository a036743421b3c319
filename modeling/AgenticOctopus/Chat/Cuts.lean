import AgenticOctopus.Chat.Record
import AgenticOctopus.Chat.Agreement

/-!
# Where a round is cut

Whether a round is a tool round is decided when nine characters or a line feed have arrived.
The marker cannot come apart, but white space before it can: a line feed there decides too
early if nothing of the marker has come with it.
-/
namespace AgenticOctopus.Chat
open Foundation Providers Program

variable (host : Host) (conversationId : ConversationId) (p : Prepared)

/-- Reading the events of a round and deciding, as `streamRound` does. -/
def decision (events : List SseEvent) : Program Raised Streaming Bool := do
  let round ← consume host toTheEnd p {} events
  let fullRound ← raises (joined round.roundText)
  decideLate host toTheEnd p round fullRound

/-- The provider answers every request with this stream. -/
def Host.answering (streamed : Streamed) : Host :=
  { host with upstream := { host.upstream with openStream := fun _ => .ok streamed } }

/-- Two runs of a round that nobody outside can tell apart, but for where the chunks were cut. -/
structure SameRound (a b : EStateM.Result Raised Streaming (Option (List ChatMessage))) :
    Prop where
  outcome : outcome a = outcome b
  shown : shownText (state a).yielded = shownText (state b).yielded
  session : (state a).session = (state b).session

/-- However the text of the round is cut, it is decided alike, the same is shown, and the same
calls are made. -/
def CutAlike (roundNo : Nat) (context : List ChatMessage) (r : Round) (s : Streaming) : Prop :=
  ∀ a b : Streamed, r.Streams a → r.Streams b →
    outcome ((decision host p a.events).run s) = outcome ((decision host p b.events).run s) ∧
      SameRound
        ((streamRound (host.answering a) toTheEnd conversationId p roundNo context).run s)
        ((streamRound (host.answering b) toTheEnd conversationId p roundNo context).run s)

/-- A round that starts with the marker and holds a call, while tools are allowed and calls are
left, shows nothing. -/
def HidesCall (roundNo : Nat) (context : List ChatMessage) (r : Round) (s : Streaming) : Prop :=
  p.allowedTools ≠ [] → (roundNo : Int) < host.settings.chatMaxToolCalls →
    Text.startswith (Text.lstrip r.text) toolMarker = true →
      (∃ call, parseToolCall host.upstream.py r.text = .ok (some call)) →
        ∀ a : Streamed, r.Streams a →
          shownText (state ((streamRound (host.answering a) toTheEnd conversationId p roundNo
            context).run s)).yielded = []

/-- Tools are allowed, and the marker comes after white space with a line feed. -/
def LateMarker (text : Text) : Prop :=
  p.allowedTools ≠ [] ∧ Text.startswith (Text.lstrip text) toolMarker = true ∧
    10 ∈ text.takeWhile Text.isSpace

/-! ## Where the marker is not late -/

variable {host conversationId p}

/-- A marker that is not late is announced. -/
theorem announced_of_marker {text : Text} (timely : ¬ LateMarker p text)
    (tools : p.allowedTools ≠ [])
    (marker : Text.startswith (Text.lstrip text) toolMarker = true) : Announced text := by
  obtain ⟨rest, after⟩ := Text.startswith_iff.mp marker
  refine ⟨text.takeWhile Text.isSpace, rest, ?_, fun c mem => ⟨?_, ?_⟩⟩
  · rw [after]
    exact (List.takeWhile_append_dropWhile).symm
  · exact List.mem_takeWhile_imp mem
  · rintro rfl
    exact timely ⟨tools, marker, mem⟩

variable {base : List Message} {roundNo : Nat} {context : List ChatMessage} {r : Round}
  {s : Streaming}

/-- What a round shows is in the parts that it leaves. -/
theorem shownText_streamRound (quiet : Quiet base s) (host : Host) :
    shownText (state ((streamRound host toTheEnd conversationId p roundNo context).run s)).yielded =
      textsOf
        (state ((streamRound host toTheEnd conversationId p roundNo context).run s)).parts := by
  have ends := triple_streamRound host toTheEnd conversationId p roundNo context s quiet
  cases ran : (streamRound host toTheEnd conversationId p roundNo context).run s with
  | error e t =>
    rw [ran] at ends
    exact Shows.shown ends
  | ok next t =>
    rw [ran] at ends
    cases next with
    | none => exact Shows.shown ends
    | some context => exact (Quiet.shows ends).shown

/-- The rest of a tool round does not look at what was yielded before. -/
theorem answerToolRound_alike (v : Streaming) (first : v.prefixDone = false) (y : List StreamEvent)
    (text : Text) :
    outcome ((answerToolRound host toTheEnd conversationId p roundNo context text).run v) =
        outcome ((answerToolRound host toTheEnd conversationId p roundNo context text).run
          { v with yielded := y }) ∧
      (state ((answerToolRound host toTheEnd conversationId p roundNo context text).run
          v)).session =
        (state ((answerToolRound host toTheEnd conversationId p roundNo context text).run
          { v with yielded := y })).session ∧
      (state ((answerToolRound host toTheEnd conversationId p roundNo context text).run v)).parts =
        (state ((answerToolRound host toTheEnd conversationId p roundNo context text).run
          { v with yielded := y })).parts := by
  have flushed := @run_flush host p text v first _ rfl
  have flushed_y := @run_flush host p text { v with yielded := y } first _ rfl
  cases parsed : parseToolCall host.upstream.py text with
  | error e =>
    unfold answerToolRound
    rw [parsed]
    exact ⟨rfl, rfl, rfl⟩
  | ok call =>
    cases call with
    | none =>
      unfold answerToolRound
      rw [parsed]
      simp only [raises_ok_bind]
      rw [run_bind_ok flushed, run_bind_ok flushed_y]
      exact ⟨rfl, rfl, rfl⟩
    | some call =>
      obtain ⟨tool, args⟩ := call
      by_cases spent : (roundNo : Int) ≥ host.settings.chatMaxToolCalls
      · unfold answerToolRound
        rw [parsed]
        simp only [raises_ok_bind, if_pos spent]
        rw [run_bind_ok flushed, run_bind_ok flushed_y]
        exact ⟨rfl, rfl, rfl⟩
      · obtain ⟨_, ran⟩ := run_answerToolRound host conversationId p (v := v) context parsed spent
        obtain ⟨_, ran_y⟩ := run_answerToolRound host conversationId p
          (v := { v with yielded := y }) context parsed spent
        rw [ran, ran_y]
        cases (executeToolRound host conversationId context text tool args p.allowedTools).run
          v.session.ledger <;> exact ⟨rfl, rfl, rfl⟩

/-- The two ways a round goes when the provider answers with `a`. -/
theorem run_streamRound_answering (quiet : Quiet base s) {a : Streamed} (streams : r.Streams a) :
    (startsToolRound p (Text.lstrip r.text) = true ∧ ∃ yielded,
        (streamRound (host.answering a) toTheEnd conversationId p roundNo context).run s =
          (answerToolRound host toTheEnd conversationId p roundNo context r.text).run
            (arrived s r ⟨.null, s.usage, s.actualModel⟩
              ⟨p.provider, true, payload p.model context⟩ yielded)) ∨
      ∃ parts yielded prefixDone,
        (streamRound (host.answering a) toTheEnd conversationId p roundNo context).run s =
            .ok none
              { arrived s r ⟨.null, s.usage, s.actualModel⟩
                  ⟨p.provider, true, payload p.model context⟩ yielded with
                parts, prefixDone, completed := true } ∧
          joined parts = .ok
            (routedModelPrefix host.settings host.upstream.py p.model
              (r.answer ⟨.null, s.usage, s.actualModel⟩).actualModel ++ r.text) ∧
          (p.allowedTools ≠ [] → ¬ Announced r.text) :=
  run_streamRound (host.answering a) conversationId p roundNo context quiet.parts quiet.first
    rfl rfl
    rfl streams

theorem sameRound_of_timely (timely : ¬ LateMarker p r.text) (quiet : Quiet base s)
    {a b : Streamed} (streams : r.Streams a) (streams' : r.Streams b) :
    SameRound
      ((streamRound (host.answering a) toTheEnd conversationId p roundNo context).run s)
      ((streamRound (host.answering b) toTheEnd conversationId p roundNo context).run s) := by
  have apart (marker : startsToolRound p (Text.lstrip r.text) = true)
      (plain : p.allowedTools ≠ [] → ¬ Announced r.text) : False := by
    obtain ⟨tools, starts⟩ := (startsToolRound_iff p).mp marker
    exact plain tools (announced_of_marker timely tools starts)
  rcases run_streamRound_answering quiet streams with
    ⟨marker, y, ran⟩ | ⟨parts, y, prefixDone, ran, joined, plain⟩
  · rcases run_streamRound_answering quiet streams' with
      ⟨-, y', ran'⟩ | ⟨parts', y', prefixDone', ran', joined', plain'⟩
    · obtain ⟨same_outcome, same_session, same_parts⟩ := answerToolRound_alike
        (arrived s r ⟨.null, s.usage, s.actualModel⟩ ⟨p.provider, true, payload p.model context⟩ y)
        quiet.first y' r.text
      refine ⟨?_, ?_, ?_⟩
      · rw [ran, ran']
        exact same_outcome
      · rw [shownText_streamRound quiet, shownText_streamRound quiet, ran, ran']
        exact congrArg textsOf same_parts
      · rw [ran, ran']
        exact same_session
    · exact (apart marker plain').elim
  · rcases run_streamRound_answering quiet streams' with
      ⟨marker, y', ran'⟩ | ⟨parts', y', prefixDone', ran', joined', -⟩
    · exact (apart marker plain).elim
    · refine ⟨by rw [ran, ran']; rfl, ?_, by rw [ran, ran']; rfl⟩
      rw [shownText_streamRound quiet, shownText_streamRound quiet, ran, ran']
      exact (joined_iff.mp joined).1.symm.trans (joined_iff.mp joined').1

/-- A marker that is not late decides the round, however the round is cut. -/
theorem outcome_decision (timely : ¬ LateMarker p r.text) (quiet : Quiet base s) {a : Streamed}
    (streams : r.Streams a) :
    outcome ((decision host p a.events).run s) = .ok (startsToolRound p (Text.lstrip r.text)) := by
  have feeds := streams.feeds s
  have blank : Knows p
      (routedModelPrefix host.settings host.upstream.py p.model
        (orElse (.str r.model) s.actualModel))
      s.parts s.prefixDone {} [] :=
    .nothing rfl rfl quiet.parts quiet.first (by decide) List.not_mem_nil
  obtain ⟨round, parts, yielded, prefixDone, consumed, knows, whole⟩ :=
    consume_knows host p rfl blank rfl feeds
  rw [List.nil_append, streams.text] at knows whole
  unfold decision
  rw [run_bind_ok consumed, whole, raises_ok_bind]
  let seen : Streaming :=
    { s with
      parts, yielded, prefixDone
      usage := orElse (.obj r.usage) s.usage
      actualModel := orElse (.str r.model) s.actualModel }
  rcases decide_round (s := seen) host p knows r.ink rfl with
    ⟨decided, -, -, marker⟩ | ⟨_, _, _, decided, -, plain⟩
  · rw [decided, marker]
    rfl
  · have no : startsToolRound p (Text.lstrip r.text) = false := by
      refine Bool.eq_false_iff.mpr fun marker => ?_
      obtain ⟨tools, starts⟩ := (startsToolRound_iff p).mp marker
      exact plain tools (announced_of_marker timely tools starts)
    rw [decided, no]
    rfl

theorem hidesCall_of_timely (timely : ¬ LateMarker p r.text) (quiet : Quiet base s) :
    HidesCall host conversationId p roundNo context r s := by
  rintro tools budget marker ⟨⟨tool, args⟩, parsed⟩ a streams
  rw [shownText_streamRound quiet]
  rcases run_streamRound_answering quiet streams with
    ⟨-, y, ran⟩ | ⟨parts, y, prefixDone, ran, -, plain⟩
  · rw [ran]
    obtain ⟨_, called⟩ := run_answerToolRound host conversationId p
      (v := arrived s r ⟨.null, s.usage, s.actualModel⟩
        ⟨p.provider, true, payload p.model context⟩ y) context parsed (not_le.mpr budget)
    rw [called]
    have silent : textsOf s.parts = [] := by
      rw [quiet.parts]
      rfl
    cases (executeToolRound host conversationId context r.text tool args p.allowedTools).run _ <;>
      exact silent
  · exact absurd (announced_of_marker timely tools marker) (plain tools)

/-! ## Where it is late -/

/-- Once a round is decided, it stays so. -/
theorem consume_decided (host : Host) (p : Prepared) {events : List SseEvent}
    (texts : ∀ content, .delta content ∈ events → ∃ text, content = .str text)
    {round : RoundState} {seen : Text} (s : Streaming) (decided : round.decided = true)
    (before : joined round.roundText = .ok seen) :
    ∃ round' s' whole, (consume host toTheEnd p round events).run s = .ok round' s' ∧
      round'.decided = true ∧ round'.toolRound = round.toolRound ∧
      joined round'.roundText = .ok whole := by
  induction events generalizing round s seen with
  | nil => exact ⟨round, s, seen, rfl, decided, rfl, before⟩
  | cons event events ih =>
    have later : ∀ content, .delta content ∈ events → ∃ text, content = .str text :=
      fun content mem => texts content (List.mem_cons_of_mem _ mem)
    cases event with
    | usage usage => exact ih later { s with usage } decided before
    | model model => exact ih later { s with actualModel := model } decided before
    | delta content =>
      obtain ⟨text, rfl⟩ := texts content List.mem_cons_self
      have passes : ∃ s', (onDelta host toTheEnd p round (.str text)).run s =
          .ok { round with roundText := round.roundText ++ [.str text] } s' := by
        unfold onDelta
        cases tool : round.toolRound with
        | true => exact ⟨s, by simp [decided]⟩
        | false =>
          refine ⟨{ s with
            parts := s.parts ++ [.str text], yielded := s.yielded ++ [.chunk (.str text)] }, ?_⟩
          simp only [decided, Bool.not_false, if_true]
          rw [run_bind_ok (run_passOn (.str text) s)]
          rfl
      obtain ⟨s', passed⟩ := passes
      rw [consume, run_bind_ok passed]
      exact ih later s' decided (joined_concat before text)

/-- The first delta decides if it is long enough or holds a line feed. -/
theorem decision_of_first {text : Text} {events : List SseEvent}
    (texts : ∀ content, .delta content ∈ events → ∃ text, content = .str text)
    (first : s.prefixDone = false)
    (decides : toolMarker.length ≤ (Text.lstrip text).length ∨ 10 ∈ text) :
    outcome ((decision host p (.delta (.str text) :: events)).run s) =
      .ok (startsToolRound p (Text.lstrip text)) := by
  have decided : ∃ round s', (onDelta host toTheEnd p {} (.str text)).run s = .ok round s' ∧
      round.decided = true ∧ round.toolRound = startsToolRound p (Text.lstrip text) ∧
      round.roundText = [.str text] := by
    unfold onDelta
    simp only [Bool.false_eq_true, if_false, List.nil_append, asText_str, raises_ok_bind]
    rw [if_pos decides]
    by_cases shown : (!startsToolRound p (Text.lstrip text) && decide (text ≠ [])) = true
    · let lead := routedModelPrefix host.settings host.upstream.py p.model s.actualModel
      refine ⟨⟨text, true, startsToolRound p (Text.lstrip text), [.str text]⟩,
        { s with
          prefixDone := true
          parts := s.parts ++ leadParts lead ++ [.str text]
          yielded := s.yielded ++ (leadParts lead).map .chunk ++ [.chunk (.str text)] },
        ?_, rfl, rfl, rfl⟩
      rw [if_pos shown, run_bind_ok (run_flush host p first rfl)]
      rfl
    · rw [if_neg shown]
      exact ⟨_, s, rfl, rfl, rfl, rfl⟩
  obtain ⟨round, s', passed, is_decided, tool, only⟩ := decided
  obtain ⟨round', s'', whole, consumed, still, same, together⟩ :=
    consume_decided host p texts s' is_decided (by rw [only, joined_text])
  unfold decision
  rw [consume, bind_assoc, run_bind_ok passed, run_bind_ok consumed, together, raises_ok_bind]
  unfold decideLate
  rw [if_pos still, same, tool]
  rfl

/-- So does the first piece of a round. -/
theorem decision_inPieces {piece : Text} (pieces : List Text) (first : s.prefixDone = false)
    (decides : toolMarker.length ≤ (Text.lstrip piece).length ∨ 10 ∈ piece) :
    outcome ((decision host p (inPieces r (piece :: pieces)).events).run s) =
      .ok (startsToolRound p (Text.lstrip piece)) := by
  have texts : ∀ content, .delta content ∈ ((pieces.map fun piece => .delta (.str piece)) ++
      if r.usage = [] then [] else [.usage (.obj r.usage)] : List SseEvent) →
      ∃ text, content = .str text := by
    intro content mem
    rcases List.mem_append.mp mem with mem | mem
    · obtain ⟨piece, -, is⟩ := List.mem_map.mp mem
      cases is
      exact ⟨piece, rfl⟩
    · split at mem <;> simp at mem
  unfold inPieces
  rw [List.map_cons, List.append_assoc, List.cons_append]
  split
  · exact decision_of_first texts first decides
  · exact decision_of_first (s := { s with actualModel := .str r.model }) texts first decides

/-- A late marker makes a difference: the line feed before it, sent by itself, shows the round
that is hidden when it is sent whole. -/
theorem not_cutAlike_of_late (late : LateMarker p r.text) (quiet : Quiet base s) :
    ¬ CutAlike host conversationId p roundNo context r s := by
  obtain ⟨tools, marker, feed⟩ := late
  obtain ⟨ws, rest, spaces⟩ := List.append_of_mem feed
  let ink := Text.lstrip r.text
  have long := length_of_marker marker
  have ink_there : ink ≠ [] := by
    intro blank
    rw [show Text.lstrip r.text = [] from blank] at long
    exact absurd long (by decide)
  have text_eq : r.text = (ws ++ [10]) ++ (rest ++ ink) := by
    conv_lhs => rw [← List.takeWhile_append_dropWhile (p := Text.isSpace) (l := r.text), spaces]
    simp [ink, Text.lstrip]
  have blank : Text.lstrip (ws ++ [10]) = [] := by
    refine List.dropWhile_eq_nil_iff.mpr fun c mem => ?_
    refine List.mem_takeWhile_imp (l := r.text) ?_
    rw [spaces]
    simp only [List.mem_append, List.mem_singleton] at mem
    rcases mem with mem | rfl <;> simp [*]
  have whole : r.Streams (inPieces r [r.text]) :=
    inPieces_streams (by simp [Text.join]) (by simpa using r.ink)
  have cut : r.Streams (inPieces r [ws ++ [10], rest ++ ink]) := by
    refine inPieces_streams (by simp [Text.join, text_eq]) fun piece mem => ?_
    simp only [List.mem_cons, List.not_mem_nil, or_false] at mem
    rcases mem with rfl | rfl <;> simp [ink_there]
  intro alike
  have same := (alike _ _ whole cut).1
  rw [decision_inPieces [] quiet.first (.inl long),
    decision_inPieces _ quiet.first (.inr (List.mem_append_right ws List.mem_cons_self)), blank,
    (startsToolRound_iff p).mpr ⟨tools, marker⟩] at same
  have no : startsToolRound p [] = false := by
    simp [startsToolRound, Text.startswith, toolMarker, Text.ofString]
  rw [no] at same
  cases same

/-- Rounds are decided alike however they are cut, and hide their calls, exactly if their marker
is not late. -/
theorem cutAlike_iff (host : Host) (conversationId : ConversationId) (p : Prepared) (roundNo : Nat)
    (context : List ChatMessage) (r : Round) (s : Streaming) (base : List Message)
    (quiet : Quiet base s) :
    CutAlike host conversationId p roundNo context r s ∧
        HidesCall host conversationId p roundNo context r s ↔
      ¬ LateMarker p r.text := by
  constructor
  · rintro ⟨alike, -⟩ late
    exact not_cutAlike_of_late late quiet alike
  · intro timely
    refine ⟨fun a b streams streams' => ⟨?_, sameRound_of_timely timely quiet streams streams'⟩,
      hidesCall_of_timely timely quiet⟩
    rw [outcome_decision timely quiet streams, outcome_decision timely quiet streams']

/-! ## A search after a line feed -/

section LateSearch

def searchTurn : Prepared where
  provider := .openrouter
  providerName := ↑"openrouter"
  model := ↑"m:free"
  context := []
  allowedTools := [↑"web_search"]
  persona := none

def searchStart : Streaming where
  session := ⟨oneConversation, []⟩
  actualModel := .str ↑"m:free"

theorem quiet_searchStart : Quiet (assistantRows oneConversation) searchStart :=
  ⟨fun _ mem => absurd mem List.not_mem_nil, rfl, rfl, rfl, rfl⟩

def lateSearch : Round := ⟨↑"\n" ++ searchCall, by decide, ↑"m:free", []⟩

/-- In one piece the call is made and nothing is shown; with the line feed in a piece of its own,
no call is made and the text is shown. -/
theorem lateSearch_cut_apart :
    lateSearch.Streams (inPieces lateSearch [↑"\n" ++ searchCall]) ∧
      lateSearch.Streams (inPieces lateSearch [↑"\n", searchCall]) ∧
      (state ((streamRound ((searchHost []).answering (inPieces lateSearch [↑"\n" ++ searchCall]))
        toTheEnd ↑"c" searchTurn 0 []).run searchStart)).session.ledger.toolCalls.length = 1 ∧
      (state ((streamRound ((searchHost []).answering (inPieces lateSearch [↑"\n", searchCall]))
        toTheEnd ↑"c" searchTurn 0 []).run searchStart)).session.ledger.toolCalls.length = 0 ∧
      ¬ CutAlike (searchHost []) ↑"c" searchTurn 0 [] lateSearch searchStart := by
  have whole : lateSearch.Streams (inPieces lateSearch [↑"\n" ++ searchCall]) :=
    inPieces_streams rfl (by decide)
  have cut : lateSearch.Streams (inPieces lateSearch [↑"\n", searchCall]) :=
    inPieces_streams (by decide) (by decide)
  have made : (state ((streamRound
      ((searchHost []).answering (inPieces lateSearch [↑"\n" ++ searchCall]))
      toTheEnd ↑"c" searchTurn 0 []).run searchStart)).session.ledger.toolCalls.length = 1 := by
    decide +kernel
  have shown : (state ((streamRound
      ((searchHost []).answering (inPieces lateSearch [↑"\n", searchCall]))
      toTheEnd ↑"c" searchTurn 0 []).run searchStart)).session.ledger.toolCalls.length = 0 := by
    decide +kernel
  refine ⟨whole, cut, made, shown, fun alike => ?_⟩
  rw [(alike _ _ whole cut).2.session, shown] at made
  cases made

/-- Without the line feed, no cut makes a difference. -/
theorem timelySearch_cut_alike :
    CutAlike (searchHost []) ↑"c" searchTurn 0 [] ⟨searchCall, by decide, ↑"m:free", []⟩
      searchStart :=
  ((cutAlike_iff (searchHost []) ↑"c" searchTurn 0 [] ⟨searchCall, by decide, ↑"m:free", []⟩
    searchStart _ quiet_searchStart).mpr fun late => absurd late.2.2 (by decide)).1

end LateSearch

end AgenticOctopus.Chat
