import AgenticOctopus.Chat.Detection

/-!
# Rounds of a provider

What a model answers in one round, delivered whole or cut into deltas, and what a streamed
round leaves behind: it is a tool round and nothing was shown, or all of it was shown.
-/
namespace AgenticOctopus.Chat
open Foundation Providers

/-! ## Rounds -/

/-- What the model answers in one round. -/
structure Round where
  text : Text
  ink : text ≠ []
  model : Text
  usage : Dict Text Json

namespace Round

variable (r : Round)

/-- The round delivered whole. -/
def response : Response where
  status := 200
  text := ↑""
  json := .ok (.obj
    [(↑"model", .str r.model),
      (↑"choices", .arr [.obj [(↑"message", .obj [(↑"content", .str r.text)])]]),
      (↑"usage", .obj r.usage)])

/-- The round delivered in deltas: the text cut in any way, the model named before it. -/
structure Streams (s : Streamed) : Prop where
  status : s.status = 200
  ended : s.failure = none
  text : textOf s.events = r.text
  cut : ∀ content, .delta content ∈ s.events → ∃ text, text ≠ [] ∧ content = .str text
  model : ∀ m, .model m ∈ s.events → r.model ≠ [] ∧ m = .str r.model
  named : r.model ≠ [] → NamesFirst (.str r.model) s.events
  usage : ∀ u, .usage u ∈ s.events → r.usage ≠ [] ∧ u = .obj r.usage
  used : r.usage ≠ [] → .usage (.obj r.usage) ∈ s.events

/-- What the round makes of the answer before it. -/
def answer (before : Answer) : Answer where
  content := .str r.text
  usage := orElse (.obj r.usage) before.usage
  actualModel := orElse (.str r.model) before.actualModel

theorem readResponse_response (py : Interpreter) (before : Answer) :
    readResponse py r.response before = .ok (r.answer before) := by
  rfl

variable {r}

theorem orElse_str (t : Text) (v : Json) : orElse (.str t) v = if t = [] then v else .str t := by
  cases t <;> rfl

theorem orElse_obj (d : Dict Text Json) (v : Json) :
    orElse (.obj d) v = if d = [] then v else .obj d := by
  cases d <;> rfl

theorem Streams.feeds {streamed : Streamed} (streams : r.Streams streamed) (s : Streaming) :
    Feeds (orElse (.str r.model) s.actualModel) (orElse (.obj r.usage) s.usage) s
      streamed.events where
  cut := streams.cut
  models m h := by
    obtain ⟨some_model, rfl⟩ := streams.model m h
    rw [orElse_str, if_neg some_model]
  named := by
    rw [orElse_str]
    split_ifs with blank
    · exact .inl rfl
    · exact .inr (streams.named blank)
  usages u h := by
    obtain ⟨some_usage, rfl⟩ := streams.usage u h
    rw [orElse_obj, if_neg some_usage]
  used := by
    rw [orElse_obj]
    split_ifs with blank
    · exact .inl rfl
    · exact .inr (streams.used blank)

end Round

/-- The provider answers the requests of a turn with these rounds, one after the other,
whole or in deltas as it is asked, and fails when it has no more. -/
structure Offers (upstream : Upstream) (rounds : List Round) : Prop where
  whole : ∀ reqs, upstream.respond reqs =
    match rounds[reqs.length - 1]? with
    | some r => .ok r.response
    | none => .error .httpError
  inDeltas : ∀ reqs,
    match rounds[reqs.length - 1]? with
    | some r => ∃ streamed, upstream.openStream reqs = .ok streamed ∧ r.Streams streamed
    | none => upstream.openStream reqs = .error .httpError

/-- The response is read as the round. -/
structure Round.Whole (py : Interpreter) (r : Round) (response : Response) : Prop where
  status : response.status = 200
  read : ∀ before, readResponse py response before = .ok (r.answer before)

/-- The provider of the turn answers its requests with responses and streams that are read as
these rounds. -/
structure Delivers (upstream : Upstream) (p : Prepared) (rounds : List Round) : Prop where
  whole : ∀ (reqs : List Request) context,
    let answered := upstream.respond (reqs ++ [⟨p.provider, false, payload p.model context⟩])
    match rounds[reqs.length]? with
    | some r => ∃ response, answered = .ok response ∧ r.Whole upstream.py response
    | none => answered = .error .httpError
  inDeltas : ∀ (reqs : List Request) context,
    let opened := upstream.openStream (reqs ++ [⟨p.provider, true, payload p.model context⟩])
    match rounds[reqs.length]? with
    | some r => ∃ streamed, opened = .ok streamed ∧ r.Streams streamed
    | none => opened = .error .httpError

theorem Offers.delivers {upstream : Upstream} {rounds : List Round}
    (offers : Offers upstream rounds) (p : Prepared) : Delivers upstream p rounds where
  whole reqs context := by
    have whole := offers.whole (reqs ++ [⟨p.provider, false, payload p.model context⟩])
    rw [List.length_append, List.length_singleton, Nat.add_sub_cancel] at whole
    cases there : rounds[reqs.length]? with
    | none => rwa [there] at whole
    | some r =>
      rw [there] at whole
      exact ⟨r.response, whole, rfl, r.readResponse_response upstream.py⟩
  inDeltas reqs context := by
    have inDeltas := offers.inDeltas (reqs ++ [⟨p.provider, true, payload p.model context⟩])
    rwa [List.length_append, List.length_singleton, Nat.add_sub_cancel] at inDeltas

/-! ## Calls of the provider -/

theorem run_complete {upstream : Upstream} {request : Request} {reqs : List Request}
    {r : Response} (answered : upstream.respond (reqs ++ [request]) = .ok r)
    (fine : r.status = 200) :
    (complete upstream request).run reqs = .ok r (reqs ++ [request]) := by
  rw [complete_run, answered]
  exact if_neg (by omega)

theorem run_complete_error {upstream : Upstream} {request : Request} {reqs : List Request}
    {e : Raised} (failed : upstream.respond (reqs ++ [request]) = .error e) :
    (complete upstream request).run reqs = .error e (reqs ++ [request]) := by
  rw [complete_run, failed]

theorem run_openStream {upstream : Upstream} {request : Request} {reqs : List Request}
    {r : Streamed} (answered : upstream.openStream (reqs ++ [request]) = .ok r)
    (fine : r.status = 200) :
    (openStream upstream request).run reqs = .ok r (reqs ++ [request]) := by
  rw [openStream_run, answered]
  simp [fine]

theorem run_openStream_error {upstream : Upstream} {request : Request} {reqs : List Request}
    {e : Raised} (failed : upstream.openStream (reqs ++ [request]) = .error e) :
    (openStream upstream request).run reqs = .error e (reqs ++ [request]) := by
  rw [openStream_run, failed]

/-! ## One streamed round -/

section Round

variable (host : Host) (conversationId : ConversationId) (p : Prepared)

/-- The generator when a round has arrived. -/
def arrived (s : Streaming) (r : Round) (before : Answer) (request : Request)
    (yielded : List StreamEvent) : Streaming :=
  { s with
    session := { s.session with requests := s.session.requests ++ [request] }
    yielded
    usage := (r.answer before).usage
    actualModel := (r.answer before).actualModel }

theorem run_streamRound {s : Streaming} {r : Round} {before : Answer} {streamed : Streamed}
    (roundNo : Nat) (context : List ChatMessage) (silent : s.parts = [])
    (first : s.prefixDone = false) (usage : s.usage = before.usage)
    (model : s.actualModel = before.actualModel)
    (opened : host.upstream.openStream
      (s.session.requests ++ [⟨p.provider, true, payload p.model context⟩]) = .ok streamed)
    (streams : r.Streams streamed) :
    (startsToolRound p (Text.lstrip r.text) = true ∧ ∃ yielded,
        (streamRound host toTheEnd conversationId p roundNo context).run s =
          (answerToolRound host toTheEnd conversationId p roundNo context r.text).run
            (arrived s r before ⟨p.provider, true, payload p.model context⟩ yielded)) ∨
      ∃ parts yielded prefixDone,
        (streamRound host toTheEnd conversationId p roundNo context).run s =
            .ok none
              { arrived s r before ⟨p.provider, true, payload p.model context⟩ yielded with
                parts, prefixDone, completed := true } ∧
          joined parts = .ok
            (routedModelPrefix host.settings host.upstream.py p.model
              (r.answer before).actualModel ++ r.text) ∧
          (p.allowedTools ≠ [] → ¬ Announced r.text) := by
  let request : Request := ⟨p.provider, true, payload p.model context⟩
  let s₀ : Streaming :=
    { s with session := { s.session with requests := s.session.requests ++ [request] } }
  have ran : (Program.zoom onSession (Program.zoom onRequests
      (openStream host.upstream request))).run s = .ok streamed s₀ :=
    Program.run_zoom_ok (Program.run_zoom_ok (run_openStream opened streams.status))
  have feeds := streams.feeds s₀
  have blank : Knows p
      (routedModelPrefix host.settings host.upstream.py p.model (r.answer before).actualModel)
      s₀.parts s₀.prefixDone {} [] :=
    .nothing rfl rfl silent first (by decide) List.not_mem_nil
  rw [show s₀.actualModel = before.actualModel from model,
    show s₀.usage = before.usage from usage] at feeds
  obtain ⟨round, parts, yielded, prefixDone, consumed, knows, whole⟩ :=
    consume_knows host p rfl blank rfl feeds
  rw [List.nil_append, streams.text] at knows whole
  unfold streamRound
  rw [Program.run_bind_ok ran, Program.run_bind_ok consumed, streams.ended]
  dsimp only
  rw [whole, Program.raises_ok_bind]
  let seen : Streaming :=
    { s₀ with
      parts, yielded, prefixDone
      usage := (r.answer before).usage
      actualModel := (r.answer before).actualModel }
  rcases decide_round (s := seen) host p knows r.ink rfl with
    ⟨decided, quiet, unshown, marker⟩ | ⟨parts', yielded', prefixDone', decided, shown, plain⟩
  · refine .inl ⟨marker, yielded, (Program.run_bind_ok decided).trans ?_⟩
    obtain rfl : parts = s.parts := quiet.trans silent.symm
    obtain rfl : prefixDone = s.prefixDone := unshown.trans first.symm
    rw [if_pos rfl]
    rfl
  · refine .inr ⟨parts', yielded', prefixDone', (Program.run_bind_ok decided).trans ?_, shown,
      plain⟩
    rw [if_neg Bool.false_ne_true]
    rfl

end Round

/-! ## A provider that cuts a round into pieces -/

def inPieces (r : Round) (pieces : List Text) : Streamed where
  status := 200
  text := ↑""
  events :=
    (if r.model = [] then [] else [.model (.str r.model)]) ++
      (pieces.map fun piece => .delta (.str piece)) ++
      if r.usage = [] then [] else [.usage (.obj r.usage)]
  failure := none

theorem textOf_deltas (pieces : List Text) (events : List SseEvent) :
    textOf ((pieces.map fun piece => .delta (.str piece)) ++ events) =
      Text.join pieces ++ textOf events := by
  induction pieces with
  | nil => rfl
  | cons piece pieces ih => simp [textOf, ih, Text.join]

theorem mem_inPieces {r : Round} {pieces : List Text} {event : SseEvent} :
    event ∈ (inPieces r pieces).events ↔
      (r.model ≠ [] ∧ event = .model (.str r.model)) ∨
        (∃ piece ∈ pieces, .delta (.str piece) = event) ∨
        r.usage ≠ [] ∧ event = .usage (.obj r.usage) := by
  unfold inPieces
  rw [List.mem_append, List.mem_append, List.mem_map, or_assoc]
  by_cases model : r.model = [] <;> by_cases usage : r.usage = [] <;> simp [model, usage]

theorem inPieces_streams {r : Round} {pieces : List Text} (whole : Text.join pieces = r.text)
    (cut : ∀ piece ∈ pieces, piece ≠ []) : r.Streams (inPieces r pieces) where
  status := rfl
  ended := rfl
  text := by
    have joined : textOf ((pieces.map fun piece => .delta (.str piece)) ++
        if r.usage = [] then [] else [.usage (.obj r.usage)]) = r.text := by
      rw [textOf_deltas, whole]
      split_ifs <;> simp [textOf]
    unfold inPieces
    rw [List.append_assoc]
    by_cases model : r.model = []
    · rw [if_pos model]
      exact joined
    · rw [if_neg model]
      exact joined
  cut t h := by
    rcases mem_inPieces.mp h with ⟨-, is⟩ | ⟨piece, mem, is⟩ | ⟨-, is⟩ <;> cases is
    exact ⟨piece, cut _ mem, rfl⟩
  model m h := by
    rcases mem_inPieces.mp h with ⟨named, is⟩ | ⟨piece, -, is⟩ | ⟨-, is⟩ <;> cases is
    exact ⟨named, rfl⟩
  named model := by
    unfold inPieces
    rw [if_neg model]
    rfl
  usage u h := by
    rcases mem_inPieces.mp h with ⟨-, is⟩ | ⟨piece, -, is⟩ | ⟨used, is⟩ <;> cases is
    exact ⟨used, rfl⟩
  used usage := mem_inPieces.mpr (.inr (.inr ⟨usage, rfl⟩))

def byLetter (r : Round) : Streamed where
  status := 200
  text := ↑""
  events :=
    (if r.model = [] then [] else [.model (.str r.model)]) ++
      (r.text.map fun c => .delta (.str [c])) ++
      if r.usage = [] then [] else [.usage (.obj r.usage)]
  failure := none

theorem byLetter_streams (r : Round) : r.Streams (byLetter r) := by
  have letters : byLetter r = inPieces r (r.text.map fun c => [c]) := by
    unfold byLetter inPieces
    rw [List.map_map]
    rfl
  rw [letters]
  have whole : Text.join (r.text.map fun c => [c]) = r.text := by
    rw [Text.join, ← List.flatMap_def, List.flatMap_singleton']
  refine inPieces_streams whole fun piece mem => ?_
  obtain ⟨c, -, rfl⟩ := List.mem_map.mp mem
  exact List.cons_ne_nil c []

def letterByLetter (py : Interpreter) (rounds : List Round) : Upstream where
  py := py
  installedTags := []
  respond reqs :=
    match rounds[reqs.length - 1]? with
    | some r => .ok r.response
    | none => .error .httpError
  openStream reqs :=
    match rounds[reqs.length - 1]? with
    | some r => .ok (byLetter r)
    | none => .error .httpError

theorem letterByLetter_offers (py : Interpreter) (rounds : List Round) :
    Offers (letterByLetter py rounds) rounds where
  whole _ := rfl
  inDeltas reqs := by
    have opened : (letterByLetter py rounds).openStream reqs =
        match rounds[reqs.length - 1]? with
        | some r => .ok (byLetter r)
        | none => .error .httpError := rfl
    rw [opened]
    cases rounds[reqs.length - 1]? with
    | none => rfl
    | some r => exact ⟨byLetter r, rfl, byLetter_streams r⟩

end AgenticOctopus.Chat
