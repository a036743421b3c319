import AgenticOctopus.Api.Completions

/-!
# How a streamed response ends

The `finally` of the shim's `sse()` logs what the stream told of itself, and nothing catches what
the log raises. So the response is closed where the stream is and the log takes its row.
-/
namespace AgenticOctopus.Api.OpenAICompat
open Foundation Providers Program
open Chat (Stop PyDict Streaming pairOf)

/-! ## What a stream tells -/

/-- The usage of a stream so far, and the model that it named last. -/
structure Figures where
  usage : PyDict
  model : Json

/-- `usage.update(items)`; the pairs before a bad one stay. -/
def mergedItems (usage : PyDict) (index : Nat) : List Json → PyDict
  | [] => usage
  | v :: vs =>
    match pairOf index v with
    | .ok (k, w) => mergedItems (usage.set k w) (index + 1) vs
    | .error _ => usage

/-- The usage after a chunk with this one; a text has no pairs. -/
def updated (usage : PyDict) : Json → PyDict
  | .obj fields => mergedUsage usage fields
  | .arr items => mergedItems usage 0 items
  | _ => usage

namespace Figures

/-- The figures after a chunk. Its usage is read first, and one that does not fit is where looking
into the chunk ends. -/
def after (f : Figures) : Json → Figures
  | .obj fields =>
    { usage := updated f.usage (fieldOf fields ↑"usage")
      model :=
        if usageFits (fieldOf fields ↑"usage") then namedModel f.model (.obj fields) else f.model }
  | _ => f

variable (py : Interpreter)

def afterLine (f : Figures) (line : Bytes) : Figures :=
  match lineChunk py line with
  | .ok (some chunk) => f.after chunk
  | _ => f

/-- The figures after the lines; the first that raises is the last that is read. -/
def afterLines (want : Bool) (f : Figures) : List Bytes → Figures
  | [] => f
  | line :: lines =>
    match linePasses py want line with
    | some later => afterLines later (f.afterLine py line) lines
    | none => f.afterLine py line

/-- What a stream tells of itself, if this model is asked for. -/
def told (settings : Settings) (model : Text) (chunks : List Bytes) : Figures :=
  afterLines py (wantsPrefix settings model) ⟨[], .str model⟩
    ((eventsOf chunks.flatten).flatMap (·.splitOn Frame.feed))

end Figures

/-! ## What the loop has noted -/

def Shim.figures (s : Shim) : Figures := ⟨s.usage, s.actualModel⟩

section Noted

theorem state_updateItems (items : List Json) (index : Nat) (s : Shim) :
    state ((updateItems index items).run s) =
      { s with usage := mergedItems s.usage index items } := by
  induction items generalizing index s with
  | nil => rfl
  | cons v vs ih =>
    rw [updateItems, mergedItems]
    cases pair : pairOf index v with
    | error e => rfl
    | ok p => exact ih (index + 1) { s with usage := s.usage.set p.1 p.2 }

theorem state_noteUsage (usage : Json) (s : Shim) :
    state ((noteUsage usage).run s) = { s with usage := updated s.usage usage } := by
  unfold noteUsage
  split_ifs with truthy
  · cases usage with
    | arr items => exact state_updateItems items 0 s
    | str t =>
      refine (state_updateItems _ 0 s).trans ?_
      cases t <;> rfl
    | _ => rfl
  · cases usage with
    | arr items =>
      cases items with
      | nil => rfl
      | cons v vs => exact absurd rfl truthy
    | obj fields =>
      cases fields with
      | nil => rfl
      | cons p fields => exact absurd rfl truthy
    | _ => rfl

variable (py : Interpreter)

theorem figures_introduce (chunk delta : Json) (s : Shim) :
    (state ((introduce py chunk delta).run s)).figures = s.figures := by
  obtain ⟨sent, usage, model, want⟩ := s
  cases want with
  | false => rfl
  | true =>
    cases delta with
    | obj fields =>
      let content : Json := (Dict.get? fields ↑"content").getD .null
      let answer : Json := withContent chunk (leadIn py model ++ content.toStr py)
      change (state ((if content.truthy then do
          set (⟨sent, usage, model, false⟩ : Shim)
          return some answer
        else return none : Shimming (Option Json)).run ⟨sent, usage, model, true⟩)).figures =
          ⟨usage, model⟩
      cases content.truthy <;> rfl
    | _ => rfl

theorem figures_peek (chunk : Json) (s : Shim) :
    (state ((peek py chunk).run s)).figures = s.figures.after chunk := by
  cases chunk with
  | obj fields =>
    rw [peek_object, Figures.after]
    obtain ⟨fits, misfits⟩ := noteUsage_run (fieldOf fields ↑"usage") s
    have noted := state_noteUsage (fieldOf fields ↑"usage") s
    cases usage : usageFits (fieldOf fields ↑"usage") with
    | false =>
      obtain ⟨e, u, ran⟩ := misfits usage
      rw [ran] at noted
      change ({ s with usage := u } : Shim) = _ at noted
      rw [run_bind_error ran, noted]
      rfl
    | true =>
      obtain ⟨u, ran, -⟩ := fits usage
      rw [ran] at noted
      change ({ s with usage := u } : Shim) = _ at noted
      rw [run_bind_ok ran, noted, run_bind_ok (noteModel_run fields _)]
      cases deltaOf (.obj fields) with
      | error e => rfl
      | ok delta => exact figures_introduce py (.obj fields) delta _
  | _ => rfl

theorem figures_forwardLine (event line : Bytes) (s : Shim) :
    (state ((forwardLine py event line).run s)).figures = s.figures.afterLine py line := by
  rw [forwardLine_eq, Figures.afterLine]
  cases lineChunk py line with
  | error e => rfl
  | ok found =>
    cases found with
    | none => rfl
    | some chunk =>
      have noted := figures_peek py chunk s
      dsimp only
      cases ran : (peek py chunk).run s with
      | error e t =>
        rw [ran] at noted
        rw [run_bind_error ran]
        exact noted
      | ok out t =>
        rw [ran] at noted
        rw [run_bind_ok ran]
        exact noted

theorem figures_forwardLines (lines : List Bytes) (event : Bytes) (s : Shim) :
    (state ((lines.foldlM (forwardLine py) event).run s)).figures =
      s.figures.afterLines py s.wantPrefix lines := by
  induction lines generalizing event s with
  | nil => rfl
  | cons line lines ih =>
    have noted := figures_forwardLine py event line s
    obtain ⟨passing, stops⟩ := forwardLine_run py event line s
    rw [List.foldlM_cons, Figures.afterLines]
    cases passed : linePasses py s.wantPrefix line with
    | none =>
      obtain ⟨e, t, ran, -⟩ := stops passed
      rw [ran] at noted
      rw [run_bind_error ran]
      exact noted
    | some later =>
      obtain ⟨out, t, ran, -, rfl, -⟩ := passing later passed
      rw [ran] at noted
      rw [run_bind_ok ran, ih]
      exact congrArg (Figures.afterLines py t.wantPrefix · lines) noted

/-- Lines that are read to the end are followed by those after them. -/
theorem Figures.afterLines_append (want : Bool) (f : Figures) (lines more : List Bytes) :
    f.afterLines py want (lines ++ more) =
      match lines.foldlM (linePasses py) want with
      | some later => (f.afterLines py want lines).afterLines py later more
      | none => f.afterLines py want lines := by
  induction lines generalizing want f with
  | nil => rfl
  | cons line lines ih =>
    rw [List.cons_append, afterLines, afterLines, List.foldlM_cons]
    cases linePasses py want line with
    | none => rfl
    | some later => exact ih later _

theorem figures_forwardEvents (events : List Bytes) (s : Shim) :
    (state ((forM events (forwardEvent py)).run s)).figures =
      s.figures.afterLines py s.wantPrefix (events.flatMap (·.splitOn Frame.feed)) := by
  induction events generalizing s with
  | nil => rfl
  | cons event events ih =>
    have noted := figures_forwardLines py (event.splitOn Frame.feed) event s
    obtain ⟨passing, stops⟩ := forwardLines_run py (event.splitOn Frame.feed) event s
    rw [List.forM_cons, List.flatMap_cons, Figures.afterLines_append, forwardEvent, bind_assoc]
    cases passed : (event.splitOn Frame.feed).foldlM (linePasses py) s.wantPrefix with
    | none =>
      obtain ⟨e, t, ran, -⟩ := stops passed
      rw [ran] at noted
      rw [run_bind_error ran]
      exact noted
    | some later =>
      obtain ⟨out, t, ran, -, rfl, -⟩ := passing later passed
      rw [ran] at noted
      rw [run_bind_ok ran]
      refine (ih { t with sent := t.sent ++ [out ++ separator] }).trans ?_
      exact congrArg (Figures.afterLines py t.wantPrefix · _) noted

/-- The `finally` finds what the stream told of itself. -/
theorem figures_forward (settings : Settings) (model : Text) (chunks : List Bytes)
    (failure : Option Raised) :
    (state ((forward py chunks failure).run (start settings model))).figures =
      Figures.told py settings model chunks := by
  have noted := figures_forwardEvents py (eventsOf chunks.flatten) (start settings model)
  rw [forward_eq]
  cases ran : (forM (eventsOf chunks.flatten) (forwardEvent py)).run (start settings model) with
  | error e t =>
    rw [ran] at noted
    rw [run_bind_error ran]
    exact noted
  | ok done t =>
    rw [ran] at noted
    rw [run_bind_ok ran]
    cases failure <;> exact noted

end Noted

/-! ## The response -/

/-- What arrives from the upstream, and the exception that it breaks off with; where it is not
asked or does not answer, nothing arrives. -/
def arrives (o : Outside) (request : Request) (requests : List Request) :
    List Bytes × Option Raised :=
  match outcome ((openStream o.upstream request).run requests) with
  | .ok _ => o.chunks (requests ++ [request])
  | .error e => ([], some e)

theorem streamEnd_arrives (o : Outside) (request : Request) (model : Text)
    (requests : List Request) :
    streamEnd o request model requests =
      (forward o.upstream.py (arrives o request requests).1 (arrives o request requests).2).run
        (start o.settings model) := by
  unfold streamEnd arrives
  cases outcome ((openStream o.upstream request).run requests) with
  | ok r => rfl
  | error e =>
    rw [forward_eq, eventsOf, List.flatten_nil, Framing.blocks_of_none rfl]
    rfl

/-- The response is closed, and no exception cuts it off after that. -/
def Reply.Closed (error : Option Bytes) : Reply → Prop
  | .stream sent cut => OpenAICompat.Closed sent.flatten error ∧ cut = none
  | _ => False

/-- There is no log, or it takes a row with these figures. -/
def Logs (o : Outside) (pool : Option (List LogRow)) (f : Figures) (tags : Dict Text Json) :
    Prop := pool = none ∨ Takes o f.usage f.model tags

section Streamed

variable (o : Outside) (request : Request) (model : Text) (tags : Dict Text Json) (s : Desk)

theorem figures_streamEnd :
    (state (streamEnd o request model s.requests)).figures =
      Figures.told o.upstream.py o.settings model (arrives o request s.requests).1 := by
  rw [streamEnd_arrives, figures_forward]

/-- Where the log refuses the row, the response is cut off. -/
theorem streamed_cut
    (refuses : ¬ Logs o s.pool
      (Figures.told o.upstream.py o.settings model (arrives o request s.requests).1) tags) :
    ∃ reply t, (streamed o request model tags).run s = .ok reply t ∧
      ∀ error, ¬ reply.Closed error := by
  rw [← figures_streamEnd] at refuses
  rw [streamed_run]
  dsimp only
  rcases log_ends (o := o) (s.asked request) (state (streamEnd o request model s.requests)).usage
    (state (streamEnd o request model s.requests)).actualModel true tags with
    ⟨logs, -⟩ | ⟨-, -, ran⟩
  · exact absurd logs refuses
  · rw [ran]
    exact ⟨_, _, rfl, fun error closed => by cases closed.2⟩

/-- A response is the stream, closed or not, unless the log cuts it off. -/
theorem streamed_closed_iff (floats : Json.PrintableFloats o.upstream.py) :
    let upstream := arrives o request s.requests
    ∃ reply t, (streamed o request model tags).run s = .ok reply t ∧
      (reply.Closed (owed (fun e => rewritten o.upstream.py (streamError (o.describe e)))
          (outcome (streamEnd o request model s.requests))) ↔
        Closes o.upstream.py (wantsPrefix o.settings model) (eventsOf upstream.1.flatten)
            upstream.2 ∧
          Logs o s.pool (Figures.told o.upstream.py o.settings model upstream.1) tags) := by
  dsimp only
  by_cases logs : Logs o s.pool
    (Figures.told o.upstream.py o.settings model (arrives o request s.requests).1) tags
  · have closes := closed_sse_iff floats o.describe o.settings model
      (arrives o request s.requests).1 (arrives o request s.requests).2
    rw [← streamEnd_arrives] at closes
    dsimp only at closes
    rw [streamed_run, ← closes, and_iff_left logs]
    rw [← figures_streamEnd] at logs
    dsimp only
    rcases log_ends (o := o) (s.asked request) (state (streamEnd o request model s.requests)).usage
      (state (streamEnd o request model s.requests)).actualModel true tags with
      ⟨-, t, ran⟩ | ⟨there, refuses, -⟩
    · rw [ran]
      exact ⟨_, _, rfl, and_iff_left rfl⟩
    · exact absurd logs fun logs => logs.elim there refuses
  · obtain ⟨reply, t, ran, never⟩ := streamed_cut o request model tags s logs
    exact ⟨reply, t, ran, iff_of_false (never _) fun both => logs both.2⟩

end Streamed

/-- The native response is always closed; the shim's is in exactly these cases. -/
theorem closed_iff (o : Outside) (floats : Json.PrintableFloats o.upstream.py) :
    (∀ (describe : Raised → Text) (turn : EStateM.Result Raised Streaming Unit),
      ∃ bytes, Frame.wire o.upstream.py (Api.sse o.upstream.py describe turn) = some bytes ∧
        Closed bytes (owed (fun e => errorLine o.upstream.py (describe e))
          (sseOutcome o.upstream.py turn))) ∧
    ∀ (request : Request) (model : Text) (tags : Dict Text Json) (s : Desk),
      let upstream := arrives o request s.requests
      ∃ reply t, (streamed o request model tags).run s = .ok reply t ∧
        (reply.Closed (owed (fun e => rewritten o.upstream.py (streamError (o.describe e)))
            (outcome (streamEnd o request model s.requests))) ↔
          Closes o.upstream.py (wantsPrefix o.settings model) (eventsOf upstream.1.flatten)
              upstream.2 ∧
            Logs o s.pool (Figures.told o.upstream.py o.settings model upstream.1) tags) :=
  ⟨native_closed floats,
    fun request model tags s => streamed_closed_iff o request model tags s floats⟩

/-! ### Three upstreams -/

section Upstreams

/-- An upstream that sends these bytes, and a database with a log. -/
def sending (bytes : Bytes) (failure : Option Raised) : Outside where
  settings := {}
  upstream := {
    py := Chat.plainPython
    installedTags := []
    respond _ := .error .httpError
    openStream _ := .ok ⟨200, [], [], none⟩ }
  chunks _ := ([bytes], failure)
  describe _ := ↑"failed"
  now := 10
  durationMs := 700
  connects := true
  columns := plainColumns

def asking : Request :=
  ⟨.openrouter, true, [(↑"model", .str ↑"a/b:free"), (↑"stream", .bool true)]⟩

/-- What the client gets, and whether the database has the log. -/
def response (bytes : Bytes) (failure : Option Raised) (logs : Bool) : Except Raised Reply :=
  outcome ((streamed (sending bytes failure) asking ↑"a/b:free" []).run
    ⟨[], if logs then some [] else none⟩)

def failedLine : Bytes := rewritten Chat.plainPython (streamError ↑"failed")

/-- A chunk whose model is an object. -/
def oddLine : Bytes := ↑"data: \x7b\"model\": \x7b\"a\": 1\x7d\x7d"

theorem eventsOf_doneEvent : eventsOf [doneEvent].flatten = [doneLine] := by
  have first : Framing.splitOnce separator [doneEvent].flatten = some (doneLine, []) := by decide
  rw [eventsOf, Framing.blocks_of_some first, Framing.blocks_of_none rfl]

theorem eventsOf_odd : eventsOf [oddLine ++ separator ++ doneEvent].flatten = [oddLine, doneLine] := by
  have first : Framing.splitOnce separator [oddLine ++ separator ++ doneEvent].flatten =
      some (oddLine, doneEvent) := by decide
  have second : Framing.splitOnce separator doneEvent = some (doneLine, []) := by decide
  rw [eventsOf, Framing.blocks_of_some first, Framing.blocks_of_some second,
    Framing.blocks_of_none rfl]

/-- How the loop of `sse()` ends on these events. -/
theorem outcome_sending {bytes : Bytes} {events : List Bytes}
    (found : eventsOf [bytes].flatten = events) (failure : Option Raised) :
    outcome (streamEnd (sending bytes failure) asking ↑"a/b:free" []) =
      outcome ((do
        forM events (forwardEvent Chat.plainPython)
        match failure with
        | some e => throw (.raised e)
        | none => return : Shimming Unit).run (start {} ↑"a/b:free")) := by
  rw [streamEnd_arrives, forward_eq, ← found]
  rfl

theorem marks_done : marks Chat.plainPython false [doneLine] = [true] := by decide

theorem splitOn_done : doneLine.splitOn Frame.feed = [doneLine] := by decide

theorem lineChunk_done : lineChunk Chat.plainPython doneLine = .ok none := rfl

theorem forwardEvent_done (s : Shim) :
    (forwardEvent Chat.plainPython doneLine).run s =
      .ok () { s with sent := s.sent ++ [doneLine ++ separator] } := by
  rw [forwardEvent, splitOn_done, List.foldlM_cons, forwardLine_eq, lineChunk_done]
  rfl

/-- How the loop of `sse()` ends after `[DONE]`. -/
theorem outcome_done (failure : Option Raised) :
    outcome (streamEnd (sending doneEvent failure) asking ↑"a/b:free" []) =
      match failure with
      | some e => .error (.raised e)
      | none => .ok () := by
  rw [outcome_sending eventsOf_doneEvent, List.forM_cons, bind_assoc,
    run_bind_ok (forwardEvent_done _)]
  cases failure <;> rfl

theorem response_closed :
    ∃ reply, response doneEvent none true = .ok reply ∧ reply.Closed none := by
  obtain ⟨reply, t, ran, closed⟩ := (closed_iff (sending doneEvent none)
    Chat.printableFloats_plainPython).2 asking ↑"a/b:free" [] ⟨[], some []⟩
  refine ⟨reply, congrArg outcome ran, ?_⟩
  rw [outcome_done] at closed
  have closes : Closes Chat.plainPython false (eventsOf [doneEvent].flatten) none := by
    rw [eventsOf_doneEvent, Closes, marks_done, if_pos (by decide)]
    decide
  have fit : figuresFit plainColumns
      (Figures.told Chat.plainPython {} ↑"a/b:free" [doneEvent]).usage
      (Figures.told Chat.plainPython {} ↑"a/b:free" [doneEvent]).model = true := by
    rw [Figures.told, eventsOf_doneEvent, List.flatMap_singleton, splitOn_done, Figures.afterLines,
      Figures.afterLine, linePasses, lineChunk_done]
    decide
  exact closed.mpr ⟨closes, .inr ⟨rfl, by decide, fit⟩⟩

/-- Nothing closes the response to an upstream that says nothing, an exception after `[DONE]` closes
it twice, and one of the log cuts it off. -/
theorem not_always_closed :
    (∃ reply, response [] none false = .ok reply ∧ ¬ reply.Closed none) ∧
    (∃ reply, response doneEvent (some .httpError) false = .ok reply ∧
      ¬ reply.Closed (some failedLine)) ∧
    ∃ reply, response (oddLine ++ separator ++ doneEvent) none true = .ok reply ∧
      ∀ error, ¬ reply.Closed error := by
  have floats := Chat.printableFloats_plainPython
  refine ⟨?_, ?_, ?_⟩
  · obtain ⟨reply, t, ran, closed⟩ := streamed_closed_iff (sending [] none) asking ↑"a/b:free" []
      ⟨[], none⟩ floats
    have nothing : eventsOf [([] : Bytes)].flatten = [] := by
      rw [eventsOf, List.flatten_singleton, Framing.blocks_of_none rfl]
    have done : outcome (streamEnd (sending [] none) asking ↑"a/b:free" []) = .ok () := by
      rw [outcome_sending nothing]
      rfl
    have closes : ¬ Closes Chat.plainPython false (eventsOf [([] : Bytes)].flatten) none := by
      rw [nothing, Closes, if_pos (by decide)]
      decide
    rw [done] at closed
    exact ⟨reply, congrArg outcome ran, fun is => closes (closed.mp is).1⟩
  · obtain ⟨reply, t, ran, closed⟩ := streamed_closed_iff (sending doneEvent (some .httpError))
      asking ↑"a/b:free" [] ⟨[], none⟩ floats
    have closes : ¬ Closes Chat.plainPython false (eventsOf [doneEvent].flatten)
        (some .httpError) := by
      rw [eventsOf_doneEvent, Closes, marks_done, if_neg (by simp)]
      decide
    rw [outcome_done] at closed
    exact ⟨reply, congrArg outcome ran, fun is => closes (closed.mp is).1⟩
  · have refuses : ¬ Logs (sending (oddLine ++ separator ++ doneEvent) none) (some [])
        (Figures.told Chat.plainPython {} ↑"a/b:free" [oddLine ++ separator ++ doneEvent]) [] := by
      rw [Figures.told, eventsOf_odd]
      rintro (away | ⟨-, -, fit⟩)
      · cases away
      · revert fit
        decide +kernel
    obtain ⟨reply, t, ran, never⟩ := streamed_cut (sending (oddLine ++ separator ++ doneEvent) none)
      asking ↑"a/b:free" [] ⟨[], some []⟩ refuses
    exact ⟨reply, congrArg outcome ran, never⟩

end Upstreams

end AgenticOctopus.Api.OpenAICompat
