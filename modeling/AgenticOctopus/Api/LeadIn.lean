import AgenticOctopus.Api.Closing
import AgenticOctopus.Chat.WebTools
import AgenticOctopus.Foundation.JsonRounding

/-!
# The name of the model before the first text

With the smart router the first text of a stream is led in by the model that writes it. What a
client decodes is otherwise what the upstream sent, but the event that gets the lead-in is
written anew, as a data line and nothing else.
-/
namespace AgenticOctopus.Api.OpenAICompat
open Foundation Providers
open Chat (Stop PyDict)

/-! ## Decoding -/

/-- What a data line says. -/
inductive Datum where
  | done
  | chunk (v : Json)
  | unread

/-- The lines of an event that are no comment, with the data apart. -/
structure Event where
  fields : List Bytes
  data : List Datum

/-- `event:`, `id:` and the like. -/
def isField (line : Bytes) : Bool :=
  !line.isEmpty && !dataMark.isPrefixOf line && line.head? != some 58

variable (py : Interpreter)

def datum (line : Bytes) : Datum :=
  if saysDone line then .done
  else
    match loadPayload py (line.drop 6) with
    | .ok (some chunk) => .chunk chunk
    | _ => .unread

def decode (event : Bytes) : Event where
  fields := (event.splitOn Frame.feed).filter isField
  data := ((event.splitOn Frame.feed).filter dataMark.isPrefixOf).map (datum py)

def Datum.rounded : Datum → Datum
  | .chunk v => .chunk (v.rounded py)
  | d => d

/-- Floats as they are read from their `repr`. -/
def Event.rounded (e : Event) : Event := { e with data := e.data.map (Datum.rounded py) }

/-- The events are the same, up to floats that `repr` does not tell apart. -/
def SameEvents (xs ys : List Event) : Prop := xs.map (Event.rounded py) = ys.map (Event.rounded py)

/-! ## Chunks of a completion -/

/-- A count that an `int` column takes as it is. -/
def countFits : Json → Bool
  | .null => true
  | .int n => inIntRange n
  | _ => false

def usageKeys : List Text := [↑"prompt_tokens", ↑"completion_tokens", ↑"total_tokens"]

/-- No usage, or an object whose counts an `int` column takes. -/
def usageIsCounted : Json → Bool
  | .null => true
  | .obj usage => usageKeys.all fun key => countFits (fieldOf usage key)
  | _ => false

def modelIsText : Json → Bool
  | .null => true
  | .str model => model.storable
  | _ => false

/-- The delta, if any, is an object whose content, if any, is a text. -/
def choiceIsText : Json → Bool
  | .obj choice =>
    match (Dict.get? choice ↑"delta").getD (.obj []) with
    | .obj delta =>
      match fieldOf delta ↑"content" with
      | .null | .str _ => true
      | _ => false
    | _ => false
  | _ => false

def choicesAreText : Json → Bool
  | .null => true
  | .arr choices => choices.all choiceIsText
  | _ => false

/-- A well-formed chunk of a completion. -/
def isChunk : Json → Bool
  | .obj fields =>
    Json.wellFormed (.obj fields) && usageIsCounted (fieldOf fields ↑"usage") &&
      modelIsText (fieldOf fields ↑"model") && choicesAreText (fieldOf fields ↑"choices")
  | _ => false

/-- At most one data line, with `[DONE]` or a chunk. -/
def Event.fits (e : Event) : Bool :=
  match e.data with
  | [] | [.done] => true
  | [.chunk v] => isChunk v
  | _ => false

namespace Event

def chunk? (e : Event) : Option Json :=
  match e.data with
  | [.chunk v] => some v
  | _ => none

/-- The event has a text. -/
def holdsText (e : Event) : Bool := e.chunk?.any speaks

/-- The model named by the event, or else the one named before. -/
def model (before : Json) (e : Event) : Json := e.chunk?.elim before (namedModel before)

/-- A count of the event's usage, or else the one from before. -/
def count (key : Text) (before : Json) (e : Event) : Json :=
  match e.chunk? with
  | some (.obj fields) =>
    match fieldOf fields ↑"usage" with
    | .obj usage => (Dict.get? usage key).getD before
    | _ => before
  | _ => before

/-- The event with the lead-in before its text. -/
def led (model : Json) (e : Event) : Event :=
  { e with
    data := e.data.map fun
      | .chunk v => .chunk (withContent v (leadIn py model ++ (contentOf v).toStr py))
      | d => d }

end Event

/-- The model that the events name last. -/
def latestModel (events : List Event) : Json := events.foldl Event.model (.str OpenRouter.autoModel)

def mergedCount (key : Text) (events : List Event) : Json := events.foldl (Event.count key) .null

/-! ## The row of a completion -/

/-- The tags of a call come from a header and from the code: no NUL and no surrogate. -/
abbrev Tags := { tags : Dict Text Json // Json.storable (.obj tags) = true }

structure Completion where
  model : Option Text
  promptTokens : Option Int
  completionTokens : Option Int
  totalTokens : Option Int
  durationMs : Int
  stream : Bool
  tags : Dict Text Json

def completionRow (columns : Columns) (usage : PyDict) (model : Json) (durationMs : Int)
    (stream : Bool) (tags : Tags) : Except Raised Completion := do
  let row : Completion := {
    model := ← columns.text model
    promptTokens := ← columns.int (usage.get ↑"prompt_tokens" .null)
    completionTokens := ← columns.int (usage.get ↑"completion_tokens" .null)
    totalTokens := ← columns.int (usage.get ↑"total_tokens" .null)
    durationMs := durationMs
    stream := stream
    tags := tags.val }
  if row.model.all Text.storable then return row else throw .databaseError

/-- The table after the call; there may be no database. -/
def logMetadata (columns : Columns) (usage : PyDict) (model : Json) (durationMs : Int)
    (stream : Bool) (tags : Tags) :
    Option (List Completion) → Except Raised (Option (List Completion))
  | none => return none
  | some rows => return some (rows ++ [← completionRow columns usage model durationMs stream tags])

/-- What `finally` does when the client has read to the end. -/
def logged (columns : Columns) (s : Shim) (durationMs : Int) (tags : Tags)
    (pool : Option (List Completion)) : Except Raised (Option (List Completion)) :=
  logMetadata columns s.usage s.actualModel durationMs true tags pool

/-! ## What is sent for an event -/

variable {py}

theorem exists_of_isChunk {chunk : Json} (fit : isChunk chunk = true) :
    ∃ fields, chunk = .obj fields ∧ Json.wellFormed (.obj fields) = true ∧
      usageIsCounted (fieldOf fields ↑"usage") = true ∧
      modelIsText (fieldOf fields ↑"model") = true ∧
      choicesAreText (fieldOf fields ↑"choices") = true := by
  cases chunk with
  | obj fields =>
    simp only [isChunk, Bool.and_eq_true] at fit
    obtain ⟨⟨⟨clean, usage⟩, model⟩, choices⟩ := fit
    exact ⟨fields, rfl, clean, usage, model, choices⟩
  | _ => cases fit

theorem exists_of_choiceIsText {choice : Json} (fit : choiceIsText choice = true) :
    ∃ fields delta, choice = .obj fields ∧
      (Dict.get? fields ↑"delta").getD (.obj []) = .obj delta ∧
      (fieldOf delta ↑"content" = .null ∨ ∃ text, fieldOf delta ↑"content" = .str text) := by
  cases choice with
  | obj fields =>
    dsimp only [choiceIsText] at fit
    cases found : (Dict.get? fields ↑"delta").getD (.obj []) with
    | obj delta =>
      rw [found] at fit
      refine ⟨fields, delta, rfl, found, ?_⟩
      cases content : fieldOf delta ↑"content" with
      | null => exact .inl rfl
      | str text => exact .inr ⟨text, rfl⟩
      | _ =>
        simp only [content] at fit
        cases fit
    | _ =>
      rw [found] at fit
      cases fit
  | _ => cases fit

theorem usageFits_of_counted {usage : Json} (fit : usageIsCounted usage = true) :
    usageFits usage = true := by
  cases usage with
  | null => rfl
  | obj fields => exact Bool.or_true _
  | _ => cases fit

theorem choicesFit_of_text {choices : Json} (fit : choicesAreText choices = true) (want : Bool) :
    choicesFit want choices = true := by
  cases choices with
  | null => rfl
  | arr items =>
    cases items with
    | nil => rfl
    | cons choice items =>
      have first : choiceIsText choice = true := (Bool.and_eq_true_iff.mp fit).1
      obtain ⟨fields, delta, rfl, found, -⟩ := exists_of_choiceIsText first
      rw [choicesFit, found]
      cases want <;> rfl
  | _ => cases fit

theorem peekable_of_isChunk {chunk : Json} (fit : isChunk chunk = true) (want : Bool) :
    peekable want chunk = true := by
  obtain ⟨fields, rfl, -, usage, -, choices⟩ := exists_of_isChunk fit
  rw [peekable, usageFits_of_counted usage, choicesFit_of_text choices]
  rfl

/-- Only the data lines of an event are looked at. -/
theorem forwardLines_filter (lines : List Bytes) (event : Bytes) :
    lines.foldlM (forwardLine py) event =
      (lines.filter dataMark.isPrefixOf).foldlM (forwardLine py) event := by
  induction lines generalizing event with
  | nil => rfl
  | cons line lines ih =>
    cases data : dataMark.isPrefixOf line with
    | true =>
      rw [List.filter_cons_of_pos data, List.foldlM_cons, List.foldlM_cons]
      congr 1
      funext out
      exact ih out
    | false =>
      rw [List.filter_cons_of_neg (by simp [data]), List.foldlM_cons, forwardLine_eq,
        lineChunk_dataless data]
      exact ih event

/-- The lead-in that the event gets, if any. -/
def Event.sent (py : Interpreter) (want : Bool) (model : Json) (raw : Bytes) (e : Event) : Bytes :=
  match e.chunk? with
  | some v =>
    if want && speaks v then
      rewritten py (withContent v (leadIn py model ++ (contentOf v).toStr py))
    else raw
  | none => raw

theorem sameKey_str (k : Json) (key : Text) : Chat.sameKey k (.str key) = true ↔ k = .str key := by
  cases k <;> simp [Chat.sameKey, Chat.sameKey.number]

theorem get_cons (k w : Json) (usage : PyDict) (key : Text) :
    PyDict.get ((k, w) :: usage) key .null =
      if Chat.sameKey k (.str key) = true then w else usage.get key .null := by
  unfold PyDict.get
  rw [List.find?_cons]
  cases Chat.sameKey k (.str key) <;> rfl

theorem get_set (usage : PyDict) (key : Text) (v : Json) (other : Text) :
    (usage.set (.str key) v).get other .null =
      if key = other then v else usage.get other .null := by
  induction usage with
  | nil => by_cases same : key = other <;> simp [PyDict.set, PyDict.get, Chat.sameKey, same]
  | cons p usage ih =>
    obtain ⟨k, w⟩ := p
    rw [PyDict.set]
    by_cases here : Chat.sameKey k (.str key) = true
    · obtain rfl := (sameKey_str k key).mp here
      rw [if_pos here, get_cons, get_cons]
      by_cases same : key = other <;> simp [sameKey_str, same]
    · rw [if_neg here, get_cons, get_cons, ih]
      by_cases same : key = other
      · subst same
        rw [if_neg here, if_pos rfl, if_pos rfl]
      · rw [if_neg same, if_neg same]

/-- An update sets the counts that the object has. -/
theorem get_mergedUsage (usage : PyDict) {fields : Dict Text Json}
    (distinct : (Dict.keys fields).Nodup) (key : Text) :
    (mergedUsage usage fields).get key .null =
      (Dict.get? fields key).getD (usage.get key .null) := by
  induction fields generalizing usage with
  | nil => rfl
  | cons p fields ih =>
    obtain ⟨k, v⟩ := p
    unfold Dict.keys at distinct ih
    rw [List.map_cons, List.nodup_cons] at distinct
    have rest := ih (usage.set (.str k) v) distinct.2
    change (mergedUsage (usage.set (.str k) v) fields).get key .null = _
    rw [rest, get_set, Dict.get?_cons]
    by_cases same : k = key
    · subst same
      rw [if_pos rfl, if_pos rfl, Dict.get?_eq_none_iff.mpr distinct.1]
      rfl
    · rw [if_neg same, if_neg same]

/-- The variables after an event that fits. -/
structure Followed (py : Interpreter) (s : Shim) (event : Bytes) (s' : Shim) : Prop where
  sent : s'.sent = s.sent ++
    [(decode py event).sent py s.wantPrefix s'.actualModel event ++ separator]
  want : s'.wantPrefix = (s.wantPrefix && !(decode py event).holdsText)
  model : s'.actualModel = (decode py event).model s.actualModel
  counts : ∀ key, s'.usage.get key .null = (decode py event).count key (s.usage.get key .null)

theorem get?_of_fieldOf {fields : Dict Text Json} {key : Text} {v : Json}
    (h : fieldOf fields key = v) (some_value : v ≠ .null) : Dict.get? fields key = some v := by
  unfold fieldOf at h
  cases found : Dict.get? fields key with
  | none =>
    rw [found] at h
    exact absurd h.symm some_value
  | some w =>
    rw [found] at h
    exact congrArg some h

variable (py) in
theorem lineChunk_of_datum {line : Bytes} (data : dataMark.isPrefixOf line = true) :
    (∀ v, datum py line = .chunk v → lineChunk py line = .ok (some v) ∧ Json.Loaded py.nesting v) ∧
    (datum py line = .done → lineChunk py line = .ok none) := by
  unfold datum lineChunk payload? saysDone
  rw [data, Bool.true_and, Bool.true_and]
  by_cases done : Bytes.strip (line.drop 6) = doneMark
  · rw [if_pos (beq_iff_eq.mpr done), done, if_neg (by simp)]
    exact ⟨fun v none => (by cases none), fun _ => rfl⟩
  · rw [if_neg (by simpa using done), if_pos (bne_iff_ne.mpr done)]
    constructor
    · intro v chunk
      dsimp only
      split at chunk
      next w loaded =>
        cases chunk
        exact ⟨loaded, loaded_of_loadPayload py loaded⟩
      next => cases chunk
    · intro none
      split at none <;> cases none

/-- An event that fits is a chunk in its only data line, or there is nothing to look into. -/
theorem forwardLines_fits {event : Bytes} (fits : (decode py event).fits = true) :
    (∃ line v, (event.splitOn Frame.feed).foldlM (forwardLine py) event =
        forwardLine py event line ∧
      (decode py event).data = [.chunk v] ∧ isChunk v = true ∧ lineChunk py line = .ok (some v) ∧
      Json.Loaded py.nesting v) ∨
    ((event.splitOn Frame.feed).foldlM (forwardLine py) event = pure event ∧
      (decode py event).chunk? = none) := by
  rw [forwardLines_filter]
  have is_data : ∀ line ∈ (event.splitOn Frame.feed).filter dataMark.isPrefixOf,
      dataMark.isPrefixOf line = true := fun line mem => (List.mem_filter.mp mem).2
  unfold decode Event.fits at fits
  unfold decode Event.chunk?
  dsimp only at fits ⊢
  generalize (event.splitOn Frame.feed).filter dataMark.isPrefixOf = lines at fits is_data ⊢
  cases lines with
  | nil => exact .inr ⟨rfl, rfl⟩
  | cons line lines =>
    obtain ⟨chunk, done⟩ := lineChunk_of_datum py (is_data line List.mem_cons_self)
    cases lines with
    | nil =>
      have one : [line].foldlM (forwardLine py) event = forwardLine py event line :=
        bind_pure _
      rw [one]
      rw [List.map_singleton] at fits ⊢
      cases is : datum py line with
      | done =>
        refine .inr ⟨?_, rfl⟩
        rw [forwardLine_eq, done is]
      | chunk v =>
        rw [is] at fits
        obtain ⟨looked, loaded⟩ := chunk v is
        exact .inl ⟨line, v, rfl, rfl, fits, looked, loaded⟩
      | unread =>
        rw [is] at fits
        cases fits
    | cons other lines =>
      rw [List.map_cons, List.map_cons] at fits
      cases datum py line <;> simp at fits

theorem forwardEvent_fits {event : Bytes} (fits : (decode py event).fits = true) (s : Shim) :
    ∃ s', (forwardEvent py event).run s = .ok () s' ∧ Followed py s event s' := by
  unfold forwardEvent
  rcases forwardLines_fits fits with ⟨line, v, lines, data, chunk, looked, loaded⟩ | ⟨lines, none⟩
  · have is : (decode py event).chunk? = some v := by rw [Event.chunk?, data]
    obtain ⟨fields, rfl, -, usage, -, -⟩ := exists_of_isChunk chunk
    obtain ⟨t, ran, peeked⟩ := (peek_run py (.obj fields) s).1 (peekable_of_isChunk chunk _)
    have out : (forwardLine py event line).run s =
        .ok ((decode py event).sent py s.wantPrefix t.actualModel event) t := by
      rw [forwardLine_eq, looked, Event.sent, is]
      dsimp only
      rw [Program.run_bind_ok ran]
      cases s.wantPrefix && speaks (.obj fields) <;> rfl
    rw [lines, Program.run_bind_ok out]
    refine ⟨_, rfl, ?_, ?_, ?_, fun key => ?_⟩
    · exact congrArg (· ++ _) peeked.sent
    · rw [Event.holdsText, is]
      exact peeked.want
    · rw [Event.model, is]
      exact peeked.model
    · rw [Event.count, is]
      change t.usage.get key .null = _
      dsimp only
      cases found : fieldOf fields ↑"usage" with
      | null => rw [peeked.unmerged fields rfl (by rw [found]; rfl)]
      | obj counts =>
        rw [peeked.merged fields counts rfl found]
        obtain ⟨d, -, -, inside⟩ := Json.loaded_obj_iff.mp loaded
        obtain ⟨d', -, distinct, -⟩ :=
          Json.loaded_obj_iff.mp (Json.loaded_of_get? inside (get?_of_fieldOf found (by simp)))
        exact get_mergedUsage s.usage distinct key
      | _ =>
        rw [found] at usage
        cases usage
  · rw [lines]
    refine ⟨_, rfl, ?_, ?_, ?_, fun key => ?_⟩
    · rw [Event.sent, none]
    · rw [Event.holdsText, none]
      simp
    · rw [Event.model, none]
      rfl
    · rw [Event.count, none]

/-! ## The stream -/

theorem sent_quiet (want : Bool) (model : Json) (raw : Bytes) {e : Event}
    (quiet : want = false ∨ e.holdsText = false) : e.sent py want model raw = raw := by
  unfold Event.sent Event.holdsText at *
  cases is : e.chunk? with
  | none => rfl
  | some v =>
    rw [is, Option.any_some] at quiet
    have none : (want && speaks v) = false := by rcases quiet with h | h <;> simp [h]
    dsimp only
    rw [none]
    rfl

/-- While no lead-in is wanted, or nothing speaks, the events go on as they are. -/
theorem forwardEvents_quiet {events : List Bytes}
    (fits : ∀ event ∈ events, (decode py event).fits = true) (s : Shim)
    (quiet : s.wantPrefix = false ∨ ∀ event ∈ events, (decode py event).holdsText = false) :
    ∃ s', (forM events (forwardEvent py)).run s = .ok PUnit.unit s' ∧
      s'.sent = s.sent ++ events.map (· ++ separator) ∧ s'.wantPrefix = s.wantPrefix ∧
      s'.actualModel = (events.map (decode py)).foldl Event.model s.actualModel ∧
      ∀ key, s'.usage.get key .null =
        (events.map (decode py)).foldl (Event.count key) (s.usage.get key .null) := by
  induction events generalizing s with
  | nil => exact ⟨s, rfl, by simp, rfl, rfl, fun _ => rfl⟩
  | cons event events ih =>
    rw [List.forall_mem_cons] at fits
    obtain ⟨t, ran, followed⟩ := forwardEvent_fits fits.1 s
    have here : s.wantPrefix = false ∨ (decode py event).holdsText = false :=
      quiet.imp_right fun none => none event List.mem_cons_self
    have want : t.wantPrefix = s.wantPrefix := by
      rw [followed.want]
      rcases here with h | h <;> simp [h]
    obtain ⟨s', ran', sent, want', model, counts⟩ := ih fits.2 t
      (quiet.imp want.trans fun none e mem => none e (List.mem_cons_of_mem event mem))
    rw [List.forM_cons, Program.run_bind_ok ran]
    refine ⟨s', ran', ?_, want'.trans want, ?_, fun key => ?_⟩
    · rw [sent, followed.sent, sent_quiet _ _ _ here]
      simp
    · rw [model, followed.model]
      rfl
    · rw [counts, followed.counts]
      rfl

/-- The first event that speaks gets the lead-in, and no other. -/
theorem forwardEvents_first {front back : List Bytes} {event : Bytes}
    (fits : ∀ e ∈ front ++ event :: back, (decode py e).fits = true) {s : Shim}
    (want : s.wantPrefix = true) (quiet : ∀ e ∈ front, (decode py e).holdsText = false)
    (speaks : (decode py event).holdsText = true) :
    ∃ s', (forM (front ++ event :: back) (forwardEvent py)).run s = .ok PUnit.unit s' ∧
      s'.sent = s.sent ++ (front ++ (decode py event).sent py true
        (((front ++ [event]).map (decode py)).foldl Event.model s.actualModel) event ::
          back).map (· ++ separator) ∧
      s'.actualModel = ((front ++ event :: back).map (decode py)).foldl Event.model s.actualModel ∧
      ∀ key, s'.usage.get key .null =
        ((front ++ event :: back).map (decode py)).foldl (Event.count key)
          (s.usage.get key .null) := by
  rw [List.forall_mem_append, List.forall_mem_cons] at fits
  obtain ⟨t, ran, sent, still, model, counts⟩ := forwardEvents_quiet fits.1 s (.inr quiet)
  obtain ⟨u, ran', followed⟩ := forwardEvent_fits fits.2.1 t
  have off : u.wantPrefix = false := by rw [followed.want, speaks, Bool.not_true, Bool.and_false]
  obtain ⟨s', ran'', sent', -, model', counts'⟩ := forwardEvents_quiet fits.2.2 u (.inl off)
  rw [List.forM_append, Program.run_bind_ok ran, List.forM_cons, Program.run_bind_ok ran']
  refine ⟨s', ran'', ?_, ?_, fun key => ?_⟩
  · rw [sent', followed.sent, sent, followed.model, model, still, want]
    simp
  · rw [model', followed.model, model]
    simp
  · rw [counts', followed.counts, counts]
    simp

/-! ## What is decoded -/

/-- A model that a lead-in can name. -/
def Named (model : Json) : Prop :=
  ∃ name, model = .str name ∧ Json.InRange name ∧ name.storable = true

theorem wellFormed_of_storable {t : Text} (h : t.storable = true) : t.wellFormed = true := by
  unfold Text.storable at h
  unfold Text.wellFormed
  rw [List.all_eq_true] at h ⊢
  exact fun c mem => (Bool.and_eq_true_iff.mp (h c mem)).2

theorem chunk_of_fits {event : Bytes} (fits : (decode py event).fits = true) {v : Json}
    (is : (decode py event).chunk? = some v) :
    (decode py event).data = [.chunk v] ∧ isChunk v = true ∧ Json.Loaded py.nesting v := by
  rcases forwardLines_fits fits with ⟨line, w, -, data, chunk, -, loaded⟩ | ⟨-, none⟩
  · rw [Event.chunk?, data] at is
    cases is
    exact ⟨data, chunk, loaded⟩
  · rw [none] at is
    cases is

theorem named_model {event : Bytes} (fits : (decode py event).fits = true) {before : Json}
    (named : Named before) : Named ((decode py event).model before) := by
  unfold Event.model
  cases is : (decode py event).chunk? with
  | none => exact named
  | some v =>
    obtain ⟨-, chunk, loaded⟩ := chunk_of_fits fits is
    obtain ⟨fields, rfl, -, -, model, -⟩ := exists_of_isChunk chunk
    rw [Option.elim_some, namedModel]
    split_ifs with truthy
    · cases found : fieldOf fields ↑"model" with
      | str name =>
        rw [found] at model
        obtain ⟨d, -, -, inside⟩ := Json.loaded_obj_iff.mp loaded
        have range := Json.loaded_of_get? inside (get?_of_fieldOf found (by simp))
        exact ⟨name, rfl, Json.loaded_str_iff.mp range, model⟩
      | null =>
        rw [found] at truthy
        cases truthy
      | _ =>
        rw [found] at model
        cases model
    · exact named

theorem named_latest {events : List Bytes} (fits : ∀ event ∈ events, (decode py event).fits = true)
    {before : Json} (named : Named before) :
    Named ((events.map (decode py)).foldl Event.model before) := by
  induction events generalizing before with
  | nil => exact named
  | cons event events ih =>
    rw [List.forall_mem_cons] at fits
    exact ih fits.2 (named_model fits.1 named)

/-- An object that was written is decoded as a data line with what its text is read as. -/
theorem decode_rewritten (floats : Json.PrintableFloats py) {fields : Dict Text Json} {v : Json}
    (read : Json.loads py (Json.dumped py (.obj fields)) = .ok v) :
    decode py (rewritten py (.obj fields)) = ⟨[], [.chunk v]⟩ := by
  have starts : dataMark.isPrefixOf (rewritten py (.obj fields)) = true :=
    isPrefixOf_rewritten _
  have loads : loadPayload py ((rewritten py (.obj fields)).drop 6) = .ok (some v) := by
    rw [drop_rewritten, loadPayload,
      Bytes.decodeJson_ascii (Bytes.ascii_of_printable (Json.printable_dumped floats _))]
    dsimp only
    rw [read]
  have is : datum py (rewritten py (.obj fields)) = .chunk v := by
    rw [datum, saysDone_rewritten, loads]
    rfl
  have no_field : isField (rewritten py (.obj fields)) = false := by
    rw [isField, starts, Bool.not_true, Bool.and_false, Bool.false_and]
  rw [decode, Frame.splitOn_line (not_mem_rewritten floats _),
    List.filter_cons_of_pos starts, List.filter_cons_of_neg (by simp [no_field])]
  simp [is]

/-- Unicode text. -/
structure Plain (t : Text) : Prop where
  range : Json.InRange t
  clean : t.wellFormed = true

theorem Plain.append {t u : Text} (first : Plain t) (second : Plain u) : Plain (t ++ u) where
  range := Json.InRange.append_iff.mpr ⟨first.range, second.range⟩
  clean := by
    have clean := first.clean
    have clean' := second.clean
    unfold Text.wellFormed at clean clean' ⊢
    rw [List.all_append, clean, clean', Bool.and_self]

variable (py) in
theorem plain_leadIn {model : Json} (named : Named model) : Plain (leadIn py model) := by
  obtain ⟨name, rfl, range, fits⟩ := named
  have opens : Plain ↑"`[" := ⟨by decide, by decide⟩
  have closes : Plain ↑"]`\n\n" := ⟨by decide, by decide⟩
  exact (opens.append ⟨range, wellFormed_of_storable fits⟩).append closes

/-- Where the text of a chunk stands in it. -/
theorem exists_of_speaks {chunk : Json} (fit : isChunk chunk = true) (text : speaks chunk = true) :
    ∃ fields choice items delta content, chunk = .obj fields ∧
      Dict.get? fields ↑"choices" = some (.arr (.obj choice :: items)) ∧
      Dict.get? choice ↑"delta" = some (.obj delta) ∧
      Dict.get? delta ↑"content" = some (.str content) ∧ contentOf chunk = .str content := by
  obtain ⟨fields, rfl, -, -, -, choices⟩ := exists_of_isChunk fit
  have reads : deltaOf (.obj fields) = (firstItem (if (fieldOf fields ↑"choices").truthy then
      fieldOf fields ↑"choices" else .arr [.obj []]) >>= fun choice =>
        Chat.getOr choice ↑"delta" (.obj [])) := rfl
  have silent (found : deltaOf (.obj fields) = .ok (.obj [])) : speaks (.obj fields) = false := by
    rw [speaks, contentOf, deltaContent_eq, found]
    rfl
  cases found : fieldOf fields ↑"choices" with
  | null =>
    rw [found] at reads
    rw [silent reads] at text
    cases text
  | arr items =>
    rw [found] at reads
    cases items with
    | nil =>
      rw [silent reads] at text
      cases text
    | cons choice items =>
      rw [found] at choices
      have first : choiceIsText choice = true := (Bool.and_eq_true_iff.mp choices).1
      obtain ⟨choice, delta, rfl, found_delta, content⟩ := exists_of_choiceIsText first
      have is : contentOf (.obj fields) = fieldOf delta ↑"content" := by
        have delta_found : deltaOf (.obj fields) =
            .ok ((Dict.get? choice ↑"delta").getD (.obj [])) := reads
        rw [contentOf, deltaContent_eq, delta_found, found_delta]
        rfl
      rcases content with null | ⟨content, found_content⟩
      · rw [speaks, is, null] at text
        cases text
      · have delta_there : Dict.get? choice ↑"delta" = some (.obj delta) := by
          cases there : Dict.get? choice ↑"delta" with
          | none =>
            rw [there] at found_delta
            cases found_delta
            cases found_content
          | some v =>
            rw [there] at found_delta
            exact congrArg some found_delta
        exact ⟨fields, choice, items, delta, content, rfl, get?_of_fieldOf found (by simp),
          delta_there, get?_of_fieldOf found_content (by simp), is.trans found_content⟩
  | _ =>
    rw [found] at choices
    cases choices

/-- The text that a chunk brings. -/
theorem plain_content {chunk : Json} (fit : isChunk chunk = true)
    (loaded : Json.Loaded py.nesting chunk)
    (text : speaks chunk = true) : ∃ content, contentOf chunk = .str content ∧ Plain content := by
  obtain ⟨_, rfl, clean, -⟩ := exists_of_isChunk fit
  obtain ⟨fields, choice, items, delta, content, same, choices_there, delta_there, content_there,
    is⟩ := exists_of_speaks fit text
  cases same
  obtain ⟨d, -, -, inside⟩ := Json.loaded_obj_iff.mp loaded
  obtain ⟨d', rfl, choice_loaded, -⟩ :=
    Json.loaded_arr_iff.mp (Json.loaded_of_get? inside choices_there)
  obtain ⟨d'', rfl, -, choice_inside⟩ := Json.loaded_obj_iff.mp choice_loaded
  obtain ⟨inner, rfl, -, delta_inside⟩ :=
    Json.loaded_obj_iff.mp (Json.loaded_of_get? choice_inside delta_there)
  have choices_clean := Json.wellFormed_of_get? clean choices_there
  have choice_clean := (Bool.and_eq_true_iff.mp choices_clean).1
  have delta_clean := Json.wellFormed_of_get? choice_clean delta_there
  exact ⟨content, is, Json.loaded_str_iff.mp (Json.loaded_of_get? delta_inside content_there),
    Json.wellFormed_of_get? delta_clean content_there⟩

theorem withContent_kept {fields : Dict Text Json} {depth : Nat}
    (loaded : Json.Loaded depth (.obj fields)) (clean : Json.wellFormed (.obj fields) = true)
    {content : Text} (plain : Plain content) :
    Json.Loaded depth (withContent (.obj fields) content) ∧
      Json.wellFormed (withContent (.obj fields) content) = true := by
  dsimp only [withContent]
  split
  next choice choices found =>
    split
    next delta found_delta =>
      obtain ⟨d, rfl, -, inside⟩ := Json.loaded_obj_iff.mp loaded
      have choices_loaded := Json.loaded_of_get? inside found
      have choices_clean := Json.wellFormed_of_get? clean found
      obtain ⟨d', rfl, choice_loaded, others_loaded⟩ := Json.loaded_arr_iff.mp choices_loaded
      obtain ⟨choice_clean, others_clean⟩ := Bool.and_eq_true_iff.mp choices_clean
      obtain ⟨d'', rfl, -, choice_inside⟩ := Json.loaded_obj_iff.mp choice_loaded
      have delta_loaded := Json.loaded_of_get? choice_inside found_delta
      have delta_clean := Json.wellFormed_of_get? choice_clean found_delta
      obtain ⟨inner, rfl, -, -⟩ := Json.loaded_obj_iff.mp delta_loaded
      have content_loaded : Json.Loaded inner (.str content) := Json.loaded_str_iff.mpr plain.range
      constructor
      · refine Json.loaded_set loaded (by decide) ⟨?_, others_loaded⟩
        refine Json.loaded_set choice_loaded (by decide) ?_
        exact Json.loaded_set delta_loaded (by decide) content_loaded
      · refine Json.wellFormedFields_set clean (by decide)
          (Bool.and_eq_true_iff.mpr ⟨?_, others_clean⟩)
        refine Json.wellFormedFields_set choice_clean (by decide) ?_
        exact Json.wellFormedFields_set delta_clean (by decide) plain.clean
    next => exact ⟨loaded, clean⟩
  next => exact ⟨loaded, clean⟩

/-- The event with the lead-in is decoded as its data and nothing else. -/
theorem decode_led (reads : Json.ReprReads py) {event : Bytes}
    (fits : (decode py event).fits = true) (text : (decode py event).holdsText = true)
    {model : Json} (named : Named model) :
    Frame.feed ∉ (decode py event).sent py true model event ∧
    ∃ v content, (decode py event).data = [.chunk v] ∧ isChunk v = true ∧ speaks v = true ∧
      contentOf v = .str content ∧
      decode py ((decode py event).sent py true model event) =
        ⟨[], [.chunk ((withContent v (leadIn py model ++ content)).rounded py)]⟩ := by
  unfold Event.holdsText at text
  cases is : (decode py event).chunk? with
  | none =>
    rw [is] at text
    cases text
  | some v =>
    rw [is, Option.any_some] at text
    obtain ⟨data, chunk, loaded⟩ := chunk_of_fits fits is
    obtain ⟨content, found, plain⟩ := plain_content chunk loaded text
    obtain ⟨fields, rfl, clean, -⟩ := exists_of_isChunk chunk
    have led_plain := (plain_leadIn py named).append plain
    obtain ⟨kept, kept_clean⟩ := withContent_kept loaded clean led_plain
    obtain ⟨fields', object⟩ := exists_withContent (peekable_of_isChunk chunk true)
      (leadIn py model ++ content)
    have sent : (decode py event).sent py true model event = rewritten py (.obj fields') := by
      rw [Event.sent, is, ← object]
      dsimp only
      rw [text, found]
      rfl
    rw [object] at kept kept_clean
    have read := Json.loads_dumped_rounded reads kept kept_clean
    rw [sent, decode_rewritten reads.printable read]
    refine ⟨not_mem_rewritten reads.printable _, _, content, data, chunk, text, found, ?_⟩
    rw [object]

theorem decode_sent (reads : Json.ReprReads py) {event : Bytes}
    (fits : (decode py event).fits = true) (text : (decode py event).holdsText = true)
    {model : Json} (named : Named model) :
    Frame.feed ∉ (decode py event).sent py true model event ∧
    (decode py ((decode py event).sent py true model event)).rounded py =
      { ((decode py event).led py model).rounded py with fields := [] } := by
  obtain ⟨inside, v, content, data, -, -, found, decoded⟩ := decode_led reads fits text named
  refine ⟨inside, ?_⟩
  have twice := (Json.rounded_spec reads (withContent v (leadIn py model ++ content))).2.2
  have led : leadIn py model ++ (Json.str content).toStr py = leadIn py model ++ content := rfl
  rw [decoded]
  simp only [Event.rounded, Event.led, data, List.map_cons, List.map_nil, Datum.rounded, found,
    led, twice]

theorem countFits_mergedCount {events : List Bytes}
    (fits : ∀ event ∈ events, (decode py event).fits = true) {key : Text} (known : key ∈ usageKeys)
    {before : Json} (fit : countFits before = true) :
    countFits ((events.map (decode py)).foldl (Event.count key) before) = true := by
  induction events generalizing before with
  | nil => exact fit
  | cons event events ih =>
    rw [List.forall_mem_cons] at fits
    refine ih fits.2 ?_
    unfold Event.count
    cases is : (decode py event).chunk? with
    | none => exact fit
    | some v =>
      obtain ⟨-, chunk, -⟩ := chunk_of_fits fits.1 is
      obtain ⟨fields, rfl, -, usage, -⟩ := exists_of_isChunk chunk
      dsimp only
      cases found : fieldOf fields ↑"usage" with
      | obj counts =>
        rw [found, usageIsCounted, List.all_eq_true] at usage
        have here := usage key known
        unfold fieldOf at here
        dsimp only
        cases there : Dict.get? counts key with
        | none => exact fit
        | some w =>
          rw [there] at here
          exact here
      | _ => exact fit

/-! ## The law -/

/-- The output is the input, except that the first event with a text has the lead-in before it. -/
structure LedIn (py : Interpreter) (input output : List Event) : Prop where
  silent : (∀ e ∈ input, e.holdsText = false) → SameEvents py output input
  first : ∀ front e back, input = front ++ e :: back → (∀ f ∈ front, f.holdsText = false) →
    e.holdsText = true →
      SameEvents py output (front ++ e.led py (latestModel (front ++ [e])) :: back)

/-- The row names the last model of the stream and its merged usage. -/
structure Records (columns : Columns) (input : List Event) (row : Completion) : Prop where
  model : .ok row.model = columns.text (latestModel input)
  prompt : .ok row.promptTokens = columns.int (mergedCount ↑"prompt_tokens" input)
  completion : .ok row.completionTokens = columns.int (mergedCount ↑"completion_tokens" input)
  total : .ok row.totalTokens = columns.int (mergedCount ↑"total_tokens" input)

theorem int_of_countFits (columns : Columns) {v : Json} (fit : countFits v = true) :
    ∃ n, columns.int v = .ok n := by
  cases v with
  | null => exact ⟨_, columns.int_null⟩
  | int n => exact ⟨some n, (columns.int_int n).trans (if_pos fit)⟩
  | _ => cases fit

theorem completionRow_records (columns : Columns) {events : List Bytes}
    (fits : ∀ event ∈ events, (decode py event).fits = true) {s : Shim}
    (model : s.actualModel = latestModel (events.map (decode py)))
    (counts : ∀ key, s.usage.get key .null = mergedCount key (events.map (decode py)))
    (durationMs : Int) (tags : Tags) (rows : List Completion) :
    ∃ row, logged columns s durationMs tags (some rows) = .ok (some (rows ++ [row])) ∧
      Records columns (events.map (decode py)) row := by
  have start : Named (.str OpenRouter.autoModel) := ⟨_, rfl, by decide, by decide⟩
  obtain ⟨name, is, -, storable⟩ := named_latest fits start
  have column (key : Text) (known : key ∈ usageKeys) :
      ∃ n, columns.int (mergedCount key (events.map (decode py))) = .ok n :=
    int_of_countFits columns (countFits_mergedCount fits known rfl)
  obtain ⟨prompt, prompt_is⟩ := column ↑"prompt_tokens" (by decide)
  obtain ⟨completion, completion_is⟩ := column ↑"completion_tokens" (by decide)
  obtain ⟨total, total_is⟩ := column ↑"total_tokens" (by decide)
  have latest : latestModel (events.map (decode py)) = .str name := is
  refine ⟨⟨some name, prompt, completion, total, durationMs, true, tags.val⟩, ?_, ?_,
    prompt_is.symm, completion_is.symm, total_is.symm⟩
  · rw [logged, logMetadata, completionRow, counts, counts, counts, prompt_is, completion_is,
      total_is, model, latest, columns.text_str]
    have fits_column : (some name).all Text.storable = true := storable
    simp only [pure, Except.pure, bind, Except.bind, fits_column, if_true]
  · rw [latest, columns.text_str]

theorem split_unique {front front' back back' : List Event} {e e' : Event}
    (same : front ++ e :: back = front' ++ e' :: back') (quiet : ∀ f ∈ front, f.holdsText = false)
    (quiet' : ∀ f ∈ front', f.holdsText = false) (text : e.holdsText = true)
    (text' : e'.holdsText = true) : front = front' ∧ e = e' ∧ back = back' := by
  induction front generalizing front' with
  | nil =>
    cases front' with
    | nil =>
      cases same
      exact ⟨rfl, rfl, rfl⟩
    | cons f front' =>
      cases same
      rw [quiet' e List.mem_cons_self] at text
      cases text
  | cons f front ih =>
    rw [List.forall_mem_cons] at quiet
    cases front' with
    | nil =>
      cases same
      rw [quiet.1] at text'
      cases text'
    | cons f' front' =>
      rw [List.forall_mem_cons] at quiet'
      rw [List.cons_append, List.cons_append, List.cons.injEq] at same
      obtain ⟨rest, here, last⟩ := ih same.2 quiet.2 quiet'.2
      exact ⟨by rw [same.1, rest], here, last⟩

theorem exists_first {events : List Bytes}
    (some_text : ¬ ∀ event ∈ events, (decode py event).holdsText = false) :
    ∃ front event back, events = front ++ event :: back ∧
      (∀ e ∈ front, (decode py e).holdsText = false) ∧ (decode py event).holdsText = true := by
  cases found : events.find? fun event => (decode py event).holdsText with
  | none =>
    refine absurd (fun event mem => ?_) some_text
    simpa using List.find?_eq_none.mp found event mem
  | some event =>
    obtain ⟨text, front, back, rfl, quiet⟩ := List.find?_eq_some_iff_append.mp found
    exact ⟨front, event, back, rfl, fun e mem => by simpa using quiet e mem, text⟩

/-- What was sent is found again. -/
theorem events_sent {outs : List Bytes}
    (alone : ∀ out ∈ outs, Framing.Standalone Frame.feed [Frame.feed] out)
    {turn : EStateM.Result Stop Shim Unit} {s : Shim} (ran : turn = .ok () s)
    (sent : s.sent = outs.map (· ++ separator)) (describe : Stop → Text) :
    eventsOf (sse py describe turn).flatten = outs ∧
      remainder (sse py describe turn).flatten = [] := by
  have found : Framing.blocks Frame.feed [Frame.feed] (sse py describe turn).flatten =
      (outs, []) := by
    rw [ran, sse, sent, flatten_separated]
    exact Framing.blocks_flatMap alone
  rw [eventsOf, remainder, found]
  exact ⟨rfl, rfl⟩

theorem sameEvents_iff (front back : List Event) {e e' : Event} :
    SameEvents py (front ++ e :: back) (front ++ e' :: back) ↔ e.rounded py = e'.rounded py := by
  simp [SameEvents]

/-- One line in the place of an event is closed like the others. -/
theorem alone_replaced {front back : List Bytes} {event out : Bytes}
    (alone : ∀ e ∈ front ++ event :: back, Framing.Standalone Frame.feed [Frame.feed] e)
    (inside : Frame.feed ∉ out) :
    ∀ e ∈ front ++ out :: back, Framing.Standalone Frame.feed [Frame.feed] e := by
  intro e mem
  obtain mem | rfl | mem : e ∈ front ∨ e = out ∨ e ∈ back := by simpa using mem
  · exact alone e (by simp [mem])
  · exact standalone_of_line inside
  · exact alone e (by simp [mem])

/-- The router's name, or one that came after it, goes into the lead-in. -/
theorem named_at_first {settings : Settings} {front back : List Bytes} {event : Bytes}
    (fits : ∀ e ∈ front ++ event :: back, (decode py e).fits = true) :
    Named (((front ++ [event]).map (decode py)).foldl Event.model
      (start settings OpenRouter.autoModel).actualModel) := by
  refine named_latest (fun e mem => fits e ?_) ⟨_, rfl, by decide, by decide⟩
  obtain mem | rfl : e ∈ front ∨ e = event := by simpa using mem
  · simp [mem]
  · simp

/-- What is decoded is the input with its lead-in, and the row is right, exactly if the first event
with a text has no other lines than its data. -/
theorem ledIn_iff (reads : Json.ReprReads py) (columns : Columns) (describe : Stop → Text)
    {settings : Settings}
    (shown : settings.chatShowRoutedModel = true) {events : List Bytes}
    (alone : ∀ event ∈ events, Framing.Standalone Frame.feed [Frame.feed] event)
    (fits : ∀ event ∈ events, (decode py event).fits = true) {chunks : List Bytes}
    (whole : chunks.flatten = joined events) (durationMs : Int) (tags : Tags)
    (rows : List Completion) :
    let turn := (forward py chunks none).run (start settings OpenRouter.autoModel)
    let output := (sse py describe turn).flatten
    (remainder output = [] ∧ LedIn py (events.map (decode py)) ((eventsOf output).map (decode py)) ∧
        ∃ row, logged columns (Program.state turn) durationMs tags (some rows) =
          .ok (some (rows ++ [row])) ∧
          Records columns (events.map (decode py)) row) ↔
      ∀ front e back, events.map (decode py) = front ++ e :: back →
        (∀ f ∈ front, f.holdsText = false) → e.holdsText = true → e.fields = [] := by
  intro turn output
  have want : (start settings OpenRouter.autoModel).wantPrefix = true := by
    change (decide (OpenRouter.autoModel = OpenRouter.autoModel) && settings.chatShowRoutedModel) =
      true
    rw [shown]
    rfl
  have runs : turn = (forM events (forwardEvent py)).run (start settings OpenRouter.autoModel) := by
    rw [← forward_events py alone whole]
  by_cases silent : ∀ event ∈ events, (decode py event).holdsText = false
  · obtain ⟨s', ran, sent, -, model, counts⟩ :=
      forwardEvents_quiet fits (start settings OpenRouter.autoModel) (.inr silent)
    rw [ran] at runs
    obtain ⟨found, nothing⟩ : eventsOf output = events ∧ remainder output = [] :=
      events_sent alone runs sent describe
    obtain ⟨row, logs, records⟩ := completionRow_records columns fits model counts durationMs tags rows
    have none : ∀ e ∈ events.map (decode py), e.holdsText = false := by
      simpa using silent
    have no_first (front back : List Event) (e : Event)
        (split : events.map (decode py) = front ++ e :: back) : e.holdsText = false :=
      none e (split ▸ List.mem_append_right front List.mem_cons_self)
    rw [found, nothing, runs]
    refine ⟨fun _ front e back split _ text => ?_, fun _ => ⟨rfl, ⟨fun _ => rfl, ?_⟩,
      row, logs, records⟩⟩
    · rw [no_first front back e split] at text
      cases text
    · intro front e back split _ text
      rw [no_first front back e split] at text
      cases text
  · obtain ⟨front, event, back, rfl, quiet, text⟩ := exists_first silent
    obtain ⟨s', ran, sent, model, counts⟩ := forwardEvents_first fits want quiet text
    rw [ran] at runs
    have fit : (decode py event).fits = true :=
      fits event (List.mem_append_right front List.mem_cons_self)
    obtain ⟨inside, decoded⟩ := decode_sent reads fit text (named_at_first fits)
    generalize (decode py event).sent py true _ event = out at sent inside decoded
    obtain ⟨found, nothing⟩ : eventsOf output = front ++ out :: back ∧ remainder output = [] :=
      events_sent (alone_replaced alone inside) runs sent describe
    obtain ⟨row, logs, records⟩ := completionRow_records columns fits model counts durationMs tags rows
    have quiet' : ∀ e ∈ front.map (decode py), e.holdsText = false := by
      simpa using quiet
    have latest : ((front ++ [event]).map (decode py)).foldl Event.model
        (start settings OpenRouter.autoModel).actualModel =
          latestModel (front.map (decode py) ++ [decode py event]) := by
      rw [List.map_append]
      rfl
    rw [List.map_append, List.map_cons] at records ⊢
    rw [found, nothing, runs, List.map_append, List.map_cons]
    rw [latest] at decoded
    constructor
    · rintro ⟨-, led, -⟩ front' e back' split quiet'' text'
      obtain ⟨rfl, rfl, rfl⟩ := split_unique split quiet' quiet'' text text'
      have same := (sameEvents_iff _ _).mp (led.first _ _ _ rfl quiet' text)
      rw [decoded] at same
      exact (congrArg Event.fields same).symm
    · intro bare
      refine ⟨rfl, ⟨fun none => ?_, fun front' e back' split quiet'' text' => ?_⟩,
        row, logs, records⟩
      · rw [none (decode py event) (List.mem_append_right _ List.mem_cons_self)] at text
        cases text
      · obtain ⟨rfl, rfl, rfl⟩ := split_unique split quiet' quiet'' text text'
        rw [sameEvents_iff, decoded]
        have fields : (decode py event).fields = [] := bare _ _ _ rfl quiet' text
        rw [Event.rounded, Event.led, fields]

section Hello

/-- An interpreter that knows two floats. -/
def halves : Interpreter :=
  ⟨fun negative _ _ => if negative then ↑"-0.5" else ↑"0.5", fun _ => ↑"[]", 900⟩

theorem ofDecimal_half (negative : Bool) :
    Json.ofDecimal negative 5 (-1) = .float negative 4503599627370496 (-53) := by
  have near : Binary64.nearest (5 * 10 ^ (-1 : Int).toNat) (10 ^ (- -1 : Int).toNat) =
      some (4503599627370496, -53) := by decide +kernel
  rw [Json.ofDecimal, if_neg (by decide), if_neg (by decide), near]

theorem reprReads_halves : Json.ReprReads halves := by
  intro negative mantissa exponent
  let zero : Json.Digits := ⟨[48], by decide, by decide⟩
  let five : Json.Digits := ⟨[53], by decide, by decide⟩
  refine ⟨⟨negative, zero, some five, none, .inl rfl⟩, 4503599627370496, -53, ?_, ?_, rfl⟩
  · cases negative <;> rfl
  · rw [Json.Number.value, if_neg (by simp [Json.Number.isInt])]
    have tenth : Json.ofDigits (zero.text ++ five.text) = 5 := rfl
    have power : ((none : Option Json.Power).map Json.Power.value).getD 0 -
        (five.text.length : Int) = -1 := rfl
    exact (congrArg₂ (Json.ofDecimal negative) tenth power).trans (ofDecimal_half negative)

def hello : Bytes := ↑"data: \x7b\"choices\": [\x7b\"delta\": \x7b\"content\": \"hi\"\x7d\x7d]\x7d"

/-- A comment, a text and the end. -/
def greeting : List Bytes := [↑": ping", hello, ↑"data: [DONE]"]

/-- What is sent for the events as one chunk. -/
def led (events : List Bytes) : EStateM.Result Stop Shim Unit :=
  (forward halves [joined events] none).run (start {} OpenRouter.autoModel)

theorem greeting_led_in :
    let output := (sse halves (fun _ => ↑"failed") (led greeting)).flatten
    remainder output = [] ∧
      LedIn halves (greeting.map (decode halves)) ((eventsOf output).map (decode halves)) ∧
      ∃ row, logged plainColumns (Program.state (led greeting)) 7 ⟨[], rfl⟩ (some []) =
          .ok (some [row]) ∧
        Records plainColumns (greeting.map (decode halves)) row := by
  have alone : ∀ event ∈ greeting, Framing.Standalone Frame.feed [Frame.feed] event := by
    intro event mem
    have inside : ∀ event ∈ greeting, Frame.feed ∉ event := by decide
    exact standalone_of_line (inside event mem)
  have fits : ∀ event ∈ greeting, (decode halves event).fits = true := by decide +kernel
  have bare : ∀ event ∈ greeting, (decode halves event).fields = [] := by decide +kernel
  refine (ledIn_iff reprReads_halves plainColumns (fun _ => ↑"failed") rfl alone fits
    (List.append_nil _) 7 ⟨[], rfl⟩ []).mpr fun front e back split _ _ => ?_
  have mem : e ∈ greeting.map (decode halves) :=
    split ▸ List.mem_append_right front List.mem_cons_self
  obtain ⟨event, found, rfl⟩ := List.mem_map.mp mem
  exact bare event found

/-- An event with an `id:` line before its text. -/
def tagged : Bytes := ↑"id: 5" ++ Frame.feed :: hello

/-- The text of `hello` after the name of the router. -/
def helloLed : Bytes :=
  ↑("data: \x7b\"choices\": [\x7b\"delta\": \x7b\"content\": \"" ++
    "\x60[octo/auto]\x60\\n\\nhi\"\x7d\x7d]\x7d")

/-- The `id:` line is gone with the lead-in. -/
theorem tagged_loses_field :
    (decode halves tagged).fits = true ∧
    ¬ LedIn halves [decode halves tagged]
      ((eventsOf (sse halves (fun _ => ↑"failed") (led [tagged])).flatten).map
        (decode halves)) := by
  refine ⟨by decide +kernel, fun held => ?_⟩
  have alone : ∀ event ∈ [tagged], Framing.Standalone Frame.feed [Frame.feed] event := by
    intro event mem
    have split : Framing.splitOnce separator (tagged ++ separator) = some (tagged, []) := by
      decide +kernel
    rwa [List.mem_singleton.mp mem]
  have sent : sse halves (fun _ => ↑"failed") (led [tagged]) = [helloLed ++ separator] := by
    rw [led, forward_events halves alone (List.append_nil _)]
    decide +kernel
  have found : eventsOf [helloLed ++ separator].flatten = [helloLed] := by
    have first : Framing.splitOnce separator [helloLed ++ separator].flatten =
        some (helloLed, []) := by decide +kernel
    rw [eventsOf, Framing.blocks_of_some first, Framing.blocks_of_none rfl]
  have text : (decode halves tagged).holdsText = true := by decide +kernel
  have same := held.first [] _ [] rfl (fun _ none => by cases none) text
  rw [sent, found] at same
  have lost : (decode halves helloLed).fields = [] := by decide +kernel
  have kept : (decode halves tagged).fields = [↑"id: 5"] := by decide +kernel
  have fields := congrArg Event.fields ((sameEvents_iff [] []).mp same)
  rw [Event.rounded, Event.rounded, Event.led, lost, kept] at fields
  cases fields

end Hello

end AgenticOctopus.Api.OpenAICompat
