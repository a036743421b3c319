import AgenticOctopus.Api.CompletionLog

/-!
# A completion, whole or streamed

When a provider tells the same in one answer and in a stream of events, a client of the shim reads
the same text of either, with the same lead-in, and the log has the same row of either.
-/
namespace AgenticOctopus.Api.OpenAICompat
open Foundation Providers Program
open Chat (Stop PyDict)

variable {py : Interpreter}

/-- The text of an event; an event without a text has the empty one. -/
def Event.text (e : Event) : Text :=
  match e.chunk?.map contentOf with
  | some (.str text) => text
  | _ => []

/-- What a client puts together of events. -/
def textOf (py : Interpreter) (events : List Bytes) : Text :=
  Text.join (events.map fun event => (decode py event).text)

theorem textOf_append (front back : List Bytes) :
    textOf py (front ++ back) = textOf py front ++ textOf py back := by
  simp [textOf, Text.join]

theorem textOf_quiet {events : List Bytes}
    (quiet : ∀ event ∈ events, (decode py event).holdsText = false) : textOf py events = [] := by
  unfold textOf Text.join
  rw [List.flatten_eq_nil_iff]
  intro text mem
  obtain ⟨event, there, rfl⟩ := List.mem_map.mp mem
  have silent := quiet event there
  unfold Event.holdsText at silent
  unfold Event.text
  cases is : (decode py event).chunk? with
  | none => rfl
  | some v =>
    rw [is, Option.any_some, speaks] at silent
    rw [Option.map_some]
    cases found : contentOf v with
    | str text =>
      rw [found] at silent
      simpa [Json.truthy] using silent
    | _ => rfl

/-! ## The text of an event with its lead-in -/

/-- Where the content of a chunk is looked for. -/
theorem contentOf_at {fields choice delta : Dict Text Json} {choices : List Json} {content : Json}
    (found : Dict.get? fields ↑"choices" = some (.arr (.obj choice :: choices)))
    (holds : Dict.get? choice ↑"delta" = some (.obj delta))
    (told : Dict.get? delta ↑"content" = some content) : contentOf (.obj fields) = content := by
  simp [contentOf, Chat.deltaContent, getField, firstItem, Chat.getOr, found, holds, told,
    Json.truthy, bind, Except.bind, pure, Except.pure]

theorem contentOf_led {v : Json} (fit : isChunk v = true) (text : speaks v = true)
    (content : Text) : contentOf ((withContent v content).rounded py) = .str content := by
  obtain ⟨fields, choice, choices, delta, _, rfl, found, holds, -⟩ := exists_of_speaks fit text
  have led : withContent (.obj fields) content = .obj (Dict.set fields ↑"choices"
      (.arr (.obj (Dict.set choice ↑"delta" (.obj (Dict.set delta ↑"content" (.str content)))) ::
        choices))) := by
    rw [withContent, found]
    dsimp only
    rw [holds]
  have at_choices := Json.get?_roundedFields py (Dict.set fields ↑"choices" (.arr (.obj (Dict.set
    choice ↑"delta" (.obj (Dict.set delta ↑"content" (.str content)))) :: choices))) ↑"choices"
  have at_delta := Json.get?_roundedFields py (Dict.set choice ↑"delta"
    (.obj (Dict.set delta ↑"content" (.str content)))) ↑"delta"
  have at_content := Json.get?_roundedFields py (Dict.set delta ↑"content" (.str content))
    ↑"content"
  rw [Dict.get?_set_self, Option.map_some] at at_choices at_delta at_content
  rw [led, Json.rounded]
  exact contentOf_at at_choices at_delta at_content

/-! ## The text of a stream -/

/-- The model that a chunk names. -/
def Event.modelName? (e : Event) : Option Text :=
  match e.chunk? with
  | some (.obj fields) =>
    match fieldOf fields ↑"model" with
    | .str name => some name
    | _ => none
  | _ => none

/-- A chunk of the event, if there is one, names this model. -/
def Names (named : Text) (e : Event) : Prop :=
  e.chunk?.isSome = true → e.modelName? = some named

theorem model_of_names {named : Text} (ink : named ≠ []) {e : Event} (names : Names named e)
    {v : Json} (is : e.chunk? = some v) (before : Json) : e.model before = .str named := by
  have name := names (by rw [is]; rfl)
  unfold Event.modelName? at name
  rw [is] at name
  cases v with
  | obj fields =>
    dsimp only at name
    have truthy : (Json.str named).truthy = true := by simp [Json.truthy, ink]
    cases found : fieldOf fields ↑"model" with
    | str other =>
      rw [found] at name
      cases name
      rw [Event.model, is, Option.elim_some, namedModel, found, if_pos truthy]
    | _ =>
      rw [found] at name
      cases name
  | _ => cases name

theorem foldl_names {named : Text} (ink : named ≠ []) {events : List Event}
    (names : ∀ e ∈ events, Names named e) (before : Json)
    (some_chunk : before = .str named ∨ ∃ e ∈ events, e.holdsText = true) :
    events.foldl Event.model before = .str named := by
  induction events generalizing before with
  | nil => simpa using some_chunk
  | cons e events ih =>
    rw [List.forall_mem_cons] at names
    refine ih names.2 (e.model before) ?_
    cases is : e.chunk? with
    | some v => exact .inl (model_of_names ink names.1 is before)
    | none =>
      have kept : e.model before = before := by rw [Event.model, is]; rfl
      have silent : e.holdsText = false := by rw [Event.holdsText, is]; rfl
      rw [kept]
      grind

variable {named : Text} {events : List Bytes}

/-- The events go on, and the first text has the lead-in where one is wanted. -/
theorem forwarded_text (reads : Json.ReprReads py)
    (alone : ∀ event ∈ events, Framing.Standalone Frame.feed [Frame.feed] event)
    (fits : ∀ event ∈ events, (decode py event).fits = true) (ink : named ≠ [])
    (names : ∀ event ∈ events, Names named (decode py event)) (speech : textOf py events ≠ [])
    {s : Shim} (fresh : s.sent = []) :
    ∃ s' outs, (forM events (forwardEvent py)).run s = .ok PUnit.unit s' ∧
      s'.sent = outs.map (· ++ separator) ∧
      (∀ out ∈ outs, Framing.Standalone Frame.feed [Frame.feed] out) ∧
      s'.actualModel = .str named ∧
      (∀ key, s'.usage.get key .null =
        (events.map (decode py)).foldl (Event.count key) (s.usage.get key .null)) ∧
      textOf py outs =
        if s.wantPrefix then leadIn py (.str named) ++ textOf py events else textOf py events := by
  obtain ⟨front, event, back, rfl, quiet, text⟩ := exists_first fun silent =>
    speech (textOf_quiet silent)
  have all_names : ∀ e ∈ (front ++ event :: back).map (decode py), Names named e :=
    List.forall_mem_map.mpr names
  have holds : ∃ e ∈ (front ++ event :: back).map (decode py), e.holdsText = true :=
    ⟨decode py event, by simp, text⟩
  have latest := foldl_names ink all_names s.actualModel (.inr holds)
  cases want : s.wantPrefix with
  | false =>
    obtain ⟨s', ran, sent, -, model, counts⟩ := forwardEvents_quiet fits s (.inl want)
    exact ⟨s', _, ran, by rw [sent, fresh, List.nil_append], alone, model.trans latest, counts, rfl⟩
  | true =>
    obtain ⟨s', ran, sent, model, counts⟩ := forwardEvents_first fits want quiet text
    have first_names : ∀ e ∈ (front ++ [event]).map (decode py), Names named e :=
      List.forall_mem_map.mpr fun e mem => names e (by grind)
    have first := foldl_names ink first_names s.actualModel
      (.inr ⟨decode py event, by simp, text⟩)
    rw [first] at sent
    have fit : (decode py event).fits = true := fits event (by simp)
    have auto : Named (.str OpenRouter.autoModel) := ⟨_, rfl, by decide, by decide⟩
    have is_named : Named (.str named) := by
      have model := named_model fit auto
      cases is : (decode py event).chunk? with
      | none =>
        rw [Event.holdsText, is] at text
        cases text
      | some v => rwa [model_of_names ink (names event (by simp)) is] at model
    obtain ⟨inside, v, content, data, chunk, spoken, found, decoded⟩ :=
      decode_led reads fit text is_named
    generalize (decode py event).sent py true (.str named) event = out at sent inside decoded
    have nothing : textOf py front = [] := textOf_quiet quiet
    have here : (decode py event).text = content := by
      rw [Event.text, Event.chunk?, data]
      dsimp only [Option.map_some]
      rw [found]
    have led : (decode py out).text = leadIn py (.str named) ++ content := by
      rw [decoded, Event.text, Event.chunk?]
      dsimp only [Option.map_some]
      rw [contentOf_led chunk spoken]
    refine ⟨s', front ++ out :: back, ran, by rw [sent, fresh, List.nil_append],
      alone_replaced alone inside, model.trans latest, counts, ?_⟩
    have cons (e : Bytes) : textOf py (e :: back) = (decode py e).text ++ textOf py back := rfl
    rw [if_pos rfl, textOf_append, textOf_append, cons, cons, nothing, here, led]
    simp

/-! ## Both ways of answering -/

theorem get?_strip {fields fields' : Dict Text Json} {key : Text}
    (same : Dict.get? fields key = Dict.get? fields' key) :
    Dict.get? (strip fields) key = Dict.get? (strip fields') key := by
  simp only [strip, strippedFields, List.foldl_cons, List.foldl_nil, Dict.get?_erase, same]

/-- A plain answer and its lead-in. -/
theorem shownAnswer_text (py : Interpreter) (settings : Settings) (model : Text)
    {fields : Dict Text Json} {text : Text} (answers : Answers fields (.str text))
    (names : Dict.get? fields ↑"model" = some (.str named)) :
    ∃ led, shownAnswer py settings model 200 (.obj fields) = .ok (.obj led) ∧
      Answers led (.str (if wantsPrefix settings model then leadIn py (.str named) ++ text
        else text)) := by
  unfold shownAnswer
  cases wantsPrefix settings model with
  | false => exact ⟨fields, rfl, answers⟩
  | true =>
    have led := ledAnswer_ok py answers
    obtain ⟨choice, choices, message, found, holds, told⟩ := answers
    rw [names, Option.getD_some, withMessage, found] at led
    dsimp only at led
    rw [holds] at led
    rw [if_pos ⟨rfl, rfl⟩, leadAnswer, led]
    exact ⟨_, rfl, _, choices, _, Dict.get?_set_self _ _ _, Dict.get?_set_self _ _ _,
      Dict.get?_set_self _ _ _⟩

/-- To a request and to its streaming twin the provider tells the same. -/
structure OneAnswer (o : Outside) (requests : List Request) (request twin : Request)
    (answer : Dict Text Json) (events : List Bytes) (named text : Text) (usage : PyDict) :
    Prop where
  whole : ∃ body, outcome ((complete o.upstream request).run requests) =
    .ok ⟨200, body, .ok (.obj answer)⟩
  opened : ∃ opened, outcome ((openStream o.upstream twin).run requests) = .ok opened
  chunks : (o.chunks (requests ++ [twin])).1.flatten = joined events
  unbroken : (o.chunks (requests ++ [twin])).2 = none
  alone : ∀ event ∈ events, Framing.Standalone Frame.feed [Frame.feed] event
  fits : ∀ event ∈ events, (decode o.upstream.py event).fits = true
  content : Answers answer (.str text)
  texts : textOf o.upstream.py events = text
  ink : text ≠ []
  model : Dict.get? answer ↑"model" = some (.str named)
  names : ∀ event ∈ events, Names named (decode o.upstream.py event)
  named_ink : named ≠ []
  figures : readUsage (fieldOf answer ↑"usage") = .ok usage
  counts : ∀ key ∈ usageKeys,
    mergedCount key (events.map (decode o.upstream.py)) = usage.get key .null

namespace OneAnswer

variable {o : Outside} {requests : List Request} {request twin : Request}
  {answer : Dict Text Json} {text : Text} {usage : PyDict}

theorem plainAnswer (h : OneAnswer o requests request twin answer events named text usage)
    (model : Text) : ∃ led, plainAnswer o request model requests =
        .ok (.inr (200, ⟨.obj led, usage, .str named⟩)) ∧
      Answers led (.str (if wantsPrefix o.settings model then
        leadIn o.upstream.py (.str named) ++ text else text)) := by
  obtain ⟨body, whole⟩ := h.whole
  obtain ⟨led, shown, answers⟩ := shownAnswer_text o.upstream.py o.settings model h.content h.model
  have figures : figures? model 200 (.obj answer) = some (usage, .str named) := by
    have truthy : (Json.str named).truthy = true := by simp [Json.truthy, h.named_ink]
    have names : fieldOf answer ↑"model" = .str named := by rw [fieldOf, h.model]; rfl
    rw [figures?, if_pos rfl, h.figures, names]
    simp [Json.orElse, truthy]
  have read := readAnswer_figures o.upstream.py o.settings model 200 (.obj answer)
  rw [figures] at read
  obtain ⟨_, same, read⟩ := read
  rw [shown] at same
  cases same
  refine ⟨led, ?_, answers⟩
  rw [OpenAICompat.plainAnswer, whole]
  dsimp only [Except.bind]
  rw [read]
  rfl

theorem streamEnd (h : OneAnswer o requests request twin answer events named text usage)
    (reads : Json.ReprReads o.upstream.py) (model : Text) :
    ∃ s' outs, streamEnd o twin model requests = .ok () s' ∧
      s'.sent = outs.map (· ++ separator) ∧
      (∀ out ∈ outs, Framing.Standalone Frame.feed [Frame.feed] out) ∧
      s'.actualModel = .str named ∧
      (∀ key ∈ usageKeys, s'.usage.get key .null = usage.get key .null) ∧
      textOf o.upstream.py outs = if wantsPrefix o.settings model then
        leadIn o.upstream.py (.str named) ++ text else text := by
  obtain ⟨opened, opens⟩ := h.opened
  have speech : textOf o.upstream.py events ≠ [] := by
    rw [h.texts]
    exact h.ink
  obtain ⟨s', outs, ran, sent, alone, actual, counts, texts⟩ := forwarded_text reads h.alone h.fits
    h.named_ink h.names speech (s := start o.settings model) rfl
  refine ⟨s', outs, ?_, sent, alone, actual, fun key known => ?_, ?_⟩
  · rw [OpenAICompat.streamEnd, opens, turn, h.unbroken,
      forward_events o.upstream.py h.alone h.chunks]
    exact ran
  · rw [counts, ← h.counts key known]
    rfl
  · rw [texts, h.texts, start]

end OneAnswer

/-- The call with `stream` in its body. -/
def Call.streaming (c : Call) (fields : Dict Text Json) : Call :=
  { c with body := .obj (Dict.set fields ↑"stream" (.bool true)) }

theorem Takes.congr {o : Outside} {usage usage' : PyDict} {model : Json} {tags : Dict Text Json}
    (counts : ∀ key ∈ usageKeys, usage'.get key .null = usage.get key .null)
    (takes : Takes o usage model tags) : Takes o usage' model tags := by
  obtain ⟨connects, storable, fit⟩ := takes
  refine ⟨connects, storable, ?_⟩
  simp only [figuresFit, Bool.and_eq_true, List.all_eq_true] at fit ⊢
  exact ⟨fit.1, fun key known => counts key known ▸ fit.2 key known⟩

/-! ## A call whose row the log takes -/

section Logged

variable {c : Call} {s : Desk} {rows : List LogRow} {request : Request} {model providerName : Text}

end Logged

section Greeting

end Greeting

end AgenticOctopus.Api.OpenAICompat
