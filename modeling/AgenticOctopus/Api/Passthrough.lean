import AgenticOctopus.Api.ShimStream

/-!
# Passing a stream on

Without a lead-in every event goes out as it came in, but only complete events go out, and an
event that cannot be looked into ends the stream.
-/
namespace AgenticOctopus.Api.OpenAICompat
open Foundation Providers
open Chat (Stop)

variable {py : Interpreter}

/-! ## One line -/

theorem not_mem_rewritten (floats : Json.PrintableFloats py) (chunk : Json) :
    Frame.feed ∉ rewritten py chunk :=
  Frame.feed_not_mem (Frame.printable_line floats (.data chunk))

theorem standalone_of_line {line : Bytes} (inside : Frame.feed ∉ line) :
    Framing.Standalone Frame.feed [Frame.feed] line :=
  Framing.standalone_of_not_mem inside

theorem passes_line {line : Bytes} (inside : Frame.feed ∉ line) (want : Bool) :
    passes py want line = linePasses py want line := by
  rw [passes, Frame.splitOn_line inside, List.foldlM_cons]
  cases linePasses py want line <;> rfl

theorem drop_rewritten (chunk : Json) :
    (rewritten py chunk).drop 6 = Bytes.ofText (Json.dumped py chunk) := Chat.drop_line (.data chunk)

theorem isPrefixOf_rewritten (chunk : Json) : dataMark.isPrefixOf (rewritten py chunk) = true :=
  Chat.isPrefixOf_line (.data chunk)

theorem strip_rewritten (fields : Dict Text Json) :
    Bytes.strip ((rewritten py (.obj fields)).drop 6) ≠ doneMark := by
  rw [drop_rewritten, Frame.strip_object_bytes]
  obtain ⟨t, braces⟩ := Frame.exists_braces py fields
  rw [braces]
  intro same
  cases same

/-- An object that was written is looked into as what its text is read as. -/
theorem lineChunk_rewritten {fields : Dict Text Json} {v : Json}
    (printable : Json.Printable (Json.dumped py (.obj fields)))
    (read : Json.loads py (Json.dumped py (.obj fields)) = .ok v) :
    lineChunk py (rewritten py (.obj fields)) = .ok (some v) := by
  have payload : payload? (rewritten py (.obj fields)) =
      some (Bytes.ofText (Json.dumped py (.obj fields))) := by
    rw [payload?, isPrefixOf_rewritten, Bool.true_and, bne_iff_ne.mpr (strip_rewritten fields),
      if_pos rfl, drop_rewritten]
  rw [lineChunk, payload]
  dsimp only
  rw [loadPayload, Bytes.decodeJson_ascii (Bytes.ascii_of_printable printable)]
  dsimp only
  rw [read]

/-! ## The error event -/

/-- The text of an exception is a `str`. -/
def Told (describe : Stop → Text) : Prop := ∀ e, ∀ c ∈ describe e, c < 0x110000

theorem printable_streamError (py : Interpreter) (message : Text) :
    Json.Printable (Json.dumped py (streamError message)) := by
  have same : Json.dumped py (streamError message) =
      Json.dumped Chat.plainPython (streamError message) := rfl
  rw [same]
  exact Json.printable_dumped Chat.printableFloats_plainPython _

theorem not_mem_streamError (py : Interpreter) (message : Text) :
    Frame.feed ∉ rewritten py (streamError message) :=
  Frame.feed_not_mem (Json.Printable.append (by decide : Json.Printable ↑"data: ")
    (printable_streamError py message))

theorem serialisable_streamError {message : Text} (inRange : ∀ c ∈ message, c < 0x110000)
    (depth : Nat) : Json.Serialisable py (depth + 2) (streamError message) := by
  simp only [streamError, Json.Serialisable, Json.SerialisableFields, Dict.keys, List.map_cons,
    List.map_nil, List.nodup_singleton, and_true, true_and]
  exact ⟨by decide, by decide, inRange⟩

theorem passes_streamError (deep : 2 ≤ py.nesting) {message : Text}
    (inRange : ∀ c ∈ message, c < 0x110000) (want : Bool) :
    passes py want (rewritten py (streamError message)) = some want := by
  have serialisable : Json.Serialisable py py.nesting (streamError message) := by
    obtain ⟨depth, same⟩ : ∃ depth, py.nesting = depth + 2 := ⟨py.nesting - 2, by omega⟩
    rw [same]
    exact serialisable_streamError inRange depth
  obtain ⟨w, read⟩ := Json.loads_dumped_member serialisable (by decide)
  rw [passes_line (not_mem_streamError py message), linePasses, streamError,
    lineChunk_rewritten (printable_streamError py message) read]
  cases want <;> rfl

/-! ## Without a lead-in -/

theorem Forwards.unwanted {want after : Bool} {events outs : List Bytes}
    (h : Forwards py want events outs after) (unwanted : want = false) :
    after = false ∧ outs = events ∧ ∀ event ∈ events, passes py false event = some false := by
  induction h with
  | nil => exact ⟨unwanted, rfl, fun _ mem => by cases mem⟩
  | @cons want mid after event out events outs passed first rest ih =>
    subst unwanted
    obtain rfl : mid = false := by
      have less := first.less
      cases mid <;> simp_all
    obtain ⟨still, same, others⟩ := ih rfl
    rw [first.same rfl, same]
    exact ⟨still, rfl, List.forall_mem_cons.mpr ⟨passed, others⟩⟩

theorem joined_append (es fs : List Bytes) : joined (es ++ fs) = joined es ++ joined fs :=
  List.flatMap_append

theorem flatten_separated (events : List Bytes) :
    (events.map (· ++ separator)).flatten = joined events := by
  rw [joined, List.flatMap_def]

theorem join_events (stream : Bytes) : joined (eventsOf stream) ++ remainder stream = stream :=
  Framing.join_blocks stream

theorem standalone_of_event {stream event : Bytes} (mem : event ∈ eventsOf stream) :
    Framing.Standalone Frame.feed [Frame.feed] event := Framing.standalone_of_mem mem

/-- What is written first is found first. -/
theorem event_unique {event line t u : Bytes}
    (event_alone : Framing.Standalone Frame.feed [Frame.feed] event)
    (line_alone : Framing.Standalone Frame.feed [Frame.feed] line)
    (same : event ++ separator ++ t = line ++ separator ++ u) : event = line := by
  have first := Framing.splitOnce_append event_alone t
  have second := Framing.splitOnce_append line_alone u
  change Framing.splitOnce separator (event ++ separator ++ t) = _ at first
  change Framing.splitOnce separator (line ++ separator ++ u) = _ at second
  rw [same, second] at first
  cases first
  rfl

/-- The line holds nothing to look into, or a chunk that can be looked into. -/
def lineFits (py : Interpreter) (line : Bytes) : Bool :=
  match lineChunk py line with
  | .error _ => false
  | .ok none => true
  | .ok (some chunk) => peekable false chunk

theorem linePasses_false (line : Bytes) :
    linePasses py false line = if lineFits py line then some false else none := by
  unfold linePasses lineFits
  cases lineChunk py line with
  | error e => rfl
  | ok chunk =>
    cases chunk with
    | none => rfl
    | some chunk => rfl

theorem passes_false (event : Bytes) :
    passes py false event = some false ↔
      ∀ line ∈ event.splitOn Frame.feed, lineFits py line = true := by
  unfold passes
  induction event.splitOn Frame.feed with
  | nil => exact ⟨fun _ _ mem => (by cases mem), fun _ => rfl⟩
  | cons line lines ih =>
    rw [List.foldlM_cons, linePasses_false, List.forall_mem_cons, ← ih]
    cases lineFits py line with
    | false => exact ⟨fun none => (by cases none), fun both => (by cases both.1)⟩
    | true => exact ⟨fun rest => ⟨rfl, rest⟩, fun both => both.2⟩

/-- Exactly these streams are passed on as they are: those that end with a blank line and hold
nothing that cannot be looked into. -/
theorem passthrough_iff {describe : Stop → Text} (told : Told describe) (deep : 2 ≤ py.nesting)
    {settings : Settings} {model : Text}
    (noPrefix : model ≠ OpenRouter.autoModel ∨ settings.chatShowRoutedModel = false)
    (chunks : List Bytes) :
    (sse py describe ((forward py chunks none).run (start settings model))).flatten =
        chunks.flatten ↔
      remainder chunks.flatten = [] ∧
        ∀ event ∈ eventsOf chunks.flatten, ∀ line ∈ event.splitOn Frame.feed,
          lineFits py line = true := by
  have unwanted : (start settings model).wantPrefix = false := by
    change (decide (model = OpenRouter.autoModel) && settings.chatShowRoutedModel) = false
    rw [Bool.and_eq_false_iff, decide_eq_false_iff_not]
    exact noPrefix
  obtain ⟨outs, sent, course⟩ := forward_course py chunks none (s := start settings model) rfl
  have whole := join_events chunks.flatten
  simp only [← passes_false]
  rw [sse_eq, sent, List.flatten_append, flatten_separated]
  rw [unwanted] at course
  generalize Program.outcome ((forward py chunks none).run (start settings model)) = outcome
    at course
  cases course with
  | ends _ all =>
    obtain ⟨-, same, passed⟩ := all.unwanted rfl
    rw [same, closing, List.flatten_nil, List.append_nil]
    refine ⟨fun equal => ⟨?_, passed⟩, fun ⟨nothing, _⟩ => ?_⟩
    · rwa [equal, List.append_right_eq_self] at whole
    · rwa [nothing, List.append_nil] at whole
  | fails some _ => cases some
  | @breaks e front outs stuck =>
    obtain ⟨mid, taken, event, back, split, stuck⟩ := stuck
    obtain ⟨rfl, same, -⟩ := taken.unwanted rfl
    have mem : event ∈ eventsOf chunks.flatten :=
      split ▸ List.mem_append_right front List.mem_cons_self
    refine ⟨fun equal => ?_, fun ⟨_, passed⟩ => ?_⟩
    · -- the event that is stuck would be the error event
      have tail : event ++ separator ++ (joined back ++ remainder chunks.flatten) =
          rewritten py (streamError (describe e)) ++ separator ++ doneEvent := by
        rw [← whole, split, same, joined_append, List.append_assoc,
          List.append_cancel_left_eq] at equal
        simpa [joined, closing, errorEvent] using equal.symm
      have first := event_unique (standalone_of_event mem)
        (standalone_of_line (not_mem_streamError py (describe e))) tail
      rw [first, passes_streamError deep (told e)] at stuck
      cases stuck
    · rw [passed event mem] at stuck
      cases stuck

/-- A comment and the end of a stream, cut inside the blank line. -/
def keptAlive : List Bytes := [↑": ping\n", ↑"\ndata: [DONE]\n\n"]

theorem blocks_keptAlive : Framing.blocks Frame.feed [Frame.feed] keptAlive.flatten =
    ([↑": ping", ↑"data: [DONE]"], []) := by
  have first : Framing.splitOnce separator keptAlive.flatten =
      some (↑": ping", ↑"data: [DONE]\n\n") := by decide
  have second : Framing.splitOnce separator (↑"data: [DONE]\n\n" : Bytes) =
      some (↑"data: [DONE]", []) := by decide
  rw [Framing.blocks_of_some first, Framing.blocks_of_some second, Framing.blocks_of_none rfl]

theorem keptAlive_passes :
    (sse Chat.plainPython (fun _ => ↑"failed")
      ((forward Chat.plainPython keptAlive none).run (start {} ↑"a/b:free"))).flatten =
        keptAlive.flatten := by
  have told : Told fun _ => ↑"failed" := fun _ =>
    (by decide : ∀ c ∈ (↑"failed" : Text), c < 0x110000)
  refine (passthrough_iff told (by decide) (.inl (by decide)) keptAlive).mpr ?_
  rw [eventsOf, remainder, blocks_keptAlive]
  exact ⟨rfl, by decide⟩

/-- A last event that is not closed is lost, and JSON's `null` stops the stream. -/
theorem not_verbatim :
    (sse Chat.plainPython (fun _ => ↑"failed")
        ((forward Chat.plainPython [↑"data: [DONE]\n"] none).run (start {} ↑"a/b:free"))).flatten ≠
      ↑"data: [DONE]\n" ∧
    (sse Chat.plainPython (fun _ => ↑"failed")
        ((forward Chat.plainPython [↑"data: null\n\n"] none).run (start {} ↑"a/b:free"))).flatten ≠
      ↑"data: null\n\n" := by
  have unclosed : Framing.splitOnce separator (↑"data: [DONE]\n" : Bytes) = none := by decide
  have null : Framing.splitOnce separator (↑"data: null\n\n" : Bytes) =
      some (↑"data: null", []) := by decide
  rw [forward_eq, forward_eq, eventsOf, eventsOf, List.flatten_singleton, List.flatten_singleton,
    Framing.blocks_of_none unclosed, Framing.blocks_of_some null, Framing.blocks_of_none rfl]
  exact ⟨by decide +kernel, by decide +kernel⟩

end AgenticOctopus.Api.OpenAICompat
