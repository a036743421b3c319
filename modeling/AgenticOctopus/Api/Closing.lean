import AgenticOctopus.Api.ChatStream
import AgenticOctopus.Api.Passthrough

/-!
# How a stream ends

A client knows from `[DONE]` that a response is complete. `send_message` writes it itself; the
shim passes on what the upstream writes and adds its own after an exception only.
-/
namespace AgenticOctopus.Api.OpenAICompat
open Foundation Providers
open Chat (Stop Streaming)

/-- The line tells a reader to stop. -/
def saysDone (line : Bytes) : Bool :=
  dataMark.isPrefixOf line && Bytes.strip (line.drop 6) == doneMark

def isDone (event : Bytes) : Bool := (event.splitOn Frame.feed).any saysDone

/-- The events are followed by nothing, and the last of them is the only `[DONE]`; `error` is the
event that an exception asks for, right before it. -/
structure Closed (stream : Bytes) (error : Option Bytes) : Prop where
  complete : remainder stream = []
  ends : ∃ front last, eventsOf stream = front ++ [last] ∧ isDone last = true ∧
    ∀ event ∈ front, isDone event = false
  tells : ∀ line, error = some line → ∃ front last, eventsOf stream = front ++ [line, last]

variable {py : Interpreter}

theorem saysDone_rewritten (fields : Dict Text Json) :
    saysDone (rewritten py (.obj fields)) = false := by
  rw [saysDone, isPrefixOf_rewritten, Bool.true_and, beq_eq_false_iff_ne]
  exact strip_rewritten fields

theorem isDone_line {line : Bytes} (inside : Frame.feed ∉ line) : isDone line = saysDone line := by
  rw [isDone, Frame.splitOn_line inside, List.any_cons, List.any_nil, Bool.or_false]

theorem isDone_rewritten (floats : Json.PrintableFloats py) (fields : Dict Text Json) :
    isDone (rewritten py (.obj fields)) = false := by
  rw [isDone_line (not_mem_rewritten floats _), saysDone_rewritten]

/-- Events that are written one after the other are closed if the last is `[DONE]`. -/
theorem closed_joined {events : List Bytes} {error : Option Bytes}
    (alone : ∀ event ∈ events, Framing.Standalone Frame.feed [Frame.feed] event) :
    Closed (joined events) error ↔
      (∃ front last, events = front ++ [last] ∧ isDone last = true ∧
        ∀ event ∈ front, isDone event = false) ∧
      ∀ line, error = some line → ∃ front last, events = front ++ [line, last] := by
  have found : Framing.blocks Frame.feed [Frame.feed] (joined events) = (events, []) :=
    Framing.blocks_flatMap alone
  have all : eventsOf (joined events) = events := by rw [eventsOf, found]
  have nothing : remainder (joined events) = [] := by rw [remainder, found]
  constructor
  · rintro ⟨-, ends, tells⟩
    rw [all] at ends tells
    exact ⟨ends, tells⟩
  · rintro ⟨ends, tells⟩
    exact ⟨nothing, by rwa [all], by rwa [all]⟩

/-- The error event that a response owes to its reader. -/
def owed {ε : Type} (line : ε → Bytes) : Except ε Unit → Option Bytes
  | .ok _ => none
  | .error e => some (line e)

def doneLine : Bytes := dataMark ++ doneMark

theorem standalone_parts {events : List Bytes} {error : Option Bytes}
    (alone : ∀ event ∈ events, Framing.Standalone Frame.feed [Frame.feed] event)
    (inside : ∀ line, error = some line → Frame.feed ∉ line) :
    ∀ event ∈ events ++ error.toList ++ [doneLine],
      Framing.Standalone Frame.feed [Frame.feed] event := by
  intro event mem
  rw [List.mem_append, List.mem_append, Option.mem_toList, List.mem_singleton] at mem
  obtain (mem | same) | rfl := mem
  · exact alone event mem
  · exact standalone_of_line (inside event same)
  · exact standalone_of_line (by decide)

/-- Events without `[DONE]`, the error if there is one, and then `[DONE]`. -/
theorem closed_of_parts {events : List Bytes} {error : Option Bytes}
    (alone : ∀ event ∈ events, Framing.Standalone Frame.feed [Frame.feed] event)
    (more : ∀ event ∈ events, isDone event = false)
    (inside : ∀ line, error = some line → Frame.feed ∉ line)
    (other : ∀ line, error = some line → isDone line = false) :
    Closed (joined (events ++ error.toList ++ [doneLine])) error := by
  refine (closed_joined (standalone_parts alone inside)).mpr
    ⟨⟨events ++ error.toList, doneLine, rfl, by decide, ?_⟩, ?_⟩
  · intro event mem
    rw [List.mem_append, Option.mem_toList] at mem
    exact mem.elim (more event) (other event)
  · rintro line rfl
    exact ⟨events, doneLine, by simp⟩

/-! ## The native stream -/

def errorLine (py : Interpreter) (message : Text) : Bytes := rewritten py (errorJson message)

theorem exists_eventJson (py : Interpreter) (event : Chat.StreamEvent) :
    ∃ fields, eventJson py event = .obj fields := by
  cases event <;> exact ⟨_, rfl⟩

/-- Whatever happens, the native stream is closed. -/
theorem native_closed (floats : Json.PrintableFloats py) (describe : Raised → Text)
    (turn : EStateM.Result Raised Streaming Unit) :
    ∃ bytes, Frame.wire py (Api.sse py describe turn) = some bytes ∧
      Closed bytes (owed (fun e => errorLine py (describe e)) (sseOutcome py turn)) := by
  let events : List Bytes :=
    (written py (Program.state turn).yielded).1.map fun event => rewritten py (eventJson py event)
  have alone : ∀ event ∈ events, Framing.Standalone Frame.feed [Frame.feed] event := by
    intro event mem
    obtain ⟨e, -, rfl⟩ := List.mem_map.mp mem
    exact standalone_of_line (not_mem_rewritten floats _)
  have more : ∀ event ∈ events, isDone event = false := by
    intro event mem
    obtain ⟨e, -, rfl⟩ := List.mem_map.mp mem
    obtain ⟨fields, object⟩ := exists_eventJson py e
    rw [object]
    exact isDone_rewritten floats fields
  refine ⟨_, Frame.wire_eq floats _, ?_⟩
  rw [Frame.ofText_texts]
  have lines : (Api.sse py describe turn).map (fun f => Bytes.ofText (f.line py)) =
      events ++ (owed (fun e => errorLine py (describe e)) (sseOutcome py turn)).toList ++
        [doneLine] := by
    unfold Api.sse
    cases sseOutcome py turn with
    | ok _ =>
      simp [events, rewritten, owed]
      rfl
    | error e =>
      simp [events, rewritten, owed, errorLine]
      rfl
  rw [lines]
  refine closed_of_parts alone more ?_ ?_
  · cases sseOutcome py turn with
    | ok _ => rintro line ⟨⟩
    | error e =>
      rintro line ⟨⟩
      exact not_mem_rewritten floats _
  · cases sseOutcome py turn with
    | ok _ => rintro line ⟨⟩
    | error e =>
      rintro line ⟨⟩
      exact isDone_rewritten floats _

/-! ## The shim's stream -/

/-- For each event that is passed on, whether `[DONE]` goes out with it. -/
def marks (py : Interpreter) (want : Bool) : List Bytes → List Bool
  | [] => []
  | event :: events =>
    match passes py want event with
    | none => []
    | some after => (isDone event && after == want) :: marks py after events

theorem isDone_sentFor (floats : Json.PrintableFloats py) {want after : Bool} {event out : Bytes}
    (sent : SentFor py want after event out) : isDone out = (isDone event && after == want) := by
  by_cases kept : after = want
  · rw [sent.same kept, beq_iff_eq.mpr kept, Bool.and_true]
  · obtain ⟨fields, rfl⟩ := sent.changed kept
    rw [isDone_rewritten floats, beq_false_of_ne kept, Bool.and_false]

theorem standalone_of_sentFor (floats : Json.PrintableFloats py) {want after : Bool}
    {event out : Bytes} (sent : SentFor py want after event out)
    (alone : Framing.Standalone Frame.feed [Frame.feed] event) :
    Framing.Standalone Frame.feed [Frame.feed] out := by
  by_cases kept : after = want
  · rwa [sent.same kept]
  · obtain ⟨fields, rfl⟩ := sent.changed kept
    exact standalone_of_line (not_mem_rewritten floats _)

/-- What is passed on, seen from the events. -/
theorem Forwards.marks (floats : Json.PrintableFloats py) {want after : Bool}
    {events outs : List Bytes} (h : Forwards py want events outs after) :
    outs.map isDone = marks py want events := by
  induction h with
  | nil => rfl
  | cons passed first rest ih =>
    rw [List.map_cons, OpenAICompat.marks, passed, ih, isDone_sentFor floats first]

theorem Forwards.passed {want after : Bool} {events outs : List Bytes}
    (h : Forwards py want events outs after) : events.foldlM (passes py) want = some after := by
  induction h with
  | nil => rfl
  | cons passed first rest ih => rwa [List.foldlM_cons, passed]

theorem Forwards.standalone (floats : Json.PrintableFloats py) {want after : Bool}
    {events outs : List Bytes} (h : Forwards py want events outs after)
    (alone : ∀ event ∈ events, Framing.Standalone Frame.feed [Frame.feed] event) :
    ∀ out ∈ outs, Framing.Standalone Frame.feed [Frame.feed] out := by
  induction h with
  | nil => exact fun _ mem => by cases mem
  | cons passed first rest ih =>
    rw [List.forall_mem_cons] at alone ⊢
    exact ⟨standalone_of_sentFor floats first alone.1, ih alone.2⟩

theorem Forwards.followed {want mid : Bool} {front outs : List Bytes}
    (h : Forwards py want front outs mid) {event : Bytes} (stuck : passes py mid event = none)
    (back : List Bytes) :
    OpenAICompat.marks py want (front ++ event :: back) = OpenAICompat.marks py want front ∧
      (front ++ event :: back).foldlM (passes py) want = none := by
  induction h with
  | nil =>
    simp [OpenAICompat.marks, stuck]
  | cons passed first rest ih =>
    obtain ⟨later, whole⟩ := ih stuck
    rw [List.cons_append, OpenAICompat.marks, OpenAICompat.marks, List.foldlM_cons, passed]
    exact ⟨congrArg _ later, whole⟩

theorem ends_iff (events : List Bytes) :
    (∃ front last, events = front ++ [last] ∧ isDone last = true ∧
        ∀ event ∈ front, isDone event = false) ↔
      (events.map isDone).getLast? = some true ∧ true ∉ (events.map isDone).dropLast := by
  rcases List.eq_nil_or_concat events with rfl | ⟨front, last, rfl⟩
  · simp
  · rw [List.concat_eq_append, List.map_append, List.map_singleton, List.getLast?_concat,
      List.dropLast_concat, Option.some.injEq, List.mem_map]
    constructor
    · rintro ⟨front', last', same, done, more⟩
      obtain ⟨rfl, last_same⟩ := List.append_inj' same rfl
      cases last_same
      refine ⟨done, ?_⟩
      rintro ⟨event, mem, other⟩
      rw [more event mem] at other
      cases other
    · rintro ⟨done, more⟩
      refine ⟨front, last, rfl, done, fun event mem => ?_⟩
      rw [Bool.eq_false_iff]
      exact fun other => more ⟨event, mem, other⟩

/-- Nothing goes wrong, and `[DONE]` goes out with the last event and with no other; or something
goes wrong before any `[DONE]` has gone out. -/
def Closes (py : Interpreter) (want : Bool) (events : List Bytes) (failure : Option Raised) :
    Prop :=
  if (events.foldlM (passes py) want).isSome ∧ failure = none then
    (marks py want events).getLast? = some true ∧ true ∉ (marks py want events).dropLast
  else true ∉ marks py want events

/-- An error and `[DONE]` close what was passed on unless a `[DONE]` was. -/
theorem closed_after_error (floats : Json.PrintableFloats py) {outs : List Bytes} (message : Text)
    (alone : ∀ out ∈ outs, Framing.Standalone Frame.feed [Frame.feed] out) :
    Closed (joined outs ++ (errorEvent py message ++ doneEvent))
        (some (rewritten py (streamError message))) ↔ true ∉ outs.map isDone := by
  have whole : joined outs ++ (errorEvent py message ++ doneEvent) =
      joined (outs ++ (some (rewritten py (streamError message))).toList ++ [doneLine]) := by
    simp [joined, errorEvent, doneEvent, doneLine]
  have inside : ∀ line, some (rewritten py (streamError message)) = some line →
      Frame.feed ∉ line := by
    rintro line ⟨⟩
    exact not_mem_streamError py message
  rw [whole]
  constructor
  · intro closed
    obtain ⟨ends, -⟩ := (closed_joined (standalone_parts alone inside)).mp closed
    obtain ⟨-, more⟩ := (ends_iff _).mp ends
    rw [List.map_append, List.map_singleton, List.dropLast_concat, List.map_append,
      List.mem_append, not_or] at more
    exact more.1
  · intro none
    refine closed_of_parts alone (fun event mem => ?_) inside ?_
    · rw [Bool.eq_false_iff]
      exact fun done => none (List.mem_map.mpr ⟨event, mem, done⟩)
    · rintro line ⟨⟩
      exact isDone_rewritten floats _

/-- What the `try` of the shim sends is closed in exactly these cases. -/
theorem closed_sse_iff (floats : Json.PrintableFloats py) (describe : Stop → Text)
    (settings : Settings) (model : Text) (chunks : List Bytes) (failure : Option Raised) :
    let turn := (forward py chunks failure).run (start settings model)
    Closed (sse py describe turn).flatten
        (owed (fun e => rewritten py (streamError (describe e))) (Program.outcome turn)) ↔
      Closes py (wantsPrefix settings model) (eventsOf chunks.flatten) failure := by
  dsimp only
  obtain ⟨outs, sent, course⟩ := forward_course py chunks failure (s := start settings model) rfl
  have alone : ∀ event ∈ eventsOf chunks.flatten,
      Framing.Standalone Frame.feed [Frame.feed] event := fun event mem => standalone_of_event mem
  rw [sse_eq, sent, List.flatten_append, flatten_separated]
  generalize Program.outcome ((forward py chunks failure).run (start settings model)) = outcome
    at course ⊢
  change Course py (wantsPrefix settings model) _ _ _ _ at course
  generalize wantsPrefix settings model = want at course ⊢
  generalize eventsOf chunks.flatten = events at alone course ⊢
  unfold Closes
  cases course with
  | ends none all =>
    rw [if_pos ⟨by rw [all.passed]; rfl, none⟩, ← all.marks floats, ← ends_iff, closing,
      List.flatten_nil,
      List.append_nil, closed_joined (all.standalone floats alone)]
    exact and_iff_left fun _ none => by cases none
  | fails some all =>
    rw [if_neg (fun both => by rw [some] at both; cases both.2), ← all.marks floats]
    exact closed_after_error floats _ (all.standalone floats alone)
  | breaks stuck =>
    obtain ⟨mid, taken, event, back, rfl, stuck⟩ := stuck
    obtain ⟨same, whole⟩ := taken.followed stuck back
    rw [if_neg (fun both => by rw [whole] at both; cases both.1), same, ← taken.marks floats]
    exact closed_after_error floats _ (taken.standalone floats fun event mem =>
      alone event (List.mem_append_left _ mem))

end AgenticOctopus.Api.OpenAICompat
