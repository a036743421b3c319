import AgenticOctopus.Api.Closing

/-!
# Events that are no chunks

What happens to the rest of a stream when one event of it does not hold a completion chunk, in
`_iter_sse_deltas` and in the shim.
-/
namespace AgenticOctopus.Api.OpenAICompat
open Foundation Providers
open Chat (Stop Reader)

variable (py : Interpreter)

/-- What is no completion chunk. -/
inductive Malformed (payload : Bytes) : Prop
  | undecodable (none : Bytes.decodeJson payload = none)
  | unreadable {text : Text} {e : Json.LoadError} (decodes : Bytes.decodeJson payload = some text)
    (raises : Json.loads py text = .error e)
  | other {text : Text} {v : Json} (decodes : Bytes.decodeJson payload = some text)
    (loads : Json.loads py text = .ok v) (other : isObject v = false)
  | choice {text : Text} {fields : Dict Text Json} {choice : Json}
    (decodes : Bytes.decodeJson payload = some text)
    (loads : Json.loads py text = .ok (.obj fields))
    (first : firstItem (fieldOf fields ↑"choices") = .ok choice) (other : isObject choice = false)
  | delta {text : Text} {fields choice : Dict Text Json}
    (decodes : Bytes.decodeJson payload = some text)
    (loads : Json.loads py text = .ok (.obj fields))
    (first : firstItem (fieldOf fields ↑"choices") = .ok (.obj choice))
    (null : Dict.get? choice ↑"delta" = some .null)

/-- The payload is text, but no JSON. -/
def unjson (payload : Bytes) : Bool :=
  match loadPayload py payload with
  | .ok none => true
  | _ => false

/-- The only data line of the event carries the payload. -/
def Carries (event payload : Bytes) : Prop :=
  ∃ front back, event.splitOn Frame.feed = front ++ (dataMark ++ payload) :: back ∧
    ∀ line ∈ front ++ back, dataMark.isPrefixOf line = false

/-! ## `_iter_sse_deltas` -/

/-- The content can be looked for. -/
def readable : Json → Bool
  | .obj fields => choicesFit true (fieldOf fields ↑"choices")
  | _ => false

def payloadReads (payload : Bytes) : Bool :=
  match loadPayload py payload with
  | .error _ => false
  | .ok none => true
  | .ok (some chunk) => readable chunk

/-- Every data line up to `[DONE]` can be read. -/
def reads : List Bytes → Bool
  | [] => true
  | line :: lines => saysDone line ||
      ((!dataMark.isPrefixOf line || payloadReads py (Bytes.strip (line.drop 6))) && reads lines)

def chunkDeltas (chunk : Json) : List Json := if speaks chunk then [contentOf chunk] else []

def lineDeltas (line : Bytes) : List Json :=
  if dataMark.isPrefixOf line then
    match loadPayload py (Bytes.strip (line.drop 6)) with
    | .ok (some chunk) => chunkDeltas chunk
    | _ => []
  else []

/-- The contents up to `[DONE]`. -/
def deltasIn : List Bytes → List Json
  | [] => []
  | line :: lines => if saysDone line then [] else lineDeltas py line ++ deltasIn lines

def linesOf (events : List Bytes) : List Bytes :=
  events.flatMap fun event => event.splitOn Frame.feed

def deltas (events : List SseEvent) : List Json :=
  events.filterMap fun
    | .delta content => some content
    | _ => none

/-- The reader got to the end of the stream or to `[DONE]`, and yielded these deltas. -/
def Yields (r : EStateM.Result Stop (List SseEvent) Unit) (contents : List Json) : Prop :=
  (Program.outcome r = .ok () ∨ Program.outcome r = .error .returned) ∧
    deltas (Program.state r) = contents

variable {py}

theorem deltas_append (es fs : List SseEvent) : deltas (es ++ fs) = deltas es ++ deltas fs :=
  List.filterMap_append

theorem deltaContent_readable (chunk : Json) :
    (readable chunk = true → Chat.deltaContent chunk = .ok (contentOf chunk)) ∧
    (readable chunk = false → ∃ e, Chat.deltaContent chunk = .error e) := by
  cases chunk with
  | obj fields =>
    obtain ⟨found, missing⟩ := deltaOf_object fields true
    rw [contentOf, deltaContent_eq, readable]
    refine ⟨fun fit => ?_, fun misfit => ?_⟩
    · obtain ⟨delta, found, object⟩ := found fit
      rw [found]
      cases delta with
      | obj => rfl
      | _ => cases object rfl
    · rcases missing misfit with ⟨e, raised⟩ | ⟨delta, found, -, other⟩
      · rw [raised]
        exact ⟨e, rfl⟩
      · rw [found]
        cases delta with
        | obj => cases other
        | _ => exact ⟨_, rfl⟩
  | _ => exact ⟨fun fit => (by cases fit), fun _ => ⟨_, rfl⟩⟩

theorem deltas_yieldIf (value : Json) {event : Json → SseEvent}
    (silent : deltas [event value] = []) :
    deltas (if value.truthy then [event value] else []) = [] := by
  split_ifs
  · exact silent
  · rfl

theorem run_readChunk (chunk : Json) (seen : List SseEvent) :
    (readable chunk = true → ∃ more, (Chat.readChunk chunk).run seen = .ok () (seen ++ more) ∧
      deltas more = chunkDeltas chunk) ∧
    (readable chunk = false →
      ∃ e later, (Chat.readChunk chunk).run seen = .error (.raised e) later) := by
  obtain ⟨found, missing⟩ := deltaContent_readable chunk
  cases chunk with
  | obj fields =>
    let usage := fieldOf fields ↑"usage"
    let model := fieldOf fields ↑"model"
    have reads : Chat.readChunk (.obj fields) = (do
        Chat.yieldIf usage .usage
        Chat.yieldIf model .model
        let content ← Chat.fails (Chat.deltaContent (.obj fields))
        Chat.yieldIf content .delta) := rfl
    rw [reads, Program.run_bind_ok (Chat.run_yieldIf usage SseEvent.usage seen),
      Program.run_bind_ok (Chat.run_yieldIf model SseEvent.model _)]
    refine ⟨fun fit => ?_, fun misfit => ?_⟩
    · rw [found fit, Chat.fails_ok, pure_bind, Chat.run_yieldIf, List.append_assoc,
        List.append_assoc]
      refine ⟨_, rfl, ?_⟩
      rw [deltas_append, deltas_append, deltas_yieldIf usage rfl, deltas_yieldIf model rfl,
        chunkDeltas, speaks]
      cases (contentOf (.obj fields)).truthy <;> rfl
    · obtain ⟨e, raised⟩ := missing misfit
      rw [raised]
      exact ⟨e, _, rfl⟩
  | _ => exact ⟨fun fit => (by cases fit), fun _ => ⟨_, _, rfl⟩⟩

theorem readLine_eq (line : Bytes) :
    Chat.readLine py line =
      if !dataMark.isPrefixOf line then return
      else if saysDone line then throw .returned
      else match loadPayload py (Bytes.strip (line.drop 6)) with
        | .error e => throw e
        | .ok none => return
        | .ok (some chunk) => Chat.readChunk chunk := by
  unfold Chat.readLine saysDone loadPayload Chat.withLoaded
  change (if !dataMark.isPrefixOf line then _ else _) = _
  cases dataMark.isPrefixOf line with
  | false => rfl
  | true =>
    simp only [Bool.not_true, Bool.false_eq_true, if_false, Bool.true_and, beq_iff_eq]
    change (if Bytes.strip (line.drop 6) = doneMark then _ else _) = _
    split_ifs
    · rfl
    · cases Bytes.decodeJson (Bytes.strip (line.drop 6)) with
      | none => rfl
      | some text =>
        dsimp only
        cases Json.loads py text with
        | ok chunk => rfl
        | error e => cases e <;> rfl

theorem loadPayload_error {payload : Bytes} {e : Stop} (h : loadPayload py payload = .error e) :
    e ≠ .returned := by
  rintro rfl
  unfold loadPayload at h
  split at h
  · cases h
  · split at h <;> cases h

variable (py) in
/-- What a line is read as. -/
theorem run_readLine (line : Bytes) (more : saysDone line = false) (seen : List SseEvent) :
    ((!dataMark.isPrefixOf line || payloadReads py (Bytes.strip (line.drop 6))) = true →
      ∃ events, (Chat.readLine py line).run seen = .ok () (seen ++ events) ∧
        deltas events = lineDeltas py line) ∧
    ((!dataMark.isPrefixOf line || payloadReads py (Bytes.strip (line.drop 6))) = false →
      ∃ e later, (Chat.readLine py line).run seen = .error e later ∧ e ≠ .returned) := by
  rw [readLine_eq, lineDeltas, more]
  cases dataMark.isPrefixOf line with
  | false => exact ⟨fun _ => ⟨[], by simp, rfl⟩, fun none => (by cases none)⟩
  | true =>
    simp only [Bool.not_true, Bool.false_eq_true, if_false, if_true, Bool.false_or]
    rw [payloadReads]
    cases loaded : loadPayload py (Bytes.strip (line.drop 6)) with
    | error e =>
      exact ⟨fun fit => (by cases fit), fun _ => ⟨e, seen, rfl, loadPayload_error loaded⟩⟩
    | ok chunk =>
      cases chunk with
      | none => exact ⟨fun _ => ⟨[], by simp, rfl⟩, fun none => (by cases none)⟩
      | some chunk =>
        obtain ⟨reads, raises⟩ := run_readChunk chunk seen
        refine ⟨reads, fun misfit => ?_⟩
        obtain ⟨e, later, raised⟩ := raises misfit
        exact ⟨_, later, raised, by simp⟩

variable (py) in
theorem run_readLines (lines : List Bytes) (seen : List SseEvent) :
    (reads py lines = true → ∃ more, deltas more = deltasIn py lines ∧
      ((forM lines (Chat.readLine py)).run seen = .ok PUnit.unit (seen ++ more) ∨
        (forM lines (Chat.readLine py)).run seen = .error .returned (seen ++ more))) ∧
    (reads py lines = false → ∃ e later, e ≠ .returned ∧
      (forM lines (Chat.readLine py)).run seen = .error e later) := by
  induction lines generalizing seen with
  | nil => exact ⟨fun _ => ⟨[], rfl, .inl (by simp)⟩, fun none => (by cases none)⟩
  | cons line lines ih =>
    rw [List.forM_cons, reads, deltasIn]
    cases done : saysDone line with
    | true =>
      have data : dataMark.isPrefixOf line = true := (Bool.and_eq_true_iff.mp done).1
      have stops : (Chat.readLine py line).run seen = .error .returned (seen ++ []) := by
        rw [readLine_eq, data, done, List.append_nil]
        rfl
      exact ⟨fun _ => ⟨[], rfl, .inr (Program.run_bind_error stops)⟩, fun none => (by cases none)⟩
    | false =>
      obtain ⟨reads_here, raises_here⟩ := run_readLine py line done seen
      rw [Bool.false_or]
      cases fits : !dataMark.isPrefixOf line || payloadReads py (Bytes.strip (line.drop 6)) with
      | false =>
        obtain ⟨e, later, raised, other⟩ := raises_here fits
        exact ⟨fun none => (by cases none),
          fun _ => ⟨e, later, other, Program.run_bind_error raised⟩⟩
      | true =>
        obtain ⟨events, ran, here⟩ := reads_here fits
        obtain ⟨reads_rest, raises_rest⟩ := ih (seen ++ events)
        rw [Program.run_bind_ok ran]
        refine ⟨fun rest => ?_, raises_rest⟩
        obtain ⟨more, there, run⟩ := reads_rest rest
        rw [List.append_assoc] at run
        refine ⟨events ++ more, ?_, run⟩
        rw [deltas_append, here, there]
        rfl

theorem reads_append {front : List Bytes} (more : ∀ line ∈ front, saysDone line = false)
    (back : List Bytes) : reads py (front ++ back) = (reads py front && reads py back) := by
  induction front with
  | nil => rfl
  | cons line front ih =>
    rw [List.forall_mem_cons] at more
    rw [List.cons_append, reads, reads, more.1, ih more.2, Bool.false_or, Bool.false_or,
      Bool.and_assoc]

theorem deltasIn_append {front : List Bytes} (more : ∀ line ∈ front, saysDone line = false)
    (back : List Bytes) : deltasIn py (front ++ back) = deltasIn py front ++ deltasIn py back := by
  induction front with
  | nil => rfl
  | cons line front ih =>
    rw [List.forall_mem_cons] at more
    rw [List.cons_append, deltasIn, deltasIn, more.1, ih more.2]
    simp

variable (py) in
/-- Lines without data are passed over. -/
theorem passed_over {lines : List Bytes}
    (dataless : ∀ line ∈ lines, dataMark.isPrefixOf line = false) :
    (∀ line ∈ lines, saysDone line = false) ∧ reads py lines = true ∧ deltasIn py lines = [] := by
  induction lines with
  | nil => exact ⟨fun _ mem => (by cases mem), rfl, rfl⟩
  | cons line lines ih =>
    rw [List.forall_mem_cons] at dataless ⊢
    obtain ⟨more, read, none⟩ := ih dataless.2
    have here : saysDone line = false := by rw [saysDone, dataless.1, Bool.false_and]
    refine ⟨⟨here, more⟩, ?_, ?_⟩
    · rw [reads, here, dataless.1, read]
      rfl
    · rw [deltasIn, here, lineDeltas, dataless.1, none]
      rfl

/-- The choice is an object, and so is its delta. -/
def holdsDelta : Json → Bool
  | .obj choice => isObject ((Dict.get? choice ↑"delta").getD (.obj []))
  | _ => false

theorem choicesFit_first {choices choice : Json} (first : firstItem choices = .ok choice) :
    choicesFit true choices = holdsDelta choice := by
  cases choices with
  | arr items =>
    cases items with
    | nil => cases first
    | cons c items =>
      cases first
      cases choice <;> rfl
  | str t =>
    cases t with
    | nil => cases first
    | cons c t =>
      cases first
      rfl
  | _ => cases first

theorem payloadReads_malformed {payload : Bytes} (malformed : Malformed py payload) :
    payloadReads py payload = unjson py payload := by
  unfold payloadReads unjson loadPayload
  cases malformed with
  | undecodable none => rw [none]
  | @unreadable text e decodes raises =>
    rw [decodes]
    dsimp only
    rw [raises]
    cases e <;> rfl
  | @other text v decodes loads other =>
    rw [decodes]
    dsimp only
    rw [loads]
    cases v with
    | obj => cases other
    | _ => rfl
  | @choice text fields choice decodes loads first other =>
    rw [decodes]
    dsimp only
    rw [loads]
    dsimp only [readable]
    rw [choicesFit_first first]
    cases choice with
    | obj => cases other
    | _ => rfl
  | @delta text fields choice decodes loads first null =>
    rw [decodes]
    dsimp only
    rw [loads]
    dsimp only [readable]
    rw [choicesFit_first first, holdsDelta, null]
    rfl

theorem linesOf_append (front back : List Bytes) :
    linesOf (front ++ back) = linesOf front ++ linesOf back := List.flatMap_append

theorem readEvents_eq (events : List Bytes) :
    forM events (Chat.readEvent py) = forM (linesOf events) (Chat.readLine py) := by
  induction events with
  | nil => rfl
  | cons event events ih =>
    rw [linesOf, List.flatMap_cons, List.forM_append, List.forM_cons, ih]
    rfl

theorem iterSseDeltas_events {events : List Bytes}
    (alone : ∀ event ∈ events, Framing.Standalone Frame.feed [Frame.feed] event)
    {chunks : List Bytes} (whole : chunks.flatten = joined events) :
    Chat.iterSseDeltas py chunks none = forM (linesOf events) (Chat.readLine py) := by
  have found : Framing.blocks Frame.feed [Frame.feed] chunks.flatten = (events, []) := by
    rw [whole]
    exact Framing.blocks_flatMap alone
  unfold Chat.iterSseDeltas
  rw [Framing.readChunks_eq, Framing.drain_eq, found, bind_assoc]
  dsimp only
  rw [pure_bind, readEvents_eq]
  exact bind_pure_unit

variable (py) in
/-- What a stream of complete events yields. -/
theorem run_iterSseDeltas {events : List Bytes}
    (alone : ∀ event ∈ events, Framing.Standalone Frame.feed [Frame.feed] event)
    {chunks : List Bytes} (whole : chunks.flatten = joined events) :
    (reads py (linesOf events) = true →
      Yields ((Chat.iterSseDeltas py chunks none).run []) (deltasIn py (linesOf events))) ∧
    (reads py (linesOf events) = false →
      ∀ contents, ¬ Yields ((Chat.iterSseDeltas py chunks none).run []) contents) := by
  rw [iterSseDeltas_events alone whole]
  obtain ⟨reads, raises⟩ := run_readLines py (linesOf events) []
  refine ⟨fun fit => ?_, fun misfit contents => ?_⟩
  · obtain ⟨more, same, ran | ran⟩ := reads fit
    · rw [ran]
      exact ⟨.inl rfl, same⟩
    · rw [ran]
      exact ⟨.inr rfl, same⟩
  · obtain ⟨e, later, other, ran⟩ := raises misfit
    rw [ran]
    rintro ⟨stopped, -⟩
    rcases stopped with none | returned
    · cases none
    · cases returned
      exact other rfl

/-- A malformed event before `[DONE]` adds no delta; it is read if it is no JSON. -/
theorem linesOf_malformed {before : List Bytes} (after : List Bytes) {extra payload : Bytes}
    (carries : Carries extra payload) (early : ∀ event ∈ before ++ [extra], isDone event = false)
    (malformed : Malformed py (Bytes.strip payload)) :
    reads py (linesOf (before ++ extra :: after)) =
        (unjson py (Bytes.strip payload) && reads py (linesOf (before ++ after))) ∧
      (unjson py (Bytes.strip payload) = true →
        deltasIn py (linesOf (before ++ extra :: after)) =
          deltasIn py (linesOf (before ++ after))) := by
  obtain ⟨front, back, lines, dataless⟩ := carries
  rw [List.forall_mem_append] at dataless
  obtain ⟨front_more, front_reads, front_none⟩ := passed_over py dataless.1
  obtain ⟨back_more, back_reads, back_none⟩ := passed_over py dataless.2
  have more : ∀ line ∈ linesOf before, saysDone line = false := by
    intro line mem
    obtain ⟨event, mem, inside⟩ := List.mem_flatMap.mp mem
    have none := early event (List.mem_append_left _ mem)
    rw [isDone, List.any_eq_false] at none
    exact Bool.eq_false_iff.mpr (none line inside)
  have data_more : saysDone (dataMark ++ payload) = false := by
    have none := early extra (List.mem_append_right _ (List.mem_singleton_self extra))
    rw [isDone, List.any_eq_false, lines] at none
    exact Bool.eq_false_iff.mpr (none _ (List.mem_append_right _ List.mem_cons_self))
  have data : dataMark.isPrefixOf (dataMark ++ payload) = true :=
    List.isPrefixOf_iff_prefix.mpr (List.prefix_append _ _)
  have rest : (dataMark ++ payload).drop 6 = payload := rfl
  have whole : linesOf (before ++ extra :: after) =
      linesOf before ++ (front ++ (dataMark ++ payload) :: (back ++ linesOf after)) := by
    rw [linesOf_append, linesOf, linesOf, List.flatMap_cons, lines]
    simp [linesOf]
  constructor
  · rw [whole, linesOf_append, reads_append more, reads_append more, reads_append front_more,
      front_reads, reads, data_more, data, rest, reads_append back_more, back_reads,
      payloadReads_malformed malformed]
    cases reads py (linesOf before) <;> cases unjson py (Bytes.strip payload) <;> rfl
  · intro skipped
    have silent : lineDeltas py (dataMark ++ payload) = [] := by
      rw [lineDeltas, data, rest]
      unfold unjson at skipped
      split at skipped
      next loaded => rw [loaded]; rfl
      next => cases skipped
    rw [whole, linesOf_append, deltasIn_append more, deltasIn_append more,
      deltasIn_append front_more, front_none, deltasIn, data_more, silent,
      deltasIn_append back_more, back_none]
    rfl

/-- The deltas are the same as without a malformed event in exactly these cases. -/
theorem alone_without {before after : List Bytes} {extra : Bytes}
    (alone : ∀ event ∈ before ++ extra :: after, Framing.Standalone Frame.feed [Frame.feed] event) :
    ∀ event ∈ before ++ after, Framing.Standalone Frame.feed [Frame.feed] event := by
  intro event mem
  refine alone event ?_
  rw [List.mem_append] at mem ⊢
  exact mem.imp_right (List.mem_cons_of_mem extra)

theorem yields_iff {before after : List Bytes} {extra payload : Bytes}
    (alone : ∀ event ∈ before ++ extra :: after, Framing.Standalone Frame.feed [Frame.feed] event)
    (carries : Carries extra payload) (early : ∀ event ∈ before ++ [extra], isDone event = false)
    (malformed : Malformed py (Bytes.strip payload)) {chunks base : List Bytes}
    (whole : chunks.flatten = joined (before ++ extra :: after))
    (without : base.flatten = joined (before ++ after)) :
    Yields ((Chat.iterSseDeltas py chunks none).run [])
        (deltas (Program.state ((Chat.iterSseDeltas py base none).run []))) ↔
      unjson py (Bytes.strip payload) = true ∧ reads py (linesOf (before ++ after)) = true := by
  obtain ⟨same, silent⟩ := linesOf_malformed after carries early malformed
  obtain ⟨yields, raises⟩ := run_iterSseDeltas py alone whole
  obtain ⟨base_yields, -⟩ := run_iterSseDeltas py (alone_without alone) without
  rw [same] at yields raises
  cases skipped : unjson py (Bytes.strip payload) with
  | false =>
    rw [skipped] at raises
    exact ⟨fun yielded => absurd yielded (raises rfl _), fun both => (by cases both.1)⟩
  | true =>
    rw [skipped] at yields raises
    cases fit : reads py (linesOf (before ++ after)) with
    | false =>
      rw [fit] at raises
      exact ⟨fun yielded => absurd yielded (raises rfl _), fun both => (by cases both.2)⟩
    | true =>
      rw [fit] at yields
      refine ⟨fun _ => ⟨rfl, rfl⟩, fun _ => ?_⟩
      rw [(base_yields fit).2, ← silent skipped]
      exact yields rfl

/-! ## The shim -/

/-- Both states go on in the same way: the model matters while a lead-in is wanted. -/
structure Like (s t : Shim) : Prop where
  want : s.wantPrefix = t.wantPrefix
  model : s.wantPrefix = true → s.actualModel = t.actualModel

theorem Like.refl (s : Shim) : Like s s := ⟨rfl, fun _ => rfl⟩

theorem forwardLine_like (event line : Bytes) {s t : Shim} (like : Like s t) {w : Bool}
    (passed : linePasses py s.wantPrefix line = some w) :
    ∃ out s' t', (forwardLine py event line).run s = .ok out s' ∧
      (forwardLine py event line).run t = .ok out t' ∧ s'.sent = s.sent ∧ t'.sent = t.sent ∧
      s'.wantPrefix = w ∧ Like s' t' := by
  unfold linePasses at passed
  rw [forwardLine_eq]
  cases looked : lineChunk py line with
  | error e =>
    rw [looked] at passed
    cases passed
  | ok found =>
    rw [looked] at passed
    cases found with
    | none =>
      cases passed
      exact ⟨event, s, t, rfl, rfl, rfl, rfl, rfl, like⟩
    | some chunk =>
      dsimp only at passed ⊢
      cases fit : peekable s.wantPrefix chunk with
      | false =>
        rw [fit] at passed
        cases passed
      | true =>
        rw [fit] at passed
        cases passed
        obtain ⟨s', ran, peeked⟩ := (peek_run py chunk s).1 fit
        obtain ⟨t', ran', peeked'⟩ := (peek_run py chunk t).1 (like.want ▸ fit)
        have named : s.wantPrefix = true → s'.actualModel = t'.actualModel := fun want => by
          rw [peeked.model, peeked'.model, like.model want]
        have like' : Like s' t' := by
          refine ⟨?_, fun want => named ?_⟩
          · rw [peeked.want, peeked'.want, like.want]
          · rw [peeked.want, Bool.and_eq_true_iff] at want
            exact want.1
        rw [← like.want] at ran'
        cases answers : s.wantPrefix && speaks chunk with
        | false =>
          rw [answers] at ran ran'
          exact ⟨event, s', t', Program.run_bind_ok ran, Program.run_bind_ok ran', peeked.sent,
            peeked'.sent, peeked.want, like'⟩
        | true =>
          rw [answers] at ran ran'
          rw [← named (Bool.and_eq_true_iff.mp answers).1] at ran'
          exact ⟨_, s', t', Program.run_bind_ok ran, Program.run_bind_ok ran', peeked.sent,
            peeked'.sent, peeked.want, like'⟩

theorem forwardLines_like (lines : List Bytes) (event : Bytes) {s t : Shim} (like : Like s t)
    {w : Bool} (passed : lines.foldlM (linePasses py) s.wantPrefix = some w) :
    ∃ out s' t', (lines.foldlM (forwardLine py) event).run s = .ok out s' ∧
      (lines.foldlM (forwardLine py) event).run t = .ok out t' ∧ s'.sent = s.sent ∧
      t'.sent = t.sent ∧ s'.wantPrefix = w ∧ Like s' t' := by
  induction lines generalizing event s t with
  | nil =>
    cases passed
    exact ⟨event, s, t, rfl, rfl, rfl, rfl, rfl, like⟩
  | cons line lines ih =>
    rw [List.foldlM_cons] at passed
    cases first : linePasses py s.wantPrefix line with
    | none =>
      rw [first] at passed
      cases passed
    | some mid =>
      rw [first] at passed
      obtain ⟨out, s', t', ran, ran', sent, sent', rfl, like'⟩ :=
        forwardLine_like event line like first
      obtain ⟨out', s'', t'', later, later', same, same', want, like''⟩ := ih out like' passed
      rw [List.foldlM_cons, Program.run_bind_ok ran, Program.run_bind_ok ran']
      exact ⟨out', s'', t'', later, later', same.trans sent, same'.trans sent', want, like''⟩

/-- Events that can be looked into are sent in the same way from both. -/
theorem forwardEvents_like (events : List Bytes) {s t : Shim} (like : Like s t) {w : Bool}
    (passed : events.foldlM (passes py) s.wantPrefix = some w) :
    ∃ (outs : List Bytes) (s' t' : Shim),
      (forM events (forwardEvent py)).run s = .ok PUnit.unit s' ∧
      (forM events (forwardEvent py)).run t = .ok PUnit.unit t' ∧
      s'.sent = s.sent ++ outs.map (· ++ separator) ∧
      t'.sent = t.sent ++ outs.map (· ++ separator) ∧
      outs.length = events.length ∧ s'.wantPrefix = w ∧ Like s' t' := by
  induction events generalizing s t with
  | nil =>
    cases passed
    exact ⟨[], s, t, rfl, rfl, by simp, by simp, rfl, rfl, like⟩
  | cons event events ih =>
    rw [List.foldlM_cons] at passed
    cases first : passes py s.wantPrefix event with
    | none =>
      rw [first] at passed
      cases passed
    | some mid =>
      rw [first] at passed
      obtain ⟨out, s', t', ran, ran', sent, sent', rfl, like'⟩ :=
        forwardLines_like (event.splitOn Frame.feed) event like first
      let after (u : Shim) : Shim := { u with sent := u.sent ++ [out ++ separator] }
      have here : (forwardEvent py event).run s = .ok () (after s') := Program.run_bind_ok ran
      have here' : (forwardEvent py event).run t = .ok () (after t') := Program.run_bind_ok ran'
      obtain ⟨outs, s'', t'', later, later', same, same', count, want, like''⟩ :=
        ih (s := after s') (t := after t') ⟨like'.want, like'.model⟩ passed
      rw [List.forM_cons, Program.run_bind_ok here, Program.run_bind_ok here']
      refine ⟨out :: outs, s'', t'', later, later', ?_, ?_, congrArg (· + 1) count, want, like''⟩
      · rw [same, ← sent]
        simp [after]
      · rw [same', ← sent']
        simp [after]

variable (py) in
theorem forwardLines_dataless {lines : List Bytes}
    (dataless : ∀ line ∈ lines, dataMark.isPrefixOf line = false) (event : Bytes) (want : Bool) :
    lines.foldlM (forwardLine py) event = (pure event : Shimming Bytes) ∧
      lines.foldlM (linePasses py) want = some want := by
  induction lines with
  | nil => exact ⟨rfl, rfl⟩
  | cons line lines ih =>
    rw [List.forall_mem_cons] at dataless
    obtain ⟨sent, passed⟩ := ih dataless.2
    rw [List.foldlM_cons, List.foldlM_cons, forwardLine_eq, linePasses,
      lineChunk_dataless dataless.1]
    exact ⟨sent, passed⟩

variable (py) in
/-- Only the data line of an event is looked at. -/
theorem forwardLines_carries {event payload : Bytes} (carries : Carries event payload)
    (want : Bool) :
    (event.splitOn Frame.feed).foldlM (forwardLine py) event =
      forwardLine py event (dataMark ++ payload) ∧
    passes py want event = linePasses py want (dataMark ++ payload) := by
  obtain ⟨front, back, lines, dataless⟩ := carries
  rw [List.forall_mem_append] at dataless
  have skips (w : Bool) := (forwardLines_dataless py dataless.2 event w).2
  have keeps (ev : Bytes) := (forwardLines_dataless py dataless.2 ev want).1
  obtain ⟨sent, passed⟩ := forwardLines_dataless py dataless.1 event want
  rw [passes, lines, List.foldlM_append, List.foldlM_append, sent, passed, pure_bind,
    List.foldlM_cons]
  constructor
  · simp only [keeps]
    exact bind_pure _
  · rw [Option.bind_eq_bind, Option.bind_some, List.foldlM_cons]
    simp only [skips]
    exact bind_pure _

theorem readable_of_peekable {chunk : Json} (fit : peekable true chunk = true) :
    readable chunk = true := by
  cases chunk with
  | obj fields => exact (Bool.and_eq_true_iff.mp fit).2
  | _ => cases fit

/-- What is malformed and yet looked into without an exception changes nothing that matters. -/
theorem forwardLine_malformed (event : Bytes) {payload : Bytes} (malformed : Malformed py payload)
    (more : Bytes.strip payload ≠ doneMark) {s : Shim} {w : Bool}
    (passed : linePasses py s.wantPrefix (dataMark ++ payload) = some w) :
    ∃ s', (forwardLine py event (dataMark ++ payload)).run s = .ok event s' ∧ s'.sent = s.sent ∧
      s'.wantPrefix = w ∧ Like s s' := by
  have returns := (forwardLine_run py event (dataMark ++ payload) s).1 w passed
  unfold linePasses at passed
  rw [forwardLine_eq] at returns ⊢
  rw [lineChunk_data more] at passed returns ⊢
  have judged := payloadReads_malformed malformed
  unfold payloadReads unjson at judged
  cases loaded : loadPayload py payload with
  | error e =>
    rw [loaded] at passed
    cases passed
  | ok found =>
    rw [loaded] at passed returns judged
    cases found with
    | none =>
      cases passed
      exact ⟨s, rfl, rfl, rfl, .refl s⟩
    | some chunk =>
      have unwanted : s.wantPrefix = false := by
        cases want : s.wantPrefix with
        | false => rfl
        | true =>
          dsimp only at passed judged
          rw [want] at passed
          cases fit : peekable true chunk with
          | false =>
            rw [fit] at passed
            cases passed
          | true =>
            rw [readable_of_peekable fit] at judged
            cases judged
      obtain ⟨out, s', ran, sent, want, sent_for⟩ := returns
      have same : w = s.wantPrefix := by
        have less := sent_for.less
        rw [unwanted] at less ⊢
        cases w with
        | false => rfl
        | true => exact (less rfl).symm
      rw [sent_for.same same] at ran
      refine ⟨s', ran, sent, want, (want.trans same).symm, fun wanted => ?_⟩
      rw [unwanted] at wanted
      cases wanted

theorem forwardEvent_malformed {event payload : Bytes} (carries : Carries event payload)
    (malformed : Malformed py payload) (more : Bytes.strip payload ≠ doneMark) {s : Shim} {w : Bool}
    (passed : passes py s.wantPrefix event = some w) :
    ∃ s', (forwardEvent py event).run s = .ok () s' ∧ s'.sent = s.sent ++ [event ++ separator] ∧
      s'.wantPrefix = w ∧ Like s s' := by
  obtain ⟨lines, passes_line⟩ := forwardLines_carries py carries s.wantPrefix
  rw [passes_line] at passed
  obtain ⟨s', ran, sent, want, like⟩ := forwardLine_malformed event malformed more passed
  refine ⟨{ s' with sent := s'.sent ++ [event ++ separator] }, ?_, ?_, want,
    ⟨like.want, like.model⟩⟩
  · rw [forwardEvent, lines]
    exact Program.run_bind_ok ran
  · rw [sent]

/-- The events after a malformed one that was sent as it is are sent as without it. -/
structure Inserted (before : List Bytes) (extra : Bytes) (base withExtra : List Bytes) : Prop where
  split : ∃ front back, base = front ++ back ∧ front.length = before.length ∧
    withExtra = front ++ (extra ++ separator) :: back

/-- All other events are sent, and no error, in exactly these cases. -/
theorem forwards_iff {before after : List Bytes} {extra payload : Bytes}
    (alone : ∀ event ∈ before ++ extra :: after, Framing.Standalone Frame.feed [Frame.feed] event)
    (carries : Carries extra payload) (more : Bytes.strip payload ≠ doneMark)
    (malformed : Malformed py payload) (describe : Stop → Text) {s : Shim} (fresh : s.sent = [])
    {chunks base : List Bytes}
    (whole : chunks.flatten = joined (before ++ extra :: after))
    (without : base.flatten = joined (before ++ after)) :
    (Program.outcome ((forward py chunks none).run s) = .ok () ∧
        Inserted before extra (sse py describe ((forward py base none).run s))
          (sse py describe ((forward py chunks none).run s))) ↔
      ((before ++ extra :: after).foldlM (passes py) s.wantPrefix).isSome = true := by
  rw [forward_events py alone whole, forward_events py (alone_without alone) without]
  constructor
  · rintro ⟨returns, -⟩
    rcases forwardEvents_run py (before ++ extra :: after) s with
      ⟨outs, s', ran, -, all⟩ | ⟨front, outs, e, s', ran, -, -⟩
    · rw [all.passed]
      rfl
    · rw [ran] at returns
      cases returns
  · intro passed
    obtain ⟨w, passed⟩ := Option.isSome_iff_exists.mp passed
    rw [List.foldlM_append, Option.bind_eq_bind, Option.bind_eq_some_iff] at passed
    obtain ⟨mid, front_passed, passed⟩ := passed
    rw [List.foldlM_cons, Option.bind_eq_bind, Option.bind_eq_some_iff] at passed
    obtain ⟨mid', extra_passed, back_passed⟩ := passed
    obtain ⟨front, t, -, front_ran, -, front_sent, -, count, rfl, -⟩ :=
      forwardEvents_like before (.refl s) front_passed
    obtain ⟨u, extra_ran, extra_sent, rfl, like⟩ :=
      forwardEvent_malformed carries malformed more extra_passed
    rw [← like.want] at back_passed
    obtain ⟨back, v, v', back_ran, back_ran', back_sent, back_sent', -⟩ :=
      forwardEvents_like after like back_passed
    have base_ran : (forM (before ++ after) (forwardEvent py)).run s = .ok PUnit.unit v := by
      rw [List.forM_append, Program.run_bind_ok front_ran, back_ran]
    have extra_runs : (forM (before ++ extra :: after) (forwardEvent py)).run s =
        .ok PUnit.unit v' := by
      rw [List.forM_append, Program.run_bind_ok front_ran, List.forM_cons,
        Program.run_bind_ok extra_ran, back_ran']
    rw [base_ran, extra_runs]
    refine ⟨rfl, front.map (· ++ separator), back.map (· ++ separator), ?_, ?_, ?_⟩
    · rw [sse, back_sent, front_sent, fresh, List.nil_append]
    · rw [List.length_map, count]
    · rw [sse, back_sent', extra_sent, front_sent, fresh, List.nil_append, List.append_assoc]
      rfl

theorem strip_of_not_isDone {event payload : Bytes} (carries : Carries event payload)
    (more : isDone event = false) : Bytes.strip payload ≠ doneMark := by
  obtain ⟨front, back, lines, -⟩ := carries
  rw [isDone, List.any_eq_false, lines] at more
  have line := more _ (List.mem_append_right front List.mem_cons_self)
  have data : dataMark.isPrefixOf (dataMark ++ payload) = true :=
    List.isPrefixOf_iff_prefix.mpr (List.prefix_append _ _)
  rw [saysDone, data, Bool.true_and, beq_iff_eq] at line
  exact line

/-- An event that is no chunk, put before `[DONE]`: `_iter_sse_deltas` yields the same deltas if it
is text but no JSON and the other events are readable, and the shim sends the other events as
before and no error if it can look into them all; in no other case. Each reader's payload is what
it reads: `line[6:].strip()` and `line[6:]`. -/
theorem malformed_event_iff (py : Interpreter) {before after : List Bytes} {extra payload : Bytes}
    (alone : ∀ event ∈ before ++ extra :: after, Framing.Standalone Frame.feed [Frame.feed] event)
    (carries : Carries extra payload) (early : ∀ event ∈ before ++ [extra], isDone event = false)
    {chunks base : List Bytes} (whole : chunks.flatten = joined (before ++ extra :: after))
    (without : base.flatten = joined (before ++ after)) :
    (Malformed py (Bytes.strip payload) →
      (Yields ((Chat.iterSseDeltas py chunks none).run [])
          (deltas (Program.state ((Chat.iterSseDeltas py base none).run []))) ↔
        unjson py (Bytes.strip payload) = true ∧ reads py (linesOf (before ++ after)) = true)) ∧
    (Malformed py payload → ∀ (describe : Stop → Text) (settings : Settings) (model : Text),
      (Program.outcome ((forward py chunks none).run (start settings model)) = .ok () ∧
          Inserted before extra
            (sse py describe ((forward py base none).run (start settings model)))
            (sse py describe ((forward py chunks none).run (start settings model))) ↔
        ((before ++ extra :: after).foldlM (passes py) (wantsPrefix settings model)).isSome =
          true)) := by
  have more : Bytes.strip payload ≠ doneMark :=
    strip_of_not_isDone carries (early extra (List.mem_append_right _ List.mem_cons_self))
  exact ⟨fun malformed => yields_iff alone carries early malformed whole without,
    fun malformed describe settings model =>
      forwards_iff alone carries more malformed describe rfl whole without⟩

section Brace

def brace : Bytes := ↑"data: \x7b"

/-- A brace that is not closed, before the end of the stream. -/
theorem brace_is_skipped :
    Yields ((Chat.iterSseDeltas Chat.plainPython [brace, ↑"\n\ndata: [DONE]\n\n"] none).run [])
        (deltas (Program.state ((Chat.iterSseDeltas Chat.plainPython [doneEvent] none).run []))) ∧
    Program.outcome ((forward Chat.plainPython [brace, ↑"\n\ndata: [DONE]\n\n"] none).run
      (start {} ↑"octo/auto")) = .ok () := by
  have alone : ∀ event ∈ ([] ++ brace :: [doneLine] : List Bytes),
      Framing.Standalone Frame.feed [Frame.feed] event := by
    simpa using ⟨standalone_of_line (by decide), standalone_of_line (by decide)⟩
  have malformed : Malformed Chat.plainPython ↑"\x7b" := .unreadable rfl rfl
  have carries : Carries brace ↑"\x7b" := ⟨[], [], by decide, by decide⟩
  have whole : [brace, ↑"\n\ndata: [DONE]\n\n"].flatten = joined ([] ++ brace :: [doneLine]) := by
    decide
  have without : [doneEvent].flatten = joined ([] ++ [doneLine]) := by decide
  obtain ⟨yields, forwards⟩ :=
    malformed_event_iff Chat.plainPython alone carries (by decide) whole without
  have skipped : unjson Chat.plainPython (Bytes.strip ↑"\x7b") = true := by decide +kernel
  have read : reads Chat.plainPython (linesOf ([] ++ [doneLine])) = true := by decide +kernel
  have passed : (([] ++ brace :: [doneLine]).foldlM (passes Chat.plainPython)
      (wantsPrefix {} ↑"octo/auto")).isSome = true := by decide +kernel
  exact ⟨(yields malformed).mpr ⟨skipped, read⟩,
    ((forwards malformed (fun _ => ↑"failed") {} ↑"octo/auto").mpr passed).1⟩

/-- JSON's `null` raises in both. -/
theorem null_is_fatal :
    Malformed Chat.plainPython ↑"null" ∧
    ¬ Yields ((Chat.iterSseDeltas Chat.plainPython [↑"data: null\n\n", doneEvent] none).run []) [] ∧
    sse Chat.plainPython (fun _ => ↑"failed")
        ((forward Chat.plainPython [↑"data: null\n\n", doneEvent] none).run
          (start {} ↑"a/b:free")) =
      [errorEvent Chat.plainPython ↑"failed", doneEvent] := by
  have alone : ∀ event ∈ [(↑"data: null" : Bytes), doneLine],
      Framing.Standalone Frame.feed [Frame.feed] event := by
    simpa using ⟨standalone_of_line (by decide), standalone_of_line (by decide)⟩
  have whole : [(↑"data: null\n\n" : Bytes), doneEvent].flatten =
      joined [(↑"data: null" : Bytes), doneLine] := by decide
  have unread : reads Chat.plainPython (linesOf [↑"data: null", doneLine]) = false := by
    decide +kernel
  refine ⟨.other rfl rfl rfl, (run_iterSseDeltas _ alone whole).2 unread [], ?_⟩
  rw [forward_events _ alone whole]
  decide +kernel

end Brace

end AgenticOctopus.Api.OpenAICompat
