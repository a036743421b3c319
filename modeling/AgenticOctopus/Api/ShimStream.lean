import AgenticOctopus.Foundation.JsonNesting
import AgenticOctopus.Api.OpenAICompat
import AgenticOctopus.Chat.Sse
import AgenticOctopus.Chat.ToolProtocol

/-!
# The shim's stream

`sse()` of `chat_completions` passes the events of the upstream on, one by one, and looks into
each of their payloads for the usage, the model and the first text, before which it puts the
name of the model. An exception ends the stream with an error event and `[DONE]`.
-/
namespace AgenticOctopus.Api.OpenAICompat
open Foundation Providers
open Chat (Stop PyDict pairOf dictOf getOr deltaContent)

/-! ## What a line carries -/

def dataMark : Bytes := ↑"data: "

def doneMark : Bytes := ↑"[DONE]"

/-- `line[6:]` of a line that is to be looked into. -/
def payload? (line : Bytes) : Option Bytes :=
  if dataMark.isPrefixOf line && Bytes.strip (line.drop 6) != doneMark then some (line.drop 6)
  else none

/-- `json.loads(payload)`, `none` where the exception is caught. -/
def loadPayload (py : Interpreter) (payload : Bytes) : Except Stop (Option Json) :=
  match Bytes.decodeJson payload with
  | none => .error .undecodable
  | some text =>
    match Json.loads py text with
    | .ok chunk => .ok (some chunk)
    | .error .decode => .ok none
    | .error e => .error (.raised (loadRaised e))

def lineChunk (py : Interpreter) (line : Bytes) : Except Stop (Option Json) :=
  match payload? line with
  | some payload => loadPayload py payload
  | none => .ok none

/-- `(chunk.get("choices") or [{}])[0].get("delta", {})` -/
def deltaOf (chunk : Json) : Except Raised Json := do
  let choices ← getField chunk ↑"choices"
  let choice ← firstItem (if choices.truthy then choices else .arr [.obj []])
  getOr choice ↑"delta" (.obj [])

/-! ## The stream -/

/-- The local variables of `sse()`, and what it has yielded. -/
structure Shim where
  sent : List Bytes := []
  usage : PyDict := []
  actualModel : Json
  wantPrefix : Bool

abbrev Shimming (α : Type) := Program Stop Shim α

def orRaise {α : Type} (x : Except Raised α) : Shimming α := Program.raises (x.mapError .raised)

def updateItems (index : Nat) : List Json → Shimming Unit
  | [] => return
  | v :: vs => do
    let (k, w) ← orRaise (pairOf index v)
    modify fun s => { s with usage := s.usage.set k w }
    updateItems (index + 1) vs

/-- `usage.update(value)`; the pairs before a bad one stay. -/
def updateUsage : Json → Shimming Unit
  | .obj fields => modify fun s =>
      { s with usage := fields.foldl (fun d p => PyDict.set d (.str p.1) p.2) s.usage }
  | .arr items => updateItems 0 items
  | .str t => updateItems 0 (t.map fun c => .str [c])
  | _ => throw (.raised .typeError)

/-- `delta["content"] = content`, seen from the chunk that holds the delta. -/
def withContent (chunk : Json) (content : Text) : Json :=
  match chunk with
  | .obj fields =>
    match Dict.get? fields ↑"choices" with
    | some (.arr (.obj choice :: choices)) =>
      match Dict.get? choice ↑"delta" with
      | some (.obj delta) =>
        .obj (Dict.set fields ↑"choices" (.arr (.obj (Dict.set choice ↑"delta"
          (.obj (Dict.set delta ↑"content" (.str content)))) :: choices)))
      | _ => chunk
    | _ => chunk
  | _ => chunk

variable (py : Interpreter)

def leadIn (model : Json) : Text := ↑"`[" ++ model.toStr py ++ ↑"]`\n\n"

def noteUsage (usage : Json) : Shimming Unit := if usage.truthy then updateUsage usage else return

def noteModel (model : Json) : Shimming Unit :=
  if model.truthy then modify fun s => { s with actualModel := model } else return

/-- The first text gets the lead-in; the result is the chunk with it. -/
def introduce (chunk delta : Json) : Shimming (Option Json) := do
  let s ← get
  if s.wantPrefix then
    let content ← orRaise (getField delta ↑"content")
    if content.truthy then
      set { s with wantPrefix := false }
      return some (withContent chunk (leadIn py s.actualModel ++ content.toStr py))
    else return none
  else return none

/-- Look into a chunk; the result is the chunk that is to be sent instead, if any. -/
def peek (chunk : Json) : Shimming (Option Json) := do
  let usage ← orRaise (getField chunk ↑"usage")
  noteUsage usage
  let model ← orRaise (getField chunk ↑"model")
  noteModel model
  let delta ← orRaise (deltaOf chunk)
  introduce py chunk delta

/-- `b"data: " + json.dumps(chunk).encode()` -/
def rewritten (chunk : Json) : Bytes := Bytes.ofText ((Frame.data chunk).line py)

/-- One line of an event; the result is what the event has become. -/
def forwardLine (event line : Bytes) : Shimming Bytes :=
  match lineChunk py line with
  | .error e => throw e
  | .ok none => return event
  | .ok (some chunk) => do
    match ← peek py chunk with
    | some chunk =>
      let _ ← orRaise (dumps py chunk)
      return rewritten py chunk
    | none => return event

def separator : Bytes := [Frame.feed, Frame.feed]

def forwardEvent (event : Bytes) : Shimming Unit := do
  let event ← (event.splitOn Frame.feed).foldlM (forwardLine py) event
  modify fun s => { s with sent := s.sent ++ [event ++ separator] }

/-- The chunks that arrive, and the exception that the upstream raises after them, if any. -/
def forward (chunks : List Bytes) (failure : Option Raised) : Shimming Unit := do
  let _ ← Framing.readChunks (forwardEvent py) Frame.feed [Frame.feed] [] chunks
  match failure with
  | some e => throw (.raised e)
  | none => return

def wantsPrefix (settings : Settings) (model : Text) : Bool :=
  decide (model = OpenRouter.autoModel) && settings.chatShowRoutedModel

def start (settings : Settings) (model : Text) : Shim where
  actualModel := .str model
  wantPrefix := wantsPrefix settings model

def streamError (message : Text) : Json := .obj [(↑"error", .obj [(↑"message", .str message)])]

/-- `f"data: {json.dumps(…)}\n\n".encode()` -/
def errorEvent (message : Text) : Bytes := rewritten py (streamError message) ++ separator

def doneEvent : Bytes := dataMark ++ doneMark ++ separator

/-- All that `sse()` yields to a client that reads to the end; `describe` is `str` of an
exception. -/
def sse (describe : Stop → Text) : EStateM.Result Stop Shim Unit → List Bytes
  | .ok _ s => s.sent
  | .error e s => s.sent ++ [errorEvent py (describe e), doneEvent]

/-! ## Chunks that the stream takes -/

def fieldOf (fields : Dict Text Json) (key : Text) : Json := (Dict.get? fields key).getD .null

/-- There is nothing to update with, or `dict(…)` takes it. -/
def usageFits (usage : Json) : Bool :=
  !usage.truthy ||
    match dictOf usage with
    | .ok _ => true
    | .error _ => false

def isObject : Json → Bool
  | .obj _ => true
  | _ => false

/-- There are no choices, or the first is an object; its delta is one too where it is looked at. -/
def choicesFit (want : Bool) (choices : Json) : Bool :=
  !choices.truthy ||
    match choices with
    | .arr (.obj choice :: _) => !want || isObject ((Dict.get? choice ↑"delta").getD (.obj []))
    | _ => false

/-- Looking into the chunk raises nothing. -/
def peekable (want : Bool) : Json → Bool
  | .obj fields => usageFits (fieldOf fields ↑"usage") &&
      choicesFit want (fieldOf fields ↑"choices")
  | _ => false

/-- The content of a chunk, `null` where there is none. -/
def contentOf (chunk : Json) : Json :=
  match deltaContent chunk with
  | .ok content => content
  | .error _ => .null

/-- The chunk holds a text before which a lead-in can stand. -/
def speaks (chunk : Json) : Bool := (contentOf chunk).truthy

def namedModel (model : Json) : Json → Json
  | .obj fields => if (fieldOf fields ↑"model").truthy then fieldOf fields ↑"model" else model
  | _ => model

/-- The usage after an update with an object. -/
def mergedUsage (usage : PyDict) (fields : Dict Text Json) : PyDict :=
  fields.foldl (fun d p => PyDict.set d (.str p.1) p.2) usage

/-! ### Looking into a chunk -/

theorem updateItems_run (items : List Json) (index : Nat) (d : PyDict) (s : Shim) :
    match Chat.dictOfItems index d items with
    | .ok _ => ∃ u, (updateItems index items).run s = .ok () { s with usage := u }
    | .error e => ∃ u,
        (updateItems index items).run s = .error (.raised e) { s with usage := u } := by
  induction items generalizing index d s with
  | nil => exact ⟨s.usage, rfl⟩
  | cons v vs ih =>
    rw [Chat.dictOfItems, updateItems]
    cases pair : pairOf index v with
    | error e => exact ⟨s.usage, rfl⟩
    | ok p =>
      exact ih (index + 1) (d.set p.1 p.2) { s with usage := s.usage.set p.1 p.2 }

theorem updateUsage_run (usage : Json) (s : Shim) :
    match dictOf usage with
    | .ok _ => ∃ u, (updateUsage usage).run s = .ok () { s with usage := u }
    | .error e => ∃ u, (updateUsage usage).run s = .error (.raised e) { s with usage := u } := by
  cases usage with
  | arr items => exact updateItems_run items 0 [] s
  | str t => exact updateItems_run _ 0 [] s
  | obj fields => exact ⟨_, rfl⟩
  | _ => exact ⟨s.usage, rfl⟩

theorem noteUsage_run (usage : Json) (s : Shim) :
    (usageFits usage = true → ∃ u, (noteUsage usage).run s = .ok () { s with usage := u } ∧
      (∀ fields, usage = .obj fields → u = mergedUsage s.usage fields) ∧
      (usage.truthy = false → u = s.usage)) ∧
    (usageFits usage = false →
      ∃ e u, (noteUsage usage).run s = .error e { s with usage := u }) := by
  unfold usageFits noteUsage
  cases truthy : usage.truthy with
  | false =>
    refine ⟨fun _ => ⟨s.usage, rfl, ?_, fun _ => rfl⟩, fun none => absurd none (by simp)⟩
    rintro fields rfl
    cases fields with
    | nil => rfl
    | cons p fields => cases truthy
  | true =>
    have updated := updateUsage_run usage s
    cases read : dictOf usage with
    | error e =>
      rw [read] at updated
      exact ⟨fun none => absurd none (by simp), fun _ => ⟨_, updated⟩⟩
    | ok d =>
      rw [read] at updated
      obtain ⟨u, ran⟩ := updated
      refine ⟨fun _ => ⟨u, ran, ?_, fun none => absurd none (by simp)⟩,
        fun none => absurd none (by simp)⟩
      rintro fields rfl
      have merges : (noteUsage (.obj fields)).run s = .ok () { s with usage := u } := by
        rw [noteUsage, if_pos truthy]
        exact ran
      rw [noteUsage, if_pos truthy] at merges
      cases merges
      rfl

theorem noteModel_run (fields : Dict Text Json) (s : Shim) :
    (noteModel (fieldOf fields ↑"model")).run s =
      .ok () { s with actualModel := namedModel s.actualModel (.obj fields) } := by
  unfold noteModel namedModel
  dsimp only
  split_ifs <;> rfl

theorem deltaOf_object (fields : Dict Text Json) (want : Bool) :
    (choicesFit want (fieldOf fields ↑"choices") = true →
      ∃ delta, deltaOf (.obj fields) = .ok delta ∧ (want = true → isObject delta = true)) ∧
    (choicesFit want (fieldOf fields ↑"choices") = false →
      (∃ e, deltaOf (.obj fields) = .error e) ∨
        ∃ delta, deltaOf (.obj fields) = .ok delta ∧ want = true ∧ isObject delta = false) := by
  have reads : deltaOf (.obj fields) = (firstItem (if (fieldOf fields ↑"choices").truthy then
      fieldOf fields ↑"choices" else .arr [.obj []]) >>= fun choice =>
        getOr choice ↑"delta" (.obj [])) := rfl
  rw [reads]
  generalize fieldOf fields ↑"choices" = choices
  unfold choicesFit
  cases truthy : choices.truthy with
  | false => exact ⟨fun _ => ⟨.obj [], rfl, fun _ => rfl⟩, fun none => absurd none (by simp)⟩
  | true =>
    simp only [if_true, Bool.not_true, Bool.false_or]
    cases choices with
    | arr items =>
      cases items with
      | nil => cases truthy
      | cons choice more =>
        cases choice with
        | obj choice =>
          simp only [firstItem, getOr, pure, Except.pure, bind, Except.bind]
          generalize (Dict.get? choice ↑"delta").getD (.obj []) = delta
          cases want <;> cases object : isObject delta <;> simp [object]
        | _ => exact ⟨fun none => absurd none (by simp), fun _ => .inl ⟨_, rfl⟩⟩
    | str t =>
      refine ⟨fun none => absurd none (by simp), fun _ => .inl ?_⟩
      cases t with
      | nil => cases truthy
      | cons c t => exact ⟨_, rfl⟩
    | _ => exact ⟨fun none => absurd none (by simp), fun _ => .inl ⟨_, rfl⟩⟩

/-- What a look into a chunk leaves of the variables. -/
structure Peeked (s : Shim) (chunk : Json) (s' : Shim) : Prop where
  sent : s'.sent = s.sent
  model : s'.actualModel = namedModel s.actualModel chunk
  want : s'.wantPrefix = (s.wantPrefix && !speaks chunk)
  merged : ∀ fields usage, chunk = .obj fields → fieldOf fields ↑"usage" = .obj usage →
    s'.usage = mergedUsage s.usage usage
  unmerged : ∀ fields, chunk = .obj fields → (fieldOf fields ↑"usage").truthy = false →
    s'.usage = s.usage

theorem deltaContent_eq (chunk : Json) :
    deltaContent chunk = deltaOf chunk >>= fun delta => getField delta ↑"content" := by
  simp only [deltaContent, deltaOf, bind_assoc]

theorem introduce_run {chunk delta : Json} (found : deltaOf chunk = .ok delta) (s : Shim)
    (object : s.wantPrefix = true → isObject delta = true) :
    (introduce py chunk delta).run s =
      .ok (if s.wantPrefix && speaks chunk then
          some (withContent chunk (leadIn py s.actualModel ++ (contentOf chunk).toStr py))
          else none)
        { s with wantPrefix := s.wantPrefix && !speaks chunk } := by
  unfold introduce speaks contentOf
  rw [deltaContent_eq, found]
  obtain ⟨sent, usage, model, want⟩ := s
  cases want with
  | false => rfl
  | true =>
    cases delta with
    | obj fields =>
      let content : Json := (Dict.get? fields ↑"content").getD .null
      let answer : Json := withContent chunk (leadIn py model ++ content.toStr py)
      change ((if content.truthy then do
          set (⟨sent, usage, model, false⟩ : Shim)
          return some answer
        else return none : Shimming (Option Json))).run ⟨sent, usage, model, true⟩ =
        .ok (if true && content.truthy then some answer else none)
          ⟨sent, usage, model, true && !content.truthy⟩
      cases content.truthy <;> rfl
    | _ => cases object rfl

theorem introduce_raises (chunk : Json) {delta : Json} {s : Shim} (want : s.wantPrefix = true)
    (other : isObject delta = false) :
    (introduce py chunk delta).run s = .error (.raised .attributeError) s := by
  obtain ⟨sent, usage, model, _⟩ := s
  obtain rfl := want
  cases delta with
  | obj fields => cases other
  | _ => rfl

theorem peek_object (fields : Dict Text Json) :
    peek py (.obj fields) = (do
      noteUsage (fieldOf fields ↑"usage")
      noteModel (fieldOf fields ↑"model")
      let delta ← orRaise (deltaOf (.obj fields))
      introduce py (.obj fields) delta) := rfl

theorem peek_run (chunk : Json) (s : Shim) :
    (peekable s.wantPrefix chunk = true → ∃ s',
      (peek py chunk).run s =
        .ok (if s.wantPrefix && speaks chunk then
            some (withContent chunk (leadIn py s'.actualModel ++ (contentOf chunk).toStr py))
          else none) s' ∧ Peeked s chunk s') ∧
    (peekable s.wantPrefix chunk = false →
      ∃ e s', (peek py chunk).run s = .error e s' ∧ s'.sent = s.sent) := by
  cases chunk with
  | obj fields =>
    rw [peek_object, peekable]
    obtain ⟨fits, misfits⟩ := noteUsage_run (fieldOf fields ↑"usage") s
    cases usage : usageFits (fieldOf fields ↑"usage") with
    | false =>
      obtain ⟨e, u, ran⟩ := misfits usage
      exact ⟨fun none => absurd none (by simp), fun _ => ⟨e, _, Program.run_bind_error ran, rfl⟩⟩
    | true =>
      obtain ⟨u, ran, merged, unmerged⟩ := fits usage
      let t : Shim :=
        { s with usage := u, actualModel := namedModel s.actualModel (.obj fields) }
      have named : (noteModel (fieldOf fields ↑"model")).run { s with usage := u } = .ok () t :=
        noteModel_run fields { s with usage := u }
      obtain ⟨object, no_object⟩ := deltaOf_object fields s.wantPrefix
      rw [Program.run_bind_ok ran, Program.run_bind_ok named, Bool.true_and]
      cases choices : choicesFit s.wantPrefix (fieldOf fields ↑"choices") with
      | true =>
        obtain ⟨delta, found, is_object⟩ := object choices
        rw [found]
        refine ⟨fun _ => ⟨{ t with wantPrefix := s.wantPrefix && !speaks (.obj fields) },
          introduce_run py found t is_object, rfl, rfl, rfl, ?_, ?_⟩,
          fun none => absurd none (by simp)⟩
        · rintro fields' usage' ⟨⟩ there
          exact merged usage' there
        · rintro fields' ⟨⟩ none
          exact unmerged none
      | false =>
        refine ⟨fun none => absurd none (by simp), fun _ => ?_⟩
        rcases no_object choices with ⟨e, raised⟩ | ⟨delta, found, want, other⟩
        · rw [raised]
          exact ⟨.raised e, t, rfl, rfl⟩
        · rw [found]
          exact ⟨_, t, introduce_raises py (.obj fields) want other, rfl⟩
  | _ => exact ⟨fun none => absurd none (by simp [peekable]), fun _ => ⟨_, s, rfl, rfl⟩⟩

/-- A chunk with a lead-in is an object. -/
theorem exists_withContent {want : Bool} {chunk : Json} (fit : peekable want chunk = true)
    (content : Text) : ∃ fields, withContent chunk content = .obj fields := by
  cases chunk with
  | obj fields =>
    unfold withContent
    dsimp only
    split
    · split <;> exact ⟨_, rfl⟩
    · exact ⟨_, rfl⟩
  | _ => cases fit

theorem loaded_of_loadPayload {payload : Bytes} {v : Json}
    (h : loadPayload py payload = .ok (some v)) : Json.Loaded py.nesting v := by
  unfold loadPayload at h
  split at h
  next => cases h
  next text decodes =>
    split at h <;> cases h
    next loads => exact Json.loaded_of_loads (Bytes.inRange_decodeJson decodes) loads

theorem loaded_of_lineChunk {line : Bytes} {v : Json} (h : lineChunk py line = .ok (some v)) :
    Json.Loaded py.nesting v := by
  unfold lineChunk at h
  split at h
  · exact loaded_of_loadPayload py h
  · cases h

/-- A text goes in the place of a member, so the chunk is nested no deeper with it. -/
theorem nests_withContent {chunk : Json} {depth : Nat} (nests : chunk.nests depth = true)
    (content : Text) : (withContent chunk content).nests depth = true := by
  unfold withContent
  split
  case h_2 => exact nests
  next fields =>
  obtain ⟨d, rfl, inner⟩ := Json.nests_obj_iff.mp nests
  split
  case h_2 => exact nests
  next choice choices found =>
  have within := Json.nests_of_get? inner found
  split
  case h_2 => exact nests
  next delta found =>
  obtain ⟨d, rfl, items⟩ := Json.nests_arr_iff.mp within
  rw [Json.nestsItems, Bool.and_eq_true] at items
  obtain ⟨d, rfl, members⟩ := Json.nests_obj_iff.mp items.1
  obtain ⟨d, rfl, texts⟩ := Json.nests_obj_iff.mp (Json.nests_of_get? members found)
  have replaced := Json.nestsFields_set (v := .str content) texts rfl ↑"content"
  have named := Json.nestsFields_set members (Json.nests_obj_iff.mpr ⟨d, rfl, replaced⟩) ↑"delta"
  refine Json.nests_obj_iff.mpr ⟨_, rfl, Json.nestsFields_set inner ?_ _⟩
  refine Json.nests_arr_iff.mpr ⟨_, rfl, ?_⟩
  rw [Json.nestsItems, items.2, Bool.and_true]
  exact Json.nests_obj_iff.mpr ⟨_, rfl, named⟩

/-- `json.dumps` takes what `json.loads` returned, also with the lead-in in it. -/
theorem forwardLine_eq (event line : Bytes) :
    forwardLine py event line =
      match lineChunk py line with
      | .error e => throw e
      | .ok none => return event
      | .ok (some chunk) => do return (← peek py chunk).elim event (rewritten py) := by
  unfold forwardLine
  cases found : lineChunk py line with
  | error e => rfl
  | ok looked =>
    cases looked with
    | none => rfl
    | some chunk =>
      funext s
      obtain ⟨looks, raises⟩ := peek_run py chunk s
      cases fit : peekable s.wantPrefix chunk with
      | false =>
        obtain ⟨e, s', ran, -⟩ := raises fit
        exact (Program.run_bind_error ran).trans (Program.run_bind_error ran).symm
      | true =>
        obtain ⟨s', ran, -⟩ := looks fit
        refine (Program.run_bind_ok ran).trans (Eq.trans ?_ (Program.run_bind_ok ran).symm)
        cases s.wantPrefix && speaks chunk with
        | false => rfl
        | true =>
          have nests := Json.nests_of_loaded _ (loaded_of_lineChunk py found)
          simp only [if_true, dumps, nests_withContent nests]
          rfl

/-! ## Events that the stream takes -/

/-- Whether the lead-in is still wanted after the line, unless the line raises. -/
def linePasses (want : Bool) (line : Bytes) : Option Bool :=
  match lineChunk py line with
  | .error _ => none
  | .ok none => some want
  | .ok (some chunk) => if peekable want chunk then some (want && !speaks chunk) else none

def passes (want : Bool) (event : Bytes) : Option Bool :=
  (event.splitOn Frame.feed).foldlM (linePasses py) want

/-- What is sent for an event: the event, or a chunk in its place if it got the lead-in. -/
structure SentFor (want after : Bool) (event out : Bytes) : Prop where
  less : after = true → want = true
  same : after = want → out = event
  changed : after ≠ want → ∃ fields, out = rewritten py (.obj fields)

variable {py}

theorem lineChunk_dataless {line : Bytes} (dataless : dataMark.isPrefixOf line = false) :
    lineChunk py line = .ok none := by
  rw [lineChunk, payload?, dataless]
  rfl

theorem lineChunk_data {payload : Bytes} (more : Bytes.strip payload ≠ doneMark) :
    lineChunk py (dataMark ++ payload) = loadPayload py payload := by
  have data : dataMark.isPrefixOf (dataMark ++ payload) = true :=
    List.isPrefixOf_iff_prefix.mpr (List.prefix_append _ _)
  have rest : (dataMark ++ payload).drop 6 = payload := rfl
  rw [lineChunk, payload?, data, rest, Bool.true_and, bne_iff_ne.mpr more, if_pos rfl]

theorem SentFor.refl (want : Bool) (event : Bytes) : SentFor py want want event event :=
  ⟨fun h => h, fun _ => rfl, fun h => absurd rfl h⟩

theorem SentFor.trans {want mid after : Bool} {event between out : Bytes}
    (first : SentFor py want mid event between) (second : SentFor py mid after between out) :
    SentFor py want after event out where
  less h := first.less (second.less h)
  same h := by
    have kept : mid = want := by
      have less := first.less
      have later := second.less
      revert h less later
      cases want <;> cases mid <;> cases after <;> simp
    rw [second.same (h.trans kept.symm), first.same kept]
  changed h := by
    by_cases kept : after = mid
    · rw [second.same kept]
      exact first.changed (kept ▸ h)
    · exact second.changed kept

variable (py)

theorem forwardLine_run (event line : Bytes) (s : Shim) :
    (∀ w, linePasses py s.wantPrefix line = some w → ∃ out s',
      (forwardLine py event line).run s = .ok out s' ∧ s'.sent = s.sent ∧ s'.wantPrefix = w ∧
        SentFor py s.wantPrefix w event out) ∧
    (linePasses py s.wantPrefix line = none →
      ∃ e s', (forwardLine py event line).run s = .error e s' ∧ s'.sent = s.sent) := by
  rw [forwardLine_eq]
  unfold linePasses
  cases lineChunk py line with
  | error e => exact ⟨fun w none => (by cases none), fun _ => ⟨e, s, rfl, rfl⟩⟩
  | ok chunk =>
    cases chunk with
    | none =>
      refine ⟨?_, fun none => (by cases none)⟩
      rintro w ⟨⟩
      exact ⟨event, s, rfl, rfl, rfl, .refl _ _⟩
    | some chunk =>
      dsimp only
      obtain ⟨looks, raises⟩ := peek_run py chunk s
      cases fit : peekable s.wantPrefix chunk with
      | false =>
        refine ⟨fun w none => (by cases none), fun _ => ?_⟩
        obtain ⟨e, s', ran, sent⟩ := raises fit
        exact ⟨e, s', Program.run_bind_error ran, sent⟩
      | true =>
        refine ⟨?_, fun none => (by cases none)⟩
        rintro w ⟨⟩
        obtain ⟨s', ran, peeked⟩ := looks fit
        cases answers : s.wantPrefix && speaks chunk with
        | false =>
          rw [answers] at ran
          refine ⟨event, s', Program.run_bind_ok ran, peeked.sent, peeked.want, ?_⟩
          have kept : (s.wantPrefix && !speaks chunk) = s.wantPrefix := by
            cases want : s.wantPrefix <;> simp_all
          rw [kept]
          exact .refl _ _
        | true =>
          rw [answers] at ran
          refine ⟨_, s', Program.run_bind_ok ran, peeked.sent, peeked.want, ?_⟩
          obtain ⟨want, speaks⟩ := Bool.and_eq_true_iff.mp answers
          obtain ⟨fields, object⟩ := exists_withContent fit _
          rw [want, speaks, object]
          exact ⟨fun none => (by cases none), fun none => (by cases none), fun _ => ⟨_, rfl⟩⟩

theorem forwardLines_run (lines : List Bytes) (event : Bytes) (s : Shim) :
    (∀ w, lines.foldlM (linePasses py) s.wantPrefix = some w → ∃ out s',
      (lines.foldlM (forwardLine py) event).run s = .ok out s' ∧ s'.sent = s.sent ∧
        s'.wantPrefix = w ∧ SentFor py s.wantPrefix w event out) ∧
    (lines.foldlM (linePasses py) s.wantPrefix = none →
      ∃ e s', (lines.foldlM (forwardLine py) event).run s = .error e s' ∧ s'.sent = s.sent) := by
  induction lines generalizing event s with
  | nil =>
    refine ⟨?_, fun none => (by cases none)⟩
    rintro w ⟨⟩
    exact ⟨event, s, rfl, rfl, rfl, .refl _ _⟩
  | cons line lines ih =>
    simp only [List.foldlM_cons]
    obtain ⟨first, stops⟩ := forwardLine_run py event line s
    cases passed : linePasses py s.wantPrefix line with
    | none =>
      obtain ⟨e, s', ran, sent⟩ := stops passed
      exact ⟨fun w none => (by cases none), fun _ => ⟨e, s', Program.run_bind_error ran, sent⟩⟩
    | some w =>
      obtain ⟨out, s', ran, sent, rfl, sent_for⟩ := first w passed
      obtain ⟨rest, rest_stops⟩ := ih out s'
      rw [Program.run_bind_ok ran]
      refine ⟨fun w later => ?_, fun none => ?_⟩
      · obtain ⟨out', s'', ran', sent', want, sent_for'⟩ := rest w later
        exact ⟨out', s'', ran', sent'.trans sent, want, sent_for.trans sent_for'⟩
      · obtain ⟨e, s'', ran', sent'⟩ := rest_stops none
        exact ⟨e, s'', ran', sent'.trans sent⟩

theorem forwardEvent_run (event : Bytes) (s : Shim) :
    (∀ w, passes py s.wantPrefix event = some w → ∃ out s',
      (forwardEvent py event).run s = .ok () s' ∧ s'.sent = s.sent ++ [out ++ separator] ∧
        s'.wantPrefix = w ∧ SentFor py s.wantPrefix w event out) ∧
    (passes py s.wantPrefix event = none →
      ∃ e s', (forwardEvent py event).run s = .error e s' ∧ s'.sent = s.sent) := by
  obtain ⟨returns, raises⟩ := forwardLines_run py (event.splitOn Frame.feed) event s
  refine ⟨fun w passed => ?_, fun none => ?_⟩
  · obtain ⟨out, s', ran, sent, want, sent_for⟩ := returns w passed
    refine ⟨out, { s' with sent := s'.sent ++ [out ++ separator] }, Program.run_bind_ok ran, ?_,
      want, sent_for⟩
    rw [sent]
  · obtain ⟨e, s', ran, sent⟩ := raises none
    exact ⟨e, s', Program.run_bind_error ran, sent⟩

/-! ## The stream as a whole -/

/-- The events of a stream, and the bytes after the last blank line. -/
def eventsOf (stream : Bytes) : List Bytes := (Framing.blocks Frame.feed [Frame.feed] stream).1

def remainder (stream : Bytes) : Bytes := (Framing.blocks Frame.feed [Frame.feed] stream).2

def joined (events : List Bytes) : Bytes := events.flatMap fun event => event ++ separator

/-- The events that were taken, and what was sent for them. -/
inductive Forwards (py : Interpreter) : Bool → List Bytes → List Bytes → Bool → Prop
  | nil (want : Bool) : Forwards py want [] [] want
  | cons {want mid after : Bool} {event out : Bytes} {events outs : List Bytes}
    (passed : passes py want event = some mid) (first : SentFor py want mid event out)
    (rest : Forwards py mid events outs after) :
    Forwards py want (event :: events) (out :: outs) after

/-- The stream got stuck at the event. -/
structure Breaks (py : Interpreter) (want : Bool) (events : List Bytes) (front outs : List Bytes) :
    Prop where
  forwards : ∃ mid, Forwards py want front outs mid ∧
    ∃ event back, events = front ++ event :: back ∧ passes py mid event = none

theorem forwardEvents_run (events : List Bytes) (s : Shim) :
    (∃ outs s', (forM events (forwardEvent py)).run s = .ok PUnit.unit s' ∧
      s'.sent = s.sent ++ outs.map (· ++ separator) ∧
      Forwards py s.wantPrefix events outs s'.wantPrefix) ∨
    ∃ front outs e s', (forM events (forwardEvent py)).run s = .error e s' ∧
      s'.sent = s.sent ++ outs.map (· ++ separator) ∧ Breaks py s.wantPrefix events front outs := by
  induction events generalizing s with
  | nil => exact .inl ⟨[], s, rfl, (List.append_nil _).symm, .nil _⟩
  | cons event events ih =>
    rw [List.forM_cons]
    obtain ⟨returns, raises⟩ := forwardEvent_run py event s
    cases passed : passes py s.wantPrefix event with
    | none =>
      obtain ⟨e, s', ran, sent⟩ := raises passed
      exact .inr ⟨[], [], e, s', Program.run_bind_error ran, by rw [sent]; simp,
        ⟨_, .nil _, event, events, rfl, passed⟩⟩
    | some w =>
      obtain ⟨out, s', ran, sent, rfl, sent_for⟩ := returns w passed
      rw [Program.run_bind_ok ran]
      rcases ih s' with ⟨outs, s'', ran', sent', rest⟩ |
        ⟨front, outs, e, s'', ran', sent', mid, rest, event', back, whole, stuck⟩
      · refine .inl ⟨out :: outs, s'', ran', ?_, .cons passed sent_for rest⟩
        rw [sent', sent]
        simp
      · refine .inr ⟨event :: front, out :: outs, e, s'', ran', ?_, mid,
          .cons passed sent_for rest, event', back, ?_, stuck⟩
        · rw [sent', sent]
          simp
        · rw [whole]
          rfl

theorem forward_eq (chunks : List Bytes) (failure : Option Raised) :
    forward py chunks failure = (do
      forM (eventsOf chunks.flatten) (forwardEvent py)
      match failure with
      | some e => throw (.raised e)
      | none => return) := by
  unfold forward
  rw [Framing.readChunks_eq, Framing.drain_eq, bind_assoc]
  rfl

theorem forward_events {events : List Bytes}
    (alone : ∀ event ∈ events, Framing.Standalone Frame.feed [Frame.feed] event)
    {chunks : List Bytes} (whole : chunks.flatten = joined events) :
    forward py chunks none = forM events (forwardEvent py) := by
  have found : eventsOf chunks.flatten = events := by
    rw [eventsOf, whole]
    exact congrArg Prod.fst (Framing.blocks_flatMap alone)
  rw [forward_eq, found]
  exact bind_pure_unit

/-- The ways a stream can go: all its events are taken and then it ends or the upstream raises, or
looking into one of them raises. -/
inductive Course (py : Interpreter) (want : Bool) (events : List Bytes) (failure : Option Raised) :
    Except Stop Unit → List Bytes → Prop
  | ends {outs after} (none : failure = none) (all : Forwards py want events outs after) :
    Course py want events failure (.ok ()) outs
  | fails {e outs after} (some : failure = some e) (all : Forwards py want events outs after) :
    Course py want events failure (.error (.raised e)) outs
  | breaks {e front outs} (stuck : Breaks py want events front outs) :
    Course py want events failure (.error e) outs

theorem forward_course (chunks : List Bytes) (failure : Option Raised) {s : Shim}
    (fresh : s.sent = []) :
    ∃ outs, (Program.state ((forward py chunks failure).run s)).sent = outs.map (· ++ separator) ∧
      Course py s.wantPrefix (eventsOf chunks.flatten) failure
        (Program.outcome ((forward py chunks failure).run s)) outs := by
  rw [forward_eq]
  rcases forwardEvents_run py (eventsOf chunks.flatten) s with
    ⟨outs, s', ran, sent, all⟩ | ⟨front, outs, e, s', ran, sent, stuck⟩
  · rw [fresh, List.nil_append] at sent
    refine ⟨outs, ?_⟩
    rw [Program.run_bind_ok ran]
    cases failure with
    | none => exact ⟨sent, .ends rfl all⟩
    | some e => exact ⟨sent, .fails rfl all⟩
  · rw [fresh, List.nil_append] at sent
    rw [Program.run_bind_error ran]
    exact ⟨outs, sent, .breaks stuck⟩

/-- What comes after the events: nothing, or the error and `[DONE]`. -/
def closing (describe : Stop → Text) : Except Stop Unit → List Bytes
  | .ok _ => []
  | .error e => [errorEvent py (describe e), doneEvent]

theorem sse_eq (describe : Stop → Text) (r : EStateM.Result Stop Shim Unit) :
    sse py describe r = (Program.state r).sent ++ closing py describe (Program.outcome r) := by
  cases r with
  | ok _ s => exact (List.append_nil _).symm
  | error e s => rfl

end AgenticOctopus.Api.OpenAICompat
