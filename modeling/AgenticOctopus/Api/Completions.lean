import AgenticOctopus.Api.LeadIn
import AgenticOctopus.Api.TagsHeader
import AgenticOctopus.Chat.CallProtocol
import AgenticOctopus.Spine.Schema

/-!
# Completions

`chat_completions` from the body to the log. A plain answer is read whole, a streamed one event
by event; either makes one request, and its figures make a row of the log, which may be refused.
-/
namespace AgenticOctopus.Api.OpenAICompat
open Foundation Providers Program
open Chat (Stop PyDict getOr)
open Spine (Time)

structure LogRow where
  ts : Time
  row : Completion

/-- What was asked of providers, and the log; there may be no database. -/
structure Desk where
  requests : List Request
  pool : Option (List LogRow)

/-- What a call runs against. -/
structure Outside where
  settings : Settings
  upstream : Upstream
  /-- The chunks of a streamed answer, and the exception that it breaks off with. -/
  chunks : List Request → List Bytes × Option Raised
  /-- `str` of the exception that ends a stream. -/
  describe : Stop → Text
  now : Time
  durationMs : Int
  /-- The pool has a connection. -/
  connects : Bool
  columns : Columns

/-- What is returned, and of a stream what the client gets that reads to the end. -/
inductive Reply where
  | openaiError (status : Nat) (message errType : Text)
  | json (status : Int) (content : Json)
  /-- The events, and the exception that cuts the stream after the last of them. -/
  | stream (sent : List Bytes) (cut : Option Raised)

abbrev Completing (α : Type) := Program Raised Desk α

def onRequests : Lens Desk (List Request) where
  get s := s.requests
  set s requests := { s with requests := requests }

/-! ## A plain answer -/

section Plain

variable (py : Interpreter)

/-- `msg["content"] = content`, seen from the answer that holds the message. -/
def withMessage (data : Json) (content : Text) : Json :=
  match data with
  | .obj fields =>
    match Dict.get? fields ↑"choices" with
    | some (.arr (.obj choice :: choices)) =>
      match Dict.get? choice ↑"message" with
      | some (.obj message) =>
        .obj (Dict.set fields ↑"choices" (.arr (.obj (Dict.set choice ↑"message"
          (.obj (Dict.set message ↑"content" (.str content)))) :: choices)))
      | _ => data
    | _ => data
  | _ => data

/-- The answer with the model before its text. -/
def ledAnswer (data : Json) : Except Raised Json := do
  let message ← item (← firstItem (← item data ↑"choices")) ↑"message"
  let model ← getOr data ↑"model" (.str ↑"?")
  let content ← item message ↑"content"
  return withMessage data (leadIn py model ++ content.toStr py)

/-- `except (KeyError, IndexError, TypeError): pass` -/
def leadAnswer (data : Json) : Except Raised Json :=
  match ledAnswer py data with
  | .error (.keyError _) | .error .indexError | .error .typeError => return data
  | result => result

/-- `usage or {}`, of which the keys are asked with `get`. -/
def readUsage (usage : Json) : Except Raised PyDict :=
  if usage.truthy then
    match usage with
    | .obj counts => return .ofFields counts
    | _ => throw .attributeError
  else return []

/-- What is read of an answer: what goes on to the client, and the figures. -/
structure Seen where
  data : Json
  usage : PyDict
  model : Json

def shownAnswer (settings : Settings) (model : Text) (status : Int) (data : Json) :
    Except Raised Json :=
  if status = 200 ∧ wantsPrefix settings model then leadAnswer py data else return data

def answerUsage (status : Int) (data : Json) : Except Raised Json :=
  if status = 200 then getField data ↑"usage" else return .null

def readAnswer (settings : Settings) (model : Text) (status : Int) (data : Json) :
    Except Raised Seen := do
  let data ← shownAnswer py settings model status data
  let usage ← answerUsage status data
  let actual ← getField data ↑"model"
  return ⟨data, ← readUsage usage, Json.orElse actual (.str model)⟩

end Plain

/-! ## The handler -/

variable (o : Outside)

/-- The tags go to a `jsonb` column. -/
def tagsColumn (tags : Dict Text Json) : Except Raised Tags :=
  if fit : Json.storable (.obj tags) = true then return ⟨tags, fit⟩ else throw .databaseError

/-- `_log_metadata` -/
def log (usage : PyDict) (model : Json) (stream : Bool) (tags : Dict Text Json) :
    Completing Unit := do
  match (← get).pool with
  | none => return
  | some rows =>
    if o.connects then
      let tags ← raises (tagsColumn tags)
      let row ← raises (completionRow o.columns usage model o.durationMs stream tags)
      modify fun s => { s with pool := some (rows ++ [⟨o.now, row⟩]) }
    else throw .databaseError

def plain (request : Request) (model : Text) (tags : Dict Text Json) : Completing Reply := do
  match ← attempt (zoom onRequests (complete o.upstream request)) with
  | .error (.quotaExceeded message) => return .openaiError 429 message ↑"rate_limit_error"
  | .error e => throw e
  | .ok r =>
    let data ← raises r.json
    let seen ← raises (readAnswer o.upstream.py o.settings model r.status data)
    log o seen.usage seen.model false tags
    return .json r.status seen.data

/-- How the `try` of `sse()` ends, and its variables. -/
def turn (model : Text) (requests : List Request) : Except Raised Streamed →
    EStateM.Result Stop Shim Unit
  | .error e => .error (.raised e) (start o.settings model)
  | .ok _ => (forward o.upstream.py (o.chunks requests).1 (o.chunks requests).2).run
      (start o.settings model)

/-- `sse()`; an exception of the log in its `finally` is not caught any more. -/
def streamed (request : Request) (model : Text) (tags : Dict Text Json) : Completing Reply := do
  let opened ← attempt (zoom onRequests (openStream o.upstream request))
  let ended := turn o model (← get).requests opened
  let sent := sse o.upstream.py o.describe ended
  match ← attempt (log o (state ended).usage (state ended).actualModel true tags) with
  | .ok _ => return .stream sent none
  | .error e => return .stream sent (some e)

/-- The request that is made of a body, with its model and the name of its provider. -/
def routed (body : Json) : Except Raised (Request × Text × Text) :=
  match body with
  | .obj fields => do
    let requested ← requestedModel fields
    let (provider, model, providerName) ← routeChatModel o.settings o.upstream requested
    let payload := strip (Dict.set fields ↑"model" (.str model))
    return (⟨provider, (Json.orElse (payload.get? ↑"stream") .null).truthy, payload⟩, model,
      providerName)
  | _ => throw .attributeError

/-- The two ways of answering. -/
def answer (request : Request) (model : Text) (tags : Dict Text Json) : Completing Reply :=
  if request.stream then streamed o request model tags else plain o request model tags

/-- `chat_completions`, with the `X-Octo-Tags` of the request. -/
def completion (body : Json) (header : Option Text) : Completing Reply :=
  match routed o body with
  | .error (.paidModelRefused message) | .error (.ollamaUnavailable message) =>
    return .openaiError 400 message ↑"invalid_request_error"
  | .error e => throw e
  | .ok (request, model, providerName) =>
    answer o request model (completionTags o.upstream.py providerName model header)

/-- Up to the provider's call it is `chatCompletions`. -/
theorem routed_handled (body : Json) :
    chatCompletions o.settings o.upstream body =
      match routed o body with
      | .error (.paidModelRefused message) | .error (.ollamaUnavailable message) =>
        .ok (.openaiError 400 message ↑"invalid_request_error")
      | .error e => .error e
      | .ok (request, _, _) => .ok (.forward request) := by
  cases body with
  | obj fields =>
    unfold chatCompletions routed
    cases named : requestedModel fields with
    | error e =>
      have other : e = .attributeError := by
        unfold requestedModel at named
        split at named <;> cases named
        rfl
      simp [named, other, bind, Except.bind]
    | ok requested =>
      cases route : routeChatModel o.settings o.upstream requested with
      | error e => cases e <;> simp [named, bind, Except.bind, route] <;> rfl
      | ok answer => simp [named, bind, Except.bind, route, pure, Except.pure]
  | _ => rfl

/-! ## What is read of an answer -/

section Reading

variable (py : Interpreter) {fields : Dict Text Json}

/-- The exceptions that are passed over. -/
def LookupFails : Raised → Prop
  | .keyError _ | .indexError | .typeError => True
  | _ => False

theorem item_fails {v : Json} {key : Text} {e : Raised} (raised : item v key = .error e) :
    LookupFails e := by
  unfold item at raised
  split at raised
  · split at raised <;> cases raised
    trivial
  · cases raised
    trivial

theorem firstItem_fails {v : Json} {e : Raised} (raised : firstItem v = .error e) :
    LookupFails e := by
  unfold firstItem at raised
  split at raised <;> cases raised <;> trivial

theorem item_eq_ok {v w : Json} {key : Text} :
    item v key = .ok w ↔ ∃ fields, v = .obj fields ∧ Dict.get? fields key = some w := by
  cases v with
  | obj fields => cases found : Dict.get? fields key <;> simp [item, found, pure, Except.pure]
  | _ => simp [item]

theorem firstItem_eq_obj {v : Json} {fields : Dict Text Json} :
    firstItem v = .ok (.obj fields) ↔ ∃ items, v = .arr (.obj fields :: items) := by
  cases v with
  | arr items => cases items <;> simp [firstItem, pure, Except.pure]
  | str t => cases t <;> simp [firstItem, pure, Except.pure]
  | _ => simp [firstItem]

/-- The message of an answer, in the usual place, has this content. -/
def Answers (fields : Dict Text Json) (content : Json) : Prop :=
  ∃ choice choices message,
    Dict.get? fields ↑"choices" = some (.arr (.obj choice :: choices)) ∧
      Dict.get? choice ↑"message" = some (.obj message) ∧
      Dict.get? message ↑"content" = some content

theorem ledAnswer_ok {content : Json} (answers : Answers fields content) :
    ledAnswer py (.obj fields) = .ok (withMessage (.obj fields)
      (leadIn py ((Dict.get? fields ↑"model").getD (.str ↑"?")) ++ content.toStr py)) := by
  obtain ⟨choice, choices, message, found, holds, told⟩ := answers
  simp [ledAnswer, item, firstItem, getOr, found, holds, told, bind, Except.bind, pure, Except.pure]

/-- A lookup that fails on the way to the content is caught. -/
theorem leadAnswer_same (silent : ∀ content, ¬ Answers fields content) :
    leadAnswer py (.obj fields) = .ok (.obj fields) := by
  unfold leadAnswer
  cases run : ledAnswer py (.obj fields) with
  | ok led =>
    simp only [ledAnswer, except_bind_eq_ok, item_eq_ok] at run
    obtain ⟨_, ⟨_, ⟨⟩, found⟩, _, first, _, ⟨choice, rfl, holds⟩, _, -, content,
      ⟨message, rfl, told⟩, -⟩ := run
    obtain ⟨choices, rfl⟩ := firstItem_eq_obj.mp first
    exact absurd ⟨choice, choices, message, found, holds, told⟩ (silent content)
  | error e =>
    have fails : LookupFails e := by
      simp only [ledAnswer, except_bind_eq_error] at run
      obtain raised | ⟨_, -, raised | ⟨_, -, raised | ⟨_, -, never | ⟨_, -, raised | ⟨_, -, never⟩⟩⟩⟩⟩ :=
        run
      · exact item_fails raised
      · exact firstItem_fails raised
      · exact item_fails raised
      · cases never
      · exact item_fails raised
      · cases never
    cases e <;> first | rfl | cases fails

/-- Only the choices of an answer change for its lead-in. -/
theorem leadAnswer_object (fields : Dict Text Json) :
    ∃ led, leadAnswer py (.obj fields) = .ok (.obj led) ∧
      ∀ key, key ≠ ↑"choices" → Dict.get? led key = Dict.get? fields key := by
  by_cases silent : ∀ content, ¬ Answers fields content
  · exact ⟨fields, leadAnswer_same py silent, fun _ _ => rfl⟩
  push Not at silent
  obtain ⟨content, answers⟩ := silent
  have led := ledAnswer_ok py answers
  obtain ⟨choice, choices, message, found, holds, told⟩ := answers
  rw [leadAnswer, led, withMessage, found]
  dsimp only
  rw [holds]
  exact ⟨_, rfl, fun key other => Dict.get?_set_of_ne _ _ (Ne.symm other)⟩


/-- The figures of an answer, unless asking for them raises. -/
def figures? (model : Text) (status : Int) : Json → Option (PyDict × Json)
  | .obj fields =>
    match readUsage (if status = 200 then fieldOf fields ↑"usage" else .null) with
    | .ok usage => some (usage, Json.orElse (fieldOf fields ↑"model") (.str model))
    | .error _ => none
  | _ => none

theorem readUsage_fails {usage : Json} {e : Raised} (raised : readUsage usage = .error e) :
    e = .attributeError := by
  unfold readUsage at raised
  split at raised
  · split at raised <;> cases raised
    rfl
  · cases raised

theorem shownAnswer_object (settings : Settings) (model : Text) (status : Int)
    (fields : Dict Text Json) :
    ∃ led, shownAnswer py settings model status (.obj fields) = .ok (.obj led) ∧
      ∀ key, key ≠ ↑"choices" → fieldOf led key = fieldOf fields key := by
  unfold shownAnswer
  split_ifs
  · obtain ⟨led, leads, same⟩ := leadAnswer_object py fields
    exact ⟨led, leads, fun key other => by rw [fieldOf, fieldOf, same key other]⟩
  · exact ⟨fields, rfl, fun _ _ => rfl⟩

/-- An answer is read for its figures, whatever becomes of its text. -/
theorem readAnswer_figures (settings : Settings) (model : Text) (status : Int) (data : Json) :
    match figures? model status data with
    | some (usage, actual) =>
      ∃ shown, shownAnswer py settings model status data = .ok shown ∧
        readAnswer py settings model status data = .ok ⟨shown, usage, actual⟩
    | none => readAnswer py settings model status data = .error .attributeError := by
  unfold readAnswer
  cases data with
  | obj fields =>
    obtain ⟨led, shown, same⟩ := shownAnswer_object py settings model status fields
    have usage : answerUsage status (.obj led) =
        .ok (if status = 200 then fieldOf fields ↑"usage" else .null) := by
      unfold answerUsage
      split_ifs
      · rw [← same ↑"usage" (by decide)]
        rfl
      · rfl
    have actual : getField (.obj led) ↑"model" = .ok (fieldOf fields ↑"model") := by
      rw [← same ↑"model" (by decide)]
      rfl
    rw [shown, figures?]
    simp only [bind, Except.bind, usage, actual]
    cases reads : readUsage (if status = 200 then fieldOf fields ↑"usage" else .null) with
    | ok usage => exact ⟨.obj led, rfl, rfl⟩
    | error e =>
      rw [readUsage_fails reads]
  | _ =>
    have shown (v : Json) (other : ∀ fields, v ≠ .obj fields) :
        shownAnswer py settings model status v = .ok v := by
      unfold shownAnswer leadAnswer ledAnswer
      cases v with
      | obj fields => exact absurd rfl (other fields)
      | _ => split_ifs <;> rfl
    rw [shown _ (by simp)]
    simp only [figures?, answerUsage]
    split_ifs <;> rfl

end Reading

/-! ## One call -/

section Call

variable {o}

/-- The columns take these figures. -/
def figuresFit (columns : Columns) (usage : PyDict) (model : Json) : Bool :=
  columns.takesText model && usageKeys.all fun key => columns.takesInt (usage.get key .null)

theorem completionRow_cases (columns : Columns) (usage : PyDict) (model : Json) (durationMs : Int)
    (stream : Bool) (tags : Tags) :
    (figuresFit columns usage model = true ∧
        ∃ row, completionRow columns usage model durationMs stream tags = .ok row) ∨
      (figuresFit columns usage model = false ∧
        completionRow columns usage model durationMs stream tags = .error .databaseError) := by
  unfold completionRow figuresFit usageKeys
  simp only [List.all_cons, List.all_nil, Bool.and_true]
  have prompt := columns.int_cases (usage.get ↑"prompt_tokens" .null)
  have completion := columns.int_cases (usage.get ↑"completion_tokens" .null)
  have total := columns.int_cases (usage.get ↑"total_tokens" .null)
  generalize usage.get ↑"prompt_tokens" .null = p at *
  generalize usage.get ↑"completion_tokens" .null = c at *
  generalize usage.get ↑"total_tokens" .null = t at *
  obtain ⟨name, named, text⟩ | ⟨other, raised⟩ := columns.text_cases model
  · rw [named, text]
    rcases prompt with ⟨p_fits, _, p_is⟩ | ⟨p_not, p_is⟩ <;>
    rcases completion with ⟨c_fits, _, c_is⟩ | ⟨c_not, c_is⟩ <;>
    rcases total with ⟨t_fits, _, t_is⟩ | ⟨t_not, t_is⟩ <;>
    cases stored : name.all Text.storable <;>
    simp_all [bind, Except.bind, pure, Except.pure, throw, throwThe, MonadExceptOf.throw]
  · rw [raised, other]
    exact .inr ⟨rfl, rfl⟩

/-- The log takes a row of these. -/
def Takes (o : Outside) (usage : PyDict) (model : Json) (tags : Dict Text Json) : Prop :=
  o.connects = true ∧ Json.storable (.obj tags) = true ∧ figuresFit o.columns usage model = true

theorem log_none {s : Desk} (none : s.pool = none) (usage : PyDict) (model : Json) (stream : Bool)
    (tags : Dict Text Json) : (log o usage model stream tags).run s = .ok () s := by
  unfold log
  rw [EStateM.run_bind, EStateM.run_get]
  dsimp only
  rw [none]
  rfl

section Logging

variable {s : Desk} {rows : List LogRow} {usage : PyDict} {model : Json} {tags : Dict Text Json}

theorem log_run (pool : s.pool = some rows) (usage : PyDict) (model : Json) (stream : Bool)
    (tags : Dict Text Json) :
    (log o usage model stream tags).run s =
      (if o.connects then do
        let tags ← raises (tagsColumn tags)
        let row ← raises (completionRow o.columns usage model o.durationMs stream tags)
        modify fun s => { s with pool := some (rows ++ [⟨o.now, row⟩]) }
      else throw .databaseError : Completing Unit).run s := by
  unfold log
  rw [EStateM.run_bind, EStateM.run_get]
  dsimp only
  rw [pool]

theorem tagsColumn_ok (storable : Json.storable (.obj tags) = true) :
    tagsColumn tags = .ok ⟨tags, storable⟩ := by
  unfold tagsColumn
  rw [dif_pos storable]
  rfl

theorem Takes.row (takes : Takes o usage model tags) (stream : Bool) :
    ∃ row, completionRow o.columns usage model o.durationMs stream ⟨tags, takes.2.1⟩ =
      .ok row := by
  obtain ⟨-, is⟩ | ⟨unfit, -⟩ :=
    completionRow_cases o.columns usage model o.durationMs stream ⟨tags, takes.2.1⟩
  · exact is
  · rw [takes.2.2] at unfit
    cases unfit

theorem log_takes (pool : s.pool = some rows) (takes : Takes o usage model tags) {stream : Bool}
    {row : Completion}
    (is : completionRow o.columns usage model o.durationMs stream ⟨tags, takes.2.1⟩ = .ok row) :
    (log o usage model stream tags).run s =
      .ok () { s with pool := some (rows ++ [⟨o.now, row⟩]) } := by
  rw [log_run pool, if_pos takes.1, tagsColumn_ok takes.2.1, raises_ok_bind, is]
  rfl

theorem log_refuses (pool : s.pool = some rows) (refuses : ¬ Takes o usage model tags)
    (stream : Bool) : (log o usage model stream tags).run s = .error .databaseError s := by
  rw [log_run pool]
  by_cases connects : o.connects = true
  · rw [if_pos connects]
    by_cases storable : Json.storable (.obj tags) = true
    · rw [tagsColumn_ok storable, raises_ok_bind]
      rcases completionRow_cases o.columns usage model o.durationMs stream ⟨tags, storable⟩ with
        ⟨fit, -⟩ | ⟨-, is⟩
      · exact absurd ⟨connects, storable, fit⟩ refuses
      · rw [is]
        rfl
    · have column : tagsColumn tags = .error .databaseError := by
        unfold tagsColumn
        rw [dif_neg storable]
        rfl
      rw [column]
      rfl
  · rw [if_neg connects]
    rfl

theorem log_some (pool : s.pool = some rows) (usage : PyDict) (model : Json) (stream : Bool)
    (tags : Dict Text Json) :
    (Takes o usage model tags ∧ ∃ row, (log o usage model stream tags).run s =
        .ok () { s with pool := some (rows ++ [⟨o.now, row⟩]) }) ∨
      (¬ Takes o usage model tags ∧
        (log o usage model stream tags).run s = .error .databaseError s) := by
  by_cases takes : Takes o usage model tags
  · obtain ⟨row, is⟩ := takes.row stream
    exact .inl ⟨takes, row, log_takes pool takes is⟩
  · exact .inr ⟨takes, log_refuses pool takes stream⟩

end Logging

/-- The log raises only where it refuses a row. -/
theorem log_ends (s : Desk) (usage : PyDict) (model : Json) (stream : Bool)
    (tags : Dict Text Json) :
    ((s.pool = none ∨ Takes o usage model tags) ∧
        ∃ t, (log o usage model stream tags).run s = .ok () t) ∨
      (s.pool ≠ none ∧ ¬ Takes o usage model tags ∧
        (log o usage model stream tags).run s = .error .databaseError s) := by
  cases pool : s.pool with
  | none => exact .inl ⟨.inl rfl, s, log_none pool usage model stream tags⟩
  | some rows =>
    rcases log_some pool usage model stream tags with ⟨takes, row, ran⟩ | ⟨refuses, ran⟩
    · exact .inl ⟨.inr takes, _, ran⟩
    · exact .inr ⟨by simp, refuses, ran⟩

/-! ### What each way of answering comes to -/

/-- What a plain answer comes to before the log: a quota error, or what was read. -/
def plainAnswer (o : Outside) (request : Request) (model : Text) (requests : List Request) :
    Except Raised (Text ⊕ Int × Seen) :=
  match outcome ((complete o.upstream request).run requests) with
  | .error (.quotaExceeded message) => .ok (.inl message)
  | .error e => .error e
  | .ok r => (r.json.bind (readAnswer o.upstream.py o.settings model r.status)).map
      fun seen => .inr (r.status, seen)

/-- The stream has made its request. -/
def streamEnd (o : Outside) (request : Request) (model : Text) (requests : List Request) :
    EStateM.Result Stop Shim Unit :=
  turn o model (requests ++ [request]) (outcome ((openStream o.upstream request).run requests))

variable (request : Request) (model : Text) (tags : Dict Text Json) (s : Desk)

/-- The desk after a request. -/
def Desk.asked (s : Desk) (request : Request) : Desk :=
  { s with requests := s.requests ++ [request] }

theorem attempt_asks {α : Type} {p : Program Raised (List Request) α}
    (asks : state (p.run s.requests) = s.requests ++ [request]) :
    (attempt (zoom onRequests p)).run s = .ok (outcome (p.run s.requests)) (s.asked request) := by
  have part : onRequests.get s = s.requests := rfl
  rw [run_attempt, run_zoom, part]
  cases run : p.run s.requests with
  | ok a requests =>
    rw [run] at asks
    change requests = _ at asks
    rw [asks]
    rfl
  | error e requests =>
    rw [run] at asks
    change requests = _ at asks
    rw [asks]
    rfl

theorem plain_run : (plain o request model tags).run s =
    match plainAnswer o request model s.requests with
    | .error e => .error e (s.asked request)
    | .ok (.inl message) =>
      .ok (.openaiError 429 message ↑"rate_limit_error") (s.asked request)
    | .ok (.inr (status, seen)) =>
      match (log o seen.usage seen.model false tags).run (s.asked request) with
      | .error e t => .error e t
      | .ok _ t => .ok (.json status seen.data) t := by
  have asked := attempt_asks request s (state_complete o.upstream request s.requests)
  unfold plain plainAnswer
  rw [run_bind_ok asked]
  cases outcome ((complete o.upstream request).run s.requests) with
  | error e => cases e <;> rfl
  | ok r =>
    dsimp only
    cases r.json with
    | error e => rfl
    | ok data =>
      rw [raises_ok_bind]
      dsimp only [Except.bind]
      cases readAnswer o.upstream.py o.settings model r.status data with
      | error e => rfl
      | ok seen =>
        rw [raises_ok_bind, EStateM.run_bind]
        change _ = match (log o seen.usage seen.model false tags).run (s.asked request) with
          | .error e t => _
          | .ok _ t => _
        cases (log o seen.usage seen.model false tags).run (s.asked request) <;> rfl

theorem streamed_run : (streamed o request model tags).run s =
    let ended := streamEnd o request model s.requests
    let sent := sse o.upstream.py o.describe ended
    match (log o (state ended).usage (state ended).actualModel true tags).run (s.asked request) with
    | .error e t => .ok (.stream sent (some e)) t
    | .ok _ t => .ok (.stream sent none) t := by
  have asked := attempt_asks request s (state_openStream o.upstream request s.requests)
  unfold streamed streamEnd
  rw [run_bind_ok asked, EStateM.run_bind, EStateM.run_get]
  dsimp only
  rw [EStateM.run_bind, run_attempt]
  dsimp only [Desk.asked]
  generalize turn o model (s.requests ++ [request])
    (outcome ((openStream o.upstream request).run s.requests)) = ended
  cases (log o (state ended).usage (state ended).actualModel true tags).run
    { s with requests := s.requests ++ [request] } <;> rfl

/-- The figures that an answer comes to at its end, if it does. -/
def figures (o : Outside) (request : Request) (model : Text) (requests : List Request) :
    Option (PyDict × Json) :=
  if request.stream then
    let ended := state (streamEnd o request model requests)
    some (ended.usage, ended.actualModel)
  else
    match outcome ((complete o.upstream request).run requests) with
    | .error _ => none
    | .ok r =>
      match r.json with
      | .ok data => figures? model r.status data
      | .error _ => none

theorem plainAnswer_figures (requests : List Request) (plain : request.stream = false) :
    match plainAnswer o request model requests with
    | .ok (.inr (_, seen)) => figures o request model requests = some (seen.usage, seen.model)
    | _ => figures o request model requests = none := by
  unfold plainAnswer figures
  rw [if_neg (by simp [plain])]
  cases outcome ((complete o.upstream request).run requests) with
  | error e => cases e <;> rfl
  | ok r =>
    dsimp only
    cases r.json with
    | error e => rfl
    | ok data =>
      have read := readAnswer_figures o.upstream.py o.settings model r.status data
      dsimp only [Except.bind]
      cases found : figures? model r.status data with
      | none =>
        rw [found] at read
        rw [read]
        rfl
      | some fit =>
        rw [found] at read
        obtain ⟨shown, -, read⟩ := read
        rw [read]
        rfl

/-- Either way of answering makes its request and then logs the figures of the answer. -/
theorem state_answer :
    state ((answer o request model tags).run s) =
      match figures o request model s.requests with
      | some (usage, actual) =>
        state ((log o usage actual request.stream tags).run (s.asked request))
      | none => s.asked request := by
  unfold answer
  cases stream : request.stream with
  | true =>
    rw [if_pos rfl, streamed_run, figures, if_pos stream]
    dsimp only
    generalize log o _ _ true tags = logs
    cases logs.run (s.asked request) <;> rfl
  | false =>
    have comes := plainAnswer_figures (o := o) request model s.requests stream
    rw [if_neg (by simp), plain_run]
    generalize plainAnswer o request model s.requests = read at comes ⊢
    rcases read with e | message | ⟨status, seen⟩ <;> dsimp only at comes <;> rw [comes]
    · rfl
    · rfl
    · dsimp only
      cases (log o seen.usage seen.model false tags).run (s.asked request) <;> rfl

/-- What a row that is refused makes of a reply: a plain answer is lost, a stream is cut at its
end. -/
def Reply.unlogged : Reply → Except Raised Reply
  | .stream sent _ => .ok (.stream sent (some .databaseError))
  | _ => .error .databaseError

/-- The log shows in a reply only where it refuses the row. -/
theorem outcome_answer {t : Desk} (same : t.requests = s.requests) (bare : t.pool = none) :
    outcome ((answer o request model tags).run s) =
      match figures o request model s.requests with
      | some (usage, actual) =>
        match outcome ((log o usage actual request.stream tags).run (s.asked request)) with
        | .ok _ => outcome ((answer o request model tags).run t)
        | .error _ => (outcome ((answer o request model tags).run t)).bind Reply.unlogged
      | none => outcome ((answer o request model tags).run t) := by
  have nowhere : (t.asked request).pool = none := bare
  unfold answer
  cases stream : request.stream with
  | true =>
    rw [if_pos rfl, streamed_run, streamed_run, figures, if_pos stream, same]
    dsimp only
    rw [log_none nowhere]
    rcases log_ends (o := o) (s.asked request) (state (streamEnd o request model s.requests)).usage
      (state (streamEnd o request model s.requests)).actualModel true tags with
      ⟨-, _, ran⟩ | ⟨-, -, ran⟩ <;> rw [ran] <;> rfl
  | false =>
    have comes := plainAnswer_figures (o := o) request model s.requests stream
    rw [if_neg (by simp), plain_run, plain_run, same]
    generalize plainAnswer o request model s.requests = read at comes ⊢
    rcases read with e | message | ⟨status, seen⟩ <;> dsimp only at comes <;> rw [comes]
    · rfl
    · rfl
    · dsimp only
      rw [log_none nowhere]
      rcases log_ends (o := o) (s.asked request) seen.usage seen.model false tags with
        ⟨-, _, ran⟩ | ⟨-, -, ran⟩ <;> rw [ran] <;> rfl

end Call

end AgenticOctopus.Api.OpenAICompat
