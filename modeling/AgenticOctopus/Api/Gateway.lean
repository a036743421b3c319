import AgenticOctopus.Worker.Consent

/-!
# The gateway

The admin surface over HTTP, next to the workers. A handler answers at once or issues one
transaction and answers with its outcome, and only a request that carries the admin token reaches
a handler. The gateway loads a registry of its own, and its process may have come up without a
database.
-/
namespace AgenticOctopus.Api.Gateway
open Foundation Spine
open Worker (External Sys)

/-- What the process of the gateway holds: its settings, its pool and its registry. -/
structure Host where
  octoApiToken : Text
  connected : Bool
  registry : Registry
  scheduler : Scheduler.Host
  /-- The input of PostgreSQL's `uuid`, for an id in a path. -/
  uuid : Text → Option Uuid

/-! ## Requests and answers -/

inductive Request where
  | runAgent (name : Text) (params tags : Dict Text Json)
  | listRuns (status agent : Option Text) (limit : Int)
  | getRun (runId : Text)
  | getRunEvents (runId : Text)
  | approveRun (runId : Text) (note : Option Text)
  | rejectRun (runId : Text) (note : Option Text)
  | createSchedule (agent cronExpr timezone : Text) (params : Dict Text Json)
  | syncSchedules
  | toggleSchedule (scheduleId : Text)

/-- Rows are serialised by the framework. -/
inductive Body where
  | json (fields : Dict Text Json)
  | run (row : Run)
  | runs (rows : List Run)
  | events (rows : List RunEvent)

/-- An answer of a handler, an `HTTPException`, or what the framework makes of any other. -/
inductive Response where
  | answer (status : Nat) (body : Body)
  | httpException (status : Nat) (detail : Text)
  | serverError

/-- What a request draws from outside: ids of new rows and readings of the host's clock. -/
structure Draw where
  id : Uuid
  clock : Time
  ids : Nat → Uuid
  clocks : Nat → Time

/-- A transaction of a handler, as an operation of the spine and with its result. -/
structure Transaction (now : Time) where
  {Result : Type}
  block : Block Result
  op : Op
  external : External op
  same : ∀ db, op.after now db = block.after db
  answer : Except Raised Result → Response

/-- What a handler does. -/
inductive Plan (now : Time) where
  | reply (response : Response)
  | transact (t : Transaction now)

namespace Plan

variable {now : Time}

def response (plan : Plan now) (db : Db) : Response :=
  match plan with
  | reply response => response
  | transact t => t.answer (t.block.commit db).1

def database (plan : Plan now) (db : Db) : Db :=
  match plan with
  | reply _ => db
  | transact t => (t.block.commit db).2

end Plan

/-! ## Handlers -/

variable (host : Host) (now : Time) (draw : Draw) (db : Db)

def unauthorized : Response := .httpException 401 ↑"missing or invalid bearer token"

def unavailable : Response := .httpException 503 ↑"database unavailable"

/-- A handler past `_pool(request)`. -/
def withPool (plan : Plan now) : Plan now := if host.connected then plan else .reply unavailable

/-- A handler whose statements take the id of the path. -/
def withUuid (id : Text) (plan : Uuid → Plan now) : Plan now :=
  match host.uuid id with
  | some uuid => plan uuid
  | none => .reply .serverError

def unknownAgent (name : Text) : Text := "unknown agent '" ++ name ++ "'"

/-- The answer to an exception that a handler does not catch. -/
def uncaught : Raised → Response
  | .httpException status detail => .httpException status detail
  | _ => .serverError

def queued : Except Raised RunId → Response
  | .ok runId => .answer 202 (.json [(↑"run_id", .str runId), (↑"status", .str ↑"queued")])
  | .error e => uncaught e

def runAgent (name : Text) (params tags : Dict Text Json) : Plan now :=
  if (host.registry.get? name).isNone then .reply (.httpException 404 (unknownAgent name))
  else withPool host now <|
    if !(name.storable && Json.storable (.obj params) && Json.storable (.obj tags)) then
      .reply .serverError
    else .transact
      { block := Queue.enqueue now draw.id name .api params none 1 tags
        op := .enqueue draw.id name .api params none 1 tags
        external := trivial
        same := Worker.after_discard _
        answer := queued }

/-- `SELECT * FROM runs WHERE … ORDER BY created_at DESC LIMIT …` -/
def selectRuns (status agent : Option Text) (limit : Nat) : List Run :=
  ((db.runs.rows.filter fun run =>
      (status.all fun s => decide (run.status.value = s)) && agent.all fun a => decide (run.agent = a)
    ).mergeSort fun a b => decide (b.createdAt ≤ a.createdAt)).take limit

def listRuns (status agent : Option Text) (limit : Int) : Plan now :=
  withPool host now <| .reply <|
    if !(status.all Text.storable && agent.all Text.storable) || min limit 500 < 0 then .serverError
    else .answer 200 (.runs (selectRuns db status agent (min limit 500).toNat))

def getRun (runId : Text) : Plan now :=
  withPool host now <| withUuid host now runId fun id => .reply <|
    match Queue.getRun db id with
    | some run => .answer 200 (.run run)
    | none => .httpException 404 ↑"run not found"

def getRunEvents (runId : Text) : Plan now :=
  withPool host now <| withUuid host now runId fun id =>
    .reply (.answer 200 (.events (Queue.listEvents db id)))

/-- The messages of `decide` spell the run as the path does. -/
def noPending (runId : Text) : Text := "run " ++ runId ++ " has no pending approval"

def notParked (runId : Text) : Text :=
  "run " ++ runId ++ " was not in " ++ RunStatus.awaitingApproval.value ++ " (concurrent change?)"

def decision (approved : Bool) : Text := if approved then ↑"approved" else ↑"rejected"

def decided (runId : Text) (approved : Bool) : Except Raised Unit → Response
  | .ok _ =>
    .answer 200 (.json [(↑"run_id", .str runId), (↑"decision", .str (decision approved))])
  | .error (.lookupError _) => .httpException 404 (noPending runId)
  | .error (.illegalTransition _) => .httpException 409 (notParked runId)
  | .error e => uncaught e

/-- The call of `decide`, for the run that the path spells `runId`. -/
def decideCall (runId : Text) (id : RunId) (approved : Bool) (note : Option Text) :
    Transaction now where
  block := Approvals.decide now id approved ↑"api" note
  op := .decide id approved ↑"api" note
  external := trivial
  same _ := rfl
  answer := decided runId approved

/-- `_decide` -/
def decideRun (runId : Text) (approved : Bool) (note : Option Text) : Plan now :=
  withPool host now <| withUuid host now runId fun id =>
    if !note.all Text.storable then .reply .serverError
    else .transact (decideCall now runId id approved note)

def scheduleCreated : Except Raised ScheduleId → Response
  | .ok id => .answer 201 (.json [(↑"schedule_id", .str id)])
  | .error e => uncaught e

/-- The two checks come before the pool. -/
def createSchedule (agent cronExpr timezone : Text) (params : Dict Text Json) : Plan now :=
  if (host.registry.get? agent).isNone then .reply (.httpException 404 (unknownAgent agent))
  else if !host.scheduler.isValid cronExpr then
    .reply (.httpException 422 ("invalid cron expression " ++ host.scheduler.repr cronExpr))
  else withPool host now <|
    if !(agent.storable && cronExpr.storable && timezone.storable && Json.storable (.obj params)) then
      .reply .serverError
    else .transact
      { block := Scheduler.createSchedule host.scheduler now draw.clock host.registry draw.id agent
          cronExpr timezone params
        op := .createSchedule host.scheduler draw.clock host.registry draw.id agent cronExpr timezone
          params
        external := trivial
        same := Worker.after_discard _
        answer := scheduleCreated }

/-- The columns of the schedules that a sync inserts take the texts of this manifest. -/
def syncStorable (name : Text) (agent : LoadedAgent) : Bool :=
  agent.manifest.schedule.all fun expr : Text =>
    expr == [] || name.storable && expr.storable && Json.storable (.obj agent.manifest.params)

def synced : Except Raised (List Text) → Response
  | .ok created => .answer 200 (.json [(↑"created", .arr (created.map .str))])
  | .error e => uncaught e

def syncSchedules : Plan now :=
  withPool host now <|
    if !host.registry.all fun entry => syncStorable entry.1 entry.2 then .reply .serverError
    else .transact
      { block := Scheduler.syncFromRegistry host.scheduler now draw.clocks draw.ids host.registry
        op := .syncFromRegistry host.scheduler draw.clocks draw.ids host.registry
        external := trivial
        same := Worker.after_discard _
        answer := synced }

def toggled (scheduleId : Text) : Except Raised Bool → Response
  | .ok enabled =>
    .answer 200 (.json [(↑"schedule_id", .str scheduleId), (↑"enabled", .bool enabled)])
  | .error e => uncaught e

def toggleSchedule (scheduleId : Text) : Plan now :=
  withPool host now <| withUuid host now scheduleId fun id => .transact
    { block := Scheduler.toggleSchedule id
      op := .toggleSchedule id
      external := trivial
      same := Worker.after_discard _
      answer := toggled scheduleId }

def handle : Request → Plan now
  | .runAgent name params tags => runAgent host now draw name params tags
  | .listRuns status agent limit => listRuns host now db status agent limit
  | .getRun runId => getRun host now db runId
  | .getRunEvents runId => getRunEvents host now db runId
  | .approveRun runId note => decideRun host now runId true note
  | .rejectRun runId note => decideRun host now runId false note
  | .createSchedule agent cronExpr timezone params =>
    createSchedule host now draw agent cronExpr timezone params
  | .syncSchedules => syncSchedules host now draw
  | .toggleSchedule scheduleId => toggleSchedule host now scheduleId

/-- `require_token`, then the handler. -/
def serve (credentials : Option Text) (request : Request) : Plan now :=
  if credentials = some host.octoApiToken then handle host now draw db request
  else .reply unauthorized

/-! ## Next to the workers -/

/-- What the workers do by themselves: their turns, the reaper, the scheduler and its sync. -/
def Inside : Worker.Label → Prop
  | .call op _ =>
    match op with
    | .reapExpired _ | .tick .. | .syncFromRegistry .. => True
    | _ => False
  | _ => True

inductive Label where
  | http (credentials : Option Text) (request : Request) (draw : Draw)
  | inside (l : Worker.Label) (own : Inside l)

variable (registry : Registry)

def step (s : Sys) : Label → Option Sys
  | .http credentials request draw =>
    some { s with db := (serve host s.now draw s.db credentials request).database s.db }
  | .inside l _ => Worker.step registry s l

/-- The gateway and any number of workers over one database, from an empty one. -/
def served : Machine Sys Label :=
  .ofStep (fun s => s.db = Db.empty ∧ ∀ w, s.phase w = .idle) (step host registry)

theorem served_starts : (served host registry).start ⟨Db.empty, 0, fun _ => .idle⟩ :=
  ⟨rfl, fun _ => rfl⟩

/-! ## The gateway as a caller of the spine -/

theorem Plan.database_reply {now : Time} (response : Response) (db : Db) :
    (Plan.reply response : Plan now).database db = db := rfl

theorem Plan.database_transact {now : Time} (t : Transaction now) (db : Db) :
    (Plan.transact t).database db = t.op.after now db := (t.same db).symm

/-- What the workers' system sees of a step: a call from outside, or nothing. -/
def Label.worker (s : Sys) : Label → Worker.Label
  | .http credentials request draw =>
    match serve host s.now draw s.db credentials request with
    | .reply _ => .clock s.now
    | .transact t => .call t.op t.external
  | .inside l _ => l

variable {host registry}

theorem step_worker {s t : Sys} {l : Label} (h : step host registry s l = some t) :
    Worker.step registry s (l.worker host s) = some t := by
  cases l with
  | http credentials request draw =>
    cases h
    simp only [Label.worker]
    cases serve host s.now draw s.db credentials request with
    | reply response => simp [Worker.step, Plan.database_reply]
    | transact t => simp [Worker.step, Plan.database_transact]
  | inside l own => exact h

/-- An execution next to the gateway, as one of the workers with callers outside. -/
def workers (e : (served host registry).Execution) : (Worker.system registry).Execution where
  length := e.length
  state := e.state
  label k := (e.label k).worker host (e.state k)
  start := e.start
  next k hk := step_worker (e.next k hk)

/-! ## Which request issues what -/

/-- What holds of the transaction of a plan, if it has one. -/
def Plan.Issues {now : Time} (P : Op → Prop) : Plan now → Prop
  | reply _ => True
  | transact t => P t.op

theorem guarded_issues {now : Time} {P : Op → Prop} {refused : Prop} [Decidable refused]
    {response : Response} {plan : Plan now} (h : plan.Issues P) :
    (if refused then .reply response else plan).Issues P := by
  split_ifs
  · trivial
  · exact h

theorem withPool_issues {now : Time} {P : Op → Prop} {plan : Plan now} (h : plan.Issues P) :
    (withPool host now plan).Issues P := by
  unfold withPool
  split_ifs
  · exact h
  · trivial

theorem withUuid_issues {now : Time} {P : Op → Prop} {id : Text} {plan : Uuid → Plan now}
    (h : ∀ uuid, (plan uuid).Issues P) : (withUuid host now id plan).Issues P := by
  unfold withUuid
  split
  next uuid _ => exact h uuid
  next => trivial

def Op.IsDecision : Op → Prop
  | .decide .. => True
  | _ => False

/-- Only the two decision routes come to a decision. -/
theorem handle_decisions {now : Time} {draw : Draw} {db : Db} {request : Request}
    (other : ∀ runId note, request ≠ .approveRun runId note ∧ request ≠ .rejectRun runId note) :
    (handle host now draw db request).Issues fun op => ¬ Op.IsDecision op := by
  cases request with
  | runAgent => exact guarded_issues (withPool_issues (guarded_issues id))
  | listRuns => exact withPool_issues trivial
  | getRun => exact withPool_issues (withUuid_issues fun _ => trivial)
  | getRunEvents => exact withPool_issues (withUuid_issues fun _ => trivial)
  | approveRun runId note => exact ((other runId note).1 rfl).elim
  | rejectRun runId note => exact ((other runId note).2 rfl).elim
  | createSchedule =>
    exact guarded_issues (guarded_issues (withPool_issues (guarded_issues id)))
  | syncSchedules => exact withPool_issues (guarded_issues id)
  | toggleSchedule => exact withPool_issues (withUuid_issues fun _ => id)

/-- The request of a human's decision. -/
def Request.decision (runId : Text) (approved : Bool) (note : Option Text) : Request :=
  if approved then .approveRun runId note else .rejectRun runId note

theorem handle_decision {now : Time} {draw : Draw} {db : Db} {runId : Text} {approved : Bool}
    {note : Option Text} :
    handle host now draw db (.decision runId approved note) =
      decideRun host now runId approved note := by
  cases approved <;> rfl

theorem decideRun_transact {now : Time} {runId : Text} {approved : Bool} {note : Option Text}
    {t : Transaction now} (h : decideRun host now runId approved note = .transact t) :
    ∃ id, host.uuid runId = some id ∧ t = decideCall now runId id approved note := by
  simp only [decideRun, withPool, withUuid] at h
  cases is : host.uuid runId with
  | none =>
    simp only [is] at h
    split_ifs at h
  | some id =>
    simp only [is] at h
    split_ifs at h
    cases h
    exact ⟨id, rfl, rfl⟩

theorem serve_decide {now : Time} {draw : Draw} {db : Db} {credentials : Option Text}
    {request : Request} {t : Transaction now} {r : RunId} {approved : Bool} {via : Text}
    {note : Option Text} (h : serve host now draw db credentials request = .transact t)
    (is : t.op = .decide r approved via note) :
    credentials = some host.octoApiToken ∧ ∃ runId, host.uuid runId = some r ∧
      request = .decision runId approved note ∧ t = decideCall now runId r approved note := by
  unfold serve at h
  split_ifs at h with authorised
  refine ⟨authorised, ?_⟩
  have decides : ∃ runId verdict remark, request = .decision runId verdict remark := by
    by_contra none
    have other : ∀ runId note, request ≠ .approveRun runId note ∧
        request ≠ .rejectRun runId note := by
      intro runId remark
      refine ⟨fun same => none ⟨runId, true, remark, same⟩, fun same =>
        none ⟨runId, false, remark, same⟩⟩
    have issues : (handle host now draw db request).Issues fun op => ¬ Op.IsDecision op :=
      handle_decisions other
    rw [h] at issues
    apply issues
    rw [is]
    trivial
  obtain ⟨runId, verdict, remark, rfl⟩ := decides
  rw [handle_decision] at h
  obtain ⟨id, uuid, rfl⟩ := decideRun_transact h
  cases is
  exact ⟨runId, uuid, rfl, rfl⟩

end AgenticOctopus.Api.Gateway
