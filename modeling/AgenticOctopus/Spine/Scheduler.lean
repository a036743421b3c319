import AgenticOctopus.Spine.Queue
import AgenticOctopus.Spine.Registry

/-!
# Cron schedules

`tick` fires every due schedule in one transaction. The cron library and the time zone
database are outside the repository and come as a parameter; the host's clock, which
`compute_next` reads, is separate from the database's.
-/
namespace AgenticOctopus.Spine.Scheduler
open Foundation

/-- What the code asks of `croniter`, of `zoneinfo` and of `repr`. -/
structure Host where
  isValid : Text → Bool
  /-- `croniter(expr, datetime.now(ZoneInfo(timezone))).get_next(datetime)`, or a raise. -/
  getNext : (cronExpr timezone : Text) → Time → Option Time
  repr : Text → Text

variable (host : Host)

def utc : Text := ↑"UTC"

def computeNext (clock : Time) (cronExpr timezone : Text) : Block Time :=
  match host.getNext cronExpr timezone clock with
  | some next => pure next
  | none => throw .cronError

/-! ## tick -/

def due (now : Time) (locked : ScheduleId → Bool) (s : Schedule) : Bool :=
  s.enabled && decide (s.nextRunAt ≤ now) && !locked s.id

def firedSet (now next : Time) (runId : RunId) : Table.Assignment Schedule.id where
  apply s := { s with nextRunAt := next, lastRunAt := some now, lastRunId := some runId }

/-- The body of the loop: one run, its first event, and the schedule's next instant. -/
def fire (now clock : Time) (runId : RunId) (s : Schedule) : Block Unit := do
  insertRun
    { id := runId, agent := s.agent, trigger := .schedule, params := s.params,
      scheduleId := some s.id, availableAt := now, createdAt := now }
  insertEvent now runId .statusChange
    (statusChange none .queued [(↑"trigger", .str ↑"schedule")])
  let next ← computeNext host clock s.cronExpr s.timezone
  let _ ← updateSchedules (fun t => decide (t.id = s.id)) (firedSet now next runId)

/-- Fire the due schedules in turn; `clocks` are the readings of the host's clock, and `ids` the
run ids that the inserts draw. -/
def fireAll (now : Time) (clocks : Nat → Time) (ids : Nat → RunId) : List Schedule → Block Nat
  | [] => return 0
  | s :: rest => do
    fire host now (clocks 0) (ids 0) s
    return (← fireAll now (fun n => clocks (n + 1)) (fun n => ids (n + 1)) rest) + 1

def tick (now : Time) (clocks : Nat → Time) (locked : ScheduleId → Bool) (ids : Nat → RunId) :
    Block Nat := do
  let db ← get
  fireAll host now clocks ids (db.schedules.rows.filter (due now locked))

/-! ## Creating schedules -/

def sameSchedule (agent cronExpr : Text) (s : Schedule) : Bool :=
  decide (s.agent = agent) && decide (s.cronExpr = cronExpr)

/-- `INSERT … ON CONFLICT (agent, cron_expr) DO NOTHING`; returns the number of rows inserted. -/
def insertOrNothing (schedule : Schedule) : Block Nat := do
  let db ← get
  if db.schedules.rows.any (sameSchedule schedule.agent schedule.cronExpr) then return 0
  else
    insertSchedule schedule
    return 1

/-- `f"{name} @ {expr}"` -/
def createdLine (name expr : Text) : Text := name ++ " @ " ++ expr

def syncEntry (now clock : Time) (id : ScheduleId) (name : Text) (agent : LoadedAgent) :
    Block (List Text) :=
  match agent.manifest.schedule with
  | none => return []
  | some expr =>
    if expr = [] then return []
    else do
      let next ← computeNext host clock expr utc
      let rowcount ← insertOrNothing
        { id := id, agent := name, cronExpr := expr, params := agent.manifest.params,
          nextRunAt := next, createdAt := now }
      return if rowcount = 0 then [] else [createdLine name expr]

def syncFromRegistry (now : Time) (clocks : Nat → Time) (ids : Nat → ScheduleId) :
    Registry → Block (List Text)
  | [] => return []
  | (name, agent) :: rest => do
    let created ← syncEntry host now (clocks 0) (ids 0) name agent
    return created ++
      (← syncFromRegistry now (fun n => clocks (n + 1)) (fun n => ids (n + 1)) rest)

def enableSet : Table.Assignment Schedule.id where
  apply s := { s with enabled := true }

/-- `POST /schedules` -/
def createSchedule (now clock : Time) (registry : Registry) (id : ScheduleId)
    (agent cronExpr timezone : Text) (params : Dict Text Json) : Block ScheduleId := do
  if (registry.get? agent).isNone then
    throw (.httpException 404 ("unknown agent '" ++ agent ++ "'"))
  else if !host.isValid cronExpr then
    throw (.httpException 422 ("invalid cron expression " ++ host.repr cronExpr))
  else
    let next ← computeNext host clock cronExpr timezone
    let db ← get
    match db.schedules.rows.find? (sameSchedule agent cronExpr) with
    | some s =>
      let _ ← updateSchedules (fun t => decide (t.id = s.id)) enableSet
      return s.id
    | none =>
      insertSchedule
        { id := id, agent := agent, cronExpr := cronExpr, timezone := timezone,
          params := params, nextRunAt := next, createdAt := now }
      return id

def toggleSet : Table.Assignment Schedule.id where
  apply s := { s with enabled := !s.enabled }

/-- `POST /schedules/{schedule_id}/toggle` -/
def toggleSchedule (scheduleId : ScheduleId) : Block Bool := do
  let db ← get
  match db.schedules.find? scheduleId with
  | none => throw (.httpException 404 "schedule not found")
  | some s =>
    let _ ← updateSchedules (fun t => decide (t.id = scheduleId)) toggleSet
    return !s.enabled

end AgenticOctopus.Spine.Scheduler
