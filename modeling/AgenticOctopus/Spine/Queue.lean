import AgenticOctopus.Spine.Models

/-!
# The run queue

A run row is the queue item. Each function is the body of one transaction at the instant
`now`. `FOR UPDATE SKIP LOCKED` leaves out the rows that another transaction holds; which
rows those are is an argument, so ties of `created_at` may fall either way.
-/
namespace AgenticOctopus.Spine.Queue
open Foundation

def defaultLeaseMinutes : Int := 15

/-! ## enqueue -/

def newRun (now : Time) (id : RunId) (agent : Text) (trigger : Trigger) (params : Dict Text Json)
    (scheduleId : Option ScheduleId) (maxAttempts : Int) (tags : Dict Text Json) : Run where
  id := id
  agent := agent
  trigger := trigger
  params := params
  scheduleId := scheduleId
  maxAttempts := maxAttempts
  tags := tags
  availableAt := now
  createdAt := now

def enqueue (now : Time) (id : RunId) (agent : Text) (trigger : Trigger) (params : Dict Text Json)
    (scheduleId : Option ScheduleId) (maxAttempts : Int) (tags : Dict Text Json) :
    Block RunId := do
  insertRun (newRun now id agent trigger params scheduleId maxAttempts tags)
  insertEvent now id .statusChange
    (statusChange none .queued [(↑"trigger", .str trigger.value)])
  return id

/-! ## claim -/

def eligible (now : Time) (r : Run) : Bool :=
  decide (r.status = .queued) && decide (r.availableAt ≤ now)

/-- `ORDER BY created_at LIMIT 1 FOR UPDATE SKIP LOCKED` over the queued runs. -/
def oldest (now : Time) (locked : RunId → Bool) (rows : List Run) : Option Run :=
  (rows.filter fun r => eligible now r && !locked r.id).minOn? Run.createdAt

def claimSet (now : Time) (workerId : WorkerId) (leaseMinutes : Int) :
    Table.Assignment Run.id where
  apply r :=
    { r with
      status := .running
      lockedBy := some workerId
      attempts := r.attempts + 1
      startedAt := some (r.startedAt.getD now)
      leaseExpiresAt := some (now + minutes leaseMinutes) }

/-- The rest of a claim, for the run that the subselect picked. -/
def claimRun (now : Time) (run : Run) (workerId : WorkerId) (leaseMinutes : Int) : Block Run := do
  let _ ← updateRuns (fun r => decide (r.id = run.id)) (claimSet now workerId leaseMinutes)
  insertEvent now run.id .statusChange
    (statusChange (some .queued) .running [(↑"worker", .str workerId)])
  return (claimSet now workerId leaseMinutes).apply run

def claim (now : Time) (locked : RunId → Bool) (workerId : WorkerId)
    (leaseMinutes : Int := defaultLeaseMinutes) : Block (Option Run) := do
  let db ← get
  match oldest now locked db.runs.rows with
  | none => return none
  | some run => return some (← claimRun now run workerId leaseMinutes)

/-! ## heartbeat -/

def leaseSet (now : Time) (leaseMinutes : Int) : Table.Assignment Run.id where
  apply r := { r with leaseExpiresAt := some (now + minutes leaseMinutes) }

def heldBy (runId : RunId) (workerId : WorkerId) (r : Run) : Bool :=
  decide (r.id = runId) && decide (r.status = .running ∧ r.lockedBy = some workerId)

def heartbeat (now : Time) (runId : RunId) (workerId : WorkerId)
    (leaseMinutes : Int := defaultLeaseMinutes) : Block Bool := do
  let rowcount ← updateRuns (heldBy runId workerId) (leaseSet now leaseMinutes)
  return rowcount == 1

/-! ## finish -/

def finishSet (now : Time) (result error : Option Text) (costUsd : Option Usd)
    (sessionId : Option Text) : Table.Assignment Run.id where
  apply r :=
    { r with
      result := result
      error := error
      costUsd := costUsd
      sessionId := sessionId <|> r.sessionId
      finishedAt := some now
      lockedBy := none
      leaseExpiresAt := none }

/-- `{"error": error} if error else None` -/
def errorPayload : Option Text → Dict Text Json
  | some error => if error = [] then [] else [(↑"error", .str error)]
  | none => []

def finish (now : Time) (runId : RunId) (status : RunStatus) (result error : Option Text)
    (costUsd : Option Usd) (sessionId : Option Text) : Block Unit := do
  if status ≠ .completed ∧ status ≠ .failed then throw .assertionError
  else
    transition now runId .running status (finishSet now result error costUsd sessionId)
      (errorPayload error)

/-! ## reap_expired -/

def expired (now : Time) (r : Run) : Bool :=
  decide (r.status = .running) && r.leaseExpiresAt.any fun t => decide (t < now)

def requeueSet : Table.Assignment Run.id where
  apply r := { r with status := .queued, lockedBy := none, leaseExpiresAt := none }

def leaseExpired : Text := ↑"lease expired; attempts exhausted"

def deadSet (now : Time) : Table.Assignment Run.id where
  apply r :=
    { r with
      status := .failed
      error := some leaseExpired
      lockedBy := none
      leaseExpiresAt := none
      finishedAt := some now }

/-- `WITH … UPDATE runs … RETURNING runs.id` -/
def updateReturning (p : Run → Bool) (f : Table.Assignment Run.id) : Block (List RunId) := do
  let db ← get
  let _ ← updateRuns p f
  return (db.runs.rows.filter p).map Run.id

def recordEvent (now : Time) (runId : RunId) (type : EventType) (payload : Dict Text Json) :
    Block Unit :=
  insertEvent now runId type payload

def recordAll (now : Time) (payload : Dict Text Json) : List RunId → Block Unit
  | [] => return
  | rid :: rids => do
    recordEvent now rid .statusChange payload
    recordAll now payload rids

def reapPayload (toStatus : RunStatus) : Dict Text Json :=
  statusChange (some .running) toStatus [(↑"reason", .str ↑"lease_expired")]

def requeues (now : Time) (locked : RunId → Bool) (r : Run) : Bool :=
  expired now r && decide (r.attempts < r.maxAttempts) && !locked r.id

def exhausts (now : Time) (locked : RunId → Bool) (r : Run) : Bool :=
  expired now r && decide (r.attempts ≥ r.maxAttempts) && !locked r.id

def reapExpired (now : Time) (locked : RunId → Bool) : Block Nat := do
  let requeued ← updateReturning (requeues now locked) requeueSet
  let failed ← updateReturning (exhausts now locked) (deadSet now)
  recordAll now (reapPayload .queued) requeued
  recordAll now (reapPayload .failed) failed
  return requeued.length + failed.length

/-! ## Reading -/

def getRun (db : Db) (runId : RunId) : Option Run := db.runs.find? runId

def listEvents (db : Db) (runId : RunId) : List RunEvent :=
  db.runEvents.select fun ev => decide (ev.runId = runId)

end AgenticOctopus.Spine.Queue
