import AgenticOctopus.Foundation.Machine
import AgenticOctopus.Spine.Lifecycle
import AgenticOctopus.Spine.Scheduler

/-!
# The operations of the spine as a machine

An operation is one transaction: every function of the spine that writes, with the
arguments it is called with and what the database chooses for it (the instant, the rows
that others hold locked, fresh ids). The machine takes any operation at any time, so what
holds in its reachable states holds under every interleaving of the callers.
-/
namespace AgenticOctopus.Spine
open Foundation

inductive Op where
  | enqueue (id : RunId) (agent : Text) (trigger : Trigger) (params : Dict Text Json)
      (scheduleId : Option ScheduleId) (maxAttempts : Int) (tags : Dict Text Json)
  | claim (locked : RunId → Bool) (workerId : WorkerId) (leaseMinutes : Int)
  | heartbeat (runId : RunId) (workerId : WorkerId) (leaseMinutes : Int)
  | finish (runId : RunId) (status : RunStatus) (result error : Option Text)
      (costUsd : Option Usd) (sessionId : Option Text)
  | reapExpired (locked : RunId → Bool)
  | request (id : ApprovalId) (runId : RunId) (action : Text) (payload : Dict Text Json)
  | decide (runId : RunId) (approved : Bool) (via : Text) (note : Option Text)
  /-- What an executor emits is a `log`, a `message` or a `tool_use`. -/
  | recordEvent (runId : RunId) (type : EventType) (payload : Dict Text Json)
      (emitted : type ≠ .statusChange)
  /-- The worker's `UPDATE runs SET tags = … WHERE id = …`. -/
  | setTags (runId : RunId) (tags : Dict Text Json)
  | tick (host : Scheduler.Host) (clocks : Nat → Time) (locked : ScheduleId → Bool)
      (ids : Nat → RunId)
  | syncFromRegistry (host : Scheduler.Host) (clocks : Nat → Time) (ids : Nat → ScheduleId)
      (registry : Registry)
  | createSchedule (host : Scheduler.Host) (clock : Time) (registry : Registry) (id : ScheduleId)
      (agent cronExpr timezone : Text) (params : Dict Text Json)
  | toggleSchedule (scheduleId : ScheduleId)

def setTags (runId : RunId) (tags : Dict Text Json) : Block Unit := do
  let _ ← updateRuns (fun r => decide (r.id = runId)) (tagsSet tags)

namespace Op

/-- The transaction of an operation at the instant `now`. -/
def block (now : Time) : Op → Block Unit
  | enqueue id agent trigger params scheduleId maxAttempts tags => do
    let _ ← Queue.enqueue now id agent trigger params scheduleId maxAttempts tags
  | claim locked workerId leaseMinutes => do
    let _ ← Queue.claim now locked workerId leaseMinutes
  | heartbeat runId workerId leaseMinutes => do
    let _ ← Queue.heartbeat now runId workerId leaseMinutes
  | finish runId status result error costUsd sessionId =>
    Queue.finish now runId status result error costUsd sessionId
  | reapExpired locked => do
    let _ ← Queue.reapExpired now locked
  | request id runId action payload => do
    let _ ← Approvals.request now id runId action payload
  | decide runId approved via note => Approvals.decide now runId approved via note
  | recordEvent runId type payload _ => Queue.recordEvent now runId type payload
  | setTags runId tags => Spine.setTags runId tags
  | tick host clocks locked ids => do
    let _ ← Scheduler.tick host now clocks locked ids
  | syncFromRegistry host clocks ids registry => do
    let _ ← Scheduler.syncFromRegistry host now clocks ids registry
  | createSchedule host clock registry id agent cronExpr timezone params => do
    let _ ← Scheduler.createSchedule host now clock registry id agent cronExpr timezone params
  | toggleSchedule scheduleId => do
    let _ ← Scheduler.toggleSchedule scheduleId

/-- The database after the operation, whether it returned or raised. -/
def after (now : Time) (op : Op) (db : Db) : Db := (op.block now).after db

end Op

/-- Any operation at any instant, in any order. -/
def spine : Machine Db (Time × Op) where
  start db := db = Db.empty
  step db l db' := db' = l.2.after l.1 db

/-- The run of the spine that does these operations. -/
def history (ops : List (Time × Op)) : spine.Execution where
  length := ops.length
  state i := (ops.take i).foldl (fun db l => l.2.after l.1 db) Db.empty
  label i := ops.getD i (0, .toggleSchedule [])
  start := rfl
  next i hi := by
    rw [List.take_add_one, List.foldl_append, List.getD_eq_getElem?_getD,
      List.getElem?_eq_getElem hi]
    rfl

end AgenticOctopus.Spine
