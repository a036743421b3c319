import AgenticOctopus.Foundation.Json
import AgenticOctopus.Foundation.Table
import AgenticOctopus.Foundation.Transaction

/-!
# The spine's schema

The four tables that runs live in, with the columns of the migrations. A `CHECK (… IN …)`
column is an enumeration, a primary key is the key of its table, and a foreign key is
checked by the insert that could break it. The statements below are the only way the
modules above touch a table.
-/
namespace AgenticOctopus.Spine
open Foundation

/-- A `uuid` in the text form in which the code passes it around. -/
abbrev Uuid := Text
abbrev RunId := Uuid
abbrev ApprovalId := Uuid
abbrev ScheduleId := Uuid
abbrev WorkerId := Text

/-- A `timestamptz`, in microseconds. -/
abbrev Time := Int

/-- `make_interval(mins => n)` -/
def minutes (n : Int) : Time := n * 60000000

/-- `numeric(10, 4)`, in ten-thousandths of a dollar. -/
abbrev Usd := Int

inductive RunStatus where
  | queued | running | awaitingApproval | completed | failed | rejected | cancelled
deriving DecidableEq, Repr

def RunStatus.value : RunStatus → Text
  | .queued => ↑"queued"
  | .running => ↑"running"
  | .awaitingApproval => ↑"awaiting_approval"
  | .completed => ↑"completed"
  | .failed => ↑"failed"
  | .rejected => ↑"rejected"
  | .cancelled => ↑"cancelled"

inductive Trigger where
  | api | schedule | cli | webhook | chat
deriving DecidableEq, Repr

def Trigger.value : Trigger → Text
  | .api => ↑"api"
  | .schedule => ↑"schedule"
  | .cli => ↑"cli"
  | .webhook => ↑"webhook"
  | .chat => ↑"chat"

structure Run where
  id : RunId
  agent : Text
  status : RunStatus := .queued
  trigger : Trigger := .api
  params : Dict Text Json := []
  scheduleId : Option ScheduleId := none
  attempts : Int := 0
  maxAttempts : Int := 1
  availableAt : Time
  lockedBy : Option WorkerId := none
  leaseExpiresAt : Option Time := none
  sessionId : Option Text := none
  result : Option Text := none
  error : Option Text := none
  costUsd : Option Usd := none
  createdAt : Time
  startedAt : Option Time := none
  finishedAt : Option Time := none
  tags : Dict Text Json := []

inductive EventType where
  | statusChange | message | toolUse | log
deriving DecidableEq, Repr

structure RunEvent where
  id : Nat
  runId : RunId
  ts : Time
  type : EventType
  payload : Dict Text Json

inductive ApprovalStatus where
  | pending | approved | rejected | expired
deriving DecidableEq, Repr

structure Approval where
  id : ApprovalId
  runId : RunId
  action : Text
  payload : Dict Text Json := []
  status : ApprovalStatus := .pending
  requestedAt : Time
  decidedAt : Option Time := none
  decidedVia : Option Text := none
  note : Option Text := none

structure Schedule where
  id : ScheduleId
  agent : Text
  cronExpr : Text
  timezone : Text := ↑"UTC"
  params : Dict Text Json := []
  enabled : Bool := true
  nextRunAt : Time
  lastRunAt : Option Time := none
  lastRunId : Option RunId := none
  createdAt : Time

structure Db where
  runs : Table RunId Run Run.id
  runEvents : SerialTable RunEvent RunEvent.id
  approvals : Table ApprovalId Approval Approval.id
  schedules : Table ScheduleId Schedule Schedule.id

/-- The database after the migrations. -/
def Db.empty : Db := ⟨.empty, .empty, .empty, .empty⟩

/-- What an operation of the spine can raise. -/
inductive Raised where
  | illegalTransition (message : Text)
  | lookupError (message : Text)
  | assertionError
  | uniqueViolation
  | foreignKeyViolation
  | cronError
  | httpException (status : Nat) (detail : Text)
deriving DecidableEq

/-- One `async with pool.connection()` block. -/
abbrev Block (α : Type) := Txn Db Raised α

/-! ## Statements -/

/-- `UPDATE` on one table of the database; returns the number of rows it matched. -/
def updateIn {α : Type} {key : α → Uuid} (table : Db → Table Uuid α key)
    (write : Table Uuid α key → Db → Db) (p : α → Bool) (f : Table.Assignment key) : Block Nat := do
  let db ← get
  set (write ((table db).update p f) db)
  return (table db).rowcount p

def updateRuns (p : Run → Bool) (f : Table.Assignment Run.id) : Block Nat :=
  updateIn Db.runs (fun t db => { db with runs := t }) p f

def updateApprovals (p : Approval → Bool) (f : Table.Assignment Approval.id) : Block Nat :=
  updateIn Db.approvals (fun t db => { db with approvals := t }) p f

def updateSchedules (p : Schedule → Bool) (f : Table.Assignment Schedule.id) : Block Nat :=
  updateIn Db.schedules (fun t db => { db with schedules := t }) p f

/-- `INSERT INTO runs`; the schedule it names must exist. -/
def insertRun (run : Run) : Block Unit := do
  let db ← get
  if run.scheduleId.any fun s => !db.schedules.contains s then throw .foreignKeyViolation
  else if fresh : db.runs.find? run.id = none then
    set { db with runs := db.runs.insert run fresh }
  else throw .uniqueViolation

/-- `INSERT INTO run_events`; the run must exist. -/
def insertEvent (now : Time) (runId : RunId) (type : EventType) (payload : Dict Text Json) :
    Block Unit := do
  let db ← get
  if db.runs.contains runId then
    set { db with runEvents := db.runEvents.append fun id => ⟨id, runId, now, type, payload⟩ }
  else throw .foreignKeyViolation

/-- `INSERT INTO approvals`; the run must exist. -/
def insertApproval (approval : Approval) : Block Unit := do
  let db ← get
  if !db.runs.contains approval.runId then throw .foreignKeyViolation
  else if fresh : db.approvals.find? approval.id = none then
    set { db with approvals := db.approvals.insert approval fresh }
  else throw .uniqueViolation

def insertSchedule (schedule : Schedule) : Block Unit := do
  let db ← get
  if fresh : db.schedules.find? schedule.id = none then
    set { db with schedules := db.schedules.insert schedule fresh }
  else throw .uniqueViolation

/-! ## What a statement that returns has done -/

def Db.setRuns (db : Db) (p : Run → Bool) (f : Table.Assignment Run.id) : Db :=
  { db with runs := db.runs.update p f }

def Db.setApprovals (db : Db) (p : Approval → Bool) (f : Table.Assignment Approval.id) : Db :=
  { db with approvals := db.approvals.update p f }

def Db.addRun (db : Db) (run : Run) (fresh : db.runs.find? run.id = none) : Db :=
  { db with runs := db.runs.insert run fresh }

def Db.addApproval (db : Db) (approval : Approval)
    (fresh : db.approvals.find? approval.id = none) : Db :=
  { db with approvals := db.approvals.insert approval fresh }

def Db.addEvent (db : Db) (now : Time) (runId : RunId) (type : EventType)
    (payload : Dict Text Json) : Db :=
  { db with runEvents := db.runEvents.append fun id => ⟨id, runId, now, type, payload⟩ }

theorem updateIn_ok {α : Type} {key : α → Uuid} {table : Db → Table Uuid α key}
    {write : Table Uuid α key → Db → Db} {p : α → Bool} {f : Table.Assignment key} {db db' : Db}
    {n : Nat} :
    (updateIn table write p f).run db = .ok (n, db') ↔
      (table db).rowcount p = n ∧ write ((table db).update p f) db = db' := by
  simp only [updateIn, Txn.bind_ok, Txn.get_ok, Txn.set_ok, Txn.pure_ok]
  constructor
  · rintro ⟨_, _, ⟨rfl, rfl⟩, _, _, rfl, rfl, rfl⟩
    exact ⟨rfl, rfl⟩
  · rintro ⟨rfl, rfl⟩
    exact ⟨db, db, ⟨rfl, rfl⟩, ⟨⟩, _, rfl, rfl, rfl⟩

theorem updateRuns_ok {p : Run → Bool} {f : Table.Assignment Run.id} {db db' : Db} {n : Nat} :
    (updateRuns p f).run db = .ok (n, db') ↔ db.runs.rowcount p = n ∧ db.setRuns p f = db' :=
  updateIn_ok

theorem updateApprovals_ok {p : Approval → Bool} {f : Table.Assignment Approval.id} {db db' : Db}
    {n : Nat} :
    (updateApprovals p f).run db = .ok (n, db') ↔
      db.approvals.rowcount p = n ∧ db.setApprovals p f = db' :=
  updateIn_ok

theorem updateSchedules_ok {p : Schedule → Bool} {f : Table.Assignment Schedule.id} {db db' : Db}
    {n : Nat} :
    (updateSchedules p f).run db = .ok (n, db') ↔
      db.schedules.rowcount p = n ∧ { db with schedules := db.schedules.update p f } = db' :=
  updateIn_ok

theorem insertEvent_ok {now : Time} {runId : RunId} {type : EventType} {payload : Dict Text Json}
    {db db' : Db} {x : Unit} :
    (insertEvent now runId type payload).run db = .ok (x, db') ↔
      db.runs.contains runId = true ∧ db.addEvent now runId type payload = db' := by
  simp only [insertEvent, Txn.bind_ok, Txn.get_ok]
  constructor
  · rintro ⟨_, _, ⟨rfl, rfl⟩, h⟩
    split_ifs at h with known
    · exact ⟨known, Txn.set_ok.mp h⟩
    · exact (Txn.throw_ok.mp h).elim
  · rintro ⟨known, rfl⟩
    exact ⟨db, db, ⟨rfl, rfl⟩, by rw [if_pos known]; exact Txn.set_ok.mpr rfl⟩

theorem insertRun_ok {run : Run} {db db' : Db} {x : Unit}
    (h : (insertRun run).run db = .ok (x, db')) : ∃ fresh, db' = db.addRun run fresh := by
  simp only [insertRun, Txn.bind_ok, Txn.get_ok] at h
  obtain ⟨_, _, ⟨rfl, rfl⟩, h⟩ := h
  split_ifs at h with _ fresh
  · exact (Txn.throw_ok.mp h).elim
  · exact ⟨fresh, (Txn.set_ok.mp h).symm⟩
  · exact (Txn.throw_ok.mp h).elim

theorem insertApproval_ok {approval : Approval} {db db' : Db} {x : Unit} :
    (insertApproval approval).run db = .ok (x, db') ↔
      db.runs.contains approval.runId = true ∧ ∃ fresh, db.addApproval approval fresh = db' := by
  simp only [insertApproval, Txn.bind_ok, Txn.get_ok]
  constructor
  · rintro ⟨_, _, ⟨rfl, rfl⟩, h⟩
    split_ifs at h with unknown fresh
    · exact (Txn.throw_ok.mp h).elim
    · exact ⟨by simpa using unknown, fresh, Txn.set_ok.mp h⟩
    · exact (Txn.throw_ok.mp h).elim
  · rintro ⟨known, fresh, rfl⟩
    refine ⟨db, db, ⟨rfl, rfl⟩, ?_⟩
    rw [if_neg (by simp [known]), dif_pos fresh]
    exact Txn.set_ok.mpr rfl

theorem insertApproval_error {approval : Approval} {db : Db} {e : Raised}
    (h : (insertApproval approval).run db = .error e) :
    e = .foreignKeyViolation ∨ e = .uniqueViolation := by
  simp only [insertApproval, Txn.bind_error, Txn.get_ok] at h
  rcases h with h | ⟨_, _, ⟨rfl, rfl⟩, h⟩
  · cases h
  · split_ifs at h with unknown fresh
    · cases h
      exact .inl rfl
    · cases h
    · cases h
      exact .inr rfl

theorem insertSchedule_ok {schedule : Schedule} {db db' : Db} {x : Unit}
    (h : (insertSchedule schedule).run db = .ok (x, db')) :
    ∃ fresh : db.schedules.find? schedule.id = none,
      db' = { db with schedules := db.schedules.insert schedule fresh } := by
  simp only [insertSchedule, Txn.bind_ok, Txn.get_ok] at h
  obtain ⟨_, _, ⟨rfl, rfl⟩, h⟩ := h
  split_ifs at h with fresh
  · exact ⟨fresh, (Txn.set_ok.mp h).symm⟩
  · exact (Txn.throw_ok.mp h).elim

end AgenticOctopus.Spine
