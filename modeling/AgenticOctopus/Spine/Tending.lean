import AgenticOctopus.Spine.Firing
import AgenticOctopus.Spine.Refinement

/-!
# What the other operations leave of schedules and firings

Only a tick moves `next_run_at` and only a tick enqueues a run for a schedule. The operator's
operations switch a schedule on and off or add one that has not fired; the queue's operations
do not touch the schedules, and write only those columns of a run that its life moves.
-/
namespace AgenticOctopus.Spine
open Foundation

/-- The row as it was inserted: the columns that later statements write are blank. -/
def Run.origin (r : Run) : Run :=
  { r with
    status := .queued
    attempts := 0
    lockedBy := none
    leaseExpiresAt := none
    sessionId := none
    result := none
    error := none
    costUsd := none
    startedAt := none
    finishedAt := none
    tags := [] }

theorem Dossier.Advance.origin {runId : RunId} {d d' : Dossier} {act : Act}
    (h : d.Advance runId act d') {run : Run} (there : d.row = some run) :
    ∃ run', d'.row = some run' ∧ run'.origin = run.origin := by
  cases h with
  | enqueue => cases there
  | emit => exact ⟨run, there, rfl⟩
  | _ =>
    cases there
    exact ⟨_, rfl, rfl⟩

theorem Op.keeps_origin {now : Time} {op : Op} {db db' : Db}
    (h : (op.block now).run db = .ok ((), db')) {r : RunId} {run : Run}
    (there : db.runs.find? r = some run) :
    ∃ run', db'.runs.find? r = some run' ∧ run'.origin = run.origin := by
  rcases op.effect_of_ok h r with same | ⟨act, -, advance⟩
  · exact ⟨run, (congrArg Dossier.row same).trans there, rfl⟩
  · exact advance.origin there

/-! ## The queue's operations leave the schedules alone -/

theorem updateRuns_leaves {p : Run → Bool} {f : Table.Assignment Run.id} :
    (updateRuns p f).Leaves Db.schedules := by
  intro db n db' h
  rw [← (updateRuns_ok.mp h).2]
  rfl

theorem insertEvent_leaves {now : Time} {runId : RunId} {type : EventType}
    {payload : Dict Text Json} : (insertEvent now runId type payload).Leaves Db.schedules := by
  intro db x db' h
  rw [← (insertEvent_ok.mp h).2]
  rfl

theorem transition_leaves {now : Time} {runId : RunId} {a b : RunStatus}
    {extraSet : Table.Assignment Run.id} {payload : Dict Text Json} :
    (transition now runId a b extraSet payload).Leaves Db.schedules := by
  intro db x db' h
  rw [(transition_ok.mp h).2.2]
  rfl

namespace Queue

theorem enqueue_ok {now : Time} {id x : RunId} {agent : Text} {trigger : Trigger}
    {params : Dict Text Json} {scheduleId : Option ScheduleId} {maxAttempts : Int}
    {tags : Dict Text Json} {db db' : Db}
    (h : (enqueue now id agent trigger params scheduleId maxAttempts tags).run db =
      .ok (x, db')) :
    (∀ r, db'.runs.find? r = if id = r then
        some (newRun now id agent trigger params scheduleId maxAttempts tags)
      else db.runs.find? r) ∧ db'.schedules = db.schedules := by
  simp only [enqueue, Txn.bind_ok, Txn.pure_ok, insertEvent_ok] at h
  obtain ⟨_, _, inserted, _, _, ⟨-, rfl⟩, -, rfl⟩ := h
  obtain ⟨fresh, rfl⟩ := insertRun_ok inserted
  exact ⟨fun r => Table.find?_insert _ _ fresh r, rfl⟩

theorem claim_leaves {now : Time} {locked : RunId → Bool} {workerId : WorkerId}
    {leaseMinutes : Int} : (claim now locked workerId leaseMinutes).Leaves Db.schedules := by
  refine Txn.leaves_bind Txn.leaves_get fun db => ?_
  cases oldest now locked db.runs.rows with
  | none => exact Txn.leaves_pure _
  | some run =>
    exact Txn.leaves_bind (Txn.leaves_bind updateRuns_leaves fun _ =>
      Txn.leaves_bind insertEvent_leaves fun _ => Txn.leaves_pure _) fun _ => Txn.leaves_pure _

theorem recordAll_leaves {now : Time} {payload : Dict Text Json} (rids : List RunId) :
    (recordAll now payload rids).Leaves Db.schedules := by
  induction rids with
  | nil => exact Txn.leaves_pure _
  | cons rid rids ih => exact Txn.leaves_bind insertEvent_leaves fun _ => ih

theorem updateReturning_leaves {p : Run → Bool} {f : Table.Assignment Run.id} :
    (updateReturning p f).Leaves Db.schedules :=
  Txn.leaves_bind Txn.leaves_get fun _ => Txn.leaves_bind updateRuns_leaves fun _ =>
    Txn.leaves_pure _

theorem reapExpired_leaves {now : Time} {locked : RunId → Bool} :
    (reapExpired now locked).Leaves Db.schedules :=
  Txn.leaves_bind updateReturning_leaves fun requeued =>
    Txn.leaves_bind updateReturning_leaves fun failed =>
      Txn.leaves_bind (recordAll_leaves requeued) fun _ =>
        Txn.leaves_bind (recordAll_leaves failed) fun _ => Txn.leaves_pure _

end Queue

theorem Approvals.request_leaves {now : Time} {id : ApprovalId} {runId : RunId} {action : Text}
    {payload : Dict Text Json} : (request now id runId action payload).Leaves Db.schedules := by
  refine Txn.leaves_bind (fun db x db' h => ?_) fun _ =>
    Txn.leaves_bind transition_leaves fun _ => Txn.leaves_pure _
  obtain ⟨-, fresh, rfl⟩ := insertApproval_ok.mp h
  rfl

theorem Approvals.decide_leaves {now : Time} {runId : RunId} {approved : Bool} {via : Text}
    {note : Option Text} : (decide now runId approved via note).Leaves Db.schedules := by
  refine Txn.leaves_bind (fun db n db' h => ?_) fun _ =>
    Txn.leaves_ite (Txn.leaves_throw _) transition_leaves
  rw [← (updateApprovals_ok.mp h).2]
  rfl

/-- The operations of the operator and of the scheduler. -/
def Op.IsScheduling : Op → Bool
  | .tick .. | .syncFromRegistry .. | .createSchedule .. | .toggleSchedule .. => true
  | _ => false

theorem Op.leaves_schedules (now : Time) {op : Op} (queueing : op.IsScheduling = false) :
    (op.block now).Leaves Db.schedules := by
  cases op with
  | enqueue =>
    refine Txn.leaves_bind (fun db x db' h => ?_) fun _ => Txn.leaves_pure _
    exact (Queue.enqueue_ok h).2
  | claim => exact Txn.leaves_bind Queue.claim_leaves fun _ => Txn.leaves_pure _
  | heartbeat =>
    exact Txn.leaves_bind (Txn.leaves_bind updateRuns_leaves fun _ => Txn.leaves_pure _) fun _ =>
      Txn.leaves_pure _
  | finish => exact Txn.leaves_ite (Txn.leaves_throw _) transition_leaves
  | reapExpired => exact Txn.leaves_bind Queue.reapExpired_leaves fun _ => Txn.leaves_pure _
  | request => exact Txn.leaves_bind Approvals.request_leaves fun _ => Txn.leaves_pure _
  | decide => exact Approvals.decide_leaves
  | recordEvent => exact insertEvent_leaves
  | setTags => exact Txn.leaves_bind updateRuns_leaves fun _ => Txn.leaves_pure _
  | tick | syncFromRegistry | createSchedule | toggleSchedule => cases queueing

namespace Scheduler

/-- An operation other than a tick, with the host of the ticks. No caller of `enqueue` names a
schedule. -/
def OtherThanTick (host : Host) : Op → Prop
  | .tick .. => False
  | .enqueue _ _ _ _ scheduleId _ _ => scheduleId = none
  | .syncFromRegistry h .. | .createSchedule h .. => h = host
  | _ => True

/-- What operations other than ticks leave: no schedule has fired. -/
structure Tends (host : Host) (db db' : Db) : Prop where
  rows : ∀ s row, db.schedules.find? s = some row →
    ∃ enabled, db'.schedules.find? s = some { row with enabled := enabled }
  created : ∀ s row, db.schedules.find? s = none → db'.schedules.find? s = some row →
    row.lastRunId = none ∧ ∃ clock, host.getNext row.cronExpr row.timezone clock =
      some row.nextRunAt
  runs : ∀ r run, db.runs.find? r = some run →
    ∃ run', db'.runs.find? r = some run' ∧ run'.origin = run.origin
  enqueued : ∀ r run, db.runs.find? r = none → db'.runs.find? r = some run →
    run.scheduleId = none

variable {host : Host} {db db' : Db}

theorem Tends.of_schedules (same : db'.schedules = db.schedules)
    (runs : ∀ r run, db.runs.find? r = some run →
      ∃ run', db'.runs.find? r = some run' ∧ run'.origin = run.origin)
    (enqueued : ∀ r run, db.runs.find? r = none → db'.runs.find? r = some run →
      run.scheduleId = none) : Tends host db db' where
  rows s row there := ⟨row.enabled, by rw [same]; exact there⟩
  created s row absent there := by
    rw [same, absent] at there
    cases there
  runs := runs
  enqueued := enqueued

theorem Tends.of_runs (same : db'.runs = db.runs)
    (rows : ∀ s row, db.schedules.find? s = some row →
      ∃ enabled, db'.schedules.find? s = some { row with enabled := enabled })
    (created : ∀ s row, db.schedules.find? s = none → db'.schedules.find? s = some row →
      row.lastRunId = none ∧ ∃ clock, host.getNext row.cronExpr row.timezone clock =
        some row.nextRunAt) : Tends host db db' where
  rows := rows
  created := created
  runs r run there := ⟨run, by rw [same]; exact there, rfl⟩
  enqueued r run absent there := by
    rw [same, absent] at there
    cases there

theorem Tends.refl (db : Db) : Tends host db db :=
  .of_runs rfl (fun _ row there => ⟨row.enabled, there⟩) fun _ _ absent there => by
    rw [absent] at there
    cases there

theorem Tends.trans {mid : Db} (first : Tends host db mid) (second : Tends host mid db') :
    Tends host db db' where
  rows s row there := by
    obtain ⟨_, between⟩ := first.rows s row there
    obtain ⟨enabled, later⟩ := second.rows s _ between
    exact ⟨enabled, later⟩
  created s row absent there := by
    cases between : mid.schedules.find? s with
    | none => exact second.created s row between there
    | some row' =>
      obtain ⟨enabled, later⟩ := second.rows s row' between
      rw [there] at later
      cases later
      exact first.created s row' absent between
  runs r run there := by
    obtain ⟨run', between, same⟩ := first.runs r run there
    obtain ⟨run'', later, same'⟩ := second.runs r run' between
    exact ⟨run'', later, same'.trans same⟩
  enqueued r run absent there := by
    cases between : mid.runs.find? r with
    | none => exact second.enqueued r run between there
    | some run' =>
      obtain ⟨run'', later, same⟩ := second.runs r run' between
      rw [there] at later
      cases later
      exact (congrArg Run.scheduleId same).trans (first.enqueued r run' absent between)

/-! ## The operator's operations -/

theorem insertSchedule_tends {row : Schedule} {x : Unit} {clock : Time}
    (computed : host.getNext row.cronExpr row.timezone clock = some row.nextRunAt)
    (unfired : row.lastRunId = none) (h : (insertSchedule row).run db = .ok (x, db')) :
    Tends host db db' := by
  obtain ⟨fresh, rfl⟩ := insertSchedule_ok h
  refine .of_runs rfl (fun s row' there => ⟨row'.enabled, ?_⟩) fun s row' absent there => ?_
  · have other : row.id ≠ s := by
      rintro rfl
      rw [fresh] at there
      cases there
    rw [Table.find?_insert, if_neg other, there]
  · rw [Table.find?_insert] at there
    split_ifs at there
    · cases there
      exact ⟨unfired, clock, computed⟩
    · rw [absent] at there
      cases there

theorem updateSchedules_tends {p : Schedule → Bool} {f : Table.Assignment Schedule.id} {n : Nat}
    (switches : ∀ row, ∃ enabled, f.apply row = { row with enabled := enabled })
    (h : (updateSchedules p f).run db = .ok (n, db')) : Tends host db db' := by
  obtain ⟨-, rfl⟩ := updateSchedules_ok.mp h
  refine .of_runs rfl (fun s row there => ?_) fun s row absent there => ?_
  · rw [Table.find?_update, there]
    obtain ⟨enabled, switched⟩ := switches row
    by_cases matched : p row
    · exact ⟨enabled, by rw [Option.map_some, if_pos matched, switched]⟩
    · exact ⟨row.enabled, by rw [Option.map_some, if_neg matched]⟩
  · rw [Table.find?_update, absent] at there
    cases there

theorem Edits.tends (edits : Edits host db db') : Tends host db db' := by
  cases edits with
  | nothing => exact .refl _
  | switch switches updated => exact updateSchedules_tends switches updated
  | add computed unfired inserted => exact insertSchedule_tends computed unfired inserted

/-! ## Every operation but the tick -/

theorem tends_of_ok {now : Time} {op : Op} (other : OtherThanTick host op)
    (h : (op.block now).run db = .ok ((), db')) : Tends host db db' := by
  cases scheduling : op.IsScheduling with
  | false =>
    refine .of_schedules (Op.leaves_schedules now scheduling _ _ _ h)
      (fun r run there => op.keeps_origin h there) fun r run absent there => ?_
    rcases Op.effect_of_ok h r with same | ⟨act, performs, advance⟩
    · have still : db'.runs.find? r = none := (congrArg Dossier.row same).trans absent
      rw [still] at there
      cases there
    · obtain rfl := advance.enqueue_of_absent absent
      cases op with
      | enqueue id agent trigger params scheduleId maxAttempts tags =>
        obtain ⟨_, _, ran, h⟩ := Txn.bind_ok.mp h
        obtain ⟨-, rfl⟩ := Txn.pure_ok.mp h
        obtain ⟨rfl, -⟩ := performs
        rw [(Queue.enqueue_ok ran).1, if_pos rfl] at there
        cases there
        exact other
      | tick => cases scheduling
      | _ => simp [Op.Performs] at performs
  | true =>
    cases op with
    | tick => exact other.elim
    | syncFromRegistry host' clocks ids registry =>
      obtain ⟨_, _, ran, h⟩ := Txn.bind_ok.mp h
      obtain ⟨-, rfl⟩ := Txn.pure_ok.mp h
      obtain rfl : host' = host := other
      exact syncFromRegistry_induction .refl .trans Edits.tends ran
    | createSchedule host' clock registry id agent cronExpr timezone params =>
      obtain ⟨_, _, ran, h⟩ := Txn.bind_ok.mp h
      obtain ⟨-, rfl⟩ := Txn.pure_ok.mp h
      obtain rfl : host' = host := other
      exact (createSchedule_edits ran).tends
    | toggleSchedule scheduleId =>
      obtain ⟨_, _, ran, h⟩ := Txn.bind_ok.mp h
      obtain ⟨-, rfl⟩ := Txn.pure_ok.mp h
      obtain ⟨_, _, -, -, updated⟩ := toggleSchedule_ok ran
      exact updateSchedules_tends (fun row => ⟨!row.enabled, rfl⟩) updated
    | _ => cases scheduling

theorem tends_after {now : Time} {op : Op} (other : OtherThanTick host op) (db : Db) :
    Tends host db (op.after now db) := by
  rcases Txn.after_cases (op.block now) db with same | ⟨_, ran⟩
  · rw [Op.after, same]
    exact .refl db
  · exact tends_of_ok other ran

end Scheduler

end AgenticOctopus.Spine
