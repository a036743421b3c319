import AgenticOctopus.Spine.Operation

/-!
# What each operation does to a run

One specification for each operation: when its transaction returns, it has done one act to
one dossier and nothing to any other. The reaper and the scheduler act on many runs, and
on each at most once. Everything above this module is proved from these specifications.
-/
namespace AgenticOctopus.Spine
open Foundation

/-- One act on one run; every other run is as before. -/
def Db.Acts (db db' : Db) (runId : RunId) (act : Act) : Prop :=
  (db.dossier runId).Advance runId act (db'.dossier runId) ∧
    ∀ r, r ≠ runId → db'.dossier r = db.dossier r

/-- The dossiers do not see the schedules. -/
theorem dossier_congr {db db' : Db} (runs : db'.runs = db.runs)
    (approvals : db'.approvals = db.approvals) (events : db'.runEvents = db.runEvents)
    (r : RunId) : db'.dossier r = db.dossier r := by
  simp only [Db.dossier, Queue.listEvents, runs, approvals, events]

/-! ## Statements -/

theorem dossier_addEvent (db : Db) (now : Time) (runId : RunId) (type : EventType)
    (payload : Dict Text Json) (r : RunId) :
    (db.addEvent now runId type payload).dossier r =
      ⟨(db.dossier r).row, (db.dossier r).approvals, (db.dossier r).trail ++
        if runId = r then [⟨db.runEvents.next, runId, now, type, payload⟩] else []⟩ := by
  simp only [Db.dossier, Db.addEvent, Queue.listEvents]
  rw [SerialTable.select_append]
  by_cases h : runId = r <;> simp [h]

theorem dossier_setRuns (db : Db) (p : Run → Bool) (f : Table.Assignment Run.id) (r : RunId) :
    (db.setRuns p f).dossier r =
      ⟨(db.dossier r).row.map fun run => if p run then f.apply run else run,
        (db.dossier r).approvals, (db.dossier r).trail⟩ := by
  simp only [Db.dossier, Db.setRuns, Table.find?_update]
  rfl

theorem dossier_addRun (db : Db) (run : Run) (fresh : db.runs.find? run.id = none) (r : RunId) :
    (db.addRun run fresh).dossier r =
      ⟨if run.id = r then some run else (db.dossier r).row, (db.dossier r).approvals,
        (db.dossier r).trail⟩ := by
  simp only [Db.dossier, Db.addRun, Table.find?_insert]
  rfl

theorem dossier_addApproval (db : Db) (approval : Approval)
    (fresh : db.approvals.find? approval.id = none) (r : RunId) :
    (db.addApproval approval fresh).dossier r =
      ⟨(db.dossier r).row, (db.dossier r).approvals ++
        if approval.runId = r then [approval] else [], (db.dossier r).trail⟩ := by
  by_cases h : approval.runId = r <;>
    simp [Db.dossier, Db.addApproval, Table.insert, Queue.listEvents, h]

/-- A `SET` clause that leaves `run_id` alone rewrites the approvals of each run in place. -/
theorem dossier_setApprovals (db : Db) (p : Approval → Bool) (f : Table.Assignment Approval.id)
    (keeps : ∀ a, (f.apply a).runId = a.runId) (r : RunId) :
    (db.setApprovals p f).dossier r =
      ⟨(db.dossier r).row, (db.dossier r).approvals.map fun a => if p a then f.apply a else a,
        (db.dossier r).trail⟩ := by
  have same : ((fun a : Approval => decide (a.runId = r)) ∘
      fun a => if p a then f.apply a else a) = fun a => decide (a.runId = r) := by
    funext a
    by_cases h : p a <;> simp [h, keeps]
  simp only [Db.dossier, Db.setApprovals, Table.update, List.filter_map, same]
  rfl

/-- The extra fields of a status change, which name neither end of it. -/
structure Annotates (extra : Dict Text Json) : Prop where
  noFrom : extra.get? ↑"from" = none
  noTo : extra.get? ↑"to" = none

theorem RunEvent.records_of {ev : RunEvent} {a : Option RunStatus} {b : RunStatus}
    {extra : Dict Text Json} (type : ev.type = .statusChange)
    (payload : ev.payload = statusChange a b extra)
    (annotates : Annotates extra) : ev.Records a b := by
  refine ⟨type, ?_, ?_⟩
  · rw [payload, statusChange, Dict.get?_update_of_none _ _ annotates.noFrom]
    rfl
  · rw [payload, statusChange, Dict.get?_update_of_none _ _ annotates.noTo]
    rfl

/-- A conditional update of one run's row leaves the other rows alone. -/
theorem row_of_ne {db : Db} {runId r : RunId} {p : Run → Bool} {f : Table.Assignment Run.id}
    (only : ∀ run, p run = true → run.id = runId) (hr : r ≠ runId) :
    (db.setRuns p f).dossier r = db.dossier r := by
  rw [dossier_setRuns]
  refine Dossier.ext ?_ rfl rfl
  cases there : (db.dossier r).row with
  | none => rfl
  | some run =>
    have other : p run = false := by
      by_contra matched
      exact hr ((Table.key_of_find? there).symm.trans (only run (by simpa using matched)))
    simp [other]

theorem event_of_ne {db : Db} {now : Time} {runId r : RunId} {type : EventType}
    {payload : Dict Text Json} (hr : r ≠ runId) :
    (db.addEvent now runId type payload).dossier r = db.dossier r := by
  rw [dossier_addEvent, if_neg (Ne.symm hr), List.append_nil]

theorem dossier_of_find {db : Db} {r : RunId} {run : Run} (h : db.runs.find? r = some run) :
    db.dossier r = ⟨some run, (db.dossier r).approvals, (db.dossier r).trail⟩ :=
  Dossier.ext h rfl rfl

/-! ## Queue -/

namespace Queue

/-- Inserting a queued run and its first event, as `enqueue` and the scheduler do it. -/
theorem insert_acts {now : Time} {id : RunId} {run : Run} {extra : Dict Text Json}
    {db mid db' : Db} {x y : Unit} (blank : ∃ agent trigger params scheduleId maxAttempts tags,
      run = newRun now id agent trigger params scheduleId maxAttempts tags)
    (inserted : (insertRun run).run db = .ok (x, mid))
    (recorded : (insertEvent now id .statusChange (statusChange none .queued extra)).run mid =
      .ok (y, db'))
    (annotates : Annotates extra) :
    db.Acts db' id .enqueue := by
  obtain ⟨agent, trigger, params, scheduleId, maxAttempts, tags, rfl⟩ := blank
  obtain ⟨fresh, rfl⟩ := insertRun_ok inserted
  obtain ⟨-, rfl⟩ := insertEvent_ok.mp recorded
  constructor
  · have blank : db.dossier id = ⟨none, (db.dossier id).approvals, (db.dossier id).trail⟩ :=
      Dossier.ext fresh rfl rfl
    rw [dossier_addEvent, dossier_addRun, blank]
    simp only [newRun, if_true]
    exact .enqueue _ _ _ _ _ _ _ (RunEvent.records_of rfl rfl annotates)
  · intro r hr
    have other : (newRun now id agent trigger params scheduleId maxAttempts tags).id ≠ r :=
      Ne.symm hr
    rw [event_of_ne hr, dossier_addRun, if_neg other]

theorem enqueue_acts {now : Time} {id : RunId} {agent : Text} {trigger : Trigger}
    {params : Dict Text Json} {scheduleId : Option ScheduleId} {maxAttempts : Int}
    {tags : Dict Text Json} {db db' : Db} {x : RunId}
    (h : (enqueue now id agent trigger params scheduleId maxAttempts tags).run db =
      .ok (x, db')) :
    db.Acts db' id .enqueue := by
  simp only [enqueue, Txn.bind_ok, Txn.pure_ok] at h
  obtain ⟨_, _, inserted, _, _, recorded, -, rfl⟩ := h
  exact insert_acts ⟨_, _, _, _, _, _, rfl⟩ inserted recorded
    (by constructor <;> simp [Dict.get?])

/-! ## claim -/

theorem oldest_some {now : Time} {locked : RunId → Bool} {rows : List Run} {run : Run}
    (h : oldest now locked rows = some run) :
    run ∈ rows ∧ eligible now run = true ∧ locked run.id = false ∧
      ∀ r ∈ rows, eligible now r = true → locked r.id = false → run.createdAt ≤ r.createdAt := by
  have mem := List.minOn?_mem h
  simp only [List.mem_filter, Bool.and_eq_true, Bool.not_eq_true'] at mem
  refine ⟨mem.1, mem.2.1, mem.2.2, fun r hr he hl => ?_⟩
  have least := List.apply_get_minOn?_le_of_mem (f := Run.createdAt)
    (List.mem_filter.mpr ⟨hr, by simp [he, hl]⟩ :
      r ∈ rows.filter fun r => eligible now r && !locked r.id)
  simp only [oldest] at h
  simpa [h] using least

theorem oldest_none {now : Time} {locked : RunId → Bool} {rows : List Run}
    (h : oldest now locked rows = none) :
    ∀ r ∈ rows, eligible now r = true → locked r.id = true := by
  intro r hr he
  by_contra hl
  have there : r ∈ rows.filter fun r => eligible now r && !locked r.id :=
    List.mem_filter.mpr ⟨hr, by simpa [he] using hl⟩
  have some_row := List.isSome_minOn?_of_mem (f := Run.createdAt) there
  simp only [oldest] at h
  simp [h] at some_row

theorem claimRun_acts {now : Time} {run : Run} {workerId : WorkerId} {leaseMinutes : Int}
    {db db' : Db} {result : Run} (there : db.runs.find? run.id = some run)
    (queued : run.status = .queued)
    (h : (claimRun now run workerId leaseMinutes).run db = .ok (result, db')) :
    result = (claimSet now workerId leaseMinutes).apply run ∧
      db'.runs.find? run.id = some result ∧ db.Acts db' run.id (.claim workerId) := by
  simp only [claimRun, Txn.bind_ok, Txn.pure_ok, updateRuns_ok, insertEvent_ok] at h
  obtain ⟨_, _, ⟨-, rfl⟩, _, _, ⟨-, rfl⟩, rfl, rfl⟩ := h
  refine ⟨rfl, ?_, ?_, ?_⟩
  · simp [Db.addEvent, Db.setRuns, Table.find?_update, there]
  · rw [dossier_addEvent, dossier_setRuns, dossier_of_find there]
    simp only [Option.map_some, decide_true, if_true]
    exact .claim _ _ _ queued
      (RunEvent.records_of rfl rfl (by constructor <;> simp [Dict.get?]))
  · intro r hr
    rw [event_of_ne hr, row_of_ne (by simp) hr]

/-- A claim returns nothing and changes nothing, or it returns the claimed row of a run that
was eligible and not locked. -/
theorem claim_acts {now : Time} {locked : RunId → Bool} {workerId : WorkerId}
    {leaseMinutes : Int} {db db' : Db} {res : Option Run}
    (h : (claim now locked workerId leaseMinutes).run db = .ok (res, db')) :
    (res = none ∧ db' = db) ∨
      ∃ run, run ∈ db.runs ∧ eligible now run = true ∧ locked run.id = false ∧
        res = some ((claimSet now workerId leaseMinutes).apply run) ∧
        db'.runs.find? run.id = res ∧ db.Acts db' run.id (.claim workerId) := by
  simp only [claim, Txn.bind_ok, Txn.get_ok] at h
  obtain ⟨_, _, ⟨rfl, rfl⟩, h⟩ := h
  cases picked : oldest now locked db.runs.rows with
  | none =>
    rw [picked] at h
    obtain ⟨rfl, rfl⟩ := Txn.pure_ok.mp h
    exact .inl ⟨rfl, rfl⟩
  | some run =>
    rw [picked] at h
    obtain ⟨_, _, ran, h⟩ := Txn.bind_ok.mp h
    obtain ⟨rfl, rfl⟩ := Txn.pure_ok.mp h
    obtain ⟨mem, elig, free, -⟩ := oldest_some picked
    have queued : run.status = .queued := by
      simp only [eligible, Bool.and_eq_true, decide_eq_true_eq] at elig
      exact elig.1
    obtain ⟨rfl, is, acts⟩ := claimRun_acts (Table.find?_of_mem mem) queued ran
    exact .inr ⟨run, mem, elig, free, rfl, is, acts⟩

theorem claimRun_returns {now : Time} {run : Run} {workerId : WorkerId} {leaseMinutes : Int}
    {db : Db} (there : run ∈ db.runs) :
    ∃ db', (claimRun now run workerId leaseMinutes).run db =
      .ok ((claimSet now workerId leaseMinutes).apply run, db') := by
  have known : (db.setRuns (fun r => decide (r.id = run.id))
      (claimSet now workerId leaseMinutes)).runs.contains run.id = true := by
    simp [Table.contains, Db.setRuns, Table.find?_update, Table.find?_of_mem there]
  simp only [claimRun, Txn.bind_ok, Txn.pure_ok, updateRuns_ok, insertEvent_ok]
  exact ⟨_, _, _, ⟨rfl, rfl⟩, (), _, ⟨known, rfl⟩, trivial, rfl⟩

/-- A claim that finds a run in the queue returns the oldest that it finds. -/
theorem claim_returns {now : Time} {locked : RunId → Bool} {workerId : WorkerId}
    {leaseMinutes : Int} {db : Db} {waiting : Run} (there : waiting ∈ db.runs)
    (queued : eligible now waiting = true) (free : locked waiting.id = false) :
    ∃ run ∈ db.runs, run.createdAt ≤ waiting.createdAt ∧ ∃ db',
      (claim now locked workerId leaseMinutes).run db =
        .ok (some ((claimSet now workerId leaseMinutes).apply run), db') := by
  cases picked : oldest now locked db.runs.rows with
  | none =>
    have some_ := List.isSome_minOn?_of_mem (f := Run.createdAt)
      (List.mem_filter.mpr ⟨there, by simp [queued, free]⟩ :
        waiting ∈ db.runs.rows.filter fun r => eligible now r && !locked r.id)
    rw [← oldest, picked] at some_
    cases some_
  | some run =>
    obtain ⟨mem, -, -, least⟩ := oldest_some picked
    obtain ⟨db', ran⟩ : ∃ db', (claimRun now run workerId leaseMinutes).run db =
        .ok ((claimSet now workerId leaseMinutes).apply run, db') := claimRun_returns mem
    refine ⟨run, mem, least waiting there queued free, db', ?_⟩
    refine Txn.bind_ok.mpr ⟨db, db, rfl, ?_⟩
    rw [picked]
    exact Txn.bind_ok.mpr ⟨_, _, ran, rfl⟩

end Queue

/-! ## Guarded moves -/

theorem move_writes {db : Db} {runId : RunId} {run : Run} {a : RunStatus} (now : Time)
    (b : RunStatus) (extraSet : Table.Assignment Run.id) (payload : Dict Text Json)
    (there : db.runs.find? runId = some run) (status : run.status = a) :
    (db.move now runId a b extraSet payload).dossier runId =
      ⟨some ((setStatus b extraSet).apply run), (db.dossier runId).approvals,
        (db.dossier runId).trail ++ [⟨db.runEvents.next, runId, now, .statusChange,
          statusChange (some a) b payload⟩]⟩ := by
  rw [Db.move, dossier_addEvent, dossier_setRuns, dossier_of_find there]
  simp [inStatus, Table.key_of_find? there, status, Db.setRuns]

theorem move_dossier {db : Db} {runId : RunId} {run : Run} {a : RunStatus} (now : Time)
    (b : RunStatus) (extraSet : Table.Assignment Run.id) (payload : Dict Text Json)
    (there : db.runs.find? runId = some run) (status : run.status = a)
    (annotates : Annotates payload) :
    ∃ ev : RunEvent, ev.Records (some a) b ∧ ev.payload = statusChange (some a) b payload ∧
      (db.move now runId a b extraSet payload).dossier runId =
        ⟨some ((setStatus b extraSet).apply run), (db.dossier runId).approvals,
          (db.dossier runId).trail ++ [ev]⟩ :=
  ⟨_, RunEvent.records_of rfl rfl annotates, rfl,
    move_writes now b extraSet payload there status⟩

theorem move_of_ne {db : Db} {runId r : RunId} {a b : RunStatus}
    {extraSet : Table.Assignment Run.id} {payload : Dict Text Json} (now : Time)
    (hr : r ≠ runId) :
    (db.move now runId a b extraSet payload).dossier r = db.dossier r := by
  rw [Db.move, event_of_ne hr, row_of_ne (fun run matched => ?_) hr]
  simp only [inStatus, Bool.and_eq_true, decide_eq_true_eq] at matched
  exact matched.1

namespace Queue

theorem errorPayload_annotates (error : Option Text) : Annotates (errorPayload error) := by
  unfold errorPayload
  cases error with
  | none => exact ⟨rfl, rfl⟩
  | some error =>
    dsimp only
    split_ifs <;> constructor <;> simp [Dict.get?]

theorem finish_acts {now : Time} {runId : RunId} {status : RunStatus}
    {result error : Option Text} {costUsd : Option Usd} {sessionId : Option Text} {db db' : Db}
    {x : Unit}
    (h : (finish now runId status result error costUsd sessionId).run db = .ok (x, db')) :
    db.Acts db' runId (.finish status result error costUsd) := by
  rw [finish] at h
  split_ifs at h with outcome
  · exact (Txn.throw_ok.mp h).elim
  obtain ⟨-, ⟨run, there, running⟩, rfl⟩ := transition_ok.mp h
  obtain ⟨ev, recorded, -, after⟩ := move_dossier now status
    (finishSet now result error costUsd sessionId) (errorPayload error) there running
    (errorPayload_annotates error)
  refine ⟨?_, fun r hr => move_of_ne now hr⟩
  rw [after, dossier_of_find there]
  refine .finish _ _ _ _ _ _ ?_ running recorded
  tauto

/-- `heartbeat` answers whether the worker owns the run, and extends the lease if it does. -/
theorem heartbeat_acts {now : Time} {runId : RunId} {workerId : WorkerId} {leaseMinutes : Int}
    {db db' : Db} {res : Bool}
    (h : (heartbeat now runId workerId leaseMinutes).run db = .ok (res, db')) :
    res = (db.runs.find? runId).any (fun run =>
        decide (run.status = .running ∧ run.lockedBy = some workerId)) ∧
      db' = db.setRuns (heldBy runId workerId) (leaseSet now leaseMinutes) ∧
      ((res = false ∧ ∀ r, db'.dossier r = db.dossier r) ∨
        (res = true ∧ db.Acts db' runId (.heartbeat workerId))) := by
  simp only [heartbeat, Txn.bind_ok, Txn.pure_ok, updateRuns_ok] at h
  obtain ⟨_, _, ⟨rfl, rfl⟩, rfl, rfl⟩ := h
  have count : db.runs.rowcount (heldBy runId workerId) = _ := db.runs.rowcount_key runId _
  have only : ∀ run, heldBy runId workerId run = true → run.id = runId := by
    intro run matched
    simp only [heldBy, Bool.and_eq_true, decide_eq_true_eq] at matched
    exact matched.1
  rw [count]
  refine ⟨?_, rfl, ?_⟩
  · split_ifs with held
    · rw [held]
      rfl
    · rw [Bool.eq_false_iff.mpr held]
      rfl
  · split_ifs with held
    · obtain ⟨run, there, owned⟩ := (Option.any_eq_true _ _).mp held
      simp only [decide_eq_true_eq] at owned
      refine .inr ⟨rfl, ?_, fun r hr => row_of_ne only hr⟩
      rw [dossier_setRuns, dossier_of_find there]
      simp only [Option.map_some, heldBy, Table.key_of_find? there, owned]
      exact .heartbeat _ _ _ owned.1 owned.2
    · refine .inl ⟨rfl, fun r => ?_⟩
      by_cases hr : r = runId
      · subst hr
        rw [dossier_setRuns]
        refine Dossier.ext ?_ rfl rfl
        cases there : (db.dossier r).row with
        | none => rfl
        | some run =>
          have unowned : heldBy r workerId run = false := by
            have there' : db.runs.find? r = some run := there
            rw [there'] at held
            simpa [heldBy, Table.key_of_find? there'] using held
          simp [unowned]
      · exact row_of_ne only hr

theorem recordEvent_acts {now : Time} {runId : RunId} {type : EventType}
    {payload : Dict Text Json} {db db' : Db} {x : Unit} (emitted : type ≠ .statusChange)
    (h : (recordEvent now runId type payload).run db = .ok (x, db')) :
    db.Acts db' runId .emit := by
  obtain ⟨known, rfl⟩ := insertEvent_ok.mp h
  obtain ⟨run, there⟩ := Option.isSome_iff_exists.mp known
  refine ⟨?_, fun r hr => event_of_ne hr⟩
  rw [dossier_addEvent, dossier_of_find there, if_pos rfl]
  exact .emit emitted

end Queue

theorem setTags_acts {runId : RunId} {tags : Dict Text Json} {db db' : Db} {x : Unit}
    (h : (setTags runId tags).run db = .ok (x, db')) :
    (∀ r, db'.dossier r = db.dossier r) ∨ db.Acts db' runId .retag := by
  simp only [setTags, Txn.bind_ok, Txn.pure_ok, updateRuns_ok] at h
  obtain ⟨_, _, ⟨-, rfl⟩, -, rfl⟩ := h
  have other : ∀ r, r ≠ runId →
      (db.setRuns (fun run => decide (run.id = runId)) (tagsSet tags)).dossier r = db.dossier r :=
    fun r hr => row_of_ne (by simp) hr
  cases there : db.runs.find? runId with
  | none =>
    refine .inl fun r => ?_
    by_cases hr : r = runId
    · subst hr
      rw [dossier_setRuns]
      exact Dossier.ext (by simp [Db.dossier, there]) rfl rfl
    · exact other r hr
  | some run =>
    refine .inr ⟨?_, other⟩
    rw [dossier_setRuns, dossier_of_find there]
    simp only [Option.map_some, Table.key_of_find? there, decide_true, if_true]
    exact .retag tags

/-! ## Approvals -/

namespace Approvals

theorem decisionPayload_annotates (via : Text) (note : Option Text) :
    Annotates (decisionPayload via note) := by
  constructor <;> simp [decisionPayload, Dict.get?]

theorem request_acts {now : Time} {id : ApprovalId} {runId : RunId} {action : Text}
    {payload : Dict Text Json} {db db' : Db} {x : ApprovalId}
    (h : (request now id runId action payload).run db = .ok (x, db')) :
    x = id ∧ db.Acts db' runId .park := by
  simp only [request, Txn.bind_ok, Txn.pure_ok, insertApproval_ok, transition_ok] at h
  obtain ⟨_, _, ⟨-, fresh, rfl⟩, _, _, ⟨-, ⟨run, there, running⟩, rfl⟩, rfl, rfl⟩ := h
  obtain ⟨ev, recorded, -, after⟩ := move_dossier now .awaitingApproval parkSet
    [(↑"approval_id", .str id), (↑"action", .str action)] there running
    (by constructor <;> simp [Dict.get?])
  refine ⟨rfl, ?_, fun r hr => ?_⟩
  · have known : db.runs.find? runId = some run := there
    rw [after, dossier_addApproval, dossier_of_find known]
    simp only [newApproval, if_true]
    exact .park _ _ _ _ running recorded
  · rw [move_of_ne now hr, dossier_addApproval]
    simp [newApproval, Ne.symm hr]

/-- What a returning `decide` found, the run awaiting approval and a pending row, and what it
left. -/
theorem decide_ok {now : Time} {runId : RunId} {approved : Bool} {via : Text}
    {note : Option Text} {db db' : Db} {x : Unit}
    (h : (decide now runId approved via note).run db = .ok (x, db')) :
    (∃ run, db.runs.find? runId = some run ∧ run.status = .awaitingApproval) ∧
      (∃ a ∈ db.approvals, pendingOf runId a = true) ∧
      db' = (db.setApprovals (pendingOf runId) (decisionSet now approved via note)).move now
        runId .awaitingApproval (verdict approved) (closeSet now approved)
        (decisionPayload via note) := by
  simp only [decide, Txn.bind_ok, updateApprovals_ok] at h
  obtain ⟨_, _, ⟨rfl, rfl⟩, h⟩ := h
  split_ifs at h with none_pending
  · exact (Txn.throw_ok.mp h).elim
  obtain ⟨-, there, rfl⟩ := transition_ok.mp h
  refine ⟨there, ?_, rfl⟩
  rw [Table.rowcount_eq_zero] at none_pending
  push Not at none_pending
  obtain ⟨a, ha, matched⟩ := none_pending
  exact ⟨a, ha, by simpa using matched⟩

theorem decide_acts {now : Time} {runId : RunId} {approved : Bool} {via : Text}
    {note : Option Text} {db db' : Db} {x : Unit}
    (h : (decide now runId approved via note).run db = .ok (x, db')) :
    db.Acts db' runId (.decide approved) := by
  obtain ⟨⟨run, there, awaiting⟩, ⟨a, ha, matched⟩, rfl⟩ := decide_ok h
  have kept : (db.setApprovals (pendingOf runId)
      (decisionSet now approved via note)).runs.find? runId = some run := there
  obtain ⟨ev, recorded, -, after⟩ := move_dossier now (verdict approved) (closeSet now approved)
    (decisionPayload via note) kept awaiting (decisionPayload_annotates via note)
  have keeps : ∀ a, ((decisionSet now approved via note).apply a).runId = a.runId := fun _ => rfl
  refine ⟨?_, fun r hr => ?_⟩
  · rw [after, dossier_setApprovals _ _ _ keeps, dossier_of_find there]
    have mine : (db.dossier runId).approvals.map
          (fun a => if pendingOf runId a then (decisionSet now approved via note).apply a else a) =
        (db.dossier runId).approvals.map
          (fun a => if a.status = .pending then (decisionSet now approved via note).apply a
            else a) := by
      refine List.map_congr_left fun a ha => ?_
      have own : a.runId = runId := by simpa using (List.mem_filter.mp ha).2
      simp [pendingOf, own]
    rw [mine]
    refine .decide _ _ _ _ awaiting ?_ recorded
    simp only [pendingOf, Bool.and_eq_true, decide_eq_true_eq] at matched
    exact ⟨a, List.mem_filter.mpr ⟨ha, by simp [matched.1]⟩, matched.2⟩
  · rw [move_of_ne now hr, dossier_setApprovals _ _ _ keeps]
    refine Dossier.ext rfl ?_ rfl
    refine (List.map_congr_left fun a ha => ?_).trans (List.map_id _)
    have own : a.runId = r := by simpa using (List.mem_filter.mp ha).2
    simp [pendingOf, own, hr]

end Approvals

end AgenticOctopus.Spine
