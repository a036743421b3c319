import AgenticOctopus.Spine.Refinement

/-!
# What a transaction enters for a run

The acts of a run's life with nothing left open: the instant of the transaction, the columns
that it sets and the event that it writes. Where `Advance` says which kind of act an operation
does, an entry says what the tables hold after it, so the row of a run and its events can be
compared word for word.
-/
namespace AgenticOctopus.Spine
open Foundation

/-- The event of a change of status at `now`. -/
def RunEvent.change (id : Nat) (runId : RunId) (now : Time) (a : Option RunStatus) (b : RunStatus)
    (extra : Dict Text Json) : RunEvent :=
  ⟨id, runId, now, .statusChange, statusChange a b extra⟩

section Change

variable {n : Nat} {runId : RunId} {now : Time} {a : Option RunStatus} {b : RunStatus}
  {extra : Dict Text Json}

@[simp] theorem ts_change : (RunEvent.change n runId now a b extra).ts = now := rfl

@[simp] theorem type_change :
    (RunEvent.change n runId now a b extra).type = .statusChange := rfl

end Change

def enqueuePayload (trigger : Trigger) : Dict Text Json := [(↑"trigger", .str trigger.value)]

def claimPayload (workerId : WorkerId) : Dict Text Json := [(↑"worker", .str workerId)]

def parkPayload (id : ApprovalId) (action : Text) : Dict Text Json :=
  [(↑"approval_id", .str id), (↑"action", .str action)]

def lostPayload : Dict Text Json := [(↑"reason", .str ↑"lease_expired")]

inductive Dossier.Entry (runId : RunId) (now : Time) : Dossier → Dossier → Prop where
  | enqueue {as es} (n agent trigger params scheduleId maxAttempts tags) :
      Entry runId now ⟨none, as, es⟩
        ⟨some (Queue.newRun now runId agent trigger params scheduleId maxAttempts tags), as,
          es ++ [.change n runId now none .queued (enqueuePayload trigger)]⟩
  | claim {run as es} (n workerId lease) (queued : run.status = .queued)
      (available : run.availableAt ≤ now) :
      Entry runId now ⟨some run, as, es⟩
        ⟨some ((Queue.claimSet now workerId lease).apply run), as,
          es ++ [.change n runId now (some .queued) .running (claimPayload workerId)]⟩
  | heartbeat {run as es} (workerId lease) (running : run.status = .running)
      (held : run.lockedBy = some workerId) :
      Entry runId now ⟨some run, as, es⟩ ⟨some ((Queue.leaseSet now lease).apply run), as, es⟩
  | finish {run as es} (n status result error costUsd sessionId)
      (outcome : status = .completed ∨ status = .failed) (running : run.status = .running) :
      Entry runId now ⟨some run, as, es⟩
        ⟨some ((setStatus status (Queue.finishSet now result error costUsd sessionId)).apply run),
          as, es ++ [.change n runId now (some .running) status (Queue.errorPayload error)]⟩
  | park {run as es} (n id action payload) (running : run.status = .running) :
      Entry runId now ⟨some run, as, es⟩
        ⟨some ((setStatus .awaitingApproval Approvals.parkSet).apply run),
          as ++ [Approvals.newApproval now id runId action payload],
          es ++ [.change n runId now (some .running) .awaitingApproval (parkPayload id action)]⟩
  | decide {run as es} (n approved via note) (awaiting : run.status = .awaitingApproval) :
      Entry runId now ⟨some run, as, es⟩
        ⟨some ((setStatus (Approvals.verdict approved)
            (Approvals.closeSet now approved)).apply run),
          as.map fun a =>
            if a.status = .pending then (Approvals.decisionSet now approved via note).apply a
            else a,
          es ++ [.change n runId now (some .awaitingApproval) (Approvals.verdict approved)
            (Approvals.decisionPayload via note)]⟩
  | requeue {run as es} (n) (running : run.status = .running) :
      Entry runId now ⟨some run, as, es⟩
        ⟨some (Queue.requeueSet.apply run), as,
          es ++ [.change n runId now (some .running) .queued lostPayload]⟩
  | expire {run as es} (n) (running : run.status = .running) :
      Entry runId now ⟨some run, as, es⟩
        ⟨some ((Queue.deadSet now).apply run), as,
          es ++ [.change n runId now (some .running) .failed lostPayload]⟩
  | emit {run as es ev} (emitted : ev.type ≠ .statusChange) (stamped : ev.ts = now) :
      Entry runId now ⟨some run, as, es⟩ ⟨some run, as, es ++ [ev]⟩
  | retag {run as es} (tags) :
      Entry runId now ⟨some run, as, es⟩ ⟨some ((tagsSet tags).apply run), as, es⟩

/-! ## Each operation makes one entry -/

section Operations

variable {now : Time} {db db' : Db}

/-- At most one entry for each run. -/
def Db.Enters (now : Time) (db db' : Db) : Prop :=
  ∀ r, db'.dossier r = db.dossier r ∨ (db.dossier r).Entry r now (db'.dossier r)

theorem Db.Acts.enters {runId : RunId} {act : Act} (acts : db.Acts db' runId act)
    (entry : (db.dossier runId).Entry runId now (db'.dossier runId)) : db.Enters now db' := by
  intro r
  by_cases hr : r = runId
  · subst hr
    exact .inr entry
  · exact .inl (acts.2 r hr)

namespace Queue

theorem insert_entry {id : RunId} {agent : Text} {trigger : Trigger} {params : Dict Text Json}
    {scheduleId : Option ScheduleId} {maxAttempts : Int} {tags : Dict Text Json} {mid : Db}
    {x y : Unit}
    (inserted : (insertRun (newRun now id agent trigger params scheduleId maxAttempts tags)).run
      db = .ok (x, mid))
    (recorded : (insertEvent now id .statusChange
      (statusChange none .queued (enqueuePayload trigger))).run mid = .ok (y, db')) :
    (db.dossier id).Entry id now (db'.dossier id) := by
  obtain ⟨fresh, rfl⟩ := insertRun_ok inserted
  obtain ⟨-, rfl⟩ := insertEvent_ok.mp recorded
  have blank : db.dossier id = ⟨none, (db.dossier id).approvals, (db.dossier id).trail⟩ :=
    Dossier.ext fresh rfl rfl
  rw [dossier_addEvent, dossier_addRun, blank]
  simp only [newRun, if_true]
  exact .enqueue _ _ _ _ _ _ _

theorem enqueue_enters {id x : RunId} {agent : Text} {trigger : Trigger}
    {params : Dict Text Json} {scheduleId : Option ScheduleId} {maxAttempts : Int}
    {tags : Dict Text Json}
    (h : (enqueue now id agent trigger params scheduleId maxAttempts tags).run db =
      .ok (x, db')) : db.Enters now db' := by
  have acts := enqueue_acts h
  simp only [enqueue, Txn.bind_ok, Txn.pure_ok] at h
  obtain ⟨_, _, inserted, _, _, recorded, -, rfl⟩ := h
  exact acts.enters (insert_entry inserted recorded)

theorem claimRun_entry {run result : Run} {workerId : WorkerId} {leaseMinutes : Int}
    (there : db.runs.find? run.id = some run) (queued : run.status = .queued)
    (available : run.availableAt ≤ now)
    (h : (claimRun now run workerId leaseMinutes).run db = .ok (result, db')) :
    (db.dossier run.id).Entry run.id now (db'.dossier run.id) := by
  simp only [claimRun, Txn.bind_ok, Txn.pure_ok, updateRuns_ok, insertEvent_ok] at h
  obtain ⟨_, _, ⟨-, rfl⟩, _, _, ⟨-, rfl⟩, rfl, rfl⟩ := h
  rw [dossier_addEvent, dossier_setRuns, dossier_of_find there]
  simp only [Option.map_some, decide_true, if_true]
  exact .claim _ _ _ queued available

theorem claim_enters {locked : RunId → Bool} {workerId : WorkerId} {leaseMinutes : Int}
    {res : Option Run} (h : (claim now locked workerId leaseMinutes).run db = .ok (res, db')) :
    db.Enters now db' := by
  simp only [claim, Txn.bind_ok, Txn.get_ok] at h
  obtain ⟨_, _, ⟨rfl, rfl⟩, h⟩ := h
  cases picked : oldest now locked db.runs.rows with
  | none =>
    rw [picked] at h
    obtain ⟨rfl, rfl⟩ := Txn.pure_ok.mp h
    exact fun _ => .inl rfl
  | some run =>
    rw [picked] at h
    obtain ⟨_, _, ran, h⟩ := Txn.bind_ok.mp h
    obtain ⟨rfl, rfl⟩ := Txn.pure_ok.mp h
    obtain ⟨mem, elig, -, -⟩ := oldest_some picked
    simp only [eligible, Bool.and_eq_true, decide_eq_true_eq] at elig
    have there := Table.find?_of_mem mem
    obtain ⟨-, -, acts⟩ := claimRun_acts there elig.1 ran
    exact acts.enters (claimRun_entry there elig.1 elig.2 ran)

theorem heartbeat_enters {runId : RunId} {workerId : WorkerId} {leaseMinutes : Int} {res : Bool}
    (h : (heartbeat now runId workerId leaseMinutes).run db = .ok (res, db')) :
    db.Enters now db' := by
  obtain ⟨held, rfl, ⟨-, same⟩ | ⟨rfl, acts⟩⟩ := heartbeat_acts h
  · exact fun r => .inl (same r)
  · obtain ⟨run, there, owned⟩ := (Option.any_eq_true _ _).mp held.symm
    simp only [decide_eq_true_eq] at owned
    apply acts.enters
    rw [dossier_setRuns, dossier_of_find there]
    simp only [Option.map_some, heldBy, Table.key_of_find? there, owned]
    exact .heartbeat _ _ owned.1 owned.2

theorem finish_enters {runId : RunId} {status : RunStatus} {result error : Option Text}
    {costUsd : Option Usd} {sessionId : Option Text} {x : Unit}
    (h : (finish now runId status result error costUsd sessionId).run db = .ok (x, db')) :
    db.Enters now db' := by
  have acts := finish_acts h
  rw [finish] at h
  split_ifs at h with outcome
  · exact (Txn.throw_ok.mp h).elim
  obtain ⟨-, ⟨run, there, running⟩, rfl⟩ := transition_ok.mp h
  apply acts.enters
  rw [move_writes now _ _ _ there running, dossier_of_find there]
  exact .finish _ _ _ _ _ _ (by tauto) running

theorem reapExpired_enters {locked : RunId → Bool} {n : Nat}
    (h : (reapExpired now locked).run db = .ok (n, db')) : db.Enters now db' := by
  intro r
  rcases reapExpired_writes_dossier h r with
    ⟨run, id, there, matched, after⟩ | ⟨run, id, there, matched, after⟩ | ⟨-, same⟩
  · right
    rw [after, dossier_of_find there]
    exact .requeue id (running_of_expired (requeues_iff.mp matched).1)
  · right
    rw [after, dossier_of_find there]
    exact .expire id (running_of_expired (exhausts_iff.mp matched).1)
  · exact .inl same

theorem recordEvent_enters {runId : RunId} {type : EventType} {payload : Dict Text Json} {x : Unit}
    (emitted : type ≠ .statusChange)
    (h : (recordEvent now runId type payload).run db = .ok (x, db')) : db.Enters now db' := by
  have acts := recordEvent_acts emitted h
  obtain ⟨known, rfl⟩ := insertEvent_ok.mp h
  obtain ⟨run, there⟩ := Option.isSome_iff_exists.mp known
  apply acts.enters
  rw [dossier_addEvent, dossier_of_find there, if_pos rfl]
  exact .emit emitted rfl

end Queue

theorem setTags_enters {runId : RunId} {tags : Dict Text Json} {x : Unit}
    (h : (setTags runId tags).run db = .ok (x, db')) : db.Enters now db' := by
  rcases setTags_acts h with same | ⟨advance, others⟩
  · exact fun r => .inl (same r)
  · refine Db.Acts.enters ⟨advance, others⟩ ?_
    generalize db.dossier runId = before at advance
    generalize db'.dossier runId = after at advance
    cases advance with
    | retag tags => exact .retag tags

namespace Approvals

theorem request_enters {id x : ApprovalId} {runId : RunId} {action : Text}
    {payload : Dict Text Json}
    (h : (request now id runId action payload).run db = .ok (x, db')) : db.Enters now db' := by
  have acts := (request_acts h).2
  simp only [request, Txn.bind_ok, Txn.pure_ok, insertApproval_ok, transition_ok] at h
  obtain ⟨_, _, ⟨-, fresh, rfl⟩, _, _, ⟨-, ⟨run, there, running⟩, rfl⟩, rfl, rfl⟩ := h
  have known : db.runs.find? runId = some run := there
  apply acts.enters
  rw [move_writes now _ _ _ there running, dossier_addApproval, dossier_of_find known]
  simp only [newApproval, if_true]
  exact .park _ _ _ _ running

theorem decide_enters {runId : RunId} {approved : Bool} {via : Text} {note : Option Text}
    {x : Unit} (h : (decide now runId approved via note).run db = .ok (x, db')) :
    db.Enters now db' := by
  have acts := decide_acts h
  obtain ⟨⟨run, there, awaiting⟩, -, rfl⟩ := decide_ok h
  have keeps : ∀ a, ((decisionSet now approved via note).apply a).runId = a.runId := fun _ => rfl
  have mine : (db.dossier runId).approvals.map
        (fun a => if pendingOf runId a then (decisionSet now approved via note).apply a else a) =
      (db.dossier runId).approvals.map
        (fun a => if a.status = .pending then (decisionSet now approved via note).apply a
          else a) := by
    refine List.map_congr_left fun a ha => ?_
    have own : a.runId = runId := by simpa using (List.mem_filter.mp ha).2
    simp [pendingOf, own]
  have kept : (db.setApprovals (pendingOf runId)
      (decisionSet now approved via note)).runs.find? runId = some run := there
  apply acts.enters
  rw [move_writes now _ _ _ kept awaiting, dossier_setApprovals _ _ _ keeps,
    dossier_of_find there, mine]
  exact .decide _ _ _ _ awaiting

end Approvals

namespace Scheduler

variable {host : Host}

theorem fire_enters {clock : Time} {runId : RunId} {s : Schedule} {x : Unit}
    (h : (fire host now clock runId s).run db = .ok (x, db')) : db.Enters now db' := by
  have acts := fire_acts h
  simp only [fire, Txn.bind_ok, Txn.pure_ok] at h
  obtain ⟨_, _, inserted, _, mid, recorded, next, _, computed, _, _, updated, -, rfl⟩ := h
  obtain ⟨-, rfl⟩ := computeNext_ok computed
  apply acts.enters
  rw [updateSchedules_dossier updated]
  exact Queue.insert_entry inserted recorded

theorem fireAll_enters {clocks : Nat → Time} {ids : Nat → RunId} {due : List Schedule} {n : Nat}
    (h : (fireAll host now clocks ids due).run db = .ok (n, db')) : db.Enters now db' := by
  induction due generalizing db clocks ids n with
  | nil =>
    obtain ⟨-, rfl⟩ := Txn.pure_ok.mp h
    exact fun _ => .inl rfl
  | cons s rest ih =>
    simp only [fireAll, Txn.bind_ok, Txn.pure_ok] at h
    obtain ⟨_, mid, fired, _, _, others, -, rfl⟩ := h
    intro r
    -- an id that one firing took is taken for the others
    rcases fire_enters fired r with same | entry
    · rw [← same]
      exact ih others r
    · rcases fireAll_dossier others r with same | again
      · exact .inr (by rw [same]; exact entry)
      · have taken := again.row_of_enqueue
        generalize db.dossier r = before at entry
        generalize mid.dossier r = after at entry taken
        cases entry <;> cases taken

theorem tick_enters {clocks : Nat → Time} {locked : ScheduleId → Bool} {ids : Nat → RunId} {n : Nat}
    (h : (tick host now clocks locked ids).run db = .ok (n, db')) : db.Enters now db' := by
  simp only [tick, Txn.bind_ok, Txn.get_ok] at h
  obtain ⟨_, _, ⟨rfl, rfl⟩, h⟩ := h
  exact fireAll_enters h

end Scheduler

theorem Op.enters_of_ok {op : Op} (h : (op.block now).run db = .ok ((), db')) :
    db.Enters now db' := by
  have unseen (same : ∀ r, db'.dossier r = db.dossier r) : db.Enters now db' :=
    fun r => .inl (same r)
  cases op with
  | finish => exact Queue.finish_enters h
  | decide => exact Approvals.decide_enters h
  | setTags => exact setTags_enters h
  | recordEvent runId type payload emitted => exact Queue.recordEvent_enters emitted h
  | enqueue =>
    obtain ⟨_, ran⟩ := Txn.discard_ok.mp h
    exact Queue.enqueue_enters ran
  | claim =>
    obtain ⟨_, ran⟩ := Txn.discard_ok.mp h
    exact Queue.claim_enters ran
  | heartbeat =>
    obtain ⟨_, ran⟩ := Txn.discard_ok.mp h
    exact Queue.heartbeat_enters ran
  | reapExpired =>
    obtain ⟨_, ran⟩ := Txn.discard_ok.mp h
    exact Queue.reapExpired_enters ran
  | request =>
    obtain ⟨_, ran⟩ := Txn.discard_ok.mp h
    exact Approvals.request_enters ran
  | tick =>
    obtain ⟨_, ran⟩ := Txn.discard_ok.mp h
    exact Scheduler.tick_enters ran
  | syncFromRegistry =>
    obtain ⟨_, ran⟩ := Txn.discard_ok.mp h
    exact unseen (Scheduler.syncFromRegistry_dossier ran)
  | createSchedule =>
    obtain ⟨_, ran⟩ := Txn.discard_ok.mp h
    exact unseen (Scheduler.createSchedule_edits ran).dossier
  | toggleSchedule =>
    obtain ⟨_, ran⟩ := Txn.discard_ok.mp h
    obtain ⟨_, _, -, -, updated⟩ := Scheduler.toggleSchedule_ok ran
    exact unseen (Scheduler.updateSchedules_dossier updated)

/-- An operation, whether it returned or raised, makes at most one entry for each run. -/
theorem Op.enters (now : Time) (op : Op) (db : Db) : db.Enters now (op.after now db) := by
  rcases Txn.after_cases (op.block now) db with same | ⟨_, ran⟩
  · exact fun r => .inl (by rw [Op.after, same])
  · exact Op.enters_of_ok ran

end Operations

end AgenticOctopus.Spine
