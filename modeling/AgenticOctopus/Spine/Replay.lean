import AgenticOctopus.Spine.Guarantees
import AgenticOctopus.Spine.Journal

/-!
# The row of a run, told by its events

A reader of `run_events` who folds the status changes of a run, and looks at nothing else,
knows its status, its attempts, who holds it, when it was created, started and finished, and
the error that it failed with. The account below is that fold; it is what the row says in every
reachable state.
-/
namespace AgenticOctopus.Spine
open Foundation

def RunStatus.all : List RunStatus :=
  [.queued, .running, .awaitingApproval, .completed, .failed, .rejected, .cancelled]

def RunStatus.ofValue? (value : Text) : Option RunStatus :=
  RunStatus.all.find? fun s => s.value = value

@[simp] theorem RunStatus.ofValue?_value (s : RunStatus) : ofValue? s.value = some s := by
  cases s <;> decide +kernel

/-- What the status changes of a run tell of it. -/
structure Account where
  status : RunStatus
  trigger : Option Text
  createdAt : Time
  attempts : Int
  lockedBy : Option WorkerId
  startedAt : Option Time
  finishedAt : Option Time
  error : Option Text
deriving DecidableEq

/-- The columns that an account is about; an empty error counts as none. -/
def Run.account (run : Run) : Account where
  status := run.status
  trigger := some run.trigger.value
  createdAt := run.createdAt
  attempts := run.attempts
  lockedBy := run.lockedBy
  startedAt := run.startedAt
  finishedAt := run.finishedAt
  error := run.error.filter fun error => error ≠ []

/-! ## Reading events -/

def RunEvent.text? (ev : RunEvent) (key : Text) : Option Text :=
  match ev.payload.get? key with
  | some (.str t) => some t
  | _ => none

def RunEvent.to? (ev : RunEvent) : Option RunStatus := (ev.text? ↑"to").bind RunStatus.ofValue?

/-- The first change opens the account. -/
def Account.opened (ev : RunEvent) : Account where
  status := .queued
  trigger := ev.text? ↑"trigger"
  createdAt := ev.ts
  attempts := 0
  lockedBy := none
  startedAt := none
  finishedAt := none
  error := none

/-- The error of a run that ended; one that was given up names its reason instead. -/
def RunEvent.error? (ev : RunEvent) : Option Text :=
  match ev.text? ↑"reason" with
  | some _ => some Queue.leaseExpired
  | none => ev.text? ↑"error"

def Account.moved (a : Account) (ev : RunEvent) : RunStatus → Account
  | .running =>
    { a with
      status := .running
      attempts := a.attempts + 1
      lockedBy := ev.text? ↑"worker"
      startedAt := some (a.startedAt.getD ev.ts) }
  | .awaitingApproval =>
    { a with status := .awaitingApproval, attempts := a.attempts - 1, lockedBy := none }
  | .queued => { a with status := .queued, lockedBy := none }
  | s => { a with status := s, lockedBy := none, finishedAt := some ev.ts, error := ev.error? }

def Account.next (a : Option Account) (ev : RunEvent) : Option Account :=
  if ev.type = .statusChange then
    match a, ev.to? with
    | none, some _ => some (.opened ev)
    | some a, some s => some (a.moved ev s)
    | a, none => a
  else a

/-- The account of a run from its events in id order. -/
def account (events : List RunEvent) : Option Account := events.foldl Account.next none

/-! ## What each change says -/

section Change

variable {n : Nat} {runId : RunId} {now : Time} {a : Option RunStatus} {b : RunStatus}

theorem to?_change {extra : Dict Text Json} (annotates : Annotates extra) :
    (RunEvent.change n runId now a b extra).to? = some b := by
  have recorded : (RunEvent.change n runId now a b extra).Records a b :=
    RunEvent.records_of rfl rfl annotates
  simp [RunEvent.to?, RunEvent.text?, recorded.2.2]

theorem trigger_enqueue (trigger : Trigger) :
    (RunEvent.change n runId now a b (enqueuePayload trigger)).text? ↑"trigger" =
      some trigger.value := by
  simp [RunEvent.text?, RunEvent.change, statusChange, enqueuePayload, Dict.update, Dict.set,
    Dict.get?]

theorem worker_claim (workerId : WorkerId) :
    (RunEvent.change n runId now a b (claimPayload workerId)).text? ↑"worker" =
      some workerId := by
  simp [RunEvent.text?, RunEvent.change, statusChange, claimPayload, Dict.update, Dict.set,
    Dict.get?]

theorem error_finish (error : Option Text) :
    (RunEvent.change n runId now a b (Queue.errorPayload error)).error? =
      error.filter fun error => error ≠ [] := by
  cases error with
  | none => simp [RunEvent.error?, RunEvent.text?, RunEvent.change, statusChange,
      Queue.errorPayload, Dict.update, Dict.get?]
  | some error =>
    by_cases empty : error = [] <;>
      simp [RunEvent.error?, RunEvent.text?, RunEvent.change, statusChange, Queue.errorPayload,
        Dict.update, Dict.set, Dict.get?, Option.filter, empty]

theorem enqueuePayload_annotates (trigger : Trigger) : Annotates (enqueuePayload trigger) := by
  constructor <;> simp [enqueuePayload, Dict.get?]

theorem claimPayload_annotates (workerId : WorkerId) : Annotates (claimPayload workerId) := by
  constructor <;> simp [claimPayload, Dict.get?]

theorem parkPayload_annotates (id : ApprovalId) (action : Text) :
    Annotates (parkPayload id action) := by
  constructor <;> simp [parkPayload, Dict.get?]

theorem lostPayload_annotates : Annotates lostPayload := by
  constructor <;> simp [lostPayload, Dict.get?]

theorem error_lost :
    (RunEvent.change n runId now a b lostPayload).error? = some Queue.leaseExpired := by
  simp [RunEvent.error?, RunEvent.text?, RunEvent.change, statusChange, lostPayload, Dict.update,
    Dict.set, Dict.get?]

theorem error_decide (via : Text) (note : Option Text) :
    (RunEvent.change n runId now a b (Approvals.decisionPayload via note)).error? = none := by
  simp [RunEvent.error?, RunEvent.text?, RunEvent.change, statusChange,
    Approvals.decisionPayload, Dict.update, Dict.set, Dict.get?]

end Change

/-! ## The account keeps up with the row -/

theorem account_append (events : List RunEvent) (ev : RunEvent) :
    account (events ++ [ev]) = Account.next (account events) ev := by
  simp [account]

theorem account_change {events : List RunEvent} {n : Nat} {runId : RunId} {now : Time}
    {a : Option RunStatus} {b : RunStatus} {extra : Dict Text Json} (annotates : Annotates extra)
    {told : Account} (before : account events = some told) :
    account (events ++ [.change n runId now a b extra]) =
      some (told.moved (.change n runId now a b extra) b) := by
  simp [account_append, before, Account.next, to?_change annotates]

namespace Dossier

/-- The account of the events is the account of the row. -/
def Told (d : Dossier) : Prop := account d.trail = d.row.map Run.account

theorem Entry.told {runId : RunId} {now : Time} {d d' : Dossier} (entry : d.Entry runId now d')
    (shaped : d.Shaped) (told : d.Told) : d'.Told := by
  cases entry with
  | enqueue n agent trigger params scheduleId maxAttempts tags =>
    have before : account _ = none := told
    simp [Told, account_append, before, Account.next, to?_change (enqueuePayload_annotates trigger),
      Account.opened, trigger_enqueue, Run.account, Queue.newRun]
  | claim n workerId lease queued available =>
    have before : account _ = some _ := told
    simp [Told, account_change (claimPayload_annotates workerId) before, Account.moved,
      worker_claim, Run.account, Queue.claimSet]
  | heartbeat workerId lease running held => exact told
  | finish n status result error costUsd sessionId outcome running =>
    have before : account _ = some _ := told
    rcases outcome with rfl | rfl <;>
      simp [Told, account_change (Queue.errorPayload_annotates error) before, Account.moved,
        error_finish, Run.account, setStatus, Queue.finishSet]
  | park n id action payload running =>
    have before : account _ = some _ := told
    simp [Told, account_change (parkPayload_annotates id action) before, Account.moved,
      Run.account, setStatus, Approvals.parkSet]
  | @decide run as es n approved via note awaiting =>
    have before : account _ = some _ := told
    -- a parked run has no owner and no error, which the change leaves as it is
    have shape := shaped run rfl
    simp [Run.shape_iff, awaiting] at shape
    cases approved <;>
      simp [Told, account_change (Approvals.decisionPayload_annotates via note) before,
        Account.moved, error_decide, Run.account, setStatus, Approvals.verdict,
        Approvals.closeSet, shape]
  | requeue n running =>
    have before : account _ = some _ := told
    simp [Told, account_change lostPayload_annotates before, Account.moved, Run.account,
      Queue.requeueSet]
  | expire n running =>
    have before : account _ = some _ := told
    have named : Queue.leaseExpired ≠ [] := by decide
    simp [Told, account_change lostPayload_annotates before, Account.moved, error_lost,
      Run.account, Queue.deadSet, Option.filter, named]
  | emit emitted stamped =>
    simpa [Told, account_append, Account.next, emitted] using told
  | retag tags => exact told

end Dossier

/-- In every reachable state the account of a run's events is the account of its row, and a
run that does not exist has no events. -/
theorem events_tell_row {db : Db} (h : spine.Reachable db) (r : RunId) :
    account (Queue.listEvents db r) = (db.runs.find? r).map Run.account ∧
      (db.runs.find? r = none → Queue.listEvents db r = []) := by
  refine ⟨?_, fun absent => (reachable_audited h r).1 absent⟩
  refine h.invariant (P := fun db => (db.dossier r).Told) ?_ ?_
  · rintro _ rfl
    rw [dossier_empty]
    rfl
  · rintro db l _ reachable told rfl
    rcases Op.enters l.1 l.2 db r with same | entry
    · rwa [same]
    · exact entry.told (reachable_shaped reachable r) told

theorem decidedTwice_told : account (Queue.listEvents (decidedTwice.state 5) ↑"r") =
    ((decidedTwice.state 5).runs.find? ↑"r").map Run.account :=
  (events_tell_row (decidedTwice.reachable (i := 5) (by decide)) ↑"r").1

end AgenticOctopus.Spine
