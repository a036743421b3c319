import AgenticOctopus.Spine.Queue

/-!
# Consent gates

A pending row parks its run; deciding it queues the run again or rejects it. `request`
inserts the row before it looks at the run, and relies on the rollback of its block when
the run has left `running`.
-/
namespace AgenticOctopus.Spine.Approvals
open Foundation

def parkSet : Table.Assignment Run.id where
  apply r := { r with lockedBy := none, leaseExpiresAt := none, attempts := r.attempts - 1 }

def newApproval (now : Time) (id : ApprovalId) (runId : RunId) (action : Text)
    (payload : Dict Text Json) : Approval where
  id := id
  runId := runId
  action := action
  payload := payload
  requestedAt := now

def request (now : Time) (id : ApprovalId) (runId : RunId) (action : Text)
    (payload : Dict Text Json) : Block ApprovalId := do
  insertApproval (newApproval now id runId action payload)
  transition now runId .running .awaitingApproval parkSet
    [(↑"approval_id", .str id), (↑"action", .str action)]
  return id

def hasApproved (db : Db) (runId : RunId) : Bool :=
  db.approvals.rows.any fun a => decide (a.runId = runId) && decide (a.status = .approved)

def pendingOf (runId : RunId) (a : Approval) : Bool :=
  decide (a.runId = runId) && decide (a.status = .pending)

def newStatus (approved : Bool) : ApprovalStatus := if approved then .approved else .rejected

def decisionSet (now : Time) (approved : Bool) (via : Text) (note : Option Text) :
    Table.Assignment Approval.id where
  apply a :=
    { a with
      status := newStatus approved
      decidedAt := some now
      decidedVia := some via
      note := note }

/-- `"" if approved else ", finished_at = now()"` -/
def closeSet (now : Time) (approved : Bool) : Table.Assignment Run.id where
  apply r := { r with finishedAt := if approved then r.finishedAt else some now }

def jsonOfNote : Option Text → Json
  | some note => .str note
  | none => .null

/-- Where a decision sends the run. -/
def verdict (approved : Bool) : RunStatus := if approved then .queued else .rejected

def noPending (runId : RunId) : Raised :=
  .lookupError ("run " ++ runId ++ " has no pending approval")

def decisionPayload (via : Text) (note : Option Text) : Dict Text Json :=
  [(↑"decided_via", .str via), (↑"note", jsonOfNote note)]

def decide (now : Time) (runId : RunId) (approved : Bool) (via : Text) (note : Option Text) :
    Block Unit := do
  let rowcount ← updateApprovals (pendingOf runId) (decisionSet now approved via note)
  if rowcount = 0 then throw (noPending runId)
  else
    transition now runId .awaitingApproval (verdict approved) (closeSet now approved)
      (decisionPayload via note)

end AgenticOctopus.Spine.Approvals
