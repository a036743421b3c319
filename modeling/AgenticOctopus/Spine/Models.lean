import AgenticOctopus.Spine.Schema

/-!
# Run state machine

The legal transitions and the guard through which most status changes go. `transition`
moves a run only if it still is in the status the caller saw, and writes one audit event in
the same block; the specification below says that this is all it does.
-/
namespace AgenticOctopus.Spine
open Foundation

@[simp] def terminal : List RunStatus := [.completed, .failed, .rejected, .cancelled]

def allowedTransitions : List (RunStatus × RunStatus) :=
  [(.queued, .running),
   (.running, .completed),
   (.running, .failed),
   (.running, .awaitingApproval),
   (.running, .queued),
   (.awaitingApproval, .queued),
   (.awaitingApproval, .rejected),
   (.queued, .cancelled),
   (.awaitingApproval, .cancelled)]

@[simp] def RunStatus.Terminal (s : RunStatus) : Prop := s ∈ terminal

instance (s : RunStatus) : Decidable s.Terminal := inferInstanceAs (Decidable (s ∈ terminal))

/-- No transition leaves a terminal status. -/
theorem terminal_final {a b : RunStatus} (h : (a, b) ∈ allowedTransitions) : ¬ a.Terminal := by
  revert h
  cases a <;> cases b <;> decide

def assertTransition (fromStatus toStatus : RunStatus) : Block Unit :=
  if (fromStatus, toStatus) ∉ allowedTransitions then
    throw (.illegalTransition
      (fromStatus.value ++ " -> " ++ toStatus.value ++ " is not a legal run transition"))
  else pure ()

def jsonOfStatus : Option RunStatus → Json
  | some s => .str s.value
  | none => .null

/-- The payload of a `status_change` event: `{"from": …, "to": …, **extra}`. -/
def statusChange (fromStatus : Option RunStatus) (toStatus : RunStatus) (extra : Dict Text Json) :
    Dict Text Json :=
  Dict.update [(↑"from", jsonOfStatus fromStatus), (↑"to", .str toStatus.value)] extra

/-- `UPDATE runs SET status = … <extra_set>` -/
def setStatus (toStatus : RunStatus) (extraSet : Table.Assignment Run.id) :
    Table.Assignment Run.id where
  apply r := extraSet.apply { r with status := toStatus }
  keeps_key _ := extraSet.keeps_key _

/-- `WHERE id = … AND status = …` -/
def inStatus (runId : RunId) (status : RunStatus) (r : Run) : Bool :=
  decide (r.id = runId) && decide (r.status = status)

def transition (now : Time) (runId : RunId) (fromStatus toStatus : RunStatus)
    (extraSet : Table.Assignment Run.id) (eventPayload : Dict Text Json) : Block Unit := do
  assertTransition fromStatus toStatus
  let rowcount ← updateRuns (inStatus runId fromStatus) (setStatus toStatus extraSet)
  if rowcount ≠ 1 then
    throw (.illegalTransition
      ("run " ++ runId ++ " was not in " ++ fromStatus.value ++ " (concurrent change?)"))
  else
    insertEvent now runId .statusChange (statusChange (some fromStatus) toStatus eventPayload)

/-- The database after a run has been moved and the move recorded. -/
def Db.move (db : Db) (now : Time) (runId : RunId) (fromStatus toStatus : RunStatus)
    (extraSet : Table.Assignment Run.id) (eventPayload : Dict Text Json) : Db :=
  (db.setRuns (inStatus runId fromStatus) (setStatus toStatus extraSet)).addEvent now runId
    .statusChange (statusChange (some fromStatus) toStatus eventPayload)

theorem rowcount_inStatus (db : Db) (runId : RunId) (status : RunStatus) :
    db.runs.rowcount (inStatus runId status) =
      if (db.runs.find? runId).any fun r => decide (r.status = status) then 1 else 0 :=
  db.runs.rowcount_key runId fun r => decide (r.status = status)

/-- `transition` returns exactly when the pair is legal and the run is in `fromStatus`. -/
theorem transition_ok {now : Time} {runId : RunId} {a b : RunStatus}
    {extraSet : Table.Assignment Run.id} {payload : Dict Text Json} {db db' : Db} {x : Unit} :
    (transition now runId a b extraSet payload).run db = .ok (x, db') ↔
      (a, b) ∈ allowedTransitions ∧
        (∃ r, db.runs.find? runId = some r ∧ r.status = a) ∧
        db' = db.move now runId a b extraSet payload := by
  simp only [transition, assertTransition, Txn.bind_ok, Txn.guard_ok, not_not, updateRuns_ok,
    rowcount_inStatus]
  constructor
  · rintro ⟨_, _, ⟨legal, rfl⟩, n, _, ⟨rfl, rfl⟩, h⟩
    by_cases there : ((db.runs.find? runId).any fun r => decide (r.status = a)) = true
    · rw [if_pos there, if_neg (by simp), insertEvent_ok] at h
      obtain ⟨r, hr, hs⟩ := (Option.any_eq_true _ _).mp there
      exact ⟨legal, ⟨r, hr, by simpa using hs⟩, h.2.symm⟩
    · rw [if_neg there, if_pos (by simp)] at h
      exact (Txn.throw_ok.mp h).elim
  · rintro ⟨legal, ⟨r, hr, hs⟩, rfl⟩
    have there : ((db.runs.find? runId).any fun r => decide (r.status = a)) = true := by
      simp [hr, hs]
    refine ⟨(), db, ⟨legal, rfl⟩, 1, _, ⟨by rw [if_pos there], rfl⟩, ?_⟩
    rw [if_neg (by simp), insertEvent_ok]
    refine ⟨?_, rfl⟩
    simp [Table.contains, Db.setRuns, Table.find?_update, hr]

end AgenticOctopus.Spine
