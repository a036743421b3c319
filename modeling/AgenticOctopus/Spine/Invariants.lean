import AgenticOctopus.Spine.Lifecycle

/-!
# Invariants of a run

Each is kept by every act of the lifecycle: the shape of the row, the audit trail, the
agreement of approvals and status, and the attempt budget.
-/
namespace AgenticOctopus.Spine
open Foundation

/-! ## The shape of a row -/

/-- Which nullable columns are set, by status. -/
@[mk_iff] structure Run.Shape (run : Run) : Prop where
  owner : run.lockedBy.isSome ↔ run.status = .running
  lease : run.leaseExpiresAt.isSome ↔ run.status = .running
  closed : run.finishedAt.isSome ↔ run.status.Terminal
  outcome : ¬ run.status.Terminal → run.result = none ∧ run.error = none ∧ run.costUsd = none

/-- Attempts stay within the budget of a run that may be tried at least once. -/
structure Run.Budget (run : Run) : Prop where
  waiting : run.status = .queued ∨ run.status = .awaitingApproval →
    0 ≤ run.attempts ∧ run.attempts < run.maxAttempts
  running : run.status = .running → 1 ≤ run.attempts
  bound : run.attempts ≤ run.maxAttempts

/-- How often a run can be claimed when no park gives an attempt back: once at least. -/
def Run.budget (run : Run) : Int := max 1 run.maxAttempts

/-- A run that can be claimed again has an attempt left. -/
structure Run.Paid (run : Run) : Prop where
  waiting : run.status = .queued ∨ run.status = .awaitingApproval → run.attempts < run.budget
  bound : run.attempts ≤ run.budget

namespace Dossier

variable {runId : RunId} {d d' : Dossier} {act : Act}

def Shaped (d : Dossier) : Prop := ∀ run, d.row = some run → run.Shape

theorem Advance.shaped (h : d.Advance runId act d') (shaped : d.Shaped) : d'.Shaped := by
  rintro run' hr'
  cases h with
  | enqueue =>
    cases hr'
    simp [Run.shape_iff, Queue.newRun]
  | claim now w lease queued =>
    cases hr'
    have old := shaped _ rfl
    simp [Run.shape_iff, queued] at old
    simp [Run.shape_iff, Queue.claimSet, old]
  | heartbeat now w lease running held =>
    cases hr'
    have old := shaped _ rfl
    simp [Run.shape_iff, running] at old
    simp [Run.shape_iff, Queue.leaseSet, running, old]
  | finish now status result error costUsd sessionId outcome running =>
    cases hr'
    rcases outcome with rfl | rfl <;> simp [Run.shape_iff, setStatus, Queue.finishSet]
  | park now id action payload running =>
    cases hr'
    have old := shaped _ rfl
    simp [Run.shape_iff, running] at old
    simp [Run.shape_iff, setStatus, Approvals.parkSet, old]
  | decide now approved via note awaiting =>
    cases hr'
    have old := shaped _ rfl
    simp [Run.shape_iff, awaiting] at old
    cases approved <;> simp [Run.shape_iff, setStatus, Approvals.closeSet, Approvals.verdict, old]
  | requeue now expired =>
    cases hr'
    have old := shaped _ rfl
    simp [Run.shape_iff, Queue.running_of_expired expired] at old
    simp [Run.shape_iff, Queue.requeueSet, old]
  | expire now expired =>
    cases hr'
    simp [Run.shape_iff, Queue.deadSet]
  | emit => exact shaped _ hr'
  | retag =>
    cases hr'
    have old := shaped _ rfl
    simpa [Run.shape_iff, tagsSet] using old

/-! ## The audit trail -/

def statusChanges (d : Dossier) : List RunEvent :=
  d.trail.filter fun ev => decide (ev.type = .statusChange)

/-- The status changes of a run, from its first to the one that set `status`. -/
inductive Trail : List RunEvent → RunStatus → Prop where
  | first {ev} (recorded : ev.Records none .queued) : Trail [ev] .queued
  | next {evs ev a b} (before : Trail evs a) (legal : (a, b) ∈ allowedTransitions)
      (recorded : ev.Records (some a) b) : Trail (evs ++ [ev]) b

def Audited (d : Dossier) : Prop :=
  (d.row = none → d.trail = []) ∧ ∀ run, d.row = some run → Trail d.statusChanges run.status

theorem statusChanges_snoc {row : Option Run} {as : List Approval} {es : List RunEvent}
    {ev : RunEvent} (h : ev.type = .statusChange) :
    statusChanges ⟨row, as, es ++ [ev]⟩ = es.filter (fun ev => decide (ev.type = .statusChange)) ++
      [ev] := by
  simp [statusChanges, h]

/-- A recorded move along a legal transition extends the trail of the run. -/
theorem Trail.move {run : Run} {as as' : List Approval} {es : List RunEvent} {ev : RunEvent}
    {a b : RunStatus} {row' : Option Run} (audited : Audited ⟨some run, as, es⟩)
    (status : run.status = a) (legal : (a, b) ∈ allowedTransitions)
    (recorded : ev.Records (some a) b) :
    Trail (statusChanges ⟨row', as', es ++ [ev]⟩) b := by
  rw [statusChanges_snoc recorded.1]
  have before := audited.2 run rfl
  rw [status] at before
  exact before.next legal recorded

theorem Advance.audited (h : d.Advance runId act d') (audited : d.Audited) : d'.Audited := by
  refine ⟨fun gone => (h.row_ne_none gone).elim, ?_⟩
  rintro run' hr'
  cases h with
  | enqueue now agent trigger params scheduleId maxAttempts tags recorded =>
    cases hr'
    have blank := audited.1 rfl
    dsimp only at blank
    subst blank
    simpa [statusChanges, recorded.1, Queue.newRun] using Trail.first recorded
  | claim now w lease queued recorded =>
    cases hr'
    exact Trail.move (b := .running) audited queued (by decide) recorded
  | heartbeat now w lease running held =>
    cases hr'
    have before := audited.2 _ rfl
    exact before
  | finish now status result error costUsd sessionId outcome running recorded =>
    cases hr'
    refine Trail.move (b := status) audited running ?_ recorded
    rcases outcome with rfl | rfl <;> decide
  | park now id action payload running recorded =>
    cases hr'
    exact Trail.move (b := .awaitingApproval) audited running (by decide) recorded
  | decide now approved via note awaiting pending recorded =>
    cases hr'
    refine Trail.move (b := Approvals.verdict approved) audited awaiting ?_ recorded
    cases approved <;> decide
  | requeue now expired budget recorded =>
    cases hr'
    exact Trail.move (b := .queued) audited (Queue.running_of_expired expired) (by decide) recorded
  | expire now expired exhausted recorded =>
    cases hr'
    exact Trail.move (b := .failed) audited (Queue.running_of_expired expired) (by decide) recorded
  | emit emitted =>
    simpa [statusChanges, emitted] using audited.2 _ hr'
  | retag tags =>
    cases hr'
    have before := audited.2 _ rfl
    exact before

/-! ## Approvals and status -/

def pending (d : Dossier) : List Approval :=
  d.approvals.filter fun a => decide (a.status = .pending)

/-- A run waits for approval with exactly one pending row, and no other run has one. -/
def Gated (d : Dossier) : Prop :=
  (d.row = none → d.approvals = []) ∧
    ∀ run, d.row = some run →
      d.pending.length = if run.status = .awaitingApproval then 1 else 0

theorem Advance.gated (h : d.Advance runId act d') (gated : d.Gated) : d'.Gated := by
  refine ⟨fun gone => (h.row_ne_none gone).elim, ?_⟩
  rintro run' hr'
  cases h with
  | enqueue now agent trigger params scheduleId maxAttempts tags recorded =>
    cases hr'
    have blank := gated.1 rfl
    dsimp only at blank
    subst blank
    simp [pending, Queue.newRun]
  | claim now w lease queued recorded =>
    cases hr'
    have before := gated.2 _ rfl
    simpa [pending, queued, Queue.claimSet] using before
  | heartbeat now w lease running held =>
    cases hr'
    have before := gated.2 _ rfl
    exact before
  | finish now status result error costUsd sessionId outcome running recorded =>
    cases hr'
    have before := gated.2 _ rfl
    rcases outcome with rfl | rfl <;>
      simpa [pending, running, setStatus, Queue.finishSet] using before
  | park now id action payload running recorded =>
    cases hr'
    have before := gated.2 _ rfl
    simp only [pending, running, if_neg (show RunStatus.running ≠ .awaitingApproval by decide),
      List.length_eq_zero_iff] at before
    simp [pending, before, setStatus, Approvals.parkSet, Approvals.newApproval]
  | decide now approved via note awaiting there recorded =>
    cases hr'
    simp only [pending, setStatus, Approvals.closeSet]
    rw [List.filter_eq_nil_iff.mpr]
    · cases approved <;> simp [Approvals.verdict]
    · intro a ha
      obtain ⟨b, -, rfl⟩ := List.mem_map.mp ha
      by_cases hb : b.status = .pending
      · cases approved <;> simp [hb, Approvals.decisionSet, Approvals.newStatus]
      · simp [hb]
  | requeue now expired budget recorded =>
    cases hr'
    have before := gated.2 _ rfl
    simpa [pending, Queue.running_of_expired expired, Queue.requeueSet] using before
  | expire now expired exhausted recorded =>
    cases hr'
    have before := gated.2 _ rfl
    simpa [pending, Queue.running_of_expired expired, Queue.deadSet] using before
  | emit emitted => exact gated.2 _ hr'
  | retag tags =>
    cases hr'
    have before := gated.2 _ rfl
    exact before

/-! ## The attempt budget -/

def Budgeted (d : Dossier) : Prop := ∀ run, d.row = some run → 1 ≤ run.maxAttempts → run.Budget

theorem Advance.budgeted (h : d.Advance runId act d') (budgeted : d.Budgeted) : d'.Budgeted := by
  rintro run' hr' positive
  cases h with
  | enqueue =>
    cases hr'
    constructor <;> simp [Queue.newRun] at * <;> omega
  | claim now w lease queued recorded =>
    cases hr'
    have old := (budgeted _ rfl positive).waiting (.inl queued)
    constructor <;> simp [Queue.claimSet] <;> omega
  | heartbeat now w lease running held =>
    cases hr'
    obtain ⟨waiting, started, bound⟩ := budgeted _ rfl positive
    exact ⟨waiting, started, bound⟩
  | finish now status result error costUsd sessionId outcome running recorded =>
    cases hr'
    have old := budgeted _ rfl positive
    rcases outcome with rfl | rfl <;>
      exact ⟨by simp [setStatus, Queue.finishSet], fun _ => old.running running, old.bound⟩
  | park now id action payload running recorded =>
    cases hr'
    have old := budgeted _ rfl positive
    have started := old.running running
    have bound := old.bound
    constructor <;> simp [setStatus, Approvals.parkSet] <;> omega
  | decide now approved via note awaiting there recorded =>
    cases hr'
    have old := budgeted _ rfl positive
    have waiting := old.waiting (.inr awaiting)
    constructor <;> cases approved <;>
      simp [setStatus, Approvals.verdict, Approvals.closeSet] <;> omega
  | requeue now expired budget recorded =>
    cases hr'
    have old := budgeted _ rfl positive
    have started := old.running (Queue.running_of_expired expired)
    constructor <;> simp [Queue.requeueSet] <;> omega
  | expire now expired exhausted recorded =>
    cases hr'
    have old := (budgeted _ rfl positive).bound
    exact ⟨by simp [Queue.deadSet], by simp [Queue.deadSet], old⟩
  | emit emitted => exact budgeted _ hr' positive
  | retag tags =>
    cases hr'
    obtain ⟨waiting, started, bound⟩ := budgeted _ rfl positive
    exact ⟨waiting, started, bound⟩

def Paid (d : Dossier) : Prop := ∀ run, d.row = some run → run.Paid

theorem Advance.paid (h : d.Advance runId act d') (paid : d.Paid) : d'.Paid := by
  intro run is
  cases h with
  | enqueue =>
    cases is
    constructor <;> simp [Queue.newRun, Run.budget]
  | claim now w lease queued =>
    cases is
    have left := (paid _ rfl).waiting (.inl queued)
    exact ⟨by simp [Queue.claimSet], left⟩
  | heartbeat now w lease running =>
    cases is
    have left := (paid _ rfl).bound
    exact ⟨by simp [Queue.leaseSet, running], left⟩
  | finish now status result error costUsd sessionId outcome =>
    cases is
    have left := (paid _ rfl).bound
    rcases outcome with rfl | rfl <;> exact ⟨by simp [setStatus, Queue.finishSet], left⟩
  | park now id action payload running =>
    cases is
    have left := (paid _ rfl).bound
    constructor <;> simp [setStatus, Approvals.parkSet, Run.budget] at left ⊢ <;> omega
  | decide now approved via note awaiting =>
    cases is
    have left := paid _ rfl
    cases approved with
    | true => exact ⟨fun _ => left.waiting (.inr awaiting), left.bound⟩
    | false => exact ⟨by simp [setStatus, Approvals.verdict, Approvals.closeSet], left.bound⟩
  | requeue now expired again =>
    cases is
    have left := (paid _ rfl).bound
    exact ⟨fun _ => lt_of_lt_of_le again (le_max_right _ _), left⟩
  | expire =>
    cases is
    have left := (paid _ rfl).bound
    exact ⟨by simp [Queue.deadSet], left⟩
  | emit => exact paid _ is
  | retag =>
    cases is
    have left := paid _ rfl
    exact ⟨left.waiting, left.bound⟩

end Dossier

end AgenticOctopus.Spine
