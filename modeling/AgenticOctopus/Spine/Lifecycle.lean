import AgenticOctopus.Spine.Approvals

/-!
# The life of one run

The dossier of a run is its row, its approvals and its events. An operation of the spine
does at most one of the acts below to each dossier, so what every act keeps, every
interleaving of the operations keeps.
-/
namespace AgenticOctopus.Spine
open Foundation

@[ext] structure Dossier where
  row : Option Run
  approvals : List Approval
  trail : List RunEvent

def Db.dossier (db : Db) (runId : RunId) : Dossier where
  row := db.runs.find? runId
  approvals := db.approvals.rows.filter fun a => decide (a.runId = runId)
  trail := Queue.listEvents db runId

theorem dossier_row (db : Db) (runId : RunId) : (db.dossier runId).row = db.runs.find? runId := rfl

theorem dossier_empty (runId : RunId) : Db.empty.dossier runId = ⟨none, [], []⟩ :=
  Dossier.ext rfl rfl (SerialTable.select_eq _ _)

/-- A `status_change` event with these two ends. -/
def RunEvent.Records (ev : RunEvent) (a : Option RunStatus) (b : RunStatus) : Prop :=
  ev.type = .statusChange ∧
    ev.payload.get? ↑"from" = some (jsonOfStatus a) ∧
    ev.payload.get? ↑"to" = some (.str b.value)

inductive Act where
  | enqueue
  | claim (workerId : WorkerId)
  | heartbeat (workerId : WorkerId)
  | finish (status : RunStatus) (result error : Option Text) (costUsd : Option Usd)
  | park
  | decide (approved : Bool)
  | requeue
  | expire
  | emit
  | retag
deriving DecidableEq

def tagsSet (tags : Dict Text Json) : Table.Assignment Run.id where
  apply r := { r with tags := tags }

/-- One act of the run's life, with what it asks of the dossier and what it leaves. -/
inductive Dossier.Advance (runId : RunId) : Dossier → Act → Dossier → Prop where
  | enqueue {as es ev} (now agent trigger params scheduleId maxAttempts tags)
      (recorded : ev.Records none .queued) :
      Advance runId ⟨none, as, es⟩ .enqueue
        ⟨some (Queue.newRun now runId agent trigger params scheduleId maxAttempts tags), as,
          es ++ [ev]⟩
  | claim {run as es ev} (now workerId lease) (queued : run.status = .queued)
      (recorded : ev.Records (some .queued) .running) :
      Advance runId ⟨some run, as, es⟩ (.claim workerId)
        ⟨some ((Queue.claimSet now workerId lease).apply run), as, es ++ [ev]⟩
  | heartbeat {run as es} (now workerId lease) (running : run.status = .running)
      (held : run.lockedBy = some workerId) :
      Advance runId ⟨some run, as, es⟩ (.heartbeat workerId)
        ⟨some ((Queue.leaseSet now lease).apply run), as, es⟩
  | finish {run as es ev} (now status result error costUsd sessionId)
      (outcome : status = .completed ∨ status = .failed) (running : run.status = .running)
      (recorded : ev.Records (some .running) status) :
      Advance runId ⟨some run, as, es⟩ (.finish status result error costUsd)
        ⟨some ((setStatus status
            (Queue.finishSet now result error costUsd sessionId)).apply run), as, es ++ [ev]⟩
  | park {run as es ev} (now id action payload) (running : run.status = .running)
      (recorded : ev.Records (some .running) .awaitingApproval) :
      Advance runId ⟨some run, as, es⟩ .park
        ⟨some ((setStatus .awaitingApproval Approvals.parkSet).apply run),
          as ++ [Approvals.newApproval now id runId action payload], es ++ [ev]⟩
  | decide {run as es ev} (now approved via note) (awaiting : run.status = .awaitingApproval)
      (pending : ∃ a ∈ as, a.status = .pending)
      (recorded : ev.Records (some .awaitingApproval) (Approvals.verdict approved)) :
      Advance runId ⟨some run, as, es⟩ (.decide approved)
        ⟨some ((setStatus (Approvals.verdict approved)
            (Approvals.closeSet now approved)).apply run),
          as.map fun a =>
            if a.status = .pending then (Approvals.decisionSet now approved via note).apply a
            else a,
          es ++ [ev]⟩
  | requeue {run as es ev} (now) (expired : Queue.expired now run = true)
      (budget : run.attempts < run.maxAttempts)
      (recorded : ev.Records (some .running) .queued) :
      Advance runId ⟨some run, as, es⟩ .requeue
        ⟨some (Queue.requeueSet.apply run), as, es ++ [ev]⟩
  | expire {run as es ev} (now) (expired : Queue.expired now run = true)
      (exhausted : run.maxAttempts ≤ run.attempts)
      (recorded : ev.Records (some .running) .failed) :
      Advance runId ⟨some run, as, es⟩ .expire
        ⟨some ((Queue.deadSet now).apply run), as, es ++ [ev]⟩
  | emit {run as es ev} (emitted : ev.type ≠ .statusChange) :
      Advance runId ⟨some run, as, es⟩ .emit ⟨some run, as, es ++ [ev]⟩
  | retag {run as es} (tags) :
      Advance runId ⟨some run, as, es⟩ .retag ⟨some ((tagsSet tags).apply run), as, es⟩

theorem Dossier.Advance.row_ne_none {runId : RunId} {d d' : Dossier} {act : Act}
    (h : d.Advance runId act d') : d'.row ≠ none := by
  cases h <;> exact Option.some_ne_none _

theorem Dossier.Advance.row_of_enqueue {runId : RunId} {d d' : Dossier}
    (h : d.Advance runId .enqueue d') : d.row = none := by
  cases h
  rfl

theorem Dossier.Advance.enqueue_of_absent {runId : RunId} {d d' : Dossier} {act : Act}
    (h : d.Advance runId act d') (absent : d.row = none) : act = .enqueue := by
  cases h <;> first | rfl | cases absent

theorem Queue.running_of_expired {now : Time} {run : Run} (h : Queue.expired now run = true) :
    run.status = .running := by
  simp only [Queue.expired, Bool.and_eq_true, decide_eq_true_eq] at h
  exact h.1

/-! ## Where an act starts and where it leads -/

/-- The status that an act asks for. -/
def Act.source : Act → Option RunStatus
  | .claim _ => some .queued
  | .heartbeat _ | .finish .. | .park | .requeue | .expire => some .running
  | .decide _ => some .awaitingApproval
  | .enqueue | .emit | .retag => none

/-- The status that an act leaves, if it moves the run. -/
def Act.target : Act → Option RunStatus
  | .enqueue | .requeue => some .queued
  | .claim _ => some .running
  | .finish status .. => some status
  | .park => some .awaitingApproval
  | .decide approved => some (Approvals.verdict approved)
  | .expire => some .failed
  | .heartbeat _ | .emit | .retag => none

/-- What an act adds to the attempts of a run. -/
def Act.attempts : Act → Int
  | .claim _ => 1
  | .park => -1
  | _ => 0

namespace Dossier.Advance

variable {runId : RunId} {d d' : Dossier} {act : Act}

theorem source (h : d.Advance runId act d') {s : RunStatus} (hs : act.source = some s) :
    ∃ run, d.row = some run ∧ run.status = s := by
  cases h <;> cases hs
  case claim queued _ => exact ⟨_, rfl, queued⟩
  case heartbeat running _ => exact ⟨_, rfl, running⟩
  case finish running _ => exact ⟨_, rfl, running⟩
  case park running _ => exact ⟨_, rfl, running⟩
  case decide awaiting _ _ => exact ⟨_, rfl, awaiting⟩
  case requeue expired _ _ => exact ⟨_, rfl, Queue.running_of_expired expired⟩
  case expire expired _ _ => exact ⟨_, rfl, Queue.running_of_expired expired⟩

theorem target (h : d.Advance runId act d') {s : RunStatus} (hs : act.target = some s) :
    ∃ run, d'.row = some run ∧ run.status = s := by
  cases h <;> cases hs <;> exact ⟨_, rfl, rfl⟩

theorem unmoved (h : d.Advance runId act d') (hs : act.target = none) :
    ∃ run run', d.row = some run ∧ d'.row = some run' ∧ run'.status = run.status := by
  cases h <;> cases hs <;> exact ⟨_, _, rfl, rfl, rfl⟩

theorem finish_outcome {status : RunStatus} {result error : Option Text} {costUsd : Option Usd}
    (h : d.Advance runId (.finish status result error costUsd) d') :
    status = .completed ∨ status = .failed := by
  cases h
  assumption

/-- An act that leaves a run in another status than it was in has the two ends. -/
theorem ends (h : d.Advance runId act d') {run run' : Run} (before : d.row = some run)
    (after : d'.row = some run') (moved : run'.status ≠ run.status) :
    act.source = some run.status ∧ act.target = some run'.status := by
  cases source : act.source with
  | some s =>
    obtain ⟨_, there, rfl⟩ := h.source source
    rw [before] at there
    cases there
    cases target : act.target with
    | some t =>
      obtain ⟨_, there, rfl⟩ := h.target target
      rw [after] at there
      cases there
      exact ⟨rfl, rfl⟩
    | none =>
      obtain ⟨_, _, was, is, same⟩ := h.unmoved target
      rw [before] at was
      rw [after] at is
      cases was
      cases is
      exact (moved same).elim
  | none =>
    cases h <;> cases source <;> cases before
    all_goals
      cases after
      exact (moved rfl).elim

/-- Only a claim starts a run, and nothing takes the start back. -/
theorem started (h : d.Advance runId act d') :
    (∃ run, d'.row = some run ∧ run.startedAt.isSome = true) ↔
      (∃ run, d.row = some run ∧ run.startedAt.isSome = true) ∨ ∃ w, act = .claim w := by
  cases h <;>
    simp [Queue.newRun, Queue.claimSet, Queue.leaseSet, setStatus, Queue.finishSet,
      Approvals.parkSet, Approvals.closeSet, Queue.requeueSet, Queue.deadSet, tagsSet]

/-- An act on a terminal run changes no column but `tags`. -/
theorem frozen (h : d.Advance runId act d') {run : Run} (there : d.row = some run)
    (ended : run.status.Terminal) : ∃ tags, d'.row = some { run with tags := tags } := by
  cases source : act.source with
  | some s =>
    obtain ⟨_, is, status⟩ := h.source source
    rw [there] at is
    cases is
    rw [status] at ended
    cases act <;> cases source <;> simp at ended
  | none =>
    cases h <;> cases source <;> cases there
    · exact ⟨run.tags, rfl⟩
    · exact ⟨_, rfl⟩

/-- Only an approving decision makes an approved row, and nothing takes it back. -/
theorem approved (h : d.Advance runId act d') :
    (∃ a ∈ d'.approvals, a.status = .approved) ↔
      (∃ a ∈ d.approvals, a.status = .approved) ∨ act = .decide true := by
  cases h with
  | decide now approved via note awaiting pending recorded =>
    simp only [List.mem_map, Act.decide.injEq]
    constructor
    · rintro ⟨_, ⟨a, ha, rfl⟩, status⟩
      split_ifs at status with was
      · cases approved
        · cases status
        · exact .inr rfl
      · exact .inl ⟨a, ha, status⟩
    · rintro (⟨a, ha, status⟩ | rfl)
      · exact ⟨_, ⟨a, ha, rfl⟩, by simp [status]⟩
      · obtain ⟨a, ha, status⟩ := pending
        refine ⟨_, ⟨a, ha, rfl⟩, ?_⟩
        simp [status, Approvals.decisionSet, Approvals.newStatus]
  | park => simp [or_and_right, exists_or, Approvals.newApproval]
  | _ => simp

theorem attempts (h : d.Advance runId act d') :
    (d'.row.elim 0 Run.attempts : Int) = d.row.elim 0 Run.attempts + act.attempts := by
  cases h <;> first | rfl | exact (add_zero _).symm

/-- Only a park adds an approval. -/
theorem approval_ids (h : d.Advance runId act d') (unparked : act ≠ .park) :
    d'.approvals.map Approval.id = d.approvals.map Approval.id := by
  cases h with
  | park => exact (unparked rfl).elim
  | decide now approved via note =>
    rw [List.map_map]
    refine List.map_congr_left fun a _ => ?_
    simp only [Function.comp_apply]
    split_ifs <;> rfl
  | _ => rfl

/-- A running run stays with its owner, unless it is finished, parked or reaped. -/
theorem owner (h : d.Advance runId act d') {run : Run} (there : d.row = some run)
    (running : run.status = .running) :
    (∃ run', d'.row = some run' ∧ run'.status = .running ∧ run'.lockedBy = run.lockedBy) ∨
      (∃ status result error costUsd, act = .finish status result error costUsd) ∨
      act = .park ∨ act = .requeue ∨ act = .expire := by
  cases h with
  | enqueue => cases there
  | claim now w lease queued =>
    cases there
    rw [running] at queued
    cases queued
  | heartbeat => cases there; exact .inl ⟨_, rfl, running, rfl⟩
  | finish => exact .inr (.inl ⟨_, _, _, _, rfl⟩)
  | park => exact .inr (.inr (.inl rfl))
  | decide now approved via note awaiting =>
    cases there
    rw [running] at awaiting
    cases awaiting
  | requeue => exact .inr (.inr (.inr (.inl rfl)))
  | expire => exact .inr (.inr (.inr (.inr rfl)))
  | emit => exact .inl ⟨run, there, running, rfl⟩
  | retag => cases there; exact .inl ⟨_, rfl, running, rfl⟩

/-- Only a claim gives a run a new owner. -/
theorem new_owner (h : d.Advance runId act d') {run' : Run} {w : WorkerId}
    (there : d'.row = some run') (running : run'.status = .running)
    (mine : run'.lockedBy = some w) :
    (∃ run, d.row = some run ∧ run.status = .running ∧ run.lockedBy = some w) ∨
      act = .claim w := by
  cases h with
  | claim now workerId lease =>
    cases there
    cases mine
    exact .inr rfl
  | finish now status result error costUsd sessionId outcome =>
    cases there
    cases mine
  | park => cases there; cases running
  | decide now approved => cases there; cases approved <;> cases running
  | heartbeat | retag =>
    cases there
    exact .inl ⟨_, rfl, running, mine⟩
  | emit => exact .inl ⟨run', there, running, mine⟩
  | enqueue | requeue | expire => cases there; cases running

/-- An act that ends a run, and what it stores. -/
theorem ended (h : d.Advance runId act d') {run run' : Run} (before : d.row = some run)
    (after : d'.row = some run') (open_ : ¬ run.status.Terminal) (closed : run'.status.Terminal)
    (blank : run.result = none ∧ run.error = none ∧ run.costUsd = none) :
    (∃ status, act = .finish status run'.result run'.error run'.costUsd) ∨
      (act = .expire ∧ run'.result = none ∧ run'.error = some Queue.leaseExpired ∧
        run'.costUsd = none) ∨
      (act = .decide false ∧ run'.result = none ∧ run'.error = none ∧ run'.costUsd = none) := by
  cases h with
  | finish now status => cases before; cases after; exact .inl ⟨status, rfl⟩
  | expire => cases before; cases after; exact .inr (.inl ⟨rfl, blank.1, rfl, blank.2.2⟩)
  | decide now approved =>
    cases before
    cases after
    cases approved
    · exact .inr (.inr ⟨rfl, blank⟩)
    · simp [setStatus, Approvals.verdict, Approvals.closeSet] at closed
  | enqueue => cases before
  | claim | requeue => cases before; cases after; simp [Queue.claimSet, Queue.requeueSet] at closed
  | park => cases before; cases after; simp [setStatus, Approvals.parkSet] at closed
  | heartbeat | emit | retag => cases before; cases after; exact (open_ closed).elim

/-- What a claim leaves: one attempt more, and one event. -/
theorem claimed {w : WorkerId} (h : d.Advance runId (.claim w) d') :
    ∃ run run' ev, d.row = some run ∧ run.status = .queued ∧ d'.row = some run' ∧
      run'.status = .running ∧ run'.attempts = run.attempts + 1 ∧
      d'.trail = d.trail ++ [ev] ∧ ev.Records (some .queued) .running := by
  cases h with
  | claim now workerId lease queued recorded =>
    exact ⟨_, _, _, rfl, queued, rfl, rfl, rfl, rfl, recorded⟩

/-- Only a claim takes a run out of the queue; when it becomes available is fixed. -/
theorem waiting (h : d.Advance runId act d') {run : Run} (there : d.row = some run)
    (queued : run.status = .queued) (unclaimed : ∀ w, act ≠ .claim w) :
    ∃ run', d'.row = some run' ∧ run'.status = .queued ∧ run'.availableAt = run.availableAt := by
  cases h with
  | claim => exact (unclaimed _ rfl).elim
  | enqueue => cases there
  | emit => exact ⟨run, there, queued, rfl⟩
  | retag => cases there; exact ⟨_, rfl, queued, rfl⟩
  | heartbeat now w lease running => cases there; rw [queued] at running; cases running
  | finish now status result error costUsd sessionId outcome running =>
    cases there; rw [queued] at running; cases running
  | park now id action payload running => cases there; rw [queued] at running; cases running
  | decide now approved via note awaiting => cases there; rw [queued] at awaiting; cases awaiting
  | requeue now expired | expire now expired =>
    cases there
    have running := Queue.running_of_expired expired
    rw [queued] at running
    cases running

end Dossier.Advance

end AgenticOctopus.Spine
