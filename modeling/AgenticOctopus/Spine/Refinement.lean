import AgenticOctopus.Spine.Invariants
import AgenticOctopus.Spine.Sweeps

/-!
# The spine refines the lifecycle of each of its runs

Seen from one run, every transaction of the spine is at most one act of its lifecycle, of
the kind that the operation performs. So the invariants of the lifecycle hold for every
run in every reachable state of the spine.
-/
namespace AgenticOctopus.Spine
open Foundation

/-- The acts that an operation may perform on a run. -/
def Op.Performs : Op → RunId → Act → Prop
  | .enqueue id .., r, act => r = id ∧ act = .enqueue
  | .claim _ workerId _, _, act => act = .claim workerId
  | .heartbeat runId workerId _, r, act => r = runId ∧ act = .heartbeat workerId
  | .finish runId status result error costUsd _, r, act =>
    r = runId ∧ act = .finish status result error costUsd
  | .reapExpired _, _, act => act = .requeue ∨ act = .expire
  | .request _ runId .., r, act => r = runId ∧ act = .park
  | .decide runId approved .., r, act => r = runId ∧ act = .decide approved
  | .recordEvent runId .., r, act => r = runId ∧ act = .emit
  | .setTags runId _, r, act => r = runId ∧ act = .retag
  | .tick .., _, act => act = .enqueue
  | _, _, _ => False

theorem Op.performs_claim {op : Op} {r : RunId} {workerId : WorkerId}
    (h : op.Performs r (.claim workerId)) :
    ∃ locked leaseMinutes, op = .claim locked workerId leaseMinutes := by
  cases op <;> simp [Op.Performs] at h
  subst h
  exact ⟨_, _, rfl⟩

theorem Op.performs_park {op : Op} {r : RunId} (h : op.Performs r .park) :
    ∃ id action payload, op = .request id r action payload := by
  cases op <;> simp [Op.Performs] at h
  subst h
  exact ⟨_, _, _, rfl⟩

theorem Op.performs_decide {op : Op} {r : RunId} {approved : Bool}
    (h : op.Performs r (.decide approved)) : ∃ via note, op = .decide r approved via note := by
  cases op <;> simp [Op.Performs] at h
  obtain ⟨rfl, rfl⟩ := h
  exact ⟨_, _, rfl⟩

theorem Op.performs_finish {op : Op} {r : RunId} {status : RunStatus} {result error : Option Text}
    {costUsd : Option Usd} (h : op.Performs r (.finish status result error costUsd)) :
    ∃ sessionId, op = .finish r status result error costUsd sessionId := by
  cases op <;> simp [Op.Performs] at h
  obtain ⟨rfl, rfl, rfl, rfl, rfl⟩ := h
  exact ⟨_, rfl⟩

theorem Op.performs_reap {op : Op} {r : RunId} {act : Act} (h : op.Performs r act)
    (reaps : act = .requeue ∨ act = .expire) : ∃ locked, op = .reapExpired locked := by
  rcases reaps with rfl | rfl <;> cases op <;> simp [Op.Performs] at h <;> exact ⟨_, rfl⟩

theorem Op.effect_of_ok {now : Time} {op : Op} {db db' : Db}
    (h : (op.block now).run db = .ok ((), db')) (r : RunId) :
    db'.dossier r = db.dossier r ∨
      ∃ act, op.Performs r act ∧ (db.dossier r).Advance r act (db'.dossier r) := by
  have focus : ∀ {runId act}, db.Acts db' runId act → op.Performs runId act →
      (db'.dossier r = db.dossier r ∨
        ∃ act, op.Performs r act ∧ (db.dossier r).Advance r act (db'.dossier r)) := by
    intro runId act acts performs
    by_cases hr : r = runId
    · subst hr
      exact .inr ⟨act, performs, acts.1⟩
    · exact .inl (acts.2 r hr)
  cases op with
  | enqueue id agent trigger params scheduleId maxAttempts tags =>
    obtain ⟨_, _, ran, h⟩ := Txn.bind_ok.mp h
    obtain ⟨-, rfl⟩ := Txn.pure_ok.mp h
    exact focus (Queue.enqueue_acts ran) ⟨rfl, rfl⟩
  | claim locked workerId leaseMinutes =>
    obtain ⟨_, _, ran, h⟩ := Txn.bind_ok.mp h
    obtain ⟨-, rfl⟩ := Txn.pure_ok.mp h
    rcases Queue.claim_acts ran with ⟨-, rfl⟩ | ⟨run, -, -, -, -, -, acts⟩
    · exact .inl rfl
    · exact focus acts rfl
  | heartbeat runId workerId leaseMinutes =>
    obtain ⟨_, _, ran, h⟩ := Txn.bind_ok.mp h
    obtain ⟨-, rfl⟩ := Txn.pure_ok.mp h
    obtain ⟨-, -, ⟨-, same⟩ | ⟨-, acts⟩⟩ := Queue.heartbeat_acts ran
    · exact .inl (same r)
    · exact focus acts ⟨rfl, rfl⟩
  | finish runId status result error costUsd sessionId =>
    exact focus (Queue.finish_acts h) ⟨rfl, rfl⟩
  | reapExpired locked =>
    obtain ⟨_, _, ran, h⟩ := Txn.bind_ok.mp h
    obtain ⟨-, rfl⟩ := Txn.pure_ok.mp h
    rcases Queue.reapExpired_dossier ran r with ⟨_, -, -, advance⟩ | ⟨_, -, -, advance⟩ | ⟨-, same⟩
    · exact .inr ⟨_, .inl rfl, advance⟩
    · exact .inr ⟨_, .inr rfl, advance⟩
    · exact .inl same
  | request id runId action payload =>
    obtain ⟨_, _, ran, h⟩ := Txn.bind_ok.mp h
    obtain ⟨-, rfl⟩ := Txn.pure_ok.mp h
    exact focus (Approvals.request_acts ran).2 ⟨rfl, rfl⟩
  | decide runId approved via note => exact focus (Approvals.decide_acts h) ⟨rfl, rfl⟩
  | recordEvent runId type payload emitted =>
    exact focus (Queue.recordEvent_acts emitted h) ⟨rfl, rfl⟩
  | setTags runId tags =>
    rcases setTags_acts h with same | acts
    · exact .inl (same r)
    · exact focus acts ⟨rfl, rfl⟩
  | tick host clocks locked ids =>
    obtain ⟨_, _, ran, h⟩ := Txn.bind_ok.mp h
    obtain ⟨-, rfl⟩ := Txn.pure_ok.mp h
    rcases Scheduler.tick_dossier ran r with same | advance
    · exact .inl same
    · exact .inr ⟨_, rfl, advance⟩
  | syncFromRegistry host clocks ids registry =>
    obtain ⟨_, _, ran, h⟩ := Txn.bind_ok.mp h
    obtain ⟨-, rfl⟩ := Txn.pure_ok.mp h
    exact .inl (Scheduler.syncFromRegistry_dossier ran r)
  | createSchedule host clock registry id agent cronExpr timezone params =>
    obtain ⟨_, _, ran, h⟩ := Txn.bind_ok.mp h
    obtain ⟨-, rfl⟩ := Txn.pure_ok.mp h
    exact .inl ((Scheduler.createSchedule_edits ran).dossier r)
  | toggleSchedule scheduleId =>
    obtain ⟨_, _, ran, h⟩ := Txn.bind_ok.mp h
    obtain ⟨-, rfl⟩ := Txn.pure_ok.mp h
    obtain ⟨_, _, -, -, updated⟩ := Scheduler.toggleSchedule_ok ran
    exact .inl (Scheduler.updateSchedules_dossier updated r)

/-- The effect of an operation that may have raised: at most one act on each run, and none
unless its transaction returned. -/
theorem Op.effect (now : Time) (op : Op) (db : Db) (r : RunId) :
    (op.after now db).dossier r = db.dossier r ∨
      ∃ act, op.Performs r act ∧ (op.block now).run db = .ok ((), op.after now db) ∧
        (db.dossier r).Advance r act ((op.after now db).dossier r) := by
  rcases Txn.after_cases (op.block now) db with same | ⟨_, ran⟩
  · exact .inl (by rw [Op.after, same])
  · rcases Op.effect_of_ok ran r with same | ⟨act, performs, advance⟩
    · exact .inl same
    · exact .inr ⟨act, performs, ran, advance⟩

/-- The reaper spares a run whose lease has not passed. -/
theorem reapExpired_spares {now : Time} {locked : RunId → Bool} {db : Db} {r : RunId} {run : Run}
    (there : db.runs.find? r = some run)
    (renewed : ∀ t, run.leaseExpiresAt = some t → now ≤ t) :
    ((Op.reapExpired locked).after now db).dossier r = db.dossier r := by
  have live : Queue.expired now run = false := by
    rw [Queue.expired, Bool.and_eq_false_iff]
    right
    cases lease : run.leaseExpiresAt with
    | none => rfl
    | some t => simpa using renewed t lease
  rcases Txn.after_cases ((Op.reapExpired locked).block now) db with same | ⟨_, ran⟩
  · rw [Op.after, same]
  · obtain ⟨_, _, reaped, ended⟩ := Txn.bind_ok.mp ran
    obtain ⟨-, same⟩ := Txn.pure_ok.mp ended
    rw [Op.after, ← same]
    rcases Queue.reapExpired_dossier reaped r with
      ⟨_, is, requeued, -⟩ | ⟨_, is, failed, -⟩ | ⟨-, spared⟩
    · rw [there] at is
      cases is
      simp [Queue.requeues, live] at requeued
    · rw [there] at is
      cases is
      simp [Queue.exhausts, live] at failed
    · exact spared

/-! ## The lifecycle as a machine -/

/-- The life of one run, from before it is enqueued. -/
def lifecycle (runId : RunId) : Machine Dossier Act where
  start d := d = ⟨none, [], []⟩
  step d act d' := d.Advance runId act d'

def spineRefines (runId : RunId) : Machine.Refinement spine (lifecycle runId) where
  abstraction db := db.dossier runId
  start db hdb := by
    cases hdb
    exact dossier_empty runId
  step db l db' _ hstep := by
    subst hstep
    rcases Op.effect l.1 l.2 db runId with same | ⟨act, -, -, advance⟩
    · exact .inl same
    · exact .inr ⟨act, advance⟩

section Invariants

variable {runId : RunId} {d : Dossier}

theorem lifecycle_shaped (h : (lifecycle runId).Reachable d) : d.Shaped :=
  h.invariant (P := Dossier.Shaped) (fun d hd run hr => by subst hd; cases hr)
    fun _ _ _ _ shaped step => Dossier.Advance.shaped step shaped

theorem lifecycle_audited (h : (lifecycle runId).Reachable d) : d.Audited :=
  h.invariant (P := Dossier.Audited)
    (fun d hd => by subst hd; exact ⟨fun _ => rfl, fun run hr => by cases hr⟩)
    fun _ _ _ _ audited step => Dossier.Advance.audited step audited

theorem lifecycle_gated (h : (lifecycle runId).Reachable d) : d.Gated :=
  h.invariant (P := Dossier.Gated)
    (fun d hd => by subst hd; exact ⟨fun _ => rfl, fun run hr => by cases hr⟩)
    fun _ _ _ _ gated step => Dossier.Advance.gated step gated

theorem lifecycle_budgeted (h : (lifecycle runId).Reachable d) : d.Budgeted :=
  h.invariant (P := Dossier.Budgeted) (fun d hd run hr => by subst hd; cases hr)
    fun _ _ _ _ budgeted step => Dossier.Advance.budgeted step budgeted

theorem lifecycle_paid (h : (lifecycle runId).Reachable d) : d.Paid :=
  h.invariant (P := Dossier.Paid) (fun d hd run hr => by subst hd; cases hr)
    fun _ _ _ _ paid step => Dossier.Advance.paid step paid

end Invariants

end AgenticOctopus.Spine
