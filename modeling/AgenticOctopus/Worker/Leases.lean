import AgenticOctopus.Worker.Steps

/-!
# Exclusive execution under live leases

While every worker that is inside `process_once` for a run it still owns renews its lease in
time, ownership is exclusive: the row of the run is running and locked by that worker. The
reaper is the only one that takes a running run from its owner, and it spares live leases.
-/
namespace AgenticOctopus.Worker
open Foundation Spine

/-- No worker that works on a run and owns it has let its lease pass. -/
def LeasesRenewed (s : Sys) : Prop :=
  ∀ w run, (s.phase w).run? = some run → ∀ row, s.db.runs.find? run.id = some row →
    row.status = .running → row.lockedBy = some w → ∀ t, row.leaseExpiresAt = some t → s.now ≤ t

/-- The run is running and locked by this worker. -/
def Owns (db : Db) (w : WorkerId) (r : RunId) : Prop :=
  ∃ row, db.runs.find? r = some row ∧ row.status = .running ∧ row.lockedBy = some w

/-- Every worker owns the run that it works on. -/
def Exclusive (s : Sys) : Prop := ∀ w run, (s.phase w).run? = some run → Owns s.db w run.id

theorem Owns.unique {db : Db} {v w : WorkerId} {r : RunId} (hv : Owns db v r) (hw : Owns db w r) :
    v = w := by
  obtain ⟨_, there, -, mine⟩ := hv
  obtain ⟨_, there', -, yours⟩ := hw
  rw [there] at there'
  cases there'
  rw [mine] at yours
  cases yours
  rfl

theorem Owns.of_dossier {db db' : Db} {w : WorkerId} {r : RunId} (h : Owns db w r)
    (same : db'.dossier r = db.dossier r) : Owns db' w r := by
  obtain ⟨row, there, held⟩ := h
  exact ⟨row, (congrArg Dossier.row same).trans there, held⟩

/-- Only finishing, parking and reaping a run take it from its owner. -/
theorem Owns.after {db : Db} {v : WorkerId} {r : RunId} {now : Time} {op : Op} (h : Owns db v r)
    (unfinished : ∀ status result error costUsd sessionId,
      op ≠ .finish r status result error costUsd sessionId)
    (unparked : ∀ id action payload, op ≠ .request id r action payload)
    (renewed : ∀ row, db.runs.find? r = some row → ∀ t, row.leaseExpiresAt = some t → now ≤ t) :
    Owns (op.after now db) v r := by
  rcases Op.effect now op db r with same | ⟨act, performs, -, advance⟩
  · exact h.of_dossier same
  obtain ⟨row, there, running, mine⟩ := id h
  rcases advance.owner there running with
    ⟨row', there', running', same⟩ | ⟨status, result, error, costUsd, rfl⟩ | rfl | reaped
  · exact ⟨row', there', running', same.trans mine⟩
  · obtain ⟨_, rfl⟩ := Op.performs_finish performs
    exact (unfinished _ _ _ _ _ rfl).elim
  · obtain ⟨_, _, _, rfl⟩ := Op.performs_park performs
    exact (unparked _ _ _ rfl).elim
  · obtain ⟨_, rfl⟩ := Op.performs_reap performs reaped
    exact h.of_dossier (reapExpired_spares there (renewed row there))

/-- A step keeps the runs of the workers that did not take a turn in it. -/
theorem owns_step {registry : Registry} {s t : Sys} {l : Label} {v : WorkerId} {run : Run}
    (h : step registry s l = some t) (inv : Exclusive s) (renewed : LeasesRenewed s)
    (other : l.worker? = some v → ∃ op, l.op? s = some op ∧ Beside op)
    (works : (s.phase v).run? = some run) : Owns t.db v run.id := by
  have owns := inv v run works
  have live : ∀ row, s.db.runs.find? run.id = some row → ∀ t, row.leaseExpiresAt = some t →
      s.now ≤ t := by
    intro row there
    obtain ⟨_, is, running, mine⟩ := id owns
    rw [there] at is
    cases is
    exact renewed v run works row there running mine
  have apart : ∀ w run', l.worker? = some w → (s.phase w).run? = some run' → run'.id = run.id →
      l.worker? = some v := by
    intro w run' who mine same
    have yours := inv w run' mine
    rw [same] at yours
    rwa [owns.unique yours]
  rcases step_transaction h with same | ⟨op, label, after⟩
  · rwa [same]
  rw [after]
  refine owns.after ?_ ?_ live
  · rintro status result error costUsd sessionId rfl
    obtain ⟨w, run', rfl, same, stood | ⟨agent, o, stood⟩⟩ := Label.op_finish label
    · obtain ⟨op, label', beside⟩ := other (apart w run' rfl (by rw [stood.1]; rfl) same)
      rw [label] at label'
      cases label'
      exact beside
    · obtain ⟨op, label', beside⟩ := other (apart w run' rfl (by rw [stood.1]; rfl) same)
      rw [label] at label'
      cases label'
      exact beside
  · rintro id action payload rfl
    obtain ⟨w, run', agent, rfl, stood, same, -⟩ := Label.op_request label
    obtain ⟨op, label', beside⟩ := other (apart w run' rfl (by rw [stood]; rfl) same)
    rw [label] at label'
    cases label'
    exact beside

theorem Phase.run?_claimed (registry : Registry) (run : Run) :
    (Phase.claimed registry run).run? = some run := by
  unfold Phase.claimed
  cases registry.get? run.agent with
  | none => rfl
  | some agent =>
    dsimp only
    split_ifs <;> rfl

/-- A worker that takes a turn owns the run that it works on afterwards. -/
theorem Turn.owns {registry : Registry} {s : Sys} {l : Label} {w : WorkerId}
    {before after : Phase} {db : Db} (turn : Turn registry s l before after db)
    (who : l.worker? = some w) (inv : ∀ run, before.run? = some run → Owns s.db w run.id)
    {run : Run} (works : after.run? = some run) : Owns db w run.id := by
  cases turn with
  | @claim w' _ run' _ claimed =>
    cases who
    rw [Phase.run?_claimed] at works
    cases works
    rcases Queue.claim_acts claimed with ⟨none, -⟩ | ⟨was, -, -, -, is, there, -⟩
    · cases none
    · cases is
      exact ⟨_, there, rfl, rfl⟩
  | approved | unapproved | execute | outcome => exact inv run works
  | _ => cases works

theorem exclusive_step {registry : Registry} {s t : Sys} {l : Label}
    (h : step registry s l = some t) (renewed : LeasesRenewed s) (inv : Exclusive s) :
    Exclusive t := by
  intro v run works
  cases step_inversion h with
  | @turn w before after db who stood turn =>
    by_cases hv : v = w
    · subst hv
      rw [Sys.goto_phase] at works
      exact turn.owns who (by rw [← stood]; exact inv v) works
    · rw [s.goto_phase_of_ne w after db hv] at works
      refine owns_step h inv renewed (fun mine => ?_) works
      rw [who] at mine
      cases mine
      exact (hv rfl).elim
  | clock => exact inv v run works
  | transaction op label beside =>
    exact owns_step h inv renewed (fun _ => ⟨op, label, beside⟩) works
  | nothing => exact inv v run works

theorem exclusive {registry : Registry} (e : (system registry).Execution)
    (renewed : ∀ i, i ≤ e.length → LeasesRenewed (e.state i)) {i : Nat} (hi : i ≤ e.length) :
    Exclusive (e.state i) := by
  refine e.persists (P := Exclusive) (Nat.zero_le i)
    (fun k _ hk inv => exclusive_step (e.next k (by omega)) (renewed k (by omega)) inv) ?_
  intro w run works
  rw [e.start.2 w] at works
  cases works

/-! ## What an owner can do -/

theorem heartbeat_of_owned {db : Db} {w : WorkerId} {r : RunId} (owned : Owns db w r) (now : Time)
    (v : WorkerId) (leaseMinutes : Int) :
    ∃ db', (Queue.heartbeat now r v leaseMinutes).run db = .ok (decide (v = w), db') := by
  obtain ⟨row, there, running, mine⟩ := owned
  have count : db.runs.rowcount (Queue.heldBy r v) = _ := db.runs.rowcount_key r _
  have updated : (updateRuns (Queue.heldBy r v) (Queue.leaseSet now leaseMinutes)).run db = _ :=
    updateRuns_ok.mpr ⟨rfl, rfl⟩
  rw [Queue.heartbeat, Txn.run_bind_of_ok updated, count, there]
  refine ⟨_, Txn.pure_ok.mpr ⟨?_, rfl⟩⟩
  simp only [Option.any_some, running, mine, true_and, Option.some.injEq]
  by_cases hv : v = w
  · simp [hv]
  · simp [hv, Ne.symm hv]

theorem Owns.running {db : Db} {w : WorkerId} {r : RunId} (h : Owns db w r) :
    ∃ row, db.runs.find? r = some row ∧ row.status = .running := by
  obtain ⟨row, there, running, -⟩ := h
  exact ⟨row, there, running⟩

/-- A running run can be finished by anyone who knows its id. -/
theorem finish_returns {db : Db} {r : RunId}
    (running : ∃ row, db.runs.find? r = some row ∧ row.status = .running) (now : Time)
    {status : RunStatus} (outcome : status = .completed ∨ status = .failed)
    (result error : Option Text) (costUsd : Option Usd) (sessionId : Option Text) :
    ∃ db', (Queue.finish now r status result error costUsd sessionId).run db = .ok ((), db') := by
  rw [Queue.finish, if_neg (by tauto)]
  refine ⟨_, transition_ok.mpr ⟨?_, running, rfl⟩⟩
  rcases outcome with rfl | rfl <;> decide

/-- A running run can be parked by anyone who knows its id. -/
theorem request_returns {db : Db} {r : RunId}
    (running : ∃ row, db.runs.find? r = some row ∧ row.status = .running) (now : Time)
    {id : ApprovalId} (fresh : db.approvals.find? id = none) (action : Text)
    (payload : Dict Text Json) :
    ∃ db', (Approvals.request now id r action payload).run db = .ok (id, db') := by
  obtain ⟨row, there, status⟩ := running
  have known : db.runs.contains r = true := by simp [Table.contains, there]
  have inserted : (insertApproval (Approvals.newApproval now id r action payload)).run db =
      .ok ((), _) := insertApproval_ok.mpr ⟨known, fresh, rfl⟩
  have moved : (transition now r .running .awaitingApproval Approvals.parkSet
      [(↑"approval_id", .str id), (↑"action", .str action)]).run
        (db.addApproval (Approvals.newApproval now id r action payload) fresh) = .ok ((), _) :=
    transition_ok.mpr ⟨by decide, ⟨row, there, status⟩, rfl⟩
  exact ⟨_, Txn.bind_ok.mpr ⟨_, _, inserted, Txn.bind_ok.mpr ⟨_, _, moved, rfl⟩⟩⟩

theorem finish_of_owned {db : Db} {w : WorkerId} {r : RunId} (owned : Owns db w r) (now : Time)
    (status : RunStatus) (result error : Option Text) (costUsd : Option Usd)
    (sessionId : Option Text) (message : Text) :
    (Queue.finish now r status result error costUsd sessionId).run db ≠
      .error (.illegalTransition message) := by
  by_cases outcome : status = .completed ∨ status = .failed
  · obtain ⟨db', ran⟩ := finish_returns owned.running now outcome result error costUsd sessionId
    simp [ran]
  · rw [Queue.finish, if_pos (by tauto)]
    exact fun h => by cases h

theorem request_of_owned {db : Db} {w : WorkerId} {r : RunId} (owned : Owns db w r) (now : Time)
    (id : ApprovalId) (action : Text) (payload : Dict Text Json) (message : Text) :
    (Approvals.request now id r action payload).run db ≠ .error (.illegalTransition message) := by
  cases taken : db.approvals.find? id with
  | none =>
    obtain ⟨db', ran⟩ := request_returns owned.running now taken action payload
    simp [ran]
  | some a =>
    intro raised
    rw [Approvals.request, Txn.bind_error] at raised
    rcases raised with inserting | ⟨_, _, inserted, -⟩
    · rcases insertApproval_error inserting with h | h <;> cases h
    · obtain ⟨-, fresh, -⟩ := insertApproval_ok.mp inserted
      rw [show db.approvals.find? id = none from fresh] at taken
      cases taken

/-- With every lease renewed in time, the worker inside `process_once` for a run is the only
one, it owns the run, and its heartbeats, its finish and its request go through. -/
theorem live_leases_exclusive {registry : Registry} (e : (system registry).Execution)
    (renewed : ∀ i, i ≤ e.length → LeasesRenewed (e.state i)) {i : Nat} (hi : i ≤ e.length)
    (w : WorkerId) (run : Run) (works : ((e.state i).phase w).run? = some run) :
    Owns (e.state i).db w run.id ∧
      (∀ v run', ((e.state i).phase v).run? = some run' → run'.id = run.id → v = w) ∧
      (∀ now leaseMinutes v, ∃ db, (Queue.heartbeat now run.id v leaseMinutes).run
        (e.state i).db = .ok (decide (v = w), db)) ∧
      (∀ now status result error costUsd sessionId message,
        (Queue.finish now run.id status result error costUsd sessionId).run (e.state i).db ≠
          .error (.illegalTransition message)) ∧
      ∀ now id action payload message,
        (Approvals.request now id run.id action payload).run (e.state i).db ≠
          .error (.illegalTransition message) := by
  have inv := exclusive e renewed hi
  have owns := inv w run works
  refine ⟨owns, fun v run' works' same => ?_,
    fun now leaseMinutes v => heartbeat_of_owned owns now v leaseMinutes,
    fun now status result error costUsd sessionId message =>
      finish_of_owned owns now status result error costUsd sessionId message,
    fun now id action payload message => request_of_owned owns now id action payload message⟩
  have yours := inv v run' works'
  rw [same] at yours
  exact yours.unique owns

/-- A run that one worker executes, with a heartbeat before its lease passes. -/
def promptRun : (system
    [(↑"news", { manifest := { name := ↑"news" }, prompt := [] })]).Execution :=
  replay _
    [.call (.enqueue ↑"r" ↑"news" .api [] none 1 []) trivial,
      .claim ↑"w1" fun _ => false,
      .execute ↑"w1",
      .clock (minutes 10),
      .heartbeat ↑"w1",
      .clock (minutes 20)]
    (by decide)

theorem renewed_of_rows {s : Sys}
    (h : (s.db.runs.rows.all fun row =>
      row.leaseExpiresAt.all fun t => decide (s.now ≤ t)) = true) :
    LeasesRenewed s := by
  intro w run _ row there _ _ t lease
  have live := List.all_eq_true.mp h row (Table.mem_of_find? there)
  rw [lease] at live
  simpa using live

theorem promptRun_exclusive : Owns (promptRun.state 6).db ↑"w1" ↑"r" :=
  (live_leases_exclusive promptRun
    (fun i hi => renewed_of_rows (by
      have bound : i ≤ 6 := hi
      interval_cases i <;> decide))
    (i := 6) (by decide) ↑"w1" _ rfl).1

end AgenticOctopus.Worker
