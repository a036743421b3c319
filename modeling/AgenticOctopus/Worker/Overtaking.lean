import AgenticOctopus.Worker.ApprovedParams
import AgenticOctopus.Worker.Attempts
import AgenticOctopus.Worker.Chronology

/-!
# How long a run waits in the queue

A claim takes the oldest run that it sees, and a run that is requeued keeps its age. So while a
run waits, every claim is of a run that is no younger; and since a claim costs an attempt that
only a park gives back, the older runs can go before it only as often as their attempts and
their parks allow.
-/
namespace AgenticOctopus.Worker
open Foundation Spine

variable {registry : Registry} (e : (system registry).Execution)

/-- Step `k` is a claim that returns this run. -/
def ClaimsRun (r : RunId) (k : Nat) : Prop :=
  ∃ w locked run db, e.label k = .claim w locked ∧
    (Queue.claim (e.state k).now locked w).run (e.state k).db = .ok (some run, db) ∧ run.id = r

/-- Step `k` is a worker's request that parks this run. -/
def ParksRun (r : RunId) (k : Nat) : Prop :=
  ∃ w id run agent db, e.label k = .request w id ∧ (e.state k).phase w = .park run agent ∧
    run.id = r ∧ (Approvals.request (e.state k).now id r (gateAction agent) (gatePayload run)).run
      (e.state k).db = .ok (id, db)

variable {e} {k : Nat} {r : RunId}

theorem moves (hk : k < e.length) :
    step registry (e.state k) (e.label k) = some (e.state (k + 1)) := e.next k hk

theorem claims_advance (hk : k < e.length) (h : ClaimsRun e r k) :
    ∃ w, ((e.state k).db.dossier r).Advance r (.claim w) ((e.state (k + 1)).db.dossier r) := by
  obtain ⟨w, locked, run, db, label, claimed, rfl⟩ := h
  have returned : ((Op.claim locked w Queue.defaultLeaseMinutes).block (e.state k).now).run
      (e.state k).db = .ok ((), db) := Txn.discard_ok.mpr ⟨_, claimed⟩
  have after : (e.state (k + 1)).db = db := by
    rw [step_database (moves hk), label, Label.database_of_op rfl, after_of_ok returned]
  rw [after]
  rcases Queue.claim_acts claimed with ⟨none, -⟩ | ⟨_, -, -, -, is, -, acts⟩
  · cases none
  · cases is
    exact ⟨w, acts.1⟩

theorem parks_advance (hk : k < e.length) (h : ParksRun e r k) :
    ((e.state k).db.dossier r).Advance r .park ((e.state (k + 1)).db.dossier r) := by
  obtain ⟨w, id, run, agent, db, label, stood, rfl, asked⟩ := h
  have op : (e.label k).op? (e.state k) =
      some (.request id run.id (gateAction agent) (gatePayload run)) := by
    rw [label]
    simp [Label.op?, stood]
  have returned : ((Op.request id run.id (gateAction agent) (gatePayload run)).block
      (e.state k).now).run (e.state k).db = .ok ((), db) := Txn.discard_ok.mpr ⟨_, asked⟩
  have after : (e.state (k + 1)).db = db := by
    rw [step_database (moves hk), Label.database_of_op op, after_of_ok returned]
  rw [after]
  exact (Approvals.request_acts asked).2.1

/-- Attempts go up with a claim, down with a park, and otherwise stay. -/
theorem attempts_step (hk : k < e.length) :
    (ClaimsRun e r k → attemptsOf (e.state (k + 1)).db r = attemptsOf (e.state k).db r + 1 ∧
        ¬ ParksRun e r k) ∧
      (ParksRun e r k → attemptsOf (e.state (k + 1)).db r = attemptsOf (e.state k).db r - 1) ∧
      (¬ ClaimsRun e r k → ¬ ParksRun e r k →
        attemptsOf (e.state (k + 1)).db r = attemptsOf (e.state k).db r) := by
  refine ⟨fun claims => ?_, fun parks => attemptsOf_advance (parks_advance hk parks), ?_⟩
  · obtain ⟨w, advance⟩ := claims_advance hk claims
    refine ⟨attemptsOf_advance advance, ?_⟩
    rintro ⟨_, _, _, _, _, label, -⟩
    obtain ⟨_, _, _, _, label', -⟩ := claims
    rw [label] at label'
    cases label'
  · intro unclaimed unparked
    rcases step_effect (moves hk) r with same | ⟨op, act, issued, performs, ran, advance⟩
    · exact attemptsOf_same same
    rw [attemptsOf_advance advance]
    cases act with
    | claim w =>
      obtain ⟨locked, lease, rfl⟩ := Op.performs_claim performs
      have label := Label.op_claim issued
      rw [label] at issued
      cases issued
      obtain ⟨res, asked⟩ := Txn.discard_ok.mp ran
      rcases Queue.claim_acts asked with ⟨-, same⟩ | ⟨was, -, -, -, rfl, -, -, others⟩
      · have kept := attemptsOf_advance advance
        rw [same] at kept
        simp [Act.attempts] at kept
      · by_cases own : r = was.id
        · exact (unclaimed ⟨w, locked, _, _, label, asked, own.symm⟩).elim
        · have kept := attemptsOf_advance advance
          rw [attemptsOf_same (others r own)] at kept
          simp [Act.attempts] at kept
    | park =>
      obtain ⟨id, action, payload, rfl⟩ := Op.performs_park performs
      obtain ⟨w, run, agent, label, stood, own, rfl, rfl⟩ := Label.op_request issued
      obtain ⟨_, asked⟩ := Txn.discard_ok.mp ran
      obtain ⟨rfl, -⟩ := Approvals.request_acts asked
      exact (unparked ⟨w, _, run, agent, _, label, stood, own, asked⟩).elim
    | _ => exact add_zero _

/-! ## The runs that go first -/

/-- Attempts are claims less parks. -/
theorem attempts_balance {i j : Nat} (hij : i ≤ j) (hj : j ≤ e.length) :
    attemptsOf (e.state j).db r = attemptsOf (e.state i).db r +
      Machine.Execution.steps (ClaimsRun e r) i j - Machine.Execution.steps (ParksRun e r) i j :=
  e.potential_eq_counts (fun s => attemptsOf s.db r) (ClaimsRun e r) (ParksRun e r) hij
    fun _ _ hkj => attempts_step (lt_of_lt_of_le hkj hj)

/-- The budget of a run that there is. -/
def budgetOf (db : Db) (r : RunId) : Int := (db.runs.find? r).elim 0 Run.budget

theorem attempts_le_budget (hk : k ≤ e.length) :
    attemptsOf (e.state k).db r ≤ budgetOf (e.state k).db r := by
  have paid := reachable_paid ((systemRefines registry).reachable (e.reachable hk)) r
  rw [attemptsOf, budgetOf]
  cases there : (e.state k).db.runs.find? r with
  | none => exact le_rfl
  | some run => exact (paid run there).bound

/-- The other runs that are no younger than this one. -/
def noYounger (db : Db) (waiting : Run) : Finset RunId :=
  ((db.runs.rows.filter fun run =>
    decide (run.id ≠ waiting.id ∧ run.createdAt ≤ waiting.createdAt)).map Run.id).toFinset

theorem mem_noYounger {db : Db} {waiting run : Run} (there : db.runs.find? r = some run)
    (other : r ≠ waiting.id) (older : run.createdAt ≤ waiting.createdAt) :
    r ∈ noYounger db waiting := by
  have is : run.id = r := Table.key_of_find? there
  apply List.mem_toFinset.mpr
  refine List.mem_map.mpr ⟨run, List.mem_filter.mpr ⟨Table.mem_of_find? there, ?_⟩, is⟩
  simp [is, other, older]

theorem created_later {i j : Nat} (hij : i ≤ j) (hj : j ≤ e.length) {run : Run}
    (there : (e.state i).db.runs.find? r = some run) :
    ∃ row, (e.state j).db.runs.find? r = some row ∧ row.createdAt = run.createdAt := by
  refine e.persists (P := fun s => ∃ row, s.db.runs.find? r = some row ∧
    row.createdAt = run.createdAt) hij (fun k _ hkj => ?_) ⟨run, there, rfl⟩
  rintro ⟨row, there, same⟩
  obtain ⟨row', after, origin⟩ := origin_step (e.next k (by omega)) there
  exact ⟨row', after, (congrArg Run.createdAt origin).trans same⟩

/-- The run stands in the queue. -/
def QueuedAt (e : (system registry).Execution) (r : RunId) (k : Nat) : Prop :=
  ∃ run, (e.state k).db.runs.find? r = some run ∧ run.status = .queued

/-- Step `k` is a poll that finds the row of this run free. -/
def LooksAt (e : (system registry).Execution) (r : RunId) (k : Nat) : Prop :=
  ∃ w locked, e.label k = .claim w locked ∧ locked r = false

theorem running_of_claim {d d' : Dossier} {w : WorkerId} (h : d.Advance r (.claim w) d') {run : Run}
    (is : d'.row = some run) : run.status = .running := by
  cases h
  cases is
  rfl

/-- While a run stays in the queue, a poll that finds it free claims another, no younger one. -/
theorem looks_claim (hk : k < e.length) {waiting : Run}
    (there : (e.state k).db.runs.find? waiting.id = some waiting)
    (queued : waiting.status = .queued) (still : QueuedAt e waiting.id (k + 1))
    (looks : LooksAt e waiting.id k) :
    ∃ r run, ClaimsRun e r k ∧ r ≠ waiting.id ∧ (e.state k).db.runs.find? r = some run ∧
      run.createdAt ≤ waiting.createdAt := by
  obtain ⟨w, locked, label, free⟩ := looks
  have times := (times_in_order (e.reachable hk.le) waiting.id).row waiting there
  have available : Queue.eligible (e.state k).now waiting = true := by
    have past : waiting.availableAt ≤ (e.state k).now := times.available.trans_le times.created
    simp [Queue.eligible, queued, past]
  obtain ⟨run, mem, older, db, ran⟩ : ∃ run ∈ (e.state k).db.runs,
      run.createdAt ≤ waiting.createdAt ∧ ∃ db,
        (Queue.claim (e.state k).now locked w).run (e.state k).db =
          .ok (some ((Queue.claimSet (e.state k).now w Queue.defaultLeaseMinutes).apply run), db) :=
    Queue.claim_returns (Table.mem_of_find? there) available free
  have claims : ClaimsRun e run.id k := ⟨w, locked, _, db, label, ran, rfl⟩
  refine ⟨run.id, run, claims, ?_, Table.find?_of_mem mem, older⟩
  rintro same
  obtain ⟨w, advance⟩ := claims_advance hk claims
  obtain ⟨row, after, queued'⟩ := still
  rw [same] at advance
  rw [running_of_claim advance after] at queued'
  cases queued'

/-- While a run stays in the queue, the polls that find it free each take a run that is no
younger, and they are no more than the attempts those runs had left and the attempts that their
parks gave back. -/
theorem overtaking_bounded (e : (system registry).Execution) {i j : Nat} (hij : i ≤ j)
    (hj : j ≤ e.length) {waiting : Run}
    (there : (e.state i).db.runs.find? waiting.id = some waiting)
    (stays : ∀ k, i ≤ k → k ≤ j → QueuedAt e waiting.id k) :
    (∀ k, i ≤ k → k < j → LooksAt e waiting.id k →
        ∃ r run, ClaimsRun e r k ∧ r ≠ waiting.id ∧ (e.state k).db.runs.find? r = some run ∧
          run.createdAt ≤ waiting.createdAt) ∧
      (Machine.Execution.steps (LooksAt e waiting.id) i j : Int) ≤
        ∑ r ∈ noYounger (e.state j).db waiting,
          (budgetOf (e.state j).db r - attemptsOf (e.state i).db r +
            Machine.Execution.steps (ParksRun e r) i j) := by
  have looks : ∀ k, i ≤ k → k < j → LooksAt e waiting.id k →
      ∃ r run, ClaimsRun e r k ∧ r ≠ waiting.id ∧ (e.state k).db.runs.find? r = some run ∧
        run.createdAt ≤ waiting.createdAt := by
    intro k hik hkj looks
    obtain ⟨row, after, created⟩ := created_later hik (by omega) there
    obtain ⟨row', after', queued⟩ := stays k hik (by omega)
    rw [after] at after'
    cases after'
    have is : row.id = waiting.id := Table.key_of_find? after
    rw [← created, ← is]
    exact looks_claim (lt_of_lt_of_le hkj hj) (is ▸ after) queued
      (is ▸ stays (k + 1) (by omega) hkj) (is ▸ looks)
  refine ⟨looks, ?_⟩
  have owned : Machine.Execution.steps (LooksAt e waiting.id) i j ≤
      ∑ r ∈ noYounger (e.state j).db waiting, Machine.Execution.steps (ClaimsRun e r) i j := by
    refine Machine.Execution.steps_le_sum _ (ClaimsRun e) fun k hik hkj found => ?_
    obtain ⟨r, run, claims, other, before, older⟩ := looks k hik hkj found
    obtain ⟨row, after, created⟩ := created_later hkj.le hj before
    exact ⟨r, mem_noYounger after other (created.trans_le older), claims⟩
  have each : ∀ r ∈ noYounger (e.state j).db waiting,
      (Machine.Execution.steps (ClaimsRun e r) i j : Int) ≤
        budgetOf (e.state j).db r - attemptsOf (e.state i).db r +
          Machine.Execution.steps (ParksRun e r) i j := by
    intro r _
    have balance := attempts_balance (r := r) hij hj
    have bound := attempts_le_budget (r := r) hj
    omega
  calc (Machine.Execution.steps (LooksAt e waiting.id) i j : Int)
      ≤ ∑ r ∈ noYounger (e.state j).db waiting,
          (Machine.Execution.steps (ClaimsRun e r) i j : Int) := by exact_mod_cast owned
    _ ≤ _ := Finset.sum_le_sum each

/-- Two runs in the queue, and a poll. -/
def overtakenRun : (system []).Execution :=
  replay _
    [.call (.enqueue ↑"a" ↑"news" .api [] none 3 []) trivial,
      .clock 1,
      .call (.enqueue ↑"b" ↑"news" .api [] none 3 []) trivial,
      .claim ↑"w" fun _ => false]
    (by decide)

theorem overtakenRun_bounded :
    (Machine.Execution.steps (LooksAt overtakenRun ↑"b") 3 4 : Int) ≤
      ∑ r ∈ noYounger (overtakenRun.state 4).db
          (((overtakenRun.state 3).db.runs.find? ↑"b").get (by decide)),
        (budgetOf (overtakenRun.state 4).db r - attemptsOf (overtakenRun.state 3).db r +
          Machine.Execution.steps (ParksRun overtakenRun r) 3 4) := by
  have there : (overtakenRun.state 3).db.runs.find? ↑"b" =
      some (((overtakenRun.state 3).db.runs.find? ↑"b").get (by decide)) := by rfl
  refine (overtaking_bounded overtakenRun (i := 3) (j := 4) (by decide) (by decide) there ?_).2
  intro k hik hkj
  interval_cases k
  · exact ⟨((overtakenRun.state 3).db.runs.find? ↑"b").get (by decide), by rfl, by decide⟩
  · exact ⟨((overtakenRun.state 4).db.runs.find? ↑"b").get (by decide), by rfl, by decide⟩

end AgenticOctopus.Worker
