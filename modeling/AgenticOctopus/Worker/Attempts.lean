import AgenticOctopus.Worker.Steps

/-!
# The attempt budget

A claim takes an attempt and a park gives one back, so the attempts of a run pay for every
start of its executor and for every worker that still may start it or park it. A late park
only gives back what its own claim took.
-/
namespace AgenticOctopus.Worker
open Foundation Spine

/-- A worker that has claimed the run and has neither started its executor nor parked it. -/
def Phase.undecided (r : RunId) : Phase → Int
  | .gate run _ | .park run _ | .ready run _ => if run.id = r then 1 else 0
  | _ => 0

/-- The label starts the executor for this run. -/
def Label.starts (s : Sys) (r : RunId) : Label → Bool
  | .execute w =>
    match s.phase w with
    | .ready run _ => decide (run.id = r)
    | _ => false
  | _ => false

def attemptsOf (db : Db) (r : RunId) : Int := (db.runs.find? r).elim 0 Run.attempts

theorem attemptsOf_same {db db' : Db} {r : RunId} (h : db'.dossier r = db.dossier r) :
    attemptsOf db' r = attemptsOf db r := by
  have rows : db'.runs.find? r = db.runs.find? r := congrArg Dossier.row h
  rw [attemptsOf, rows, attemptsOf]

theorem attemptsOf_advance {db db' : Db} {r : RunId} {act : Act}
    (h : (db.dossier r).Advance r act (db'.dossier r)) :
    attemptsOf db' r = attemptsOf db r + act.attempts := h.attempts

/-- Only claims and requests of a run change its attempts. -/
theorem attemptsOf_after {now : Time} {op : Op} {db : Db} {r : RunId}
    (noClaim : ∀ locked w lease, op ≠ .claim locked w lease)
    (noRequest : ∀ id action payload, op ≠ .request id r action payload) :
    attemptsOf (op.after now db) r = attemptsOf db r := by
  rcases Op.effect now op db r with same | ⟨act, performs, -, advance⟩
  · exact attemptsOf_same same
  · rw [attemptsOf_advance advance]
    cases act with
    | claim w =>
      obtain ⟨_, _, rfl⟩ := Op.performs_claim performs
      exact (noClaim _ _ _ rfl).elim
    | park =>
      obtain ⟨_, _, _, rfl⟩ := Op.performs_park performs
      exact (noRequest _ _ _ rfl).elim
    | _ => exact add_zero _

/-- A request gives at most one attempt back, and only to its own run. -/
theorem attemptsOf_request (now : Time) (id : ApprovalId) (run : Run) (action : Text)
    (payload : Dict Text Json) (db : Db) (r : RunId) :
    attemptsOf db r - (if run.id = r then 1 else 0) ≤
      attemptsOf ((Op.request id run.id action payload).after now db) r := by
  rcases Op.effect now (.request id run.id action payload) db r with
    same | ⟨act, performs, -, advance⟩
  · rw [attemptsOf_same same]
    split_ifs <;> omega
  · obtain ⟨rfl, rfl⟩ := performs
    rw [attemptsOf_advance advance]
    simp [Act.attempts]

theorem attemptsOf_claim {now : Time} {locked : RunId → Bool} {w : WorkerId} {run : Run}
    {db db' : Db} (h : (Queue.claim now locked w).run db = .ok (some run, db')) (r : RunId) :
    attemptsOf db' r = attemptsOf db r + if run.id = r then 1 else 0 := by
  rcases Queue.claim_acts h with ⟨none, -⟩ | ⟨was, -, -, -, is, -, advance, others⟩
  · cases none
  · cases is
    by_cases hr : r = was.id
    · subst hr
      rw [attemptsOf_advance advance]
      simp [Act.attempts, Queue.claimSet]
    · rw [attemptsOf_same (others r hr)]
      simp [Queue.claimSet, Ne.symm hr]

theorem Phase.undecided_claimed (registry : Registry) (run : Run) (r : RunId) :
    (Phase.claimed registry run).undecided r ≤ if run.id = r then 1 else 0 := by
  unfold Phase.claimed
  cases registry.get? run.agent with
  | none =>
    dsimp only [undecided]
    split_ifs <;> omega
  | some agent =>
    dsimp only
    split_ifs <;> simp_all [undecided]

/-- A turn of a worker pays for itself. -/
theorem Turn.pays {registry : Registry} {s : Sys} {l : Label} {w : WorkerId}
    {before after : Phase} {db : Db} (turn : Turn registry s l before after db)
    (who : l.worker? = some w) (stood : s.phase w = before) (r : RunId) :
    attemptsOf s.db r - before.undecided r + (if l.starts s r then 1 else 0) ≤
      attemptsOf db r - after.undecided r := by
  cases turn with
  | @claim _ _ run _ claimed =>
    have took := attemptsOf_claim claimed r
    have open_ := Phase.undecided_claimed registry run r
    simp only [Label.starts, Bool.false_eq_true, if_false, show Phase.idle.undecided r = 0 from rfl]
    omega
  | approved | unapproved | outcome | lost => simp [Label.starts, Phase.undecided]
  | @request _ id run agent =>
    have gave := attemptsOf_request s.now id run (gateAction agent) (gatePayload run) s.db r
    simp only [Label.starts, Phase.undecided, Bool.false_eq_true, if_false]
    omega
  | execute =>
    cases who
    simp [Label.starts, Phase.undecided, stood]
  | refuse =>
    rw [attemptsOf_after (by simp) (by simp)]
    simp [Label.starts, Phase.undecided]
  | @finish _ run agent o _ finished =>
    have returned : ((Op.finish run.id o.runStatus o.result o.error o.costUsd o.sessionId).block
      s.now).run s.db = .ok ((), db) := finished
    rw [← after_of_ok returned, attemptsOf_after (by simp) (by simp)]
    simp [Label.starts, Phase.undecided]
  | setTags =>
    rw [attemptsOf_after (by simp) (by simp)]
    simp [Label.starts, Phase.undecided]
  | crash =>
    have : 0 ≤ before.undecided r := by
      cases before <;> simp [Phase.undecided] <;> split_ifs <;> omega
    simpa [Label.starts, Phase.undecided] using this

/-- The attempts that neither an undecided worker nor a start of the executor has used. -/
def spare (workers : Finset WorkerId) (r : RunId) (s : Sys) : Int :=
  attemptsOf s.db r - ∑ w ∈ workers, (s.phase w).undecided r

theorem spare_goto {workers : Finset WorkerId} {s : Sys} {w : WorkerId} {after : Phase} {db : Db}
    (r : RunId) (there : w ∈ workers) :
    spare workers r (s.goto w after db) =
      attemptsOf db r - after.undecided r -
        ∑ v ∈ workers.erase w, (s.phase v).undecided r := by
  rw [spare, ← Finset.add_sum_erase _ _ there]
  have others : ∀ v ∈ workers.erase w,
      ((s.goto w after db).phase v).undecided r = (s.phase v).undecided r := by
    intro v hv
    rw [s.goto_phase_of_ne w after db (Finset.ne_of_mem_erase hv)]
  rw [Finset.sum_congr rfl others, Sys.goto_db, Sys.goto_phase]
  omega

theorem spare_step {registry : Registry} {workers : Finset WorkerId} {s t : Sys} {l : Label}
    (h : step registry s l = some t) (known : ∀ w, l.worker? = some w → w ∈ workers) (r : RunId) :
    spare workers r s + (if l.starts s r then 1 else 0) ≤ spare workers r t := by
  cases step_inversion h with
  | @turn w before after db who stood turn =>
    have pays := turn.pays who stood r
    rw [spare_goto r (known w who), spare, ← Finset.add_sum_erase _ _ (known w who), stood]
    omega
  | clock label =>
    subst label
    simp [Label.starts, spare]
  | transaction op label beside =>
    have kept : attemptsOf (op.after s.now s.db) r = attemptsOf s.db r :=
      attemptsOf_after (by rintro _ _ _ rfl; exact beside) (by rintro _ _ _ rfl; exact beside)
    have idle : l.starts s r = false := by
      cases l <;> first | rfl | cases label
    simp [spare, kept, idle]
  | nothing label =>
    subst label
    simp [Label.starts]

/-- Attempts stay within the budget, and so does the number of executions. -/
theorem attempts_within_budget {registry : Registry} (e : (system registry).Execution) {n : Nat}
    (hn : n ≤ e.length) (run : Run) (there : (e.state n).db.runs.find? run.id = some run)
    (positive : 1 ≤ run.maxAttempts) :
    (run.status = .queued ∨ run.status = .awaitingApproval →
        0 ≤ run.attempts ∧ run.attempts < run.maxAttempts) ∧
      (run.status = .running → 1 ≤ run.attempts ∧ run.attempts ≤ run.maxAttempts) ∧
      (Nat.count (fun i => (e.label i).starts (e.state i) run.id = true) n : Int) ≤
        run.maxAttempts := by
  have budget := reachable_budgeted ((systemRefines registry).reachable (e.reachable hn)) run.id
    run there positive
  refine ⟨budget.waiting, fun running => ⟨budget.running running, budget.bound⟩, ?_⟩
  let workers := ((List.range n).filterMap fun i => (e.label i).worker?).toFinset
  have known : ∀ i, i < n → ∀ w, (e.label i).worker? = some w → w ∈ workers := by
    intro i hi w who
    exact List.mem_toFinset.mpr (List.mem_filterMap.mpr ⟨i, List.mem_range.mpr hi, who⟩)
  have counted := (e.take n hn).count_le_potential (spare workers run.id)
    (fun i => (e.label i).starts (e.state i) run.id = true)
    (fun i hi => spare_step (e.next i (lt_of_lt_of_le hi hn)) (known i hi) run.id) le_rfl
  have empty : spare workers run.id (e.state 0) = 0 := by
    have idle : ∀ w ∈ workers, ((e.state 0).phase w).undecided run.id = 0 := by
      intro w _
      rw [e.start.2 w]
      rfl
    rw [spare, Finset.sum_eq_zero idle, show (e.state 0).db = Db.empty from e.start.1]
    rfl
  have used : spare workers run.id (e.state n) ≤ run.attempts := by
    have pending : 0 ≤ ∑ w ∈ workers, ((e.state n).phase w).undecided run.id := by
      refine Finset.sum_nonneg fun w _ => ?_
      cases (e.state n).phase w <;> simp [Phase.undecided] <;> split_ifs <;> omega
    have attempts : attemptsOf (e.state n).db run.id = run.attempts := by
      rw [attemptsOf, there]
      rfl
    rw [spare, attempts]
    omega
  have bound := budget.bound
  calc (Nat.count (fun i => (e.label i).starts (e.state i) run.id = true) n : Int)
      = spare workers run.id (e.state 0) +
          Nat.count (fun i => (e.label i).starts (e.state i) run.id = true) n := by
        rw [empty, zero_add]
    _ ≤ spare workers run.id (e.state n) := counted
    _ ≤ run.maxAttempts := used.trans bound

/-- A run that two workers start: the first one's lease passes inside its executor. -/
def retriedRun : (system
    [(↑"news", { manifest := { name := ↑"news" }, prompt := [] })]).Execution :=
  replay _
    [.call (.enqueue ↑"r" ↑"news" .api [] none 2 []) trivial,
      .claim ↑"w1" fun _ => false,
      .execute ↑"w1",
      .clock (minutes 16),
      .call (.reapExpired fun _ => false) trivial,
      .claim ↑"w2" fun _ => false,
      .execute ↑"w2"]
    (by decide)

theorem retriedRun_within_budget :
    (Nat.count (fun i => (retriedRun.label i).starts (retriedRun.state i) ↑"r" = true) 7 :
      Int) ≤ 2 :=
  (attempts_within_budget retriedRun (n := 7) (by decide)
    (((retriedRun.state 7).db.runs.find? ↑"r").get (by decide)) (by rfl) (by decide)).2.2

end AgenticOctopus.Worker
