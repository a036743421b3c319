import AgenticOctopus.Worker.Leases

/-!
# Lease fencing

A finish or a request names its run and asks only that it be running. A worker whose claim
was ended by the reaper can therefore close or park the run while another worker runs it;
that is the only way in which a claim fails to fence its run, as the equivalence below says:
a run of the system is fenced exactly when each finish and request that finds its run
running is issued by the worker in `locked_by`, which is what `heartbeat` checks.
-/
namespace AgenticOctopus.Worker
open Foundation Spine

variable {registry : Registry}

def WorksOn (s : Sys) (w : WorkerId) (r : RunId) : Prop :=
  ∃ run, (s.phase w).run? = some run ∧ run.id = r

/-- Step `i` is a claim of this run by this worker. -/
def ClaimsAt (e : (system registry).Execution) (i : Nat) (w : WorkerId) (r : RunId) : Prop :=
  (∃ locked, e.label i = .claim w locked) ∧ (e.state i).phase w = .idle ∧
    WorksOn (e.state (i + 1)) w r ∧ Owns (e.state (i + 1)).db w r

/-- The worker has been working on the run ever since step `i`. -/
def HoldsSince (e : (system registry).Execution) (i j : Nat) (w : WorkerId) (r : RunId) : Prop :=
  ∀ k, i < k → k ≤ j → WorksOn (e.state k) w r

/-- The run has been running ever since step `i`: nothing has ended the claim made there. -/
def RunsSince (e : (system registry).Execution) (i j : Nat) (r : RunId) : Prop :=
  ∀ k, i < k → k ≤ j → ∃ row, (e.state k).db.runs.find? r = some row ∧ row.status = .running

/-- The label is a finish or a request of this worker; a request draws a fresh id. -/
def Settles (s : Sys) (w : WorkerId) : Label → Prop
  | .finish v => v = w
  | .request v id => v = w ∧ s.db.approvals.find? id = none
  | _ => False

/-- What a finish from this phase stores as result, error and cost. -/
def Phase.outcome? : Phase → Option (Option Text × Option Text × Option Usd)
  | .unknown run => some (none, some (unknownAgent run.agent), none)
  | .closing _ _ o => some (o.result, o.error, o.costUsd)
  | _ => none

/-- Where result, error and cost of a terminal run come from: the finish of the worker that
held its claim, the reaper, or a rejection. -/
inductive Provenance (e : (system registry).Execution) (n : Nat) (run : Run) : Prop where
  | finished {i j w} (claimed : ClaimsAt e i w run.id) (before : i < j ∧ j < n)
      (held : HoldsSince e i j w run.id) (current : RunsSince e i j run.id)
      (label : e.label j = .finish w)
      (outcome : ((e.state j).phase w).outcome? = some (run.result, run.error, run.costUsd))
  | expired {j locked external} (before : j < n)
      (label : e.label j = .call (.reapExpired locked) external)
      (outcome : run.result = none ∧ run.error = some Queue.leaseExpired ∧ run.costUsd = none)
  | rejected {j via note external} (before : j < n)
      (label : e.label j = .call (.decide run.id false via note) external)
      (outcome : run.result = none ∧ run.error = none ∧ run.costUsd = none)

/-- A finish or request because of a claim changes the run only while the claim stands, and
terminal runs carry what the holder of their claim stored. -/
structure Fenced (e : (system registry).Execution) : Prop where
  settles : ∀ i j w r, i < j → j < e.length → ClaimsAt e i w r → HoldsSince e i j w r →
    Settles (e.state j) w (e.label j) →
    (e.state (j + 1)).db.dossier r ≠ (e.state j).db.dossier r → RunsSince e i j r
  outcomes : ∀ n run, n ≤ e.length → (e.state n).db.runs.find? run.id = some run →
    run.status.Terminal → Provenance e n run

/-- Each finish and request that finds its run running is issued by the worker in `locked_by`. -/
def SettledByOwner (e : (system registry).Execution) : Prop :=
  ∀ j w r row, j < e.length → WorksOn (e.state j) w r → Settles (e.state j) w (e.label j) →
    (e.state j).db.runs.find? r = some row → row.status = .running → row.lockedBy = some w

/-! ## Claims and what follows them -/

theorem works_before {s t : Sys} {l : Label} (h : step registry s l = some t) {w : WorkerId}
    {r : RunId} (works : WorksOn t w r) :
    WorksOn s w r ∨ (∃ locked, l = .claim w locked) ∧ s.phase w = .idle ∧ Owns t.db w r := by
  obtain ⟨run, works, rfl⟩ := works
  cases step_inversion h with
  | @turn v before after db who stood turn =>
    by_cases hw : w = v
    · subst hw
      rw [Sys.goto_phase] at works
      by_cases idle : before = .idle
      · subst idle
        cases turn with
        | @claim w' locked run' _ claimed =>
          cases who
          refine .inr ⟨⟨locked, rfl⟩, stood, ?_⟩
          exact (Turn.claim claimed).owns rfl (by rintro _ ⟨⟩) works
        | crash inside => exact (inside rfl).elim
      · left
        refine ⟨run, ?_, rfl⟩
        rw [stood]
        cases turn with
        | claim => exact (idle rfl).elim
        | approved | unapproved | execute | outcome => exact works
        | _ => cases works
    · rw [s.goto_phase_of_ne v after db hw] at works
      exact .inl ⟨run, works, rfl⟩
  | clock | transaction | nothing => exact .inl ⟨run, works, rfl⟩

/-- A worker at work has claimed its run, and has held it ever since. -/
theorem claimed_of_works (e : (system registry).Execution) {j : Nat} (hj : j ≤ e.length)
    {w : WorkerId} {r : RunId} (works : WorksOn (e.state j) w r) :
    ∃ i, i < j ∧ ClaimsAt e i w r ∧ HoldsSince e i j w r := by
  induction j with
  | zero =>
    obtain ⟨run, works, -⟩ := works
    rw [e.start.2 w] at works
    cases works
  | succ j ih =>
    rcases works_before (e.next j (by omega)) works with before | ⟨claim, idle, owns⟩
    · obtain ⟨i, hi, claimed, held⟩ := ih (by omega) before
      refine ⟨i, by omega, claimed, fun k hik hk => ?_⟩
      rcases Nat.lt_or_ge j k with last | earlier
      · rwa [show k = j + 1 by omega]
      · exact held k hik earlier
    · refine ⟨j, by omega, ⟨claim, idle, works, owns⟩, fun k hik hk => ?_⟩
      rwa [show k = j + 1 by omega]

/-- A worker that owns its run at the end of its hold has owned it since its claim: to own it
again it would have had to claim it again. -/
theorem owns_since (e : (system registry).Execution) {i j : Nat} (hj : j ≤ e.length)
    {w : WorkerId} {r : RunId} (held : HoldsSince e i j w r) (owns : Owns (e.state j).db w r) :
    ∀ k, i < k → k ≤ j → Owns (e.state k).db w r := by
  intro k hik hkj
  by_contra lost
  obtain ⟨m, hkm, hmj, before, after⟩ := e.exists_change (P := fun s => Owns s.db w r) hkj lost owns
  have next := e.next m (by omega)
  rcases step_effect next r with same | ⟨op, act, label, performs, -, advance⟩
  · exact before (after.of_dossier same.symm)
  · obtain ⟨row, there, running, mine⟩ := after
    rcases advance.new_owner there running mine with already | rfl
    · exact before already
    · obtain ⟨_, _, rfl⟩ := Op.performs_claim performs
      have claims := Label.op_claim label
      obtain ⟨run, works, -⟩ := held m (by omega) (by omega)
      rw [claims] at next
      simp only [system, Machine.ofStep, step] at next
      split at next
      next idle => rw [idle] at works; cases works
      next => cases next

/-- A settling step that changes a run found it running. -/
theorem running_of_settled {s t : Sys} {l : Label} (h : step registry s l = some t) {w : WorkerId}
    {r : RunId} (settles : Settles s w l) (changed : t.db.dossier r ≠ s.db.dossier r) :
    ∃ row, s.db.runs.find? r = some row ∧ row.status = .running := by
  rcases step_effect h r with same | ⟨op, act, label, performs, -, advance⟩
  · exact (changed same).elim
  have source : act.source = some .running := by
    cases l with
    | finish v =>
      simp only [Label.op?] at label
      split at label <;> cases label <;> (obtain ⟨-, rfl⟩ := performs; rfl)
    | request v id =>
      simp only [Label.op?] at label
      split at label <;> cases label
      obtain ⟨-, rfl⟩ := performs
      rfl
    | _ => exact settles.elim
  exact advance.source source

theorem moved_of_acts {db db' : Db} {r : RunId} {act : Act} {b : RunStatus}
    (acts : db.Acts db' r act) (target : act.target = some b) (moves : b ≠ .running)
    {row : Run} (there : db.runs.find? r = some row) (running : row.status = .running) :
    db'.dossier r ≠ db.dossier r := by
  intro same
  obtain ⟨row', is, rfl⟩ := acts.1.target target
  rw [same, dossier_row, there] at is
  cases is
  exact moves running

/-- A finish of a run that is running changes it. -/
theorem changed_of_finish {now : Time} {db : Db} {r : RunId} {status : RunStatus}
    {result error : Option Text} {costUsd : Option Usd} {sessionId : Option Text}
    (outcome : status = .completed ∨ status = .failed) {row : Run}
    (there : db.runs.find? r = some row) (running : row.status = .running) :
    ((Op.finish r status result error costUsd sessionId).after now db).dossier r ≠
      db.dossier r := by
  obtain ⟨db', ran⟩ :=
    finish_returns ⟨row, there, running⟩ now outcome result error costUsd sessionId
  have returned : ((Op.finish r status result error costUsd sessionId).block now).run db =
      .ok ((), db') := ran
  rw [after_of_ok returned]
  refine moved_of_acts (Queue.finish_acts ran) rfl ?_ there running
  rcases outcome with rfl | rfl <;> decide

/-- A settling step of a worker on its running run takes it out of `running`. -/
theorem settled_of_running {s t : Sys} {l : Label} (h : step registry s l = some t) {w : WorkerId}
    {r : RunId} (works : WorksOn s w r) (settles : Settles s w l) {row : Run}
    (there : s.db.runs.find? r = some row) (running : row.status = .running) :
    t.db.dossier r ≠ s.db.dossier r := by
  obtain ⟨run, works, rfl⟩ := works
  rw [step_database h]
  cases l with
  | finish v =>
    subst settles
    simp only [step] at h
    split at h
    next run' stood =>
      rw [stood] at works
      cases works
      rw [Label.database_of_op (by simp only [Label.op?, stood]; rfl)]
      exact changed_of_finish (.inr rfl) there running
    next run' agent o stood =>
      rw [stood] at works
      cases works
      rw [Label.database_of_op (by simp only [Label.op?, stood]; rfl)]
      exact changed_of_finish o.runStatus_cases there running
    next => cases h
  | request v id =>
    obtain ⟨rfl, fresh⟩ := settles
    simp only [step] at h
    split at h
    next run' agent stood =>
      rw [stood] at works
      cases works
      rw [Label.database_of_op (by simp only [Label.op?, stood]; rfl)]
      obtain ⟨db', ran⟩ := request_returns ⟨row, there, running⟩ s.now fresh (gateAction agent)
        (gatePayload run)
      have returned : ((Op.request id run.id (gateAction agent) (gatePayload run)).block
          s.now).run s.db = .ok ((), db') := Txn.bind_ok.mpr ⟨_, _, ran, rfl⟩
      rw [after_of_ok returned]
      exact moved_of_acts (Approvals.request_acts ran).2 rfl (by decide) there running
    next => cases h
  | _ => exact settles.elim

theorem frozen_since (e : (system registry).Execution) {k n : Nat} (hkn : k ≤ n)
    (hn : n ≤ e.length) {r : RunId} {row : Run} (there : (e.state k).db.runs.find? r = some row)
    (ended : row.status.Terminal) :
    ∃ tags, (e.state n).db.runs.find? r = some { row with tags := tags } := by
  refine e.persists (P := fun s => ∃ tags, s.db.runs.find? r = some { row with tags := tags }) hkn
    (fun m _ hm ⟨tags, was⟩ => ?_) ⟨row.tags, there⟩
  rcases step_transaction (e.next m (by omega)) with same | ⟨op, -, after⟩
  · exact ⟨tags, by rw [same, was]⟩
  · rw [after]
    obtain ⟨tags', is⟩ := frozen_step (l := ((e.state m).now, op)) was ended
    exact ⟨tags', is⟩

/-- Where a run ends, and what it stores there. -/
theorem ended_at (e : (system registry).Execution) {n : Nat} (hn : n ≤ e.length) {run : Run}
    (there : (e.state n).db.runs.find? run.id = some run) (ended : run.status.Terminal) :
    ∃ k op act, k < n ∧ (e.label k).op? (e.state k) = some op ∧ op.Performs run.id act ∧
      (∃ row, (e.state k).db.runs.find? run.id = some row ∧ act.source = some row.status) ∧
      ((∃ status, act = .finish status run.result run.error run.costUsd) ∨
        (act = .expire ∧ run.result = none ∧ run.error = some Queue.leaseExpired ∧
          run.costUsd = none) ∨
        (act = .decide false ∧ run.result = none ∧ run.error = none ∧ run.costUsd = none)) := by
  have blank : ¬ ∃ row, (e.state 0).db.runs.find? run.id = some row ∧ row.status.Terminal := by
    rintro ⟨_, first, -⟩
    rw [show (e.state 0).db = Db.empty from e.start.1] at first
    cases first
  obtain ⟨k, -, hkn, before, row', there', closed⟩ := e.exists_change
    (P := fun s => ∃ row, s.db.runs.find? run.id = some row ∧ row.status.Terminal)
    (Nat.zero_le n) blank ⟨run, there, ended⟩
  rcases step_effect (e.next k (by omega)) run.id with same | ⟨op, act, label, performs, -, advance⟩
  · have rows : (e.state (k + 1)).db.runs.find? run.id = (e.state k).db.runs.find? run.id :=
      congrArg Dossier.row same
    exact (before ⟨row', rows ▸ there', closed⟩).elim
  cases was : (e.state k).db.runs.find? run.id with
  | none =>
    obtain rfl := advance.enqueue_of_absent was
    obtain ⟨_, is, queued⟩ := advance.target rfl
    rw [dossier_row, there'] at is
    cases is
    rw [queued] at closed
    simp at closed
  | some row =>
    have open_ : ¬ row.status.Terminal := fun h => before ⟨row, was, h⟩
    have shape := reachable_shaped ((systemRefines registry).reachable
      (e.reachable (show k ≤ e.length by omega))) run.id row was
    have moved : row'.status ≠ row.status := fun h => open_ (h ▸ closed)
    have source := (advance.ends was there' moved).1
    have stored := advance.ended was there' open_ closed (shape.outcome open_)
    obtain ⟨tags, final⟩ := frozen_since e (show k + 1 ≤ n by omega) hn there' closed
    rw [there] at final
    cases final
    exact ⟨k, op, act, hkn, label, performs, ⟨row, was, source⟩, stored⟩

theorem fenced_of_settledByOwner (e : (system registry).Execution) (owner : SettledByOwner e) :
    Fenced e where
  settles i j w r hij hj claimed held settles changed := by
    obtain ⟨row, there, running⟩ := running_of_settled (e.next j hj) settles changed
    have mine := owner j w r row hj (held j hij le_rfl) settles there running
    intro k hik hkj
    exact (owns_since e hj.le held ⟨row, there, running, mine⟩ k hik hkj).running
  outcomes n run hn there ended := by
    obtain ⟨k, op, act, hkn, label, performs, ⟨row, was, source⟩,
      ⟨status, rfl⟩ | ⟨rfl, stored⟩ | ⟨rfl, stored⟩⟩ := ended_at e hn there ended
    · obtain ⟨_, rfl⟩ := Op.performs_finish performs
      obtain ⟨w, run', call, same, stored⟩ := Label.op_finish label
      have works : WorksOn (e.state k) w run.id := by
        rcases stored with ⟨stood, -⟩ | ⟨_, _, stood, -⟩ <;> exact ⟨run', by rw [stood]; rfl, same⟩
      obtain ⟨i, hik, claimed, held⟩ := claimed_of_works e (by omega) works
      have running : row.status = .running := (Option.some.inj source).symm
      have mine := owner k w run.id row (by omega) works (by rw [call]; rfl) was running
      refine .finished claimed ⟨hik, hkn⟩ held (fun m him hmk => ?_) call ?_
      · exact (owns_since e (by omega) held ⟨row, was, running, mine⟩ m him hmk).running
      · rcases stored with ⟨stood, -, result, error, cost⟩ |
          ⟨_, _, stood, -, result, error, cost⟩ <;>
          rw [stood, Phase.outcome?, result, error, cost]
    · obtain ⟨locked, rfl⟩ := Op.performs_reap performs (.inr rfl)
      obtain ⟨external, call⟩ := Label.op_reapExpired label
      exact .expired hkn call stored
    · obtain ⟨via, note, rfl⟩ := Op.performs_decide performs
      obtain ⟨external, call⟩ := Label.op_decide label
      exact .rejected hkn call stored

/-- A worker whose claim stands is in `locked_by`. -/
theorem owns_of_runsSince (e : (system registry).Execution) {i j : Nat} (hj : j ≤ e.length)
    (hij : i < j) {w : WorkerId} {r : RunId} (claimed : ClaimsAt e i w r)
    (standing : RunsSince e i j r) : Owns (e.state j).db w r := by
  induction j, hij using Nat.le_induction with
  | base => exact claimed.2.2.2
  | succ j hij ih =>
    have owns := ih (by omega) fun k hik hkj => standing k hik (by omega)
    obtain ⟨row', there', running'⟩ := standing (j + 1) (by omega) le_rfl
    rcases step_effect (e.next j (by omega)) r with same | ⟨op, act, -, -, -, advance⟩
    · exact owns.of_dossier same
    obtain ⟨row, there, running, mine⟩ := owns
    rcases advance.owner there running with
      ⟨_, is, running'', same⟩ | ⟨status, result, error, costUsd, rfl⟩ | rfl | rfl | rfl
    · exact ⟨_, is, running'', same.trans mine⟩
    all_goals
      obtain ⟨_, is, status⟩ := advance.target rfl
      rw [dossier_row, there'] at is
      cases is
      rw [running'] at status
    · subst status
      rcases advance.finish_outcome with ended | ended <;> cases ended
    all_goals cases status

theorem settledByOwner_of_fenced (e : (system registry).Execution) (fenced : Fenced e) :
    SettledByOwner e := by
  intro j w r row hj works settles there running
  obtain ⟨i, hij, claimed, held⟩ := claimed_of_works e hj.le works
  have changed := settled_of_running (e.next j hj) works settles there running
  have standing := fenced.settles i j w r hij hj claimed held settles changed
  obtain ⟨_, is, -, mine⟩ := owns_of_runsSince e hj.le hij claimed standing
  rw [there] at is
  cases is
  exact mine

/-- A run of the system fences every claim exactly when no worker settles a run that is
running under the claim of another. -/
theorem fenced_iff_settledByOwner (e : (system registry).Execution) :
    Fenced e ↔ SettledByOwner e :=
  ⟨settledByOwner_of_fenced e, fenced_of_settledByOwner e⟩

/-! ## A late finish -/

def newsRegistry : Registry := [(↑"news", { manifest := { name := ↑"news" }, prompt := [] })]

/-- The first worker stalls in its executor until its lease has passed, the reaper requeues the
run, a second worker claims and executes it, and the first one finishes it. -/
def lateFinish : (system newsRegistry).Execution :=
  replay newsRegistry
    [.call (.enqueue ↑"r" ↑"news" .api [] none 2 []) trivial,
      .claim ↑"w1" fun _ => false,
      .execute ↑"w1",
      .outcome ↑"w1" (.ok { status := ↑"completed", result := some ↑"stale" }),
      .clock (minutes 16),
      .call (.reapExpired fun _ => false) trivial,
      .claim ↑"w2" fun _ => false,
      .execute ↑"w2",
      .finish ↑"w1"]
    (by decide)

theorem lateFinish_not_fenced :
    ¬ ∀ (registry : Registry) (e : (system registry).Execution), Fenced e := by
  intro fenced
  have works : ((lateFinish.state 8).phase ↑"w1").run?.map Run.id = some ↑"r" := by decide
  have stolen : ((lateFinish.state 8).db.runs.find? ↑"r").map (fun row =>
      (row.status, row.lockedBy)) = some (.running, some ↑"w2") := by decide
  obtain ⟨run, works, same⟩ := Option.map_eq_some_iff.mp works
  obtain ⟨row, there, owner⟩ := Option.map_eq_some_iff.mp stolen
  obtain ⟨running, locked⟩ := Prod.mk.inj owner
  have mine := settledByOwner_of_fenced lateFinish (fenced _ _) 8 ↑"w1" ↑"r" row (by decide)
    ⟨run, works, same⟩ rfl there running
  rw [locked] at mine
  simp at mine

end AgenticOctopus.Worker
