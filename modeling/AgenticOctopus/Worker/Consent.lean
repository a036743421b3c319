import AgenticOctopus.Worker.Steps

/-!
# The consent gate

A worker starts the executor of a gated agent only past a check that found an approved row.
Approved rows are never taken back, and each comes from a human's decision on a parked run
whose pending row a worker had requested. So the check still holds when the executor
starts, however long the worker stood between the two.
-/
namespace AgenticOctopus.Worker
open Foundation Spine

theorem hasApproved_iff {db : Db} {r : RunId} :
    Approvals.hasApproved db r = true ↔
      ∃ a ∈ (db.dossier r).approvals, a.status = .approved := by
  simp [Approvals.hasApproved, Db.dossier, and_assoc]

theorem hasApproved_step {registry : Registry} {s t : Sys} {l : Label}
    (h : step registry s l = some t) {r : RunId} (approved : Approvals.hasApproved s.db r = true) :
    Approvals.hasApproved t.db r = true := by
  rcases step_effect h r with same | ⟨_, _, -, -, -, advance⟩
  · rwa [hasApproved_iff, same, ← hasApproved_iff]
  · exact hasApproved_iff.mpr (advance.approved.mpr (.inl (hasApproved_iff.mp approved)))

/-! ## Standing before the executor -/

/-- What a worker at this point knows of its agent and of the approvals of its run. -/
def Phase.Consented (registry : Registry) (db : Db) : Phase → Prop
  | .gate run agent | .park run agent => registry.get? run.agent = some agent
  | .ready run agent | .executing run agent =>
    registry.get? run.agent = some agent ∧
      (agent.manifest.requiresApproval = true → Approvals.hasApproved db run.id = true)
  | _ => True

theorem Phase.Consented.mono {registry : Registry} {db db' : Db} {phase : Phase}
    (approvals : ∀ r, Approvals.hasApproved db r = true → Approvals.hasApproved db' r = true)
    (h : phase.Consented registry db) : phase.Consented registry db' := by
  cases phase with
  | ready run agent => exact ⟨h.1, fun gated => approvals _ (h.2 gated)⟩
  | executing run agent => exact ⟨h.1, fun gated => approvals _ (h.2 gated)⟩
  | _ => exact h

theorem Turn.consented {registry : Registry} {s : Sys} {l : Label} {before after : Phase}
    {db : Db} (turn : Turn registry s l before after db)
    (h : before.Consented registry s.db) : after.Consented registry s.db := by
  cases turn with
  | @claim _ _ run _ claimed =>
    cases found : registry.get? run.agent with
    | none => simp [Phase.claimed, found, Phase.Consented]
    | some agent =>
      by_cases gated : agent.manifest.requiresApproval = true <;>
        simp [Phase.claimed, found, gated, Phase.Consented]
  | approved yes => exact ⟨h, fun _ => yes⟩
  | unapproved => exact h
  | execute => exact h
  | _ => trivial

theorem consented_step {registry : Registry} {s t : Sys} {l : Label}
    (h : step registry s l = some t) (inv : ∀ w, (s.phase w).Consented registry s.db)
    (w : WorkerId) : (t.phase w).Consented registry t.db := by
  refine Phase.Consented.mono (fun r => hasApproved_step h) ?_
  cases step_inversion h with
  | turn who stood turn =>
    simp only [Sys.goto, Function.update_apply]
    split_ifs with same
    · exact turn.consented (stood ▸ inv _)
    · exact inv w
  | _ => exact inv w

theorem consented {registry : Registry} {s : Sys} (h : (system registry).Reachable s)
    (w : WorkerId) : (s.phase w).Consented registry s.db :=
  h.invariant (P := fun s => ∀ w, (s.phase w).Consented registry s.db)
    (fun s start w => by rw [start.2 w]; trivial)
    (fun s l t _ inv next => consented_step next inv) w

/-! ## Where approvals come from -/

variable {registry : Registry}

/-- Step `k` is a request of a worker that parks this run and inserts the row `id`. -/
def RequestedAt (e : (system registry).Execution) (k : Nat) (r : RunId) (id : ApprovalId) : Prop :=
  ∃ w run agent, e.label k = .request w id ∧ (e.state k).phase w = .park run agent ∧ run.id = r ∧
    (Approvals.request (e.state k).now id r (gateAction agent) (gatePayload run)).run
      (e.state k).db = .ok (id, (e.state (k + 1)).db)

/-- Step `j` is a decision on this run, which was parked and whose pending rows all came from
requests of workers. -/
def ApprovedAt (e : (system registry).Execution) (j : Nat) (r : RunId) : Prop :=
  ∃ via note external, e.label j = .call (.decide r true via note) external ∧
    (Approvals.decide (e.state j).now r true via note).run (e.state j).db =
      .ok ((), (e.state (j + 1)).db) ∧
    Parked (e.state j).db r ∧
    ∃ a, pendingApprovals (e.state j).db r = [a] ∧ ∃ k, k < j ∧ RequestedAt e k r a.id

theorem request_inserts {now : Time} {id : ApprovalId} {r : RunId} {action : Text}
    {payload : Dict Text Json} {db db' : Db} {x : ApprovalId}
    (h : (Approvals.request now id r action payload).run db = .ok (x, db')) {a : Approval}
    (there : a ∈ db'.approvals) :
    a ∈ db.approvals ∨ a = Approvals.newApproval now id r action payload := by
  simp only [Approvals.request, Txn.bind_ok, Txn.pure_ok, insertApproval_ok, transition_ok] at h
  obtain ⟨_, _, ⟨-, fresh, rfl⟩, _, _, ⟨-, -, rfl⟩, -, rfl⟩ := h
  have inserted : a ∈ db.approvals.insert _ fresh := there
  rcases Table.mem_insert.mp inserted with old | rfl
  · exact .inl old
  · exact .inr rfl

theorem mem_dossier {db : Db} {r : RunId} {a : Approval} :
    a ∈ (db.dossier r).approvals ↔ a ∈ db.approvals ∧ a.runId = r := by
  simp [Db.dossier, Table.mem_def]

/-- A row of approvals that a step adds for a run is the one that a request inserts. -/
theorem requested_of_new (e : (system registry).Execution) {k : Nat} (hk : k < e.length)
    {r : RunId} {id : ApprovalId}
    (before : id ∉ ((e.state k).db.dossier r).approvals.map Approval.id)
    (after : id ∈ ((e.state (k + 1)).db.dossier r).approvals.map Approval.id) :
    RequestedAt e k r id := by
  rcases step_effect (e.next k hk) r with same | ⟨op, act, label, performs, ran, advance⟩
  · exact (before (by rwa [same] at after)).elim
  by_cases parks : act = .park
  · subst parks
    obtain ⟨id', action, payload, rfl⟩ := Op.performs_park performs
    obtain ⟨w, run, agent, call, stood, rfl, rfl, rfl⟩ := Label.op_request label
    obtain ⟨x, _, requested, ended⟩ := Txn.bind_ok.mp ran
    obtain ⟨-, rfl⟩ := Txn.pure_ok.mp ended
    obtain ⟨rfl, -⟩ := Approvals.request_acts requested
    obtain ⟨a, there, rfl⟩ := List.mem_map.mp after
    obtain ⟨there, mine⟩ := mem_dossier.mp there
    rcases request_inserts requested there with old | rfl
    · exact (before (List.mem_map.mpr ⟨a, mem_dossier.mpr ⟨old, mine⟩, rfl⟩)).elim
    · exact ⟨w, run, agent, call, stood, rfl, requested⟩
  · exact (before (by rwa [advance.approval_ids parks] at after)).elim

theorem requested_before (e : (system registry).Execution) {j : Nat} (hj : j ≤ e.length)
    {r : RunId} {a : Approval} (there : a ∈ ((e.state j).db.dossier r).approvals) :
    ∃ k, k < j ∧ RequestedAt e k r a.id := by
  have blank : a.id ∉ ((e.state 0).db.dossier r).approvals.map Approval.id := by
    rw [show (e.state 0).db = Db.empty from e.start.1, dossier_empty]
    exact List.not_mem_nil
  obtain ⟨k, -, hk, before, after⟩ := e.exists_change
    (P := fun s => a.id ∈ (s.db.dossier r).approvals.map Approval.id) (Nat.zero_le j) blank
    (List.mem_map_of_mem there)
  exact ⟨k, hk, requested_of_new e (by omega) before after⟩

theorem system_gated (e : (system registry).Execution) {i : Nat} (hi : i ≤ e.length) (r : RunId) :
    ((e.state i).db.dossier r).Gated :=
  reachable_gated ((systemRefines registry).reachable (e.reachable hi)) r

/-- An approved row comes from a decision on the parked run. -/
theorem approved_before (e : (system registry).Execution) {i : Nat} (hi : i ≤ e.length) {r : RunId}
    (approved : Approvals.hasApproved (e.state i).db r = true) : ∃ j, j < i ∧ ApprovedAt e j r := by
  have blank : ¬ Approvals.hasApproved (e.state 0).db r = true := by
    rw [show (e.state 0).db = Db.empty from e.start.1]
    simp [Approvals.hasApproved, Db.empty, Table.empty]
  obtain ⟨j, -, hj, before, after⟩ := e.exists_change
    (P := fun s => Approvals.hasApproved s.db r = true) (Nat.zero_le i) blank approved
  refine ⟨j, hj, ?_⟩
  rw [hasApproved_iff] at before after
  rcases step_effect (e.next j (by omega)) r with same | ⟨op, act, label, performs, ran, advance⟩
  · exact (before (by rwa [same] at after)).elim
  rcases advance.approved.mp after with old | rfl
  · exact (before old).elim
  obtain ⟨via, note, rfl⟩ := Op.performs_decide performs
  obtain ⟨external, call⟩ := Label.op_decide label
  obtain ⟨run, there, awaiting⟩ := advance.source rfl
  have parked : Parked (e.state j).db r := ⟨run, there, awaiting⟩
  have one := pending_of_parked (system_gated e (by omega) r) parked
  obtain ⟨a, only⟩ := List.length_eq_one_iff.mp one
  refine ⟨via, note, external, call, ran, parked, a, only, ?_⟩
  have mine : a ∈ pendingApprovals (e.state j).db r := by simp [only]
  rw [pendingApprovals_eq] at mine
  exact requested_before e (by omega) (List.mem_filter.mp mine).1

/-- The executor of a gated agent is started only for a run that a human has approved while it
was parked; and no step but such a decision ever makes an approved row. -/
theorem gated_execution_approved (e : (system registry).Execution) {i : Nat} (hi : i ≤ e.length) :
    (∀ w run agent agent', e.label i = .execute w → (e.state i).phase w = .ready run agent' →
        registry.get? run.agent = some agent → agent.manifest.requiresApproval = true →
        ∃ j, j < i ∧ ApprovedAt e j run.id) ∧
      ∀ r, Approvals.hasApproved (e.state i).db r = true → ∃ j, j < i ∧ ApprovedAt e j r := by
  refine ⟨fun w run agent agent' _ stood found gated => ?_,
    fun r approved => approved_before e hi approved⟩
  have known := consented (e.reachable hi) w
  rw [stood] at known
  obtain ⟨found', approved⟩ := known
  rw [found] at found'
  cases found'
  exact approved_before e hi (approved gated)

/-- A gated run from its first claim through its approval to the start of its executor. -/
def gatedRun : (system [(↑"pay",
    { manifest := { name := ↑"pay", requiresApproval := true }, prompt := [] })]).Execution :=
  replay _
    [.call (.enqueue ↑"r" ↑"pay" .api [] none 1 []) trivial,
      .claim ↑"w1" fun _ => false,
      .hasApproved ↑"w1",
      .request ↑"w1" ↑"a",
      .call (.decide ↑"r" true ↑"api" none) trivial,
      .claim ↑"w2" fun _ => false,
      .hasApproved ↑"w2",
      .execute ↑"w2"]
    (by decide)

theorem gatedRun_approved : ∃ j, j < 7 ∧ ApprovedAt gatedRun j ↑"r" :=
  (gated_execution_approved gatedRun (i := 7) (by decide)).1 ↑"w2" _ _ _ rfl rfl rfl rfl

end AgenticOctopus.Worker
