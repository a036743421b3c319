import AgenticOctopus.Spine.Tending
import AgenticOctopus.Worker.ClaudeSDKExecutor
import AgenticOctopus.Worker.Consent
import AgenticOctopus.Worker.OpenRouterExecutor

/-!
# What was approved and what runs

The row of approvals that a human decides shows the parameters of the run's row, which never
change after the insert. Both executors take the parameters of the run that the claim
returned, unless they are empty: then they take those of the manifest, which no row of
approvals shows.
-/
namespace AgenticOctopus.Worker
open Foundation Spine

variable {registry : Registry}

/-! ## The row of a run keeps its parameters -/

theorem origin_step {s t : Sys} {l : Label} (h : step registry s l = some t) {r : RunId} {row : Run}
    (there : s.db.runs.find? r = some row) :
    ∃ row', t.db.runs.find? r = some row' ∧ row'.origin = row.origin := by
  rcases step_effect h r with same | ⟨_, _, -, -, -, advance⟩
  · exact ⟨row, (congrArg Dossier.row same).trans there, rfl⟩
  · exact advance.origin there

theorem gatePayload_congr {run row : Run} (same : row.origin = run.origin) :
    gatePayload row = gatePayload run := by
  have params := congrArg Run.params same
  change row.params = run.params at params
  rw [gatePayload, gatePayload, params]

/-- The worker's copy of a run differs from its row in what its life moves only. -/
def Phase.Remembers (db : Db) (phase : Phase) : Prop :=
  ∀ run, phase.run? = some run → ∃ row, db.runs.find? run.id = some row ∧ row.origin = run.origin

theorem Turn.remembers {s : Sys} {l : Label} {before after : Phase} {db : Db}
    (turn : Turn registry s l before after db) {run : Run} (has : after.run? = some run) :
    before.run? = some run ∨ db.runs.find? run.id = some run := by
  cases turn with
  | @claim _ _ claimed _ returned =>
    right
    obtain rfl : claimed = run := by
      rw [Phase.claimed] at has
      split at has
      · exact Option.some.inj has
      · split_ifs at has <;> exact Option.some.inj has
    rcases Queue.claim_acts returned with ⟨is, -⟩ | ⟨row, -, -, -, is, there, -⟩
    · cases is
    · cases is
      exact there
  | approved | unapproved | execute | outcome => exact .inl has
  | request | refuse | lost | finish | setTags | crash => cases has

theorem remembers_step {s t : Sys} {l : Label} (h : step registry s l = some t)
    (inv : ∀ w, (s.phase w).Remembers s.db) (w : WorkerId) : (t.phase w).Remembers t.db := by
  have kept : ∀ v, ∀ run, (s.phase v).run? = some run →
      ∃ row, t.db.runs.find? run.id = some row ∧ row.origin = run.origin := by
    intro v run has
    obtain ⟨row, there, same⟩ := inv v run has
    obtain ⟨row', after, same'⟩ := origin_step h there
    exact ⟨row', after, same'.trans same⟩
  cases step_inversion h with
  | @turn v before after db who stood turn =>
    intro run has
    simp only [Sys.goto, Function.update_apply] at has
    split_ifs at has with own
    · rcases turn.remembers has with has | there
      · exact kept v run (stood ▸ has)
      · exact ⟨run, there, rfl⟩
    · exact kept w run has
  | clock | transaction | nothing => exact kept w

theorem remembers {s : Sys} (h : (system registry).Reachable s) (w : WorkerId) :
    (s.phase w).Remembers s.db :=
  h.invariant (P := fun s => ∀ w, (s.phase w).Remembers s.db)
    (fun s start w run has => by
      rw [start.2 w] at has
      cases has)
    (fun s l t _ inv next => remembers_step next inv) w

/-! ## The rows of approvals show the parameters -/

theorem approval_payloads {r : RunId} {d d' : Dossier} {act : Act} (h : d.Advance r act d')
    (unparked : act ≠ .park) :
    d'.approvals.map Approval.payload = d.approvals.map Approval.payload := by
  cases h with
  | park => exact (unparked rfl).elim
  | decide now approved via note =>
    rw [List.map_map]
    refine List.map_congr_left fun a _ => ?_
    simp only [Function.comp_apply]
    split_ifs <;> rfl
  | _ => rfl

/-- Every row of approvals shows the parameters of its run. -/
def Shown (db : Db) : Prop :=
  ∀ a ∈ db.approvals, ∃ row, db.runs.find? a.runId = some row ∧ a.payload = gatePayload row

theorem shown_step {s t : Sys} {l : Label} (h : step registry s l = some t)
    (remembers : ∀ w, (s.phase w).Remembers s.db) (shown : Shown s.db) : Shown t.db := by
  -- a row that was there shows what it showed, whatever happened to its run
  have old : ∀ b ∈ s.db.approvals, ∃ row, t.db.runs.find? b.runId = some row ∧
      b.payload = gatePayload row := by
    intro b mem
    obtain ⟨row, there, payload⟩ := shown b mem
    obtain ⟨row', after, same⟩ := origin_step h there
    exact ⟨row', after, payload.trans (gatePayload_congr same).symm⟩
  intro a mem
  have own : a ∈ (t.db.dossier a.runId).approvals := mem_dossier.mpr ⟨mem, rfl⟩
  rcases step_effect h a.runId with same | ⟨op, act, label, performs, ran, advance⟩
  · rw [same] at own
    exact old a (mem_dossier.mp own).1
  by_cases parks : act = .park
  · subst parks
    obtain ⟨id, action, payload, rfl⟩ := Op.performs_park performs
    obtain ⟨w, run, agent, -, stood, is, rfl, rfl⟩ := Label.op_request label
    obtain ⟨_, _, requested, ended⟩ := Txn.bind_ok.mp ran
    obtain ⟨-, rfl⟩ := Txn.pure_ok.mp ended
    rcases request_inserts requested mem with mem | new
    · exact old a mem
    · obtain ⟨row, there, same⟩ := remembers w run (by rw [stood]; rfl)
      obtain ⟨row', after, same'⟩ := origin_step h there
      refine ⟨row', is ▸ after, ?_⟩
      rw [gatePayload_congr (same'.trans same), new]
      rfl
  · have payloads := approval_payloads advance parks
    obtain ⟨b, mem_b, same⟩ := List.mem_map.mp (payloads ▸ List.mem_map_of_mem own)
    obtain ⟨mem_b, mine⟩ := mem_dossier.mp mem_b
    obtain ⟨row, after, payload⟩ := old b mem_b
    exact ⟨row, mine ▸ after, same.symm.trans payload⟩

theorem shown {s : Sys} (h : (system registry).Reachable s) : Shown s.db :=
  h.invariant (P := fun s => Shown s.db)
    (fun s start a mem => by
      rw [start.1] at mem
      cases mem)
    fun _ _ _ reachable inv next => shown_step next (Worker.remembers reachable) inv

/-! ## At the start of the executor -/

/-- Step `k` inserts this run with these parameters. -/
def InsertedAt (e : (system registry).Execution) (k : Nat) (r : RunId)
    (params : Dict Text Json) : Prop :=
  (e.state k).db.runs.find? r = none ∧
    ∃ row, (e.state (k + 1)).db.runs.find? r = some row ∧ row.params = params

theorem inserted_before (e : (system registry).Execution) {i : Nat} (hi : i ≤ e.length) {r : RunId}
    {row : Run} (there : (e.state i).db.runs.find? r = some row) :
    ∃ k, k < i ∧ InsertedAt e k r row.params := by
  have blank : ¬ ((e.state 0).db.runs.find? r).isSome := by
    rw [show (e.state 0).db = Db.empty from e.start.1]
    exact Bool.false_ne_true
  obtain ⟨k, -, hk, before, after⟩ := e.exists_change
    (P := fun s => (s.db.runs.find? r).isSome = true) (Nat.zero_le i) blank (by rw [there]; rfl)
  obtain ⟨first, inserted⟩ := Option.isSome_iff_exists.mp after
  have kept : ∃ row, (e.state i).db.runs.find? r = some row ∧ row.origin = first.origin := by
    refine e.persists (P := fun s => ∃ row, s.db.runs.find? r = some row ∧
      row.origin = first.origin) hk (fun m _ hm => ?_) ⟨first, inserted, rfl⟩
    rintro ⟨row', there', same⟩
    obtain ⟨row'', after', same'⟩ := origin_step (e.next m (by omega)) there'
    exact ⟨row'', after', same'.trans same⟩
  obtain ⟨row', there', same⟩ := kept
  rw [there] at there'
  cases there'
  exact ⟨k, hk, by simpa using before, first, inserted, (congrArg Run.params same).symm⟩

/-- Both executors take the parameters that this row of approvals shows. -/
def RunsAsApproved (run : Run) (agent : LoadedAgent) (a : Approval) : Prop :=
  ∃ params, a.payload.get? ↑"params" = some (.obj params) ∧
    ClaudeSDKExecutor.paramsOf run agent = params ∧ OpenRouterExecutor.paramsOf run agent = params

theorem runsAsApproved_iff {run : Run} {agent : LoadedAgent} {a : Approval}
    (payload : a.payload = gatePayload run) :
    RunsAsApproved run agent a ↔ run.params ≠ [] ∨ agent.manifest.params = [] := by
  have recorded : a.payload.get? ↑"params" = some (.obj run.params) := by
    rw [payload]
    rfl
  rw [RunsAsApproved, recorded, ClaudeSDKExecutor.paramsOf, OpenRouterExecutor.paramsOf]
  by_cases empty : run.params = []
  · simp [empty]
  · simp [empty]

/-- When a worker is about to start the executor of a gated agent, a human has approved the run; and
both executors run with what that human was shown if and only if the run was enqueued with
parameters, or the manifest has none. -/
theorem approved_params_run_iff (e : (system registry).Execution) {i : Nat} (hi : i ≤ e.length)
    {w : WorkerId} {run : Run} {agent : LoadedAgent}
    (stood : (e.state i).phase w = .ready run agent)
    (gated : agent.manifest.requiresApproval = true) :
    (∃ j, j < i ∧ ApprovedAt e j run.id) ∧
      (∃ k, k < i ∧ InsertedAt e k run.id run.params) ∧
      ((∀ a ∈ (e.state i).db.approvals, a.runId = run.id → a.status = .approved →
          RunsAsApproved run agent a) ↔
        run.params ≠ [] ∨ agent.manifest.params = []) := by
  have reachable := e.reachable hi
  obtain ⟨-, consent⟩ : _ ∧ _ := stood ▸ consented reachable w
  obtain ⟨row, there, same⟩ := remembers reachable w run (by rw [stood]; rfl)
  have shows : ∀ a ∈ (e.state i).db.approvals, a.runId = run.id → a.payload = gatePayload run := by
    intro a mem own
    obtain ⟨row', there', payload⟩ := shown reachable a mem
    rw [own, there] at there'
    cases there'
    rw [payload, gatePayload_congr same]
  have approved := consent gated
  refine ⟨approved_before e hi approved, ?_, fun all => ?_, fun condition a mem own _ => ?_⟩
  · obtain ⟨k, hk, inserted⟩ := inserted_before e hi there
    exact ⟨k, hk, (congrArg Run.params same) ▸ inserted⟩
  · obtain ⟨a, mem, status⟩ := hasApproved_iff.mp approved
    obtain ⟨mem, own⟩ := mem_dossier.mp mem
    exact (runsAsApproved_iff (shows a mem own)).mp (all a mem own status)
  · exact (runsAsApproved_iff (shows a mem own)).mpr condition

/-! ### A manifest with parameters -/

section Payment

/-- An agent that is gated and has a default amount. -/
def payRegistry : Registry := [(↑"pay",
  ⟨{ name := ↑"pay", requiresApproval := true, params := [(↑"amount", .int 500)] }, ↑"Pay."⟩)]

/-- From the insert to the approved run's second claim. -/
def payLabels (params : Dict Text Json) : List Label :=
  [.call (.enqueue ↑"r" ↑"pay" .api params none 1 []) trivial,
    .claim ↑"w1" fun _ => false,
    .hasApproved ↑"w1",
    .request ↑"w1" ↑"a",
    .call (.decide ↑"r" true ↑"api" none) trivial,
    .claim ↑"w2" fun _ => false,
    .hasApproved ↑"w2",
    .execute ↑"w2"]

def smallPayment : (system payRegistry).Execution :=
  replay _ (payLabels [(↑"amount", .int 5)]) (by decide +kernel)

def blankPayment : (system payRegistry).Execution := replay _ (payLabels []) (by decide +kernel)

theorem smallPayment_runs_as_approved : ∃ run agent,
    (smallPayment.state 7).phase ↑"w2" = .ready run agent ∧
      ∀ a ∈ (smallPayment.state 7).db.approvals, a.runId = run.id → a.status = .approved →
        RunsAsApproved run agent a := by
  have runs := approved_params_run_iff smallPayment (i := 7) (by decide) (w := ↑"w2") rfl rfl
  exact ⟨_, _, rfl, runs.2.2.mpr (.inl (by decide))⟩

/-- The human approves no parameters, and the executors pay the manifest's amount. -/
theorem blankPayment_pays : ∃ run agent a,
    (blankPayment.state 7).phase ↑"w2" = .ready run agent ∧ blankPayment.label 7 = .execute ↑"w2" ∧
      agent.manifest.requiresApproval = true ∧ a ∈ (blankPayment.state 7).db.approvals ∧
      a.runId = run.id ∧ a.status = .approved ∧ a.payload = [(↑"params", .obj [])] ∧
      ¬ RunsAsApproved run agent a := by
  refine ⟨_, _, _, rfl, rfl, rfl, List.mem_singleton.mpr rfl, rfl, rfl, rfl, ?_⟩
  rintro ⟨params, shown, takes, -⟩
  rw [← takes] at shown
  have same : some (Json.obj []) = some (.obj [(↑"amount", .int 500)]) := shown
  cases same

end Payment

end AgenticOctopus.Worker
