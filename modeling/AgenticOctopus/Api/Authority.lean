import AgenticOctopus.Api.Gateway

/-!
# Who can approve

The only callers that decide on a parked run are the two decision routes, behind the admin token.
So a worker starts the executor of a gated agent only after the gateway has answered an
approval of that run; and a decision route answers by whether the run is parked, without a
conflict, in every reachable state.
-/
namespace AgenticOctopus.Api.Gateway
open Foundation Spine
open Worker (Sys)

variable {host : Host} {registry : Registry}

def servedRefines (host : Host) (registry : Registry) :
    Machine.Refinement (served host registry) (Worker.system registry) where
  abstraction := id
  start _ h := h
  step s l _ _ h := .inr ⟨l.worker host s, step_worker h⟩

theorem served_gated {s : Sys} (h : (served host registry).Reachable s) (r : RunId) :
    (s.db.dossier r).Gated :=
  reachable_gated ((Worker.systemRefines registry).reachable
    ((servedRefines host registry).reachable h)) r

/-! ## What a decision route answers -/

def approvalGiven (runId : Text) (approved : Bool) : Response :=
  .answer 200 (.json [(↑"run_id", .str runId), (↑"decision", .str (decision approved))])

open Classical in
/-- The answers of the decision routes, in the order of their checks. -/
noncomputable def decisionAnswer (host : Host) (db : Db) (credentials : Option Text)
    (runId : Text) (approved : Bool) (note : Option Text) : Response :=
  if credentials ≠ some host.octoApiToken then unauthorized
  else if host.connected = false then unavailable
  else
    match host.uuid runId with
    | none => .serverError
    | some r =>
      if note.all Text.storable = false then .serverError
      else if Parked db r then approvalGiven runId approved
      else .httpException 404 (noPending runId)

theorem decideRun_calls {now : Time} {runId : Text} {r : RunId} {approved : Bool}
    {note : Option Text} (connected : host.connected = true) (uuid : host.uuid runId = some r)
    (storable : note.all Text.storable = true) :
    decideRun host now runId approved note = .transact (decideCall now runId r approved note) := by
  simp [decideRun, withPool, withUuid, connected, uuid, storable]

/-- In every reachable state a decision route gives exactly these answers: where it answers that it
has decided it has, of that run alone, and where it answers anything else it leaves the database as
it is. -/
theorem decisions_answered {s : Sys} (h : (served host registry).Reachable s)
    (credentials : Option Text) (runId : Text) (approved : Bool) (note : Option Text)
    (draw : Draw) :
    let plan := serve host s.now draw s.db credentials (.decision runId approved note)
    plan.response s.db = decisionAnswer host s.db credentials runId approved note ∧
      (plan.response s.db = approvalGiven runId approved → ∃ r, host.uuid runId = some r ∧
        DecisionRecorded s.db (plan.database s.db) r s.now approved ↑"api" note ∧
        ∀ other, other ≠ r → (plan.database s.db).dossier other = s.db.dossier other) ∧
      (plan.response s.db ≠ approvalGiven runId approved → plan.database s.db = s.db) := by
  dsimp only
  have refused (response : Response) {plan : Plan s.now} (is : plan = .reply response)
      (other : response ≠ approvalGiven runId approved)
      (answer : decisionAnswer host s.db credentials runId approved note = response) :
      plan.response s.db = decisionAnswer host s.db credentials runId approved note ∧
        (plan.response s.db = approvalGiven runId approved → ∃ r, host.uuid runId = some r ∧
          DecisionRecorded s.db (plan.database s.db) r s.now approved ↑"api" note ∧
          ∀ other, other ≠ r → (plan.database s.db).dossier other = s.db.dossier other) ∧
        (plan.response s.db ≠ approvalGiven runId approved → plan.database s.db = s.db) := by
    subst is
    exact ⟨answer.symm, fun given => absurd given other, fun _ => rfl⟩
  by_cases authorised : credentials = some host.octoApiToken
  case neg =>
    exact refused unauthorized (by simp [serve, authorised])
      (by simp [approvalGiven, unauthorized]) (by simp [decisionAnswer, authorised])
  rw [serve, if_pos authorised, handle_decision]
  cases connected : host.connected with
  | false =>
    exact refused unavailable (by simp [decideRun, withPool, connected])
      (by simp [approvalGiven, unavailable]) (by simp [decisionAnswer, authorised, connected])
  | true =>
    obtain uuid | ⟨r, uuid⟩ := Option.eq_none_or_eq_some (host.uuid runId)
    · exact refused .serverError (by simp [decideRun, withPool, withUuid, connected, uuid])
        (by simp [approvalGiven]) (by simp [decisionAnswer, authorised, connected, uuid])
    cases storable : note.all Text.storable with
    | false =>
      exact refused .serverError
        (by simp [decideRun, withPool, withUuid, connected, uuid, storable])
        (by simp [approvalGiven]) (by simp [decisionAnswer, authorised, connected, uuid, storable])
    | true =>
      have gated := served_gated h r
      obtain ⟨succeeds, fails⟩ := decide_outcome gated s.now approved ↑"api" note
      rw [decideRun_calls connected uuid storable]
      by_cases parked : Parked s.db r
      · obtain ⟨db', ran⟩ := succeeds parked
        have answer : decisionAnswer host s.db credentials runId approved note =
            approvalGiven runId approved := by
          simp [decisionAnswer, authorised, connected, uuid, storable, parked]
        have committed := Txn.commit_ok ran
        have given : (Plan.transact (decideCall s.now runId r approved note)).response s.db =
            approvalGiven runId approved := by
          rw [Plan.response, decideCall, committed]
          rfl
        refine ⟨given.trans answer.symm, fun _ => ⟨r, uuid, ?_⟩, fun other => absurd given other⟩
        rw [Plan.database, decideCall, committed]
        exact ⟨decision_recorded gated ran, (Approvals.decide_acts ran).2⟩
      · have failed := Txn.commit_error (fails parked)
        have answer : decisionAnswer host s.db credentials runId approved note =
            .httpException 404 (noPending runId) := by
          simp [decisionAnswer, authorised, connected, uuid, storable, parked]
        have missing : (Plan.transact (decideCall s.now runId r approved note)).response s.db =
            .httpException 404 (noPending runId) := by
          rw [Plan.response, decideCall, failed]
          rfl
        refine ⟨missing.trans answer.symm, fun given => ?_, fun _ => ?_⟩
        · rw [missing] at given
          cases given
        · rw [Plan.database, decideCall, failed]

/-! ## Before the executor of a gated agent -/

/-- Step `j` is a request of the admin that approves this parked run, answered as such. -/
def ApprovedOver (e : (served host registry).Execution) (j : Nat) (r : RunId) : Prop :=
  ∃ runId note draw, e.label j = .http (some host.octoApiToken) (.approveRun runId note) draw ∧
    host.uuid runId = some r ∧ Parked (e.state j).db r ∧
    (serve host (e.state j).now draw (e.state j).db (some host.octoApiToken)
      (.approveRun runId note)).response (e.state j).db = approvalGiven runId true

theorem approvedOver_of_approvedAt (e : (served host registry).Execution) {j : Nat} {r : RunId}
    (h : Worker.ApprovedAt (workers e) j r) : ApprovedOver e j r := by
  obtain ⟨via, note, external, label, ran, parked, -⟩ := h
  have call : (e.label j).worker host (e.state j) = .call (.decide r true via note) external := label
  cases is : e.label j with
  | inside l own =>
    rw [is] at call
    have same : l = .call (.decide r true via note) external := call
    subst same
    exact own.elim
  | http credentials request draw =>
    rw [is, Label.worker] at call
    cases plan : serve host (e.state j).now draw (e.state j).db credentials request with
    | reply response =>
      rw [plan] at call
      cases call
    | transact t =>
      rw [plan] at call
      injection call with op
      obtain ⟨rfl, runId, uuid, rfl, rfl⟩ := serve_decide plan op
      injection op with _ _ via_
      subst via_
      refine ⟨runId, note, draw, is, uuid, parked, ?_⟩
      have committed := Txn.commit_ok ran
      change (serve host _ draw _ _ (.decision runId true note)).response _ = _
      rw [plan, Plan.response, decideCall]
      change decided runId true ((Approvals.decide (e.state j).now r true ↑"api" note).commit
        (e.state j).db).1 = _
      rw [show (Approvals.decide (e.state j).now r true ↑"api" note).commit (e.state j).db = _ from
        committed]
      rfl

/-- The executor of a gated agent is started only after a request with the admin token has
approved its run while it was parked; a request without that token is refused and changes
nothing. -/
theorem gated_execution_authorised (e : (served host registry).Execution) {i : Nat}
    (hi : i < e.length) :
    (∀ w own run agent, e.label i = .inside (.execute w) own →
        (e.state i).phase w = .ready run agent → agent.manifest.requiresApproval = true →
        ∃ j, j < i ∧ ApprovedOver e j run.id) ∧
      ∀ credentials request draw, e.label i = .http credentials request draw →
        credentials ≠ some host.octoApiToken →
        (serve host (e.state i).now draw (e.state i).db credentials request).response
            (e.state i).db = unauthorized ∧ e.state (i + 1) = e.state i := by
  constructor
  · intro w own run agent _ stood gated
    have known := Worker.consented ((workers e).reachable hi.le) w
    have at_ : ((workers e).state i).phase w = .ready run agent := stood
    rw [at_] at known
    obtain ⟨j, hj, approved⟩ := Worker.approved_before (workers e) hi.le (known.2 gated)
    exact ⟨j, hj, approvedOver_of_approvedAt e approved⟩
  · intro credentials request draw label wrong
    have next : step host registry (e.state i) (e.label i) = some (e.state (i + 1)) := e.next i hi
    rw [label, step, Option.some.injEq] at next
    rw [← next]
    simp [serve, wrong, Plan.response, Plan.database]

/-- A gateway that knows one gated agent. -/
def payHost : Host where
  octoApiToken := ↑"change-me"
  connected := true
  registry := [(↑"pay", { manifest := { name := ↑"pay", requiresApproval := true }, prompt := [] })]
  scheduler := { isValid := fun _ => true, getNext := fun _ _ t => some t, repr := id }
  uuid := some

def payDraw : Draw where
  id := ↑"r"
  clock := 0
  ids _ := ↑"s"
  clocks _ := 0

/-- A gated run from its request over HTTP to the start of its executor. -/
def paid : (served payHost payHost.registry).Execution :=
  Machine.replay (step payHost payHost.registry) ⟨Db.empty, 0, fun _ => .idle⟩
    (served_starts payHost payHost.registry)
    [.http (some ↑"change-me") (.runAgent ↑"pay" [] []) payDraw,
      .inside (.claim ↑"w" fun _ => false) trivial,
      .inside (.hasApproved ↑"w") trivial,
      .inside (.request ↑"w" ↑"a") trivial,
      .http (some ↑"guess") (.approveRun ↑"r" none) payDraw,
      .http (some ↑"change-me") (.approveRun ↑"r" none) payDraw,
      .inside (.claim ↑"w" fun _ => false) trivial,
      .inside (.hasApproved ↑"w") trivial,
      .inside (.execute ↑"w") trivial]
    (.inside (.clock 0) trivial) (by decide)

theorem paid_authorised : ∃ j, j < 8 ∧ ApprovedOver paid j ↑"r" :=
  (gated_execution_authorised paid (i := 8) (by decide)).1 ↑"w" trivial _ _ rfl rfl rfl

theorem paid_answered :
    (serve payHost 0 payDraw (paid.state 5).db (some ↑"change-me")
      (.decision ↑"r" true none)).response (paid.state 5).db =
        decisionAnswer payHost (paid.state 5).db (some ↑"change-me") ↑"r" true none :=
  (decisions_answered (paid.reachable (i := 5) (by decide)) _ ↑"r" true none payDraw).1

end AgenticOctopus.Api.Gateway
