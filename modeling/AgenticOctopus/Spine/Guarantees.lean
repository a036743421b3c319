import AgenticOctopus.Spine.Refinement

/-!
# What the spine guarantees

In every reachable state of the spine, whatever the callers' interleaving: the audit trail
of a run replays its status, its approvals agree with its status so that a parked run is
decided once, its row has the shape of its status, and a terminal row stays as it is.
-/
namespace AgenticOctopus.Spine
open Foundation

/-- The transaction of this operation returns. -/
def Commits (db : Db) (now : Time) (op : Op) : Prop :=
  ∃ db', (op.block now).run db = .ok ((), db')

theorem after_of_ok {now : Time} {op : Op} {db db' : Db}
    (h : (op.block now).run db = .ok ((), db')) : op.after now db = db' := by
  rw [Op.after, Txn.after, Txn.commit_ok h]

theorem after_of_error {now : Time} {op : Op} {db : Db} {e : Raised}
    (h : (op.block now).run db = .error e) : op.after now db = db := by
  rw [Op.after, Txn.after, Txn.commit_error h]

section Reachable

variable {db : Db} (h : spine.Reachable db)
include h

theorem reachable_shaped (r : RunId) : (db.dossier r).Shaped :=
  lifecycle_shaped ((spineRefines r).reachable h)

theorem reachable_audited (r : RunId) : (db.dossier r).Audited :=
  lifecycle_audited ((spineRefines r).reachable h)

theorem reachable_gated (r : RunId) : (db.dossier r).Gated :=
  lifecycle_gated ((spineRefines r).reachable h)

theorem reachable_budgeted (r : RunId) : (db.dossier r).Budgeted :=
  lifecycle_budgeted ((spineRefines r).reachable h)

theorem reachable_paid (r : RunId) : (db.dossier r).Paid :=
  lifecycle_paid ((spineRefines r).reachable h)

end Reachable

/-! ## The audit trail -/

/-- The status changes of a run in id order. -/
def statusChangesOf (db : Db) (runId : RunId) : List RunEvent :=
  (Queue.listEvents db runId).filter fun ev => decide (ev.type = .statusChange)

/-- `next` is a legal change from the status that `ev` led to. -/
def RunEvent.Follows (ev next : RunEvent) : Prop :=
  ∃ a b, ev.payload.get? ↑"to" = some (.str a.value) ∧ next.Records (some a) b ∧
    (a, b) ∈ allowedTransitions

theorem Dossier.Trail.replays {evs : List RunEvent} {s : RunStatus} (h : Dossier.Trail evs s) :
    ∃ first rest last, evs = first :: rest ∧ first.Records none .queued ∧
      evs.IsChain RunEvent.Follows ∧ evs.getLast? = some last ∧
      last.payload.get? ↑"to" = some (.str s.value) := by
  induction h with
  | first recorded => exact ⟨_, [], _, rfl, recorded, .singleton _, rfl, recorded.2.2⟩
  | next before legal recorded ih =>
    obtain ⟨first, rest, last, rfl, start, chain, ends, status⟩ := ih
    refine ⟨first, rest ++ [_], _, rfl, start, ?_, List.getLast?_concat, recorded.2.2⟩
    refine List.IsChain.append chain (.singleton _) ?_
    intro x hx y hy
    rw [ends] at hx
    cases hx
    cases hy
    exact ⟨_, _, status, recorded, legal⟩

/-- The status changes of a run replay its status, and an operation that raises leaves
neither a change of status nor an event. -/
theorem audit_trail_replays {db : Db} (h : spine.Reachable db) :
    (∀ r run, db.runs.find? r = some run →
      ∃ first rest last, statusChangesOf db r = first :: rest ∧ first.Records none .queued ∧
        (statusChangesOf db r).IsChain RunEvent.Follows ∧
        (statusChangesOf db r).getLast? = some last ∧
        last.payload.get? ↑"to" = some (.str run.status.value)) ∧
      ∀ (now : Time) (op : Op) (e : Raised),
        (op.block now).run db = .error e → op.after now db = db :=
  ⟨fun r _ there => ((reachable_audited h r).2 _ there).replays, fun _ _ _ => after_of_error⟩

/-- A run that is parked, approved by one call and rejected too late by another. -/
def decidedTwice : spine.Execution :=
  history
    [(0, .enqueue ↑"r" ↑"pay" .api [] none 1 []),
      (1, .claim (fun _ => false) ↑"w" Queue.defaultLeaseMinutes),
      (2, .request ↑"a" ↑"r" ↑"execute agent 'pay'" []),
      (3, .decide ↑"r" true ↑"api" none),
      (4, .decide ↑"r" false ↑"cli" none)]

theorem decidedTwice_replays :
    ∃ first rest last, statusChangesOf (decidedTwice.state 3) ↑"r" = first :: rest ∧
      first.Records none .queued ∧
      (statusChangesOf (decidedTwice.state 3) ↑"r").IsChain RunEvent.Follows ∧
      (statusChangesOf (decidedTwice.state 3) ↑"r").getLast? = some last ∧
      last.payload.get? ↑"to" = some (.str RunStatus.awaitingApproval.value) :=
  (audit_trail_replays (decidedTwice.reachable (i := 3) (by decide))).1 _
    (((decidedTwice.state 3).runs.find? ↑"r").get (by decide)) (by rfl)

/-! ## Approvals -/

def Parked (db : Db) (runId : RunId) : Prop :=
  ∃ run, db.runs.find? runId = some run ∧ run.status = .awaitingApproval

def pendingApprovals (db : Db) (runId : RunId) : List Approval :=
  db.approvals.rows.filter (Approvals.pendingOf runId)

theorem pendingApprovals_eq (db : Db) (runId : RunId) :
    pendingApprovals db runId = (db.dossier runId).pending := by
  rw [Dossier.pending, Db.dossier, List.filter_filter, pendingApprovals]
  refine List.filter_congr fun a _ => ?_
  rw [Approvals.pendingOf, Bool.and_comm]

theorem pending_of_parked {db : Db} {r : RunId} (gated : (db.dossier r).Gated)
    (parked : Parked db r) : (pendingApprovals db r).length = 1 := by
  obtain ⟨run, there, awaiting⟩ := parked
  rw [pendingApprovals_eq, gated.2 run there, if_pos awaiting]

theorem pending_of_not_parked {db : Db} {r : RunId} (gated : (db.dossier r).Gated)
    (parked : ¬ Parked db r) : pendingApprovals db r = [] := by
  rw [pendingApprovals_eq]
  cases there : db.runs.find? r with
  | none => simp [Dossier.pending, gated.1 there]
  | some run =>
    have other : run.status ≠ .awaitingApproval := fun awaiting => parked ⟨run, there, awaiting⟩
    exact List.length_eq_zero_iff.mp (by rw [gated.2 run there, if_neg other])

/-- A decision on a parked run goes through; on any other run it finds no pending row. -/
theorem decide_outcome {db : Db} {r : RunId} (gated : (db.dossier r).Gated) (now : Time)
    (approved : Bool) (via : Text) (note : Option Text) :
    (Parked db r → ∃ db', (Approvals.decide now r approved via note).run db = .ok ((), db')) ∧
      (¬ Parked db r →
        (Approvals.decide now r approved via note).run db = .error (Approvals.noPending r)) := by
  have counted : db.approvals.rowcount (Approvals.pendingOf r) = (pendingApprovals db r).length :=
    List.countP_eq_length_filter
  have updated : (updateApprovals (Approvals.pendingOf r)
      (Approvals.decisionSet now approved via note)).run db = _ :=
    updateApprovals_ok.mpr ⟨rfl, rfl⟩
  constructor
  · intro parked
    obtain ⟨run, there, awaiting⟩ := id parked
    rw [Approvals.decide, Txn.run_bind_of_ok updated, counted, pending_of_parked gated parked,
      if_neg (by decide)]
    refine ⟨_, transition_ok.mpr ⟨?_, ⟨run, there, awaiting⟩, rfl⟩⟩
    cases approved <;> decide
  · intro parked
    rw [Approvals.decide, Txn.run_bind_of_ok updated, counted, pending_of_not_parked gated parked]
    rfl

/-- The label is a call of `decide` for this run. -/
def Decides (l : Time × Op) (runId : RunId) : Prop :=
  ∃ approved via note, l.2 = .decide runId approved via note

/-- The label is a call of `request` for this run that returns. -/
def Parks (db : Db) (l : Time × Op) (runId : RunId) : Prop :=
  (∃ id action payload, l.2 = .request id runId action payload) ∧ Commits db l.1 l.2

/-- Only a decision ends the wait of a parked run. -/
theorem parked_step {db : Db} {l : Time × Op} {r : RunId} (parked : Parked db r)
    (undecided : ¬ Decides l r) : Parked (l.2.after l.1 db) r := by
  obtain ⟨run, there, awaiting⟩ := parked
  rcases Op.effect l.1 l.2 db r with same | ⟨act, performs, -, advance⟩
  · refine ⟨run, ?_, awaiting⟩
    calc (l.2.after l.1 db).runs.find? r = (db.dossier r).row := congrArg Dossier.row same
      _ = some run := there
  · obtain ⟨run', there'⟩ := Option.ne_none_iff_exists'.mp advance.row_ne_none
    refine ⟨run', there', ?_⟩
    by_contra moved
    obtain ⟨source, -⟩ := advance.ends there there' (by rw [awaiting]; exact moved)
    rw [awaiting] at source
    cases act <;> cases source
    exact undecided ⟨_, Op.performs_decide performs⟩

/-- Only a request that returns parks a run. -/
theorem not_parked_step {db : Db} {l : Time × Op} {r : RunId} (parked : ¬ Parked db r)
    (unasked : ¬ Parks db l r) : ¬ Parked (l.2.after l.1 db) r := by
  rintro ⟨run', there', awaiting⟩
  rcases Op.effect l.1 l.2 db r with same | ⟨act, performs, ran, advance⟩
  · exact parked ⟨run', (congrArg Dossier.row same).symm.trans there', awaiting⟩
  · cases target : act.target with
    | none =>
      obtain ⟨run, _, there, is, same⟩ := advance.unmoved target
      rw [dossier_row, there'] at is
      cases is
      exact parked ⟨run, there, same.symm.trans awaiting⟩
    | some s =>
      obtain ⟨_, is, rfl⟩ := advance.target target
      rw [dossier_row, there'] at is
      cases is
      rw [awaiting] at target
      cases act with
      | park => exact unasked ⟨Op.performs_park performs, _, ran⟩
      | finish status =>
        cases target
        rcases advance.finish_outcome with ended | ended <;> cases ended
      | decide approved => cases approved <;> cases target
      | _ => cases target

/-- The approval row, the run and the last event of the run all say the same. -/
structure DecisionRecorded (db db' : Db) (runId : RunId) (now : Time) (approved : Bool)
    (via : Text) (note : Option Text) : Prop where
  row : ∃ a, pendingApprovals db runId = [a] ∧
    (Approvals.decisionSet now approved via note).apply a ∈ db'.approvals
  status : ∃ run, db'.runs.find? runId = some run ∧ run.status = Approvals.verdict approved
  event : ∃ ev, Queue.listEvents db' runId = Queue.listEvents db runId ++ [ev] ∧
    ev.Records (some .awaitingApproval) (Approvals.verdict approved) ∧
    ev.payload.get? ↑"decided_via" = some (.str via) ∧
    ev.payload.get? ↑"note" = some (Approvals.jsonOfNote note)

theorem decision_recorded {db db' : Db} {r : RunId} {now : Time} {approved : Bool} {via : Text}
    {note : Option Text} (gated : (db.dossier r).Gated)
    (h : (Approvals.decide now r approved via note).run db = .ok ((), db')) :
    DecisionRecorded db db' r now approved via note := by
  obtain ⟨⟨run, there, awaiting⟩, -, rfl⟩ := Approvals.decide_ok h
  obtain ⟨a, only⟩ := List.length_eq_one_iff.mp (pending_of_parked gated ⟨run, there, awaiting⟩)
  have mine : a ∈ pendingApprovals db r := by simp [only]
  obtain ⟨mem, matched⟩ := List.mem_filter.mp mine
  have kept : (db.setApprovals (Approvals.pendingOf r)
      (Approvals.decisionSet now approved via note)).runs.find? r = some run := there
  obtain ⟨ev, recorded, payload, after⟩ := move_dossier now (Approvals.verdict approved)
    (Approvals.closeSet now approved) (Approvals.decisionPayload via note) kept awaiting
    (Approvals.decisionPayload_annotates via note)
  refine ⟨⟨a, only, ?_⟩, ⟨_, congrArg Dossier.row after, rfl⟩,
    ⟨ev, congrArg Dossier.trail after, recorded, ?_, ?_⟩⟩
  · exact Table.mem_update.mpr ⟨a, mem, by simp [matched]⟩
  · rw [payload]
    simp [statusChange, Approvals.decisionPayload, Dict.get?, Dict.update, Dict.set]
  · rw [payload]
    simp [statusChange, Approvals.decisionPayload, Dict.get?, Dict.update, Dict.set]

theorem not_parked_of_decided {db db' : Db} {r : RunId} {now : Time} {approved : Bool} {via : Text}
    {note : Option Text} (h : DecisionRecorded db db' r now approved via note) :
    ¬ Parked db' r := by
  rintro ⟨run, there, awaiting⟩
  obtain ⟨run', there', status⟩ := h.status
  rw [there] at there'
  cases there'
  rw [awaiting] at status
  cases approved <;> cases status

/-- Calls of `decide` on a parked run, among any other operations that do not park it again:
the first one decides, and every other one raises and is rolled back. -/
theorem parked_decided_once (e : spine.Execution) (r : RunId) {i j : Nat} (hj : j ≤ e.length)
    (parked : Parked (e.state i) r)
    (unasked : ∀ k, i ≤ k → k < j → ¬ Parks (e.state k) (e.label k) r)
    (called : ∃ k, i ≤ k ∧ k < j ∧ Decides (e.label k) r) :
    ∃ k, i ≤ k ∧ k < j ∧ Decides (e.label k) r ∧
      Commits (e.state k) (e.label k).1 (e.label k).2 ∧
      ∀ k', i ≤ k' → k' < j → Decides (e.label k') r → k' ≠ k →
        ¬ Commits (e.state k') (e.label k').1 (e.label k').2 ∧
          e.state (k' + 1) = e.state k' := by
  classical
  let first := Nat.find called
  obtain ⟨hik, hkj, decides⟩ := Nat.find_spec called
  have undecided : ∀ k, i ≤ k → k < first → ¬ Decides (e.label k) r := fun k hk hlt hd =>
    Nat.find_min called hlt ⟨hk, by omega, hd⟩
  have waiting : ∀ k, i ≤ k → k ≤ first → Parked (e.state k) r := by
    intro k hk hlast
    refine e.persists (P := fun db => Parked db r) hk (fun m hm hmk there => ?_) parked
    rw [e.next m (by omega)]
    exact parked_step there (undecided m hm (by omega))
  have gated : ∀ k, k ≤ j → ((e.state k).dossier r).Gated :=
    fun k hk => reachable_gated (e.reachable (by omega)) r
  obtain ⟨approved, via, note, call⟩ := id decides
  obtain ⟨db', ran⟩ := (decide_outcome (gated first (by omega)) (e.label first).1 approved via
    note).1 (waiting first hik le_rfl)
  have committed : ((e.label first).2.block (e.label first).1).run (e.state first) =
      .ok ((), db') := by
    rw [call]
    exact ran
  have decided : ∀ k, first < k → k ≤ j → ¬ Parked (e.state k) r := by
    intro k hk hlast
    refine e.persists (P := fun db => ¬ Parked db r) hk (fun m hm hmk there => ?_) ?_
    · rw [e.next m (by omega)]
      exact not_parked_step there (unasked m (by omega) (by omega))
    · rw [e.next first (by omega), after_of_ok committed]
      exact not_parked_of_decided (decision_recorded (gated first (by omega)) ran)
  refine ⟨first, hik, hkj, decides, ⟨db', committed⟩, fun k hk hlt again other => ?_⟩
  have later : first < k := by
    by_contra early
    exact undecided k hk (by omega) again
  obtain ⟨approved', via', note', call'⟩ := again
  have failed : ((e.label k).2.block (e.label k).1).run (e.state k) =
      .error (Approvals.noPending r) := by
    rw [call']
    exact (decide_outcome (gated k (by omega)) _ approved' via' note').2
      (decided k later (by omega))
  refine ⟨fun ⟨db'', ran'⟩ => ?_, ?_⟩
  · rw [failed] at ran'
    cases ran'
  · rw [e.next k (by omega), after_of_error failed]

/-- A run awaits approval exactly when one of its approvals is pending, and then any number
of calls of `decide`, interleaved with anything but a new park of the run, decide it once. -/
theorem approvals_agree_with_status (e : spine.Execution) {i : Nat} (hi : i ≤ e.length)
    (r : RunId) :
    (Parked (e.state i) r ↔ (pendingApprovals (e.state i) r).length = 1) ∧
      (¬ Parked (e.state i) r ↔ pendingApprovals (e.state i) r = []) ∧
      (∀ now approved via note raised,
        (Approvals.decide now r approved via note).run (e.state i) = .error raised ↔
          ¬ Parked (e.state i) r ∧ raised = Approvals.noPending r) ∧
      (∀ now approved via note db',
        (Approvals.decide now r approved via note).run (e.state i) = .ok ((), db') →
          DecisionRecorded (e.state i) db' r now approved via note) ∧
      ∀ j, i ≤ j → j ≤ e.length → Parked (e.state i) r →
        (∀ k, i ≤ k → k < j → ¬ Parks (e.state k) (e.label k) r) →
        (∃ k, i ≤ k ∧ k < j ∧ Decides (e.label k) r) →
        ∃ k, i ≤ k ∧ k < j ∧ Decides (e.label k) r ∧
          Commits (e.state k) (e.label k).1 (e.label k).2 ∧
          ∀ k', i ≤ k' → k' < j → Decides (e.label k') r → k' ≠ k →
            ¬ Commits (e.state k') (e.label k').1 (e.label k').2 ∧
              e.state (k' + 1) = e.state k' := by
  have gated := reachable_gated (e.reachable hi) r
  refine ⟨⟨pending_of_parked gated, fun one => ?_⟩,
    ⟨pending_of_not_parked gated, fun none parked => ?_⟩,
    fun now approved via note raised => ?_,
    fun now approved via note db' ran => decision_recorded gated ran, ?_⟩
  · by_contra parked
    simp [pending_of_not_parked gated parked] at one
  · have one := pending_of_parked gated parked
    simp [none] at one
  · obtain ⟨succeeds, fails⟩ := decide_outcome gated now approved via note
    by_cases parked : Parked (e.state i) r
    · obtain ⟨db', ran⟩ := succeeds parked
      simp [ran, parked]
    · simp [fails parked, parked, eq_comm]
  · intro j hij hj parked unasked called
    exact parked_decided_once e r hj parked unasked called

theorem decidedTwice_once : ∃ k, 3 ≤ k ∧ k < 5 ∧ Decides (decidedTwice.label k) ↑"r" ∧
    Commits (decidedTwice.state k) (decidedTwice.label k).1 (decidedTwice.label k).2 ∧
    ∀ k', 3 ≤ k' → k' < 5 → Decides (decidedTwice.label k') ↑"r" → k' ≠ k →
      ¬ Commits (decidedTwice.state k') (decidedTwice.label k').1 (decidedTwice.label k').2 ∧
        decidedTwice.state (k' + 1) = decidedTwice.state k' := by
  refine (approvals_agree_with_status decidedTwice (i := 3) (by decide) ↑"r").2.2.2.2 5 (by decide)
    (by decide) ⟨((decidedTwice.state 3).runs.find? ↑"r").get (by decide), by rfl, by decide⟩ ?_
    ⟨3, le_rfl, by decide, true, ↑"api", none, rfl⟩
  rintro k h3 h5 ⟨⟨_, _, _, call⟩, -⟩
  interval_cases k <;> cases call

/-! ## The row -/

def Started (db : Db) (runId : RunId) : Prop :=
  ∃ run, db.runs.find? runId = some run ∧ run.startedAt.isSome = true

/-- Step `i` is a claim that returns this run. -/
def ClaimedAt (e : spine.Execution) (i : Nat) (runId : RunId) : Prop :=
  ∃ locked workerId leaseMinutes run,
    (e.label i).2 = .claim locked workerId leaseMinutes ∧ run.id = runId ∧
      (Queue.claim (e.label i).1 locked workerId leaseMinutes).run (e.state i) =
        .ok (some run, e.state (i + 1))

theorem claimed_of_started (e : spine.Execution) {i : Nat} (hi : i < e.length) {r : RunId}
    (before : ¬ Started (e.state i) r) (after : Started (e.state (i + 1)) r) :
    ClaimedAt e i r := by
  have next := e.next i hi
  rcases Op.effect (e.label i).1 (e.label i).2 (e.state i) r with
    same | ⟨act, performs, ran, advance⟩
  · rw [← next] at same
    have rows : (e.state (i + 1)).runs.find? r = (e.state i).runs.find? r :=
      congrArg Dossier.row same
    exact (before (by rwa [Started, rows] at after)).elim
  · rw [← next] at ran advance
    rcases advance.started.mp after with started | ⟨w, rfl⟩
    · exact (before started).elim
    · obtain ⟨locked, leaseMinutes, call⟩ := Op.performs_claim performs
      rw [call] at ran
      obtain ⟨res, _, claimed, ended⟩ := Txn.bind_ok.mp ran
      obtain ⟨-, rfl⟩ := Txn.pure_ok.mp ended
      rcases Queue.claim_acts claimed with ⟨-, same⟩ | ⟨run, -, -, -, rfl, -, acts⟩
      · exact (before (by rwa [same] at after)).elim
      · by_cases hr : r = run.id
        · refine ⟨_, _, _, _, call, ?_, claimed⟩
          exact hr.symm
        · have rows : (e.state (i + 1)).runs.find? r = (e.state i).runs.find? r :=
            congrArg Dossier.row (acts.2 r hr)
          exact (before (by rwa [Started, rows] at after)).elim

theorem started_of_claimed (e : spine.Execution) {i : Nat} {r : RunId} (h : ClaimedAt e i r) :
    Started (e.state (i + 1)) r := by
  obtain ⟨locked, workerId, leaseMinutes, run, -, rfl, claimed⟩ := h
  rcases Queue.claim_acts claimed with ⟨none, -⟩ | ⟨was, -, -, -, is, there, -⟩
  · cases none
  · cases is
    exact ⟨_, there, rfl⟩

theorem started_step {db : Db} {l : Time × Op} {r : RunId} (h : Started db r) :
    Started (l.2.after l.1 db) r := by
  rcases Op.effect l.1 l.2 db r with same | ⟨act, -, -, advance⟩
  · have rows : (l.2.after l.1 db).runs.find? r = db.runs.find? r := congrArg Dossier.row same
    rwa [Started, rows]
  · exact advance.started.mpr (.inl h)

theorem frozen_step {db : Db} {l : Time × Op} {r : RunId} {run : Run}
    (there : db.runs.find? r = some run) (ended : run.status.Terminal) :
    ∃ tags, (l.2.after l.1 db).runs.find? r = some { run with tags := tags } := by
  rcases Op.effect l.1 l.2 db r with same | ⟨act, -, -, advance⟩
  · exact ⟨run.tags, (congrArg Dossier.row same).trans there⟩
  · exact advance.frozen there ended

/-- A run that can still go on: it is queued, or its lease can be reaped, or it can be decided. -/
def NotStranded (db : Db) (run : Run) : Prop :=
  run.status = .queued ∨
    (run.status = .running ∧ ∃ t, run.leaseExpiresAt = some t ∧ ∀ now, t < now →
      ∃ n db' run', (Queue.reapExpired now fun _ => false).run db = .ok (n, db') ∧
        db'.runs.find? run.id = some run' ∧
        (run'.status = .queued ∨ run'.status = .failed)) ∨
    (run.status = .awaitingApproval ∧ (pendingApprovals db run.id).length = 1 ∧
      ∀ now approved via note, ∃ db',
        (Approvals.decide now run.id approved via note).run db = .ok ((), db'))

theorem not_stranded {db : Db} (h : spine.Reachable db) {run : Run}
    (there : db.runs.find? run.id = some run) (going : ¬ run.status.Terminal) :
    NotStranded db run := by
  have shape := reachable_shaped h run.id run there
  have gated := reachable_gated h run.id
  cases status : run.status with
  | queued => exact .inl status
  | running =>
    obtain ⟨t, lease⟩ := Option.isSome_iff_exists.mp (shape.lease.mpr status)
    refine .inr (.inl ⟨status, t, lease, fun now late => ?_⟩)
    obtain ⟨n, db', ran⟩ := Queue.reapExpired_returns now (fun _ => false) db
    have expired : Queue.expired now run = true := by simp [Queue.expired, status, lease, late]
    rcases Queue.reapExpired_dossier ran run.id with
      ⟨_, -, -, advance⟩ | ⟨_, -, -, advance⟩ | ⟨spared, -⟩
    · obtain ⟨run', there', requeued⟩ := advance.target rfl
      exact ⟨n, db', run', ran, there', .inl requeued⟩
    · obtain ⟨run', there', failed⟩ := advance.target rfl
      exact ⟨n, db', run', ran, there', .inr failed⟩
    · obtain ⟨notRequeued, notFailed⟩ := spared run there
      simp only [Queue.requeues, Queue.exhausts, expired] at notRequeued notFailed
      simp at notRequeued notFailed
      omega
  | awaitingApproval =>
    have parked : Parked db run.id := ⟨run, there, status⟩
    exact .inr (.inr ⟨status, pending_of_parked gated parked, fun now approved via note =>
      (decide_outcome gated now approved via note).1 parked⟩)
  | completed | failed | rejected | cancelled =>
    rw [status] at going
    simp at going

/-- The row of a run has the shape of its status, records whether it was ever claimed, is
frozen but for its tags once terminal, and is not stranded before. -/
theorem row_shape_and_freeze (e : spine.Execution) {n : Nat} (hn : n ≤ e.length) (run : Run)
    (there : (e.state n).runs.find? run.id = some run) :
    run.Shape ∧
      (run.startedAt.isSome = true ↔ ∃ i, i < n ∧ ClaimedAt e i run.id) ∧
      (run.status.Terminal → ∀ m, n ≤ m → m ≤ e.length →
        ∃ tags, (e.state m).runs.find? run.id = some { run with tags := tags }) ∧
      (¬ run.status.Terminal → NotStranded (e.state n) run) := by
  refine ⟨reachable_shaped (e.reachable hn) _ _ there, ⟨fun started => ?_, ?_⟩, ?_,
    not_stranded (e.reachable hn) there⟩
  · have blank : ¬ Started (e.state 0) run.id := by
      rintro ⟨_, first, -⟩
      rw [show e.state 0 = Db.empty from e.start] at first
      cases first
    obtain ⟨k, -, hk, before, after⟩ := e.exists_change (P := fun db => Started db run.id)
      (Nat.zero_le n) blank ⟨run, there, started⟩
    exact ⟨k, hk, claimed_of_started e (by omega) before after⟩
  · rintro ⟨i, hi, claimed⟩
    have still : Started (e.state n) run.id := by
      refine e.persists (P := fun db => Started db run.id) hi (fun k hk hkn started => ?_)
        (started_of_claimed e claimed)
      rw [e.next k (by omega)]
      exact started_step started
    obtain ⟨_, same, started⟩ := still
    rw [there] at same
    cases same
    exact started
  · intro ended m hnm hm
    refine e.persists
      (P := fun db => ∃ tags, db.runs.find? run.id = some { run with tags := tags }) hnm
      (fun k hk hkm ⟨tags, was⟩ => ?_) ⟨run.tags, there⟩
    rw [e.next k (by omega)]
    obtain ⟨tags', is⟩ := frozen_step (l := e.label k) was ended
    exact ⟨tags', is⟩

theorem decidedTwice_claimed : ∃ i, i < 5 ∧ ClaimedAt decidedTwice i ↑"r" :=
  (row_shape_and_freeze decidedTwice (n := 5) (by decide)
    (((decidedTwice.state 5).runs.find? ↑"r").get (by decide)) (by rfl)).2.1.mp (by decide)

end AgenticOctopus.Spine
