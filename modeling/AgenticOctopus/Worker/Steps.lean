import AgenticOctopus.Worker.Process
import AgenticOctopus.Spine.Guarantees

/-!
# What a step of the workers can do

One inversion of the step function, and the refinement of the spine that it gives: every
step is at most one transaction of the spine, issued by the worker from where it stands.
-/
namespace AgenticOctopus.Worker
open Foundation Spine

/-- A transaction whose result is not used has the same effect. -/
theorem after_discard {α : Type} (t : Block α) (db : Db) :
    (do let _ ← t : Block Unit).after db = t.after db := by
  rcases t.commit_cases db with ⟨e, ran, -⟩ | ⟨a, db', ran, -⟩
  · have raised : (do let _ ← t : Block Unit).run db = .error e := by
      rw [StateT.run_bind, ran]
      rfl
    rw [Txn.after, Txn.after, Txn.commit_error raised, Txn.commit_error ran]
  · have returned : (do let _ ← t : Block Unit).run db = .ok ((), db') := by
      rw [Txn.run_bind_of_ok ran]
      rfl
    rw [Txn.after, Txn.after, Txn.commit_ok returned, Txn.commit_ok ran]

/-- The transaction that a label issues when its worker stands where the label expects it. -/
def Label.op? (s : Sys) : Label → Option Op
  | .call op _ => some op
  | .claim w locked => some (.claim locked w Queue.defaultLeaseMinutes)
  | .request w id =>
    match s.phase w with
    | .park run agent => some (.request id run.id (gateAction agent) (gatePayload run))
    | _ => none
  | .onEvent w type payload emitted =>
    match s.phase w with
    | .executing run _ => some (.recordEvent run.id type payload emitted)
    | _ => none
  | .heartbeat w =>
    match s.phase w with
    | .executing run _ | .closing run _ _ =>
      some (.heartbeat run.id w Queue.defaultLeaseMinutes)
    | _ => none
  | .finish w =>
    match s.phase w with
    | .unknown run =>
      some (.finish run.id .failed none (some (unknownAgent run.agent)) none none)
    | .closing run _ o =>
      some (.finish run.id o.runStatus o.result o.error o.costUsd o.sessionId)
    | _ => none
  | .setTags w tags =>
    match s.phase w with
    | .tagging run _ _ => some (.setTags run.id tags)
    | _ => none
  | _ => none

/-- The ways of a worker through `process_once`. -/
inductive Turn (registry : Registry) (s : Sys) : Label → Phase → Phase → Db → Prop where
  | claim {w locked run db} (claimed : (Queue.claim s.now locked w).run s.db = .ok (some run, db)) :
      Turn registry s (.claim w locked) .idle (.claimed registry run) db
  | approved {w run agent} (yes : Approvals.hasApproved s.db run.id = true) :
      Turn registry s (.hasApproved w) (.gate run agent) (.ready run agent) s.db
  | unapproved {w run agent} (no : Approvals.hasApproved s.db run.id = false) :
      Turn registry s (.hasApproved w) (.gate run agent) (.park run agent) s.db
  | request {w id run agent} :
      Turn registry s (.request w id) (.park run agent) .idle
        ((Op.request id run.id (gateAction agent) (gatePayload run)).after s.now s.db)
  | execute {w run agent} :
      Turn registry s (.execute w) (.ready run agent) (.executing run agent) s.db
  | outcome {w o run agent} :
      Turn registry s (.outcome w o) (.executing run agent) (.closing run agent (settle o)) s.db
  | refuse {w run} :
      Turn registry s (.finish w) (.unknown run) .idle
        ((Op.finish run.id .failed none (some (unknownAgent run.agent)) none none).after s.now
          s.db)
  | finish {w run agent o db}
      (finished : (Queue.finish s.now run.id o.runStatus o.result o.error o.costUsd
        o.sessionId).run s.db = .ok ((), db)) :
      Turn registry s (.finish w) (.closing run agent o) (.tagging run agent o) db
  | lost {w run agent o e}
      (raised : (Queue.finish s.now run.id o.runStatus o.result o.error o.costUsd
        o.sessionId).run s.db = .error e) :
      Turn registry s (.finish w) (.closing run agent o) .idle s.db
  | setTags {w tags run agent o} :
      Turn registry s (.setTags w tags) (.tagging run agent o) .idle
        ((Op.setTags run.id tags).after s.now s.db)
  | crash {w phase} (inside : phase ≠ .idle) : Turn registry s (.crash w) phase .idle s.db

/-- The worker that a label is about. -/
def Label.worker? : Label → Option WorkerId
  | .clock _ | .call .. => none
  | .claim w _ | .hasApproved w | .request w _ | .execute w | .onEvent w .. | .heartbeat w
  | .outcome w _ | .finish w | .setTags w _ | .crash w => some w

/-- The transactions at which no worker changes its phase. -/
def Beside : Op → Prop
  | .claim .. | .request .. | .finish .. | .setTags .. => False
  | _ => True

theorem External.beside {op : Op} (h : External op) : Beside op := by
  cases op <;> first | exact h.elim | trivial

/-- Either one worker takes one turn, or no worker moves. -/
inductive Stepped (registry : Registry) (s : Sys) (l : Label) : Sys → Prop where
  | turn {w before after db} (who : l.worker? = some w) (stood : s.phase w = before)
      (turn : Turn registry s l before after db) : Stepped registry s l (s.goto w after db)
  | clock {later} (label : l = .clock later) (later_ : s.now ≤ later) :
      Stepped registry s l { s with now := later }
  | transaction (op) (label : l.op? s = some op) (beside : Beside op) :
      Stepped registry s l { s with db := op.after s.now s.db }
  | nothing {w locked} (label : l = .claim w locked)
      (same : (Op.claim locked w Queue.defaultLeaseMinutes).after s.now s.db = s.db) :
      Stepped registry s l s

theorem step_inversion {registry : Registry} {s t : Sys} {l : Label}
    (h : step registry s l = some t) : Stepped registry s l t := by
  cases l with
  | clock later =>
    simp only [step, Option.ite_none_right_eq_some, Option.some.injEq] at h
    obtain ⟨later_, rfl⟩ := h
    exact .clock rfl later_
  | call op external =>
    cases h
    exact .transaction _ rfl external.beside
  | claim w locked =>
    simp only [step] at h
    split at h
    next idle =>
      have discard : (Op.claim locked w Queue.defaultLeaseMinutes).after s.now s.db =
          (Queue.claim s.now locked w).after s.db := after_discard _ _
      rcases (Queue.claim s.now locked w).commit_cases s.db with
        ⟨e, -, raised⟩ | ⟨res, db, ran, returned⟩
      · rw [raised] at h
        cases h
        exact .nothing rfl (discard.trans (congrArg Prod.snd raised))
      · rw [returned] at h
        cases res with
        | none =>
          cases h
          rcases Queue.claim_acts ran with ⟨-, rfl⟩ | ⟨_, -, -, -, is, -⟩
          · exact .nothing rfl (discard.trans (congrArg Prod.snd returned))
          · cases is
        | some run =>
          cases h
          exact .turn rfl idle (.claim ran)
    next => cases h
  | hasApproved w =>
    simp only [step] at h
    split at h
    next run agent stood =>
      cases h
      cases approved : Approvals.hasApproved s.db run.id with
      | true => exact .turn rfl stood (.approved approved)
      | false => exact .turn rfl stood (.unapproved approved)
    next => cases h
  | request w id =>
    simp only [step] at h
    split at h
    next run agent stood =>
      cases h
      rw [← after_discard]
      exact .turn rfl stood .request
    next => cases h
  | execute w =>
    simp only [step] at h
    split at h
    next run agent stood =>
      cases h
      exact .turn rfl stood .execute
    next => cases h
  | onEvent w type payload emitted =>
    simp only [step] at h
    split at h
    next run agent stood =>
      cases h
      exact .transaction (.recordEvent run.id type payload emitted) (by simp [Label.op?, stood])
        trivial
    next => cases h
  | heartbeat w =>
    simp only [step] at h
    split at h
    next run agent stood =>
      cases h
      rw [← after_discard]
      exact .transaction (.heartbeat run.id w _) (by simp [Label.op?, stood]) trivial
    next run agent o stood =>
      cases h
      rw [← after_discard]
      exact .transaction (.heartbeat run.id w _) (by simp [Label.op?, stood]) trivial
    next => cases h
  | outcome w o =>
    simp only [step] at h
    split at h
    next run agent stood =>
      cases h
      exact .turn rfl stood .outcome
    next => cases h
  | finish w =>
    simp only [step] at h
    split at h
    next run stood =>
      cases h
      exact .turn rfl stood .refuse
    next run agent o stood =>
      rcases (Queue.finish s.now run.id o.runStatus o.result o.error o.costUsd
        o.sessionId).commit_cases s.db with ⟨e, ran, raised⟩ | ⟨_, db, ran, returned⟩
      · rw [raised] at h
        cases h
        exact .turn rfl stood (.lost ran)
      · rw [returned] at h
        cases h
        exact .turn rfl stood (.finish ran)
    next => cases h
  | setTags w tags =>
    simp only [step] at h
    split at h
    next run agent o stood =>
      cases h
      exact .turn rfl stood .setTags
    next => cases h
  | crash w =>
    simp only [step] at h
    split at h
    next => cases h
    next inside =>
      cases h
      exact .turn rfl rfl (.crash inside)

/-! ## Who issues what -/

theorem Label.op_claim {s : Sys} {l : Label} {locked : RunId → Bool} {w : WorkerId}
    {leaseMinutes : Int} (h : l.op? s = some (.claim locked w leaseMinutes)) :
    l = .claim w locked := by
  cases l <;> simp only [Label.op?] at h
  case claim => cases h; rfl
  case call external => cases h; exact external.elim
  all_goals first | (split at h <;> cases h) | cases h

theorem Label.op_request {s : Sys} {l : Label} {id : ApprovalId} {r : RunId} {action : Text}
    {payload : Dict Text Json} (h : l.op? s = some (.request id r action payload)) :
    ∃ w run agent, l = .request w id ∧ s.phase w = .park run agent ∧ run.id = r ∧
      action = gateAction agent ∧ payload = gatePayload run := by
  cases l <;> simp only [Label.op?] at h
  case request w _ =>
    split at h
    next run agent stood => cases h; exact ⟨w, run, agent, rfl, stood, rfl, rfl, rfl⟩
    next => cases h
  case call external => cases h; exact external.elim
  all_goals first | (split at h <;> cases h) | cases h

theorem Label.op_decide {s : Sys} {l : Label} {r : RunId} {approved : Bool} {via : Text}
    {note : Option Text} (h : l.op? s = some (.decide r approved via note)) :
    ∃ external, l = .call (.decide r approved via note) external := by
  cases l <;> simp only [Label.op?] at h
  case call external => cases h; exact ⟨external, rfl⟩
  all_goals first | (split at h <;> cases h) | cases h

theorem Label.op_reapExpired {s : Sys} {l : Label} {locked : RunId → Bool}
    (h : l.op? s = some (.reapExpired locked)) :
    ∃ external, l = .call (.reapExpired locked) external := by
  cases l <;> simp only [Label.op?] at h
  case call external => cases h; exact ⟨external, rfl⟩
  all_goals first | (split at h <;> cases h) | cases h

theorem Label.op_finish {s : Sys} {l : Label} {r : RunId} {status : RunStatus}
    {result error : Option Text} {costUsd : Option Usd} {sessionId : Option Text}
    (h : l.op? s = some (.finish r status result error costUsd sessionId)) :
    ∃ w run, l = .finish w ∧ run.id = r ∧
      ((s.phase w = .unknown run ∧ status = .failed ∧ result = none ∧
          error = some (unknownAgent run.agent) ∧ costUsd = none) ∨
        ∃ agent o, s.phase w = .closing run agent o ∧ status = o.runStatus ∧ result = o.result ∧
          error = o.error ∧ costUsd = o.costUsd) := by
  cases l <;> simp only [Label.op?] at h
  case finish w =>
    split at h
    next run stood =>
      cases h
      exact ⟨w, run, rfl, rfl, .inl ⟨stood, rfl, rfl, rfl, rfl⟩⟩
    next run agent o stood =>
      cases h
      exact ⟨w, run, rfl, rfl, .inr ⟨agent, o, stood, rfl, rfl, rfl, rfl⟩⟩
    next => cases h
  case call external => cases h; exact external.elim
  all_goals first | (split at h <;> cases h) | cases h

/-! ## Refinement of the spine -/

/-- The database after the transaction of a label. -/
def Label.database (s : Sys) (l : Label) : Db :=
  match l.op? s with
  | some op => op.after s.now s.db
  | none => s.db

theorem Label.database_of_op {s : Sys} {l : Label} {op : Op} (h : l.op? s = some op) :
    l.database s = op.after s.now s.db := by rw [database, h]

theorem Label.database_of_none {s : Sys} {l : Label} (h : l.op? s = none) :
    l.database s = s.db := by rw [database, h]

theorem Turn.database {registry : Registry} {s : Sys} {l : Label} {before after : Phase}
    {db : Db} {w : WorkerId} (h : Turn registry s l before after db) (who : l.worker? = some w)
    (stood : s.phase w = before) : db = l.database s := by
  cases h with
  | claim claimed =>
    have returned : ((Op.claim _ _ _).block s.now).run s.db = .ok ((), db) :=
      Txn.bind_ok.mpr ⟨_, _, claimed, rfl⟩
    rw [Label.database_of_op rfl]
    exact (after_of_ok returned).symm
  | approved | unapproved | execute | outcome | crash => rw [Label.database_of_none rfl]
  | request | refuse | setTags =>
    cases who
    rw [Label.database_of_op]
    simp [Label.op?, stood]
  | @finish _ run agent o _ finished =>
    cases who
    have returned : ((Op.finish run.id o.runStatus o.result o.error o.costUsd o.sessionId).block
      s.now).run s.db = .ok ((), db) := finished
    rw [Label.database_of_op (by simp only [Label.op?, stood]; rfl), after_of_ok returned]
  | @lost _ run agent o e raised =>
    cases who
    have failed : ((Op.finish run.id o.runStatus o.result o.error o.costUsd o.sessionId).block
      s.now).run s.db = .error e := raised
    rw [Label.database_of_op (by simp only [Label.op?, stood]; rfl), after_of_error failed]

/-- A step does to the database what the transaction of its label does. -/
theorem step_database {registry : Registry} {s t : Sys} {l : Label}
    (h : step registry s l = some t) : t.db = l.database s := by
  cases step_inversion h with
  | turn who stood turn => exact turn.database who stood
  | clock label =>
    subst label
    rfl
  | transaction op label => exact (Label.database_of_op label).symm
  | nothing label same =>
    subst label
    exact same.symm

theorem step_transaction {registry : Registry} {s t : Sys} {l : Label}
    (h : step registry s l = some t) :
    t.db = s.db ∨ ∃ op, l.op? s = some op ∧ t.db = op.after s.now s.db := by
  rw [step_database h]
  cases label : l.op? s with
  | none => exact .inl (Label.database_of_none label)
  | some op => exact .inr ⟨op, rfl, Label.database_of_op label⟩

def systemRefines (registry : Registry) : Machine.Refinement (system registry) spine where
  abstraction := Sys.db
  start _ h := h.1
  step s l t _ h := by
    rcases step_transaction h with same | ⟨op, -, after⟩
    · exact .inl same
    · exact .inr ⟨(s.now, op), after⟩

/-- Seen from one run, a step is at most one act, done by the transaction of its label. -/
theorem step_effect {registry : Registry} {s t : Sys} {l : Label}
    (h : step registry s l = some t) (r : RunId) :
    t.db.dossier r = s.db.dossier r ∨
      ∃ op act, l.op? s = some op ∧ op.Performs r act ∧
        (op.block s.now).run s.db = .ok ((), t.db) ∧
        (s.db.dossier r).Advance r act (t.db.dossier r) := by
  rcases step_transaction h with same | ⟨op, label, after⟩
  · exact .inl (by rw [same])
  · rcases Op.effect s.now op s.db r with same | ⟨act, performs, ran, advance⟩
    · exact .inl (by rw [after, same])
    · rw [← after] at ran advance
      exact .inr ⟨op, act, label, performs, ran, advance⟩

end AgenticOctopus.Worker
