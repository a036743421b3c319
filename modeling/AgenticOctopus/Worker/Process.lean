import AgenticOctopus.Spine.Operation

/-!
# Workers running `process_once`

`process_once` is cut at its transactions and at the start of the executor: a worker stands
at one of these points, holding the row that its claim returned and the agent it looked up,
while other workers, the reaper, the scheduler and humans act. The registry is fixed. What
the executor does, when the clock moves and when a worker dies is up to the labels.
-/
namespace AgenticOctopus.Worker
open Foundation Spine

/-- What an executor returns; the cost is the `numeric(10, 4)` that is stored for it. -/
structure ExecOutcome where
  status : Text
  result : Option Text := none
  error : Option Text := none
  costUsd : Option Usd := none
  sessionId : Option Text := none
  model : Option Text := none
deriving DecidableEq

/-- `RunStatus.COMPLETED if outcome.status == "completed" else RunStatus.FAILED` -/
def ExecOutcome.runStatus (o : ExecOutcome) : RunStatus :=
  if o.status = ↑"completed" then .completed else .failed

theorem ExecOutcome.runStatus_cases (o : ExecOutcome) :
    o.runStatus = .completed ∨ o.runStatus = .failed := by
  unfold runStatus
  split_ifs
  · exact .inl rfl
  · exact .inr rfl

/-- `except Exception as exc: ExecOutcome(status="failed", error=repr(exc))` -/
def settle : Except Text ExecOutcome → ExecOutcome
  | .ok o => o
  | .error repr => { status := ↑"failed", error := some repr }

inductive Phase where
  /-- Outside `process_once`, or about to claim. -/
  | idle
  /-- No such agent: about to finish the run as failed. -/
  | unknown (run : Run)
  /-- About to ask `has_approved`. -/
  | gate (run : Run) (agent : LoadedAgent)
  /-- Not approved: about to request approval. -/
  | park (run : Run) (agent : LoadedAgent)
  /-- About to start the executor. -/
  | ready (run : Run) (agent : LoadedAgent)
  | executing (run : Run) (agent : LoadedAgent)
  /-- About to finish the run with an outcome. -/
  | closing (run : Run) (agent : LoadedAgent) (outcome : ExecOutcome)
  /-- Finished: about to write the tags. -/
  | tagging (run : Run) (agent : LoadedAgent) (outcome : ExecOutcome)

namespace Phase

/-- The run that a worker works on, from its claim to its finish or request. -/
def run? : Phase → Option Run
  | idle | tagging .. => none
  | unknown run | gate run _ | park run _ | ready run _ | executing run _ | closing run _ _ =>
    some run

/-- After a claim: look the agent up, and go to its gate if it has one. -/
def claimed (registry : Registry) (run : Run) : Phase :=
  match registry.get? run.agent with
  | none => .unknown run
  | some agent => if agent.manifest.requiresApproval then .gate run agent else .ready run agent

end Phase

structure Sys where
  db : Db
  now : Time
  phase : WorkerId → Phase

namespace Sys

def goto (s : Sys) (w : WorkerId) (phase : Phase) (db : Db) : Sys :=
  { s with db := db, phase := Function.update s.phase w phase }

variable (s : Sys) (w : WorkerId) (phase : Phase) (db : Db)

@[simp] theorem goto_db : (s.goto w phase db).db = db := rfl

@[simp] theorem goto_phase : (s.goto w phase db).phase w = phase := Function.update_self ..

theorem goto_phase_of_ne {v : WorkerId} (h : v ≠ w) : (s.goto w phase db).phase v = s.phase v :=
  Function.update_of_ne h ..

end Sys

/-- The callers other than the workers: the API, the command line, the scheduler and the
reaper. They never claim, heartbeat, finish or request. -/
def External : Op → Prop
  | .enqueue .. | .decide .. | .reapExpired _ | .tick .. | .syncFromRegistry ..
  | .createSchedule .. | .toggleSchedule _ => True
  | _ => False

inductive Label where
  | clock (later : Time)
  | call (op : Op) (external : External op)
  | claim (w : WorkerId) (locked : RunId → Bool)
  | hasApproved (w : WorkerId)
  | request (w : WorkerId) (id : ApprovalId)
  | execute (w : WorkerId)
  | onEvent (w : WorkerId) (type : EventType) (payload : Dict Text Json)
      (emitted : type ≠ .statusChange)
  | heartbeat (w : WorkerId)
  | outcome (w : WorkerId) (o : Except Text ExecOutcome)
  | finish (w : WorkerId)
  | setTags (w : WorkerId) (tags : Dict Text Json)
  | crash (w : WorkerId)

def unknownAgent (agent : Text) : Text := "unknown agent '" ++ agent ++ "'"

def gateAction (agent : LoadedAgent) : Text := "execute agent '" ++ agent.manifest.name ++ "'"

def gatePayload (run : Run) : Dict Text Json := [(↑"params", .obj run.params)]

variable (registry : Registry)

/-- One step; a label that does not fit the worker's phase is no step. An exception that a
transaction raises leaves `process_once`. -/
def step (s : Sys) : Label → Option Sys
  | .clock later => if s.now ≤ later then some { s with now := later } else none
  | .call op _ => some { s with db := op.after s.now s.db }
  | .claim w locked =>
    match s.phase w with
    | .idle =>
      match (Queue.claim s.now locked w).commit s.db with
      | (.ok (some run), db) => some (s.goto w (.claimed registry run) db)
      | (_, db) => some { s with db := db }
    | _ => none
  | .hasApproved w =>
    match s.phase w with
    | .gate run agent =>
      some (s.goto w (if Approvals.hasApproved s.db run.id then .ready run agent
        else .park run agent) s.db)
    | _ => none
  | .request w id =>
    match s.phase w with
    | .park run agent =>
      some (s.goto w .idle
        ((Approvals.request s.now id run.id (gateAction agent) (gatePayload run)).after s.db))
    | _ => none
  | .execute w =>
    match s.phase w with
    | .ready run agent => some (s.goto w (.executing run agent) s.db)
    | _ => none
  | .onEvent w type payload _ =>
    match s.phase w with
    | .executing run _ =>
      some { s with db := (Queue.recordEvent s.now run.id type payload).after s.db }
    | _ => none
  | .heartbeat w =>
    match s.phase w with
    | .executing run _ | .closing run _ _ =>
      some { s with db := (Queue.heartbeat s.now run.id w).after s.db }
    | _ => none
  | .outcome w o =>
    match s.phase w with
    | .executing run agent => some (s.goto w (.closing run agent (settle o)) s.db)
    | _ => none
  | .finish w =>
    match s.phase w with
    | .unknown run =>
      some (s.goto w .idle
        ((Queue.finish s.now run.id .failed none (some (unknownAgent run.agent)) none none).after
          s.db))
    | .closing run agent o =>
      match (Queue.finish s.now run.id o.runStatus o.result o.error o.costUsd
          o.sessionId).commit s.db with
      | (.ok _, db) => some (s.goto w (.tagging run agent o) db)
      | (.error _, db) => some (s.goto w .idle db)
    | _ => none
  | .setTags w tags =>
    match s.phase w with
    | .tagging run _ _ => some (s.goto w .idle ((Spine.setTags run.id tags).after s.db))
    | _ => none
  | .crash w =>
    match s.phase w with
    | .idle => none
    | _ => some (s.goto w .idle s.db)

/-- Any number of workers with one registry, from an empty database. -/
def system : Machine Sys Label :=
  .ofStep (fun s => s.db = Db.empty ∧ ∀ w, s.phase w = .idle) (step registry)

/-- The run of the system that takes these labels, from time 0. -/
def replay (labels : List Label)
    (ok : (Machine.run (step registry) ⟨Db.empty, 0, fun _ => .idle⟩ labels).isSome = true) :
    (system registry).Execution :=
  Machine.replay (step registry) ⟨Db.empty, 0, fun _ => .idle⟩ ⟨rfl, fun _ => rfl⟩ labels
    (.clock 0) ok

end AgenticOctopus.Worker
