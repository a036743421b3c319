import AgenticOctopus.Chat.Context
import AgenticOctopus.Worker.Steps

/-!
# The worker loop around `process_once`

`main` calls `process_once` again and again; an exception that leaves a call ends the worker.
Only the executor runs inside the `try`. What stands outside it can raise: the choice of the
executor, the making of the working directory, every block of the spine, and a value that the
database does not take. A call that raises leaves the database as its last commit did, like
a worker that dies there.
-/
namespace AgenticOctopus.Worker
open Foundation Spine

inductive Escape where
  | raised (e : Raised)
  | valueError (message : Text)
  | osError
  | dataError

inductive Ending where
  | returned (didWork : Bool)
  | escaped (e : Escape)

/-- The workers and, for each that is outside `process_once`, how its last call ended. -/
structure Loop where
  sys : Sys
  ending : WorkerId → Option Ending

inductive Move where
  /-- A step of the system; the executor starts only in a working directory that was made. -/
  | step (l : Label)
  | setTags (w : WorkerId)
  | mkdirFails (w : WorkerId)

variable (executors : List Text) (py : Interpreter) (registry : Registry)

/-- `(executors or {}).get(m.executor) or get_executor(m.executor)` does not raise. -/
def hasExecutor (agent : LoadedAgent) : Bool :=
  executors.contains agent.manifest.executor || agent.manifest.executor == ↑"claude-sdk" ||
    agent.manifest.executor == ↑"openrouter"

def noExecutor (agent : LoadedAgent) : Text :=
  "no executor registered for '" ++ agent.manifest.executor ++ "'"

/-- The `text` columns take its texts, and `numeric(10, 4)` has room for its cost. -/
def ExecOutcome.storable (o : ExecOutcome) : Bool :=
  o.result.all Text.storable && o.error.all Text.storable && o.sessionId.all Text.storable &&
    o.costUsd.all fun c => decide (c.natAbs < 10 ^ 10)

def requestStorable (run : Run) (agent : LoadedAgent) : Bool :=
  (gateAction agent).storable && Json.storable (.obj (gatePayload run))

def workerTags (run : Run) (agent : LoadedAgent) : Dict Text Json :=
  Chat.mergeTags py
    [(↑"surface", .str ↑"worker"), (↑"agent", .str agent.manifest.name),
      (↑"executor", .str agent.manifest.executor), (↑"trigger", .str run.trigger.value)]
    (some run.tags)

/-- `if outcome.model: tags["model"] = outcome.model` -/
def finalTags (run : Run) (agent : LoadedAgent) (o : ExecOutcome) : Dict Text Json :=
  match o.model with
  | some model =>
    if model = [] then workerTags py run agent
    else (workerTags py run agent).set ↑"model" (.str model)
  | none => workerTags py run agent

/-! ## How a call ends -/

def Ending.ofBlock {α : Type} : Except Raised α → Ending
  | .ok _ => .returned true
  | .error e => .escaped (.raised e)

/-- How the worker's call ends with a step, if it does. -/
def Label.ending? (s : Sys) : Label → Option Ending
  | .claim w locked =>
    match ((Queue.claim s.now locked w).commit s.db).1 with
    | .ok (some _) => none
    | .ok none => some (.returned false)
    | .error e => some (.escaped (.raised e))
  | .request w id =>
    match s.phase w with
    | .park run agent =>
      some (.ofBlock ((Approvals.request s.now id run.id (gateAction agent)
        (gatePayload run)).commit s.db).1)
    | _ => none
  | .finish w =>
    match s.phase w with
    | .unknown run =>
      some (.ofBlock ((Queue.finish s.now run.id .failed none (some (unknownAgent run.agent)) none
        none).commit s.db).1)
    | .closing run _ o =>
      match ((Queue.finish s.now run.id o.runStatus o.result o.error o.costUsd
          o.sessionId).commit s.db).1 with
      | .ok _ => none
      | .error e => some (.escaped (.raised e))
    | _ => none
  | .setTags .. => some (.returned true)
  | _ => none

def Label.endings (s : Loop) (l : Label) : WorkerId → Option Ending :=
  match l.worker? with
  | some w => Function.update s.ending w (l.ending? s.sys)
  | none => s.ending

/-! ## Moves -/

/-- A worker that an exception ended claims no more, ids of approvals are fresh, and tags are
written by the move of their own. -/
def Move.fits (s : Loop) : Move → Bool
  | .step (.claim w _) =>
    match s.ending w with
    | some (.escaped _) => false
    | _ => true
  | .step (.request _ id) => decide (s.sys.db.approvals.find? id = none)
  | .step (.setTags ..) => false
  | _ => true

/-- The worker whose call raises at a move before any statement of it takes effect. -/
def Move.fault? (s : Sys) : Move → Option (WorkerId × Escape)
  | .step (.request w _) =>
    match s.phase w with
    | .park run agent => if requestStorable run agent then none else some (w, .dataError)
    | _ => none
  | .step (.execute w) =>
    match s.phase w with
    | .ready _ agent =>
      if hasExecutor executors agent then none else some (w, .valueError (noExecutor agent))
    | _ => none
  | .step (.finish w) =>
    match s.phase w with
    | .unknown run => if (unknownAgent run.agent).storable then none else some (w, .dataError)
    | .closing _ _ o => if o.storable then none else some (w, .dataError)
    | _ => none
  | .setTags w =>
    match s.phase w with
    | .tagging run agent o =>
      if Json.storable (.obj (finalTags py run agent o)) then none else some (w, .dataError)
    | _ => none
  | .mkdirFails w =>
    match s.phase w with
    | .ready _ agent =>
      some (w, if hasExecutor executors agent then .osError else .valueError (noExecutor agent))
    | _ => none
  | _ => none

def Move.label? (s : Sys) : Move → Option Label
  | .step l => some l
  | .setTags w =>
    match s.phase w with
    | .tagging run agent o => some (.setTags w (finalTags py run agent o))
    | _ => none
  | .mkdirFails _ => none

namespace Loop

def step (s : Loop) (m : Move) : Option Loop :=
  if m.fits s then
    match m.fault? executors py s.sys with
    | some (w, e) =>
      (Worker.step registry s.sys (.crash w)).map fun sys =>
        ⟨sys, Function.update s.ending w (some (.escaped e))⟩
    | none =>
      (m.label? py s.sys).bind fun l =>
        (Worker.step registry s.sys l).map fun sys => ⟨sys, l.endings s⟩
  else none

/-- Workers in their loops, from an empty database. -/
def machine : Machine Loop Move :=
  .ofStep (fun s => (system registry).start s.sys ∧ ∀ w, s.ending w = none)
    (step executors py registry)

/-- The ways of a move: a call raises outside the spine, or the system takes a step. -/
inductive Stepped (s : Loop) (m : Move) : Loop → Prop where
  | fault {w e sys} (fault : m.fault? executors py s.sys = some (w, e))
      (next : Worker.step registry s.sys (.crash w) = some sys) :
      Stepped s m ⟨sys, Function.update s.ending w (some (.escaped e))⟩
  | step {l sys} (smooth : m.fault? executors py s.sys = none)
      (label : m.label? py s.sys = some l) (next : Worker.step registry s.sys l = some sys) :
      Stepped s m ⟨sys, l.endings s⟩

variable {executors : List Text} {py : Interpreter} {registry : Registry}

theorem step_inversion {s t : Loop} {m : Move} (h : step executors py registry s m = some t) :
    m.fits s = true ∧ Stepped executors py registry s m t := by
  rw [step] at h
  split_ifs at h with fits
  refine ⟨fits, ?_⟩
  split at h
  next w e fault =>
    obtain ⟨sys, next, rfl⟩ := Option.map_eq_some_iff.mp h
    exact .fault fault next
  next smooth =>
    obtain ⟨l, label, h⟩ := Option.bind_eq_some_iff.mp h
    obtain ⟨sys, next, rfl⟩ := Option.map_eq_some_iff.mp h
    exact .step smooth label next

theorem step_of_fault {s : Loop} {m : Move} {w : WorkerId} {e : Escape} {sys : Sys}
    (fits : m.fits s = true) (fault : m.fault? executors py s.sys = some (w, e))
    (next : Worker.step registry s.sys (.crash w) = some sys) :
    step executors py registry s m =
      some ⟨sys, Function.update s.ending w (some (.escaped e))⟩ := by
  rw [step, if_pos fits, fault]
  simp only [next, Option.map_some]

theorem step_of_smooth {s : Loop} {m : Move} {l : Label} {sys : Sys}
    (fits : m.fits s = true) (smooth : m.fault? executors py s.sys = none)
    (label : m.label? py s.sys = some l) (next : Worker.step registry s.sys l = some sys) :
    step executors py registry s m = some ⟨sys, l.endings s⟩ := by
  rw [step, if_pos fits, smooth]
  simp only [label, Option.bind_some, next, Option.map_some]

/-- The loops do nothing that the system does not do. -/
def refines (executors : List Text) (py : Interpreter) (registry : Registry) :
    Machine.Refinement (machine executors py registry) (system registry) where
  abstraction := Loop.sys
  start _ h := h.1
  step s m t _ h := by
    cases (step_inversion h).2 with
    | fault _ next => exact .inr ⟨_, next⟩
    | step _ _ next => exact .inr ⟨_, next⟩

theorem reachable_sys {s : Loop} (h : (machine executors py registry).Reachable s) :
    (system registry).Reachable s.sys :=
  (refines executors py registry).reachable h

end Loop

end AgenticOctopus.Worker
