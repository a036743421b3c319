import AgenticOctopus.Worker.Leases
import AgenticOctopus.Worker.Loop

/-!
# When the worker loop survives

An exception leaves `process_once` exactly when a worker issues a finish or a request for a run
that another transaction has taken out of `running`, or when one of the steps around the
executor raises by itself. A claim never raises, a call that returns has given its run
away, and a worker inside a call can always go on.
-/
namespace AgenticOctopus.Worker
open Foundation Spine

variable {executors : List Text} {py : Interpreter} {registry : Registry}

def IsRunning (db : Db) (r : RunId) : Prop :=
  ∃ row, db.runs.find? r = some row ∧ row.status = .running

/-- What a move needs for nothing to escape from it. -/
def Smooth (executors : List Text) (py : Interpreter) (s : Sys) : Move → Prop
  | .step (.request w _) =>
    match s.phase w with
    | .park run agent => requestStorable run agent = true ∧ IsRunning s.db run.id
    | _ => True
  | .step (.execute w) =>
    match s.phase w with
    | .ready _ agent => hasExecutor executors agent = true
    | _ => True
  | .step (.finish w) =>
    match s.phase w with
    | .unknown run => (unknownAgent run.agent).storable = true ∧ IsRunning s.db run.id
    | .closing run _ o => o.storable = true ∧ IsRunning s.db run.id
    | _ => True
  | .setTags w =>
    match s.phase w with
    | .tagging run agent o => Json.storable (.obj (finalTags py run agent o)) = true
    | _ => True
  | .mkdirFails _ => False
  | _ => True

/-! ## The blocks of a call -/

theorem claim_returns (now : Time) (locked : RunId → Bool) (w : WorkerId) (db : Db) :
    ∃ res db', (Queue.claim now locked w).run db = .ok (res, db') := by
  rw [Queue.claim, Txn.run_bind_of_ok (Txn.get_ok.mpr ⟨rfl, rfl⟩)]
  cases picked : Queue.oldest now locked db.runs.rows with
  | none => exact ⟨none, db, rfl⟩
  | some run =>
    have there := Table.find?_of_mem (t := db.runs) (Queue.oldest_some picked).1
    have updated : (updateRuns (fun r => decide (r.id = run.id))
        (Queue.claimSet now w Queue.defaultLeaseMinutes)).run db = .ok (_, _) :=
      updateRuns_ok.mpr ⟨rfl, rfl⟩
    have known : (db.setRuns (fun r => decide (r.id = run.id))
        (Queue.claimSet now w Queue.defaultLeaseMinutes)).runs.contains run.id = true := by
      simp [Table.contains, Db.setRuns, Table.find?_update, there]
    have claimed : (Queue.claimRun now run w Queue.defaultLeaseMinutes).run db = .ok (_, _) :=
      Txn.bind_ok.mpr ⟨_, _, updated, Txn.bind_ok.mpr
        ⟨(), _, insertEvent_ok.mpr ⟨known, rfl⟩, rfl⟩⟩
    exact ⟨_, _, Txn.bind_ok.mpr ⟨_, _, claimed, rfl⟩⟩

theorem request_running {now : Time} {id : ApprovalId} {r : RunId} {action : Text}
    {payload : Dict Text Json} {db db' : Db} {x : ApprovalId}
    (h : (Approvals.request now id r action payload).run db = .ok (x, db')) : IsRunning db r :=
  (Approvals.request_acts h).2.1.source rfl

theorem finish_running {now : Time} {r : RunId} {status : RunStatus} {result error : Option Text}
    {costUsd : Option Usd} {sessionId : Option Text} {db db' : Db} {x : Unit}
    (h : (Queue.finish now r status result error costUsd sessionId).run db = .ok (x, db')) :
    IsRunning db r :=
  (Queue.finish_acts h).1.source rfl

theorem request_returns_iff (now : Time) {id : ApprovalId} {r : RunId} {db : Db}
    (fresh : db.approvals.find? id = none) (action : Text) (payload : Dict Text Json) :
    (∃ x db', (Approvals.request now id r action payload).run db = .ok (x, db')) ↔
      IsRunning db r := by
  constructor
  · rintro ⟨x, db', ran⟩
    exact request_running ran
  · intro running
    exact ⟨id, request_returns running now fresh action payload⟩

theorem finish_returns_iff (now : Time) (r : RunId) (db : Db) {status : RunStatus}
    (outcome : status = .completed ∨ status = .failed) (result error : Option Text)
    (costUsd : Option Usd) (sessionId : Option Text) :
    (∃ x db', (Queue.finish now r status result error costUsd sessionId).run db = .ok (x, db')) ↔
      IsRunning db r := by
  constructor
  · rintro ⟨x, db', ran⟩
    exact finish_running ran
  · intro running
    exact ⟨(), finish_returns running now outcome result error costUsd sessionId⟩

/-- A block escapes exactly when it does not return. -/
theorem ofBlock_escapes_iff {α : Type} (t : Block α) (db : Db) :
    (∀ e, Ending.ofBlock (t.commit db).1 ≠ .escaped e) ↔ ∃ x db', t.run db = .ok (x, db') := by
  rcases t.commit_cases db with ⟨e, ran, raised⟩ | ⟨x, db', ran, returned⟩
  · simp [raised, ran, Ending.ofBlock]
  · simp [returned, ran, Ending.ofBlock]

/-! ## Moves from which nothing escapes -/

theorem smooth_iff {s t : Loop} {m : Move} (h : s.step executors py registry m = some t) :
    Smooth executors py s.sys m ↔
      m.fault? executors py s.sys = none ∧
        ∀ l, m.label? py s.sys = some l → ∀ e, l.ending? s.sys ≠ some (.escaped e) := by
  obtain ⟨fits, stepped⟩ := Loop.step_inversion h
  cases m with
  | mkdirFails w =>
    cases stepped with
    | fault fault => simp [Smooth, fault]
    | step _ label => cases label
  | setTags w =>
    cases stood : s.sys.phase w <;>
      simp [Smooth, Move.fault?, Move.label?, Label.ending?, stood]
  | step l =>
    cases l with
    | claim w locked =>
      obtain ⟨res, db', ran⟩ := claim_returns s.sys.now locked w s.sys.db
      cases res <;>
        simp [Smooth, Move.fault?, Move.label?, Label.ending?, Txn.commit_ok ran]
    | request w id =>
      have fresh : s.sys.db.approvals.find? id = none := by simpa [Move.fits] using fits
      cases stood : s.sys.phase w with
      | park run agent =>
        have returns := request_returns_iff s.sys.now fresh (gateAction agent) (gatePayload run)
          (r := run.id)
        rw [← ofBlock_escapes_iff] at returns
        simp [Smooth, Move.fault?, Move.label?, Label.ending?, stood, ← returns]
      | _ => simp [Smooth, Move.fault?, Move.label?, Label.ending?, stood]
    | execute w =>
      cases stood : s.sys.phase w <;>
        simp [Smooth, Move.fault?, Move.label?, Label.ending?, stood]
    | finish w =>
      cases stood : s.sys.phase w with
      | unknown run =>
        have returns := finish_returns_iff s.sys.now run.id s.sys.db (.inr rfl)
          none (some (unknownAgent run.agent)) none none
        rw [← ofBlock_escapes_iff] at returns
        simp [Smooth, Move.fault?, Move.label?, Label.ending?, stood, ← returns]
      | closing run agent o =>
        have returns := finish_returns_iff s.sys.now run.id s.sys.db
          o.runStatus_cases o.result o.error o.costUsd o.sessionId
        rcases (Queue.finish s.sys.now run.id o.runStatus o.result o.error o.costUsd
            o.sessionId).commit_cases s.sys.db with ⟨e, ran, raised⟩ | ⟨x, db', ran, returned⟩
        · simp [Smooth, Move.fault?, Move.label?, Label.ending?, stood, ← returns, raised, ran]
        · simp [Smooth, Move.fault?, Move.label?, Label.ending?, stood, ← returns, returned, ran]
      | _ => simp [Smooth, Move.fault?, Move.label?, Label.ending?, stood]
    | _ => simp [Smooth, Move.fault?, Move.label?, Label.ending?]

/-! ## Endings -/

theorem Label.endings_self {s : Loop} {l : Label} {w : WorkerId} (who : l.worker? = some w) :
    l.endings s w = l.ending? s.sys := by
  simp [endings, who]

theorem Label.endings_of_other {s : Loop} {l : Label} {w : WorkerId} (other : l.worker? ≠ some w) :
    l.endings s w = s.ending w := by
  cases who : l.worker? with
  | none => simp [endings, who]
  | some v =>
    have apart : w ≠ v := by
      rintro rfl
      exact other who
    simp [endings, who, Function.update_of_ne apart]

/-- Only a step of its worker ends a call. -/
theorem Label.worker_of_ending {s : Sys} {l : Label} {x : Ending} (h : l.ending? s = some x) :
    ∃ w, l.worker? = some w := by
  cases l <;> first | exact ⟨_, rfl⟩ | cases h

theorem idle_of_claim {s t : Sys} {w : WorkerId} {locked : RunId → Bool}
    (h : step registry s (.claim w locked) = some t) : s.phase w = .idle := by
  rw [step] at h
  split at h
  next idle => exact idle
  next => cases h

/-- A turn that does not leave `process_once` ends no call. -/
theorem Turn.unended {s : Sys} {l : Label} {before after : Phase} {db : Db}
    (turn : Turn registry s l before after db) {w : WorkerId} (who : l.worker? = some w)
    (stood : s.phase w = before) (inside : after ≠ .idle) : l.ending? s = none := by
  cases turn with
  | claim claimed => simp [Label.ending?, Txn.commit_ok claimed]
  | approved | unapproved | execute | outcome => rfl
  | finish finished =>
    cases who
    simp [Label.ending?, stood, Txn.commit_ok finished]
  | request | refuse | lost | setTags | crash => exact (inside rfl).elim

theorem Label.unended_of_beside {s : Sys} {l : Label} {op : Op} (label : l.op? s = some op)
    (beside : Beside op) : l.ending? s = none := by
  cases l with
  | claim => cases label; exact beside.elim
  | request w id =>
    simp only [op?] at label
    split at label <;> cases label
    exact beside.elim
  | finish w =>
    simp only [op?] at label
    split at label <;> cases label <;> exact beside.elim
  | setTags w tags =>
    simp only [op?] at label
    split at label <;> cases label
    exact beside.elim
  | _ => rfl

/-- A worker inside `process_once` has no ending. -/
def Unended (s : Loop) : Prop := ∀ w, s.sys.phase w ≠ .idle → s.ending w = none

theorem phase_of_other {s t : Sys} {l : Label} (h : step registry s l = some t) {v : WorkerId}
    (other : l.worker? ≠ some v) : t.phase v = s.phase v := by
  cases step_inversion h with
  | @turn w before after db who =>
    refine s.goto_phase_of_ne w after db ?_
    rintro rfl
    exact other who
  | clock | nothing | transaction => rfl

theorem unended_step {s t : Loop} {m : Move} (h : s.step executors py registry m = some t)
    (inv : Unended s) : Unended t := by
  intro v inside
  cases (Loop.step_inversion h).2 with
  | @fault w e sys _ next =>
    change sys.phase v ≠ .idle at inside
    change Function.update s.ending w _ v = none
    have other : v ≠ w := by
      rintro rfl
      cases step_inversion next with
      | turn who stood turn =>
        cases who
        cases turn with
        | crash => exact inside (s.sys.goto_phase ..)
      | clock label | nothing label | transaction op label => cases label
    have same := phase_of_other next (v := v) (by simpa [Label.worker?] using other.symm)
    rw [Function.update_of_ne other]
    exact inv v (same ▸ inside)
  | @step l sys _ _ next =>
    change sys.phase v ≠ .idle at inside
    change l.endings s v = none
    by_cases own : l.worker? = some v
    · rw [Label.endings_self own]
      cases step_inversion next with
      | @turn w before after db who stood turn =>
        obtain rfl : w = v := Option.some.inj (who.symm.trans own)
        exact turn.unended who stood (by rwa [s.sys.goto_phase w after db] at inside)
      | clock label => cases label; cases own
      | nothing label =>
        cases label
        cases own
        exact (inside (idle_of_claim next)).elim
      | transaction op label beside => exact Label.unended_of_beside label beside
    · rw [Label.endings_of_other own]
      exact inv v (phase_of_other next own ▸ inside)

theorem unended {s : Loop} (h : (Loop.machine executors py registry).Reachable s) : Unended s :=
  h.invariant (P := Unended) (fun s start w _ => by exact start.2 w)
    fun _ _ _ _ inv next => unended_step next inv

/-! ## A call that returns has given its run away -/

/-- The run of a call, from its claim to its end. -/
def Phase.claimed? : Phase → Option Run
  | .tagging run _ _ => some run
  | phase => phase.run?

theorem terminal_step {s t : Sys} {l : Label} (h : step registry s l = some t) {r : RunId}
    {row : Run} (there : s.db.runs.find? r = some row) (ended : row.status.Terminal) :
    ∃ row', t.db.runs.find? r = some row' ∧ row'.status.Terminal := by
  rcases step_effect h r with same | ⟨_, _, -, -, -, advance⟩
  · exact ⟨row, (congrArg Dossier.row same).trans there, ended⟩
  · obtain ⟨tags, is⟩ := advance.frozen there ended
    exact ⟨_, is, ended⟩

/-- The run of a worker that is about to write the tags is over. -/
def TaggingOver (s : Sys) : Prop :=
  ∀ w run agent o, s.phase w = .tagging run agent o →
    ∃ row, s.db.runs.find? run.id = some row ∧ row.status.Terminal

theorem Turn.taggingOver {s : Sys} {l : Label} {before : Phase} {db : Db} {run : Run}
    {agent : LoadedAgent} {o : ExecOutcome}
    (turn : Turn registry s l before (.tagging run agent o) db) :
    ∃ row, db.runs.find? run.id = some row ∧ row.status.Terminal := by
  generalize is : Phase.tagging run agent o = after at turn
  cases turn with
  | finish finished =>
    cases is
    obtain ⟨row, there, status⟩ := (Queue.finish_acts finished).1.target rfl
    refine ⟨row, there, ?_⟩
    rw [status]
    rcases o.runStatus_cases with h | h <;> rw [h] <;> decide
  | claim =>
    rw [Phase.claimed] at is
    split at is
    · cases is
    · split_ifs at is
  | approved | unapproved | request | execute | outcome | refuse | lost | setTags | crash =>
    cases is

theorem taggingOver_step {s t : Sys} {l : Label} (h : step registry s l = some t)
    (inv : TaggingOver s) : TaggingOver t := by
  intro v run agent o stands
  have kept : s.phase v = .tagging run agent o →
      ∃ row, t.db.runs.find? run.id = some row ∧ row.status.Terminal := by
    intro stood
    obtain ⟨row, there, ended⟩ := inv v run agent o stood
    exact terminal_step h there ended
  cases step_inversion h with
  | @turn w before after db who stood turn =>
    by_cases same : v = w
    · subst same
      rw [s.goto_phase] at stands
      exact (stands ▸ turn).taggingOver
    · exact kept (by rwa [s.goto_phase_of_ne w after db same] at stands)
  | clock | nothing | transaction => exact kept stands

theorem taggingOver {s : Sys} (h : (system registry).Reachable s) : TaggingOver s :=
  h.invariant (P := TaggingOver)
    (fun s start w run agent o stood => by
      rw [start.2 w] at stood
      cases stood)
    fun _ _ _ _ inv next => taggingOver_step next inv

theorem not_owns_of_row {db : Db} {w : WorkerId} {r : RunId}
    (h : ∃ row, db.runs.find? r = some row ∧ row.status ≠ .running) : ¬ Owns db w r := by
  rintro ⟨row, there, running, -⟩
  obtain ⟨row', there', other⟩ := h
  rw [there] at there'
  cases there'
  exact other running

theorem not_running_of_terminal {status : RunStatus} (h : status.Terminal) : status ≠ .running := by
  rintro rfl
  exact absurd h (by decide)

/-- A block whose call returns has run. -/
theorem ran_of_returned {α : Type} {t : Block α} {db : Db} {didWork : Bool}
    (h : Ending.ofBlock (t.commit db).1 = .returned didWork) :
    ∃ x, t.run db = .ok (x, t.after db) := by
  rcases t.commit_cases db with ⟨e, -, raised⟩ | ⟨x, db', ran, returned⟩
  · rw [raised] at h
    cases h
  · exact ⟨x, by rw [Txn.after, returned, ran]⟩

theorem relinquished_step {s t : Sys} {l : Label} (h : step registry s l = some t)
    (closed : TaggingOver s) {w : WorkerId} (who : l.worker? = some w) {run : Run}
    (held : (s.phase w).claimed? = some run) {didWork : Bool}
    (returns : l.ending? s = some (.returned didWork)) : ¬ Owns t.db w run.id := by
  cases l with
  | claim =>
    cases who
    rw [idle_of_claim h] at held
    cases held
  | request _ id =>
    cases who
    cases stood : s.phase w with
    | park run' agent =>
      simp only [step, Label.ending?, stood, Option.some.injEq] at h returns held
      subst h
      obtain ⟨x, ran⟩ := ran_of_returned returns
      obtain ⟨row, there, status⟩ := (Approvals.request_acts ran).2.1.target rfl
      cases held
      exact not_owns_of_row ⟨row, there, by rw [status]; decide⟩
    | _ => simp [step, stood] at h
  | finish =>
    cases who
    cases stood : s.phase w with
    | unknown run' =>
      simp only [step, Label.ending?, stood, Option.some.injEq] at h returns held
      subst h
      obtain ⟨x, ran⟩ := ran_of_returned returns
      obtain ⟨row, there, status⟩ := (Queue.finish_acts ran).1.target rfl
      cases held
      exact not_owns_of_row ⟨row, there, by rw [status]; decide⟩
    | closing run' agent o =>
      simp only [Label.ending?, stood] at returns
      split at returns <;> cases returns
    | _ => simp [step, stood] at h
  | setTags =>
    cases who
    cases stood : s.phase w with
    | tagging run' agent o =>
      obtain ⟨row, there, ended⟩ := closed w run' agent o stood
      obtain ⟨row', after, ended'⟩ := terminal_step h there ended
      rw [stood] at held
      cases held
      exact not_owns_of_row ⟨row', after, not_running_of_terminal ended'⟩
    | _ => simp [step, stood] at h
  | _ => cases returns

/-! ## A call goes on -/

/-- The turns that a call still takes at most. -/
def Phase.togo : Phase → Nat
  | .idle => 0
  | .unknown _ | .park .. | .tagging .. => 1
  | .closing .. => 2
  | .executing .. => 3
  | .ready .. => 4
  | .gate .. => 5

theorem Phase.togo_pos {phase : Phase} (inside : phase ≠ .idle) : 0 < phase.togo := by
  cases phase <;> first | exact (inside rfl).elim | simp [togo]

/-- The worker that a move takes on through its call. -/
def Move.onward? : Move → Option WorkerId
  | .step (.hasApproved w) | .step (.request w _) | .step (.execute w) | .step (.outcome w _)
  | .step (.finish w) | .setTags w => some w
  | _ => none

theorem Turn.togo_lt {s : Sys} {l : Label} {before after : Phase} {db : Db}
    (turn : Turn registry s l before after db) (inside : before ≠ .idle) :
    after.togo < before.togo := by
  cases turn with
  | claim => exact (inside rfl).elim
  | crash => exact Phase.togo_pos inside
  | _ => simp [Phase.togo]

/-- A worker inside `process_once` comes no further from the end, whoever moves. -/
theorem togo_step {s t : Sys} {l : Label} (h : step registry s l = some t) {v : WorkerId}
    (inside : s.phase v ≠ .idle) : (t.phase v).togo ≤ (s.phase v).togo := by
  cases step_inversion h with
  | @turn w before after db who stood turn =>
    by_cases same : v = w
    · subst same
      rw [s.goto_phase, stood]
      exact (turn.togo_lt (stood ▸ inside)).le
    · rw [s.goto_phase_of_ne w after db same]
  | clock | nothing | transaction => exact le_rfl

theorem Move.fault_worker {s : Sys} {m : Move} {v w : WorkerId} {e : Escape}
    (fault : m.fault? executors py s = some (v, e)) (goes : m.onward? = some w) : v = w := by
  cases m with
  | mkdirFails => cases goes
  | setTags u =>
    cases goes
    simp only [fault?] at fault
    split at fault
    · split_ifs at fault
      cases fault
      rfl
    · cases fault
  | step l =>
    cases l <;> cases goes <;> simp only [fault?] at fault
    all_goals first
      | cases fault
      | (split at fault <;> first
          | cases fault
          | (split_ifs at fault
             cases fault
             rfl))

/-- A move that takes a worker on takes it closer to the end, even where it raises. -/
theorem goes_on {s : Loop} {m : Move} {w : WorkerId} {l : Label} {after : Phase} {db : Db}
    (fits : m.fits s = true) (goes : m.onward? = some w) (label : m.label? py s.sys = some l)
    (next : step registry s.sys l = some (s.sys.goto w after db))
    (closer : after.togo < (s.sys.phase w).togo) :
    ∃ m t, m.onward? = some w ∧ s.step executors py registry m = some t ∧
      (t.sys.phase w).togo < (s.sys.phase w).togo := by
  cases fault : m.fault? executors py s.sys with
  | none =>
    refine ⟨m, _, goes, Loop.step_of_smooth fits fault label next, ?_⟩
    rwa [s.sys.goto_phase]
  | some p =>
    obtain ⟨v, e⟩ := p
    obtain rfl := Move.fault_worker fault goes
    have inside : s.sys.phase v ≠ .idle := by
      intro idle
      rw [idle] at closer
      cases closer
    have crashed : step registry s.sys (.crash v) = some (s.sys.goto v .idle s.sys.db) := by
      rw [step]
      split
      next idle => exact (inside idle).elim
      next => rfl
    refine ⟨m, _, goes, Loop.step_of_fault fits fault crashed, ?_⟩
    rw [s.sys.goto_phase]
    exact Phase.togo_pos inside

theorem exists_fresh (db : Db) : ∃ id, db.approvals.find? id = none := by
  obtain ⟨id, fresh⟩ := Infinite.exists_notMem_finset (db.approvals.rows.map Approval.id).toFinset
  refine ⟨id, Table.find?_eq_none.mpr fun a mem same => fresh ?_⟩
  exact List.mem_toFinset.mpr (List.mem_map.mpr ⟨a, mem, same⟩)

theorem exists_onward (s : Loop) {w : WorkerId} (inside : s.sys.phase w ≠ .idle) :
    ∃ m t, m.onward? = some w ∧ s.step executors py registry m = some t ∧
      (t.sys.phase w).togo < (s.sys.phase w).togo := by
  cases stood : s.sys.phase w with
  | idle => exact (inside stood).elim
  | unknown run =>
    refine stood ▸ goes_on (m := .step (.finish w)) rfl rfl rfl (by simp only [step, stood]; rfl) ?_
    simp [stood, Phase.togo]
  | gate run agent =>
    refine stood ▸ goes_on (m := .step (.hasApproved w)) rfl rfl rfl
      (by simp only [step, stood]; rfl) ?_
    split_ifs <;> simp [stood, Phase.togo]
  | park run agent =>
    obtain ⟨id, fresh⟩ := exists_fresh s.sys.db
    refine stood ▸ goes_on (m := .step (.request w id)) (by simpa [Move.fits] using fresh) rfl rfl
      (by simp only [step, stood]; rfl) ?_
    simp [stood, Phase.togo]
  | ready run agent =>
    refine stood ▸ goes_on (m := .step (.execute w)) rfl rfl rfl
      (by simp only [step, stood]; rfl) ?_
    simp [stood, Phase.togo]
  | executing run agent =>
    refine stood ▸ goes_on (m := .step (.outcome w (.error []))) rfl rfl rfl
      (by simp only [step, stood]; rfl) ?_
    simp [stood, Phase.togo]
  | closing run agent o =>
    rcases (Queue.finish s.sys.now run.id o.runStatus o.result o.error o.costUsd
      o.sessionId).commit_cases s.sys.db with ⟨e, -, raised⟩ | ⟨x, db', -, returned⟩
    · refine stood ▸ goes_on (m := .step (.finish w)) rfl rfl rfl
        (by simp only [step, stood, raised]; rfl) ?_
      simp [stood, Phase.togo]
    · refine stood ▸ goes_on (m := .step (.finish w)) rfl rfl rfl
        (by simp only [step, stood, returned]; rfl) ?_
      simp [stood, Phase.togo]
  | tagging run agent o =>
    refine stood ▸ goes_on (m := .setTags w) rfl rfl (by simp only [Move.label?, stood]; rfl)
      (by simp only [step, stood]; rfl) ?_
    simp [stood, Phase.togo]

/-! ## Whole runs -/

structure Survives (e : (Loop.machine executors py registry).Execution) : Prop where
  /-- No exception leaves a call. -/
  unraised : ∀ i, i ≤ e.length → ∀ w x, (e.state i).ending w ≠ some (.escaped x)
  /-- A call that returns does not leave its run running under its lock. -/
  relinquished : ∀ i, i < e.length → ∀ w run didWork,
    ((e.state i).sys.phase w).claimed? = some run →
    (e.state (i + 1)).ending w = some (.returned didWork) →
    ¬ Owns (e.state (i + 1)).sys.db w run.id
  /-- A worker inside a call can go on, and nobody takes it further from the end. -/
  proceeds : ∀ i, i ≤ e.length → ∀ w, (e.state i).sys.phase w ≠ .idle →
    (∃ m t, m.onward? = some w ∧ (e.state i).step executors py registry m = some t ∧
      (t.sys.phase w).togo < ((e.state i).sys.phase w).togo) ∧
    ∀ m t, (e.state i).step executors py registry m = some t →
      (t.sys.phase w).togo ≤ ((e.state i).sys.phase w).togo

theorem togo_move {s t : Loop} {m : Move} (h : s.step executors py registry m = some t)
    {w : WorkerId} (inside : s.sys.phase w ≠ .idle) :
    (t.sys.phase w).togo ≤ (s.sys.phase w).togo := by
  cases (Loop.step_inversion h).2 with
  | fault _ next => exact togo_step next inside
  | step _ _ next => exact togo_step next inside

theorem claimed_inside {phase : Phase} {run : Run} (h : phase.claimed? = some run) :
    phase ≠ .idle := by
  rintro rfl
  cases h

/-- A move from which nothing escapes leaves the endings that are not escapes. -/
theorem unraised_step {s t : Loop} {m : Move} (h : s.step executors py registry m = some t)
    (smooth : Smooth executors py s.sys m) (inv : ∀ w x, s.ending w ≠ some (.escaped x)) :
    ∀ w x, t.ending w ≠ some (.escaped x) := by
  intro w x
  obtain ⟨faultless, quiet⟩ := (smooth_iff h).mp smooth
  cases (Loop.step_inversion h).2 with
  | fault fault => rw [faultless] at fault; cases fault
  | @step l sys _ label =>
    change l.endings s w ≠ _
    by_cases own : l.worker? = some w
    · rw [Label.endings_self own]
      exact quiet l label x
    · rw [Label.endings_of_other own]
      exact inv w x

/-- From a move that is not smooth something escapes. -/
theorem raised_step {s t : Loop} {m : Move} (h : s.step executors py registry m = some t)
    (inv : ∀ w x, t.ending w ≠ some (.escaped x)) : Smooth executors py s.sys m := by
  rw [smooth_iff h]
  cases (Loop.step_inversion h).2 with
  | @fault w e sys =>
    exact (inv w e (Function.update_self ..)).elim
  | @step l sys faultless label =>
    refine ⟨faultless, fun l' label' x escaped => ?_⟩
    rw [label] at label'
    cases label'
    obtain ⟨w, who⟩ := Label.worker_of_ending escaped
    exact inv w x ((Label.endings_self who).trans escaped)

theorem relinquished_move {s t : Loop} {m : Move} (h : s.step executors py registry m = some t)
    (unended : Unended s) (closed : TaggingOver s.sys) {w : WorkerId} {run : Run}
    (held : (s.sys.phase w).claimed? = some run) {didWork : Bool}
    (returned : t.ending w = some (.returned didWork)) : ¬ Owns t.sys.db w run.id := by
  have before := unended w (claimed_inside held)
  cases (Loop.step_inversion h).2 with
  | @fault v e sys =>
    change Function.update s.ending v _ w = _ at returned
    by_cases same : w = v
    · subst same
      rw [Function.update_self] at returned
      cases returned
    · rw [Function.update_of_ne same, before] at returned
      cases returned
  | @step l sys _ _ next =>
    change l.endings s w = _ at returned
    by_cases own : l.worker? = some w
    · rw [Label.endings_self own] at returned
      exact relinquished_step next closed own held returned
    · rw [Label.endings_of_other own, before] at returned
      cases returned

/-- A run of the loops survives if and only if every run that a worker finishes or parks is
then still running and its values can be stored, the executors are known, and the working
directories are made. -/
theorem survives_iff (e : (Loop.machine executors py registry).Execution) :
    Survives e ↔ ∀ i, i < e.length → Smooth executors py (e.state i).sys (e.label i) := by
  constructor
  · intro survives i hi
    exact raised_step (e.next i hi) (survives.unraised (i + 1) hi)
  · intro smooth
    refine ⟨fun i hi => ?_, fun i hi w run didWork held returned => ?_, fun i hi w inside => ?_⟩
    · refine e.persists (P := fun s => ∀ w x, s.ending w ≠ some (.escaped x)) (Nat.zero_le i)
        (fun k _ hk => unraised_step (e.next k (by omega)) (smooth k (by omega))) ?_
      intro w x
      rw [e.start.2 w]
      exact (Option.some_ne_none _).symm
    · exact relinquished_move (e.next i hi) (unended (e.reachable hi.le))
        (taggingOver (Loop.reachable_sys (e.reachable hi.le))) held returned
    · exact ⟨exists_onward (e.state i) inside, fun m t next => togo_move next inside⟩

/-! ### A lease that is reaped under the executor -/

/-- The executor takes longer than the lease of a run with one attempt. -/
def reapedRun : (Loop.machine [] Chat.plainPython
    [(↑"news", { manifest := { name := ↑"news" }, prompt := [] })]).Execution :=
  Machine.replay _ ⟨⟨Db.empty, 0, fun _ => .idle⟩, fun _ => none⟩
    ⟨⟨rfl, fun _ => rfl⟩, fun _ => rfl⟩
    [.step (.call (.enqueue ↑"r" ↑"news" .api [] none 1 []) trivial),
      .step (.claim ↑"w1" fun _ => false),
      .step (.execute ↑"w1"),
      .step (.clock (minutes 16)),
      .step (.call (.reapExpired fun _ => false) trivial),
      .step (.outcome ↑"w1" (.ok { status := ↑"completed", result := some ↑"done" })),
      .step (.finish ↑"w1")]
    (.step (.clock 0)) (by decide +kernel)

theorem reapedRun_escapes : ∃ message,
    (reapedRun.state 7).ending ↑"w1" = some (.escaped (.raised (.illegalTransition message))) ∧
      ¬ Survives reapedRun := by
  have escaped : (reapedRun.state 7).ending ↑"w1" =
      some (.escaped (.raised (.illegalTransition
        ↑"run r was not in running (concurrent change?)"))) := by rfl
  exact ⟨_, escaped, fun survives => survives.unraised 7 (by decide) _ _ escaped⟩

end AgenticOctopus.Worker
