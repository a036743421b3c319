import AgenticOctopus.Spine.Sweeps

/-!
# Each expired run once

The two statements of the reaper ask for the same lease and for complementary bounds on the
attempts, and the first moves what it matches out of `running`. So every expired run is matched
by one of them, once, and the events are written for the ids that they returned.
-/
namespace AgenticOctopus.Spine.Queue
open Foundation

/-- A running run whose lease has passed, in a row that no other transaction holds. -/
def Expired (now : Time) (locked : RunId → Bool) (run : Run) : Prop :=
  run.status = .running ∧ (∃ t, run.leaseExpiresAt = some t ∧ t < now) ∧ locked run.id = false

/-- The event of a run that the reaper moved. -/
structure Reports (now : Time) (toStatus : RunStatus) (runId : RunId) (ev : RunEvent) : Prop where
  run : ev.runId = runId
  ts : ev.ts = now
  type : ev.type = .statusChange
  payload : ev.payload = [(↑"from", .str ↑"running"), (↑"to", .str toStatus.value),
    (↑"reason", .str ↑"lease_expired")]

/-- What a call that returned `count` has done. -/
structure Reaps (now : Time) (locked : RunId → Bool) (before after : Db)
    (requeued failed : List RunId) (count : Nat) : Prop where
  /-- The ids that the two statements return, one run after the other. -/
  statements : ∃ mid swept,
    (updateReturning (requeues now locked) requeueSet).run before = .ok (requeued, mid) ∧
      (updateReturning (exhausts now locked) (deadSet now)).run mid = .ok (failed, swept)
  once : (requeued ++ failed).Nodup
  requeues : ∀ run ∈ before.runs, Expired now locked run → run.attempts < run.maxAttempts →
    run.id ∈ requeued ∧ after.runs.find? run.id =
      some { run with status := .queued, lockedBy := none, leaseExpiresAt := none }
  fails : ∀ run ∈ before.runs, Expired now locked run → run.maxAttempts ≤ run.attempts →
    run.id ∈ failed ∧ after.runs.find? run.id =
      some { run with
        status := .failed
        error := some ↑"lease expired; attempts exhausted"
        lockedBy := none
        leaseExpiresAt := none
        finishedAt := some now }
  spares : ∀ run ∈ before.runs, ¬ Expired now locked run →
    run.id ∉ requeued ++ failed ∧ after.runs.find? run.id = some run
  rows : after.runs.rows.map Run.id = before.runs.rows.map Run.id
  changed : {r | after.runs.find? r ≠ before.runs.find? r}.ncard = count
  events : ∃ toQueued toFailed,
    after.runEvents.rows = before.runEvents.rows ++ (toQueued ++ toFailed) ∧
      List.Forall₂ (Reports now .queued) requeued toQueued ∧
      List.Forall₂ (Reports now .failed) failed toFailed ∧
      (toQueued ++ toFailed).length = count
  tables : after.approvals = before.approvals ∧ after.schedules = before.schedules

variable {now : Time} {locked : RunId → Bool}

theorem expired_iff {run : Run} :
    expired now run = true ∧ locked run.id = false ↔ Expired now locked run := by
  simp [expired, Expired, Option.any_eq_true, and_assoc]

theorem requeues_of_expired {run : Run} (late : Expired now locked run) :
    requeues now locked run = true ↔ run.attempts < run.maxAttempts := by
  obtain ⟨late, free⟩ := expired_iff.mpr late
  rw [requeues_iff]
  exact ⟨fun all => all.2.1, fun budget => ⟨late, budget, free⟩⟩

theorem exhausts_of_expired {run : Run} (late : Expired now locked run) :
    exhausts now locked run = true ↔ run.maxAttempts ≤ run.attempts := by
  obtain ⟨late, free⟩ := expired_iff.mpr late
  rw [exhausts_iff]
  exact ⟨fun all => all.2.1, fun used => ⟨late, used, free⟩⟩

theorem requeues_expired {run : Run} (h : requeues now locked run = true) :
    Expired now locked run :=
  expired_iff.mp ⟨(requeues_iff.mp h).1, (requeues_iff.mp h).2.2⟩

theorem exhausts_expired {run : Run} (h : exhausts now locked run = true) :
    Expired now locked run :=
  expired_iff.mp ⟨(exhausts_iff.mp h).1, (exhausts_iff.mp h).2.2⟩

theorem reaped_of_budget {run : Run} (late : Expired now locked run)
    (budget : run.attempts < run.maxAttempts) :
    reaped now locked run =
      { run with status := .queued, lockedBy := none, leaseExpiresAt := none } :=
  if_pos ((requeues_of_expired late).mpr budget)

theorem reaped_of_used {run : Run} (late : Expired now locked run)
    (used : run.maxAttempts ≤ run.attempts) :
    reaped now locked run =
      { run with
        status := .failed
        error := some ↑"lease expired; attempts exhausted"
        lockedBy := none
        leaseExpiresAt := none
        finishedAt := some now } := by
  have other : ¬ requeues now locked run = true := by
    rw [requeues_of_expired late]
    omega
  rw [reaped, if_neg other, if_pos ((exhausts_of_expired late).mpr used)]
  rfl

theorem reaped_of_timely {run : Run} (timely : ¬ Expired now locked run) :
    reaped now locked run = run := by
  rw [reaped, if_neg fun matched => timely (requeues_expired matched),
    if_neg fun dead => timely (exhausts_expired dead)]

/-- A run that the reaper has seen does not match again, unless others hold its row. -/
theorem not_expired_reaped {locked' : RunId → Bool}
    (held : ∀ r, locked r = true → locked' r = true) (run : Run) :
    ¬ Expired now locked' (reaped now locked run) := by
  rintro ⟨running, passed, free⟩
  by_cases late : Expired now locked run
  · rcases lt_or_ge run.attempts run.maxAttempts with budget | used
    · rw [reaped_of_budget late budget] at running
      cases running
    · rw [reaped_of_used late used] at running
      cases running
  · rw [reaped_of_timely late] at running passed free
    refine late ⟨running, passed, ?_⟩
    by_contra held_here
    rw [held run.id (by simpa using held_here)] at free
    cases free

/-- The rows that a statement matches are no longer running, and so are not as they were. -/
theorem reaped_ne_iff {run : Run} :
    reaped now locked run ≠ run ↔
      requeues now locked run = true ∨ exhausts now locked run = true := by
  constructor
  · intro differs
    by_contra neither
    rw [not_or] at neither
    rw [reaped, if_neg neither.1, if_neg neither.2] at differs
    exact differs rfl
  · intro matched same
    have again : ¬ Expired now locked (reaped now locked run) :=
      not_expired_reaped (fun _ => id) run
    rw [same] at again
    exact again (matched.elim requeues_expired exhausts_expired)

/-- One event for each id, and nothing else. -/
theorem recordAll_reports {toStatus : RunStatus} {rids : List RunId} {db db' : Db} {x : Unit}
    (h : (recordAll now (reapPayload toStatus) rids).run db = .ok (x, db')) :
    ∃ written, db'.runEvents.rows = db.runEvents.rows ++ written ∧
      List.Forall₂ (Reports now toStatus) rids written ∧
      db'.runs = db.runs ∧ db'.approvals = db.approvals ∧ db'.schedules = db.schedules := by
  induction rids generalizing db with
  | nil =>
    obtain ⟨-, rfl⟩ := Txn.pure_ok.mp h
    exact ⟨[], by simp, .nil, rfl, rfl, rfl⟩
  | cons rid rids ih =>
    simp only [recordAll, Txn.bind_ok, recordEvent, insertEvent_ok] at h
    obtain ⟨_, _, ⟨-, rfl⟩, h⟩ := h
    obtain ⟨written, rows, reports, same⟩ := ih h
    refine ⟨⟨db.runEvents.next, rid, now, .statusChange, reapPayload toStatus⟩ :: written, ?_,
      .cons ⟨rfl, rfl, rfl, rfl⟩ reports, same⟩
    rw [rows]
    simp [Db.addEvent, SerialTable.append]

variable {db : Db}

/-- The table after the two statements. -/
def swept (now : Time) (locked : RunId → Bool) (db : Db) : Db :=
  (db.setRuns (requeues now locked) requeueSet).setRuns (exhausts now locked) (deadSet now)

theorem find?_swept (r : RunId) :
    (swept now locked db).runs.find? r = (db.runs.find? r).map (reaped now locked) :=
  congrArg Dossier.row (reaped_dossier db now locked r)

theorem ids_swept : (swept now locked db).runs.rows.map Run.id = db.runs.rows.map Run.id := by
  have keeps (p : Run → Bool) (f : Table.Assignment Run.id) (run : Run) :
      (if p run then f.apply run else run).id = run.id := by
    split_ifs
    · exact f.keeps_key run
    · rfl
  simp [swept, Db.setRuns, Table.update, Function.comp_def, keeps]

/-- What the first statement returns. -/
def requeuedIds (now : Time) (locked : RunId → Bool) (db : Db) : List RunId :=
  (db.runs.rows.filter (requeues now locked)).map Run.id

/-- What the second statement returns. -/
def failedIds (now : Time) (locked : RunId → Bool) (db : Db) : List RunId :=
  ((db.setRuns (requeues now locked) requeueSet).runs.rows.filter (exhausts now locked)).map Run.id

theorem mem_requeuedIds {r : RunId} :
    r ∈ requeuedIds now locked db ↔
      ∃ run, db.runs.find? r = some run ∧ requeues now locked run = true := by
  rw [requeuedIds, mem_returned, Option.any_eq_true]

theorem mem_failedIds {r : RunId} :
    r ∈ failedIds now locked db ↔
      ∃ run, db.runs.find? r = some run ∧ exhausts now locked run = true := by
  rw [failedIds, mem_returned, row_setRuns, Option.any_eq_true]
  constructor
  · rintro ⟨run', there, dead⟩
    obtain ⟨run, found, rfl⟩ := Option.map_eq_some_iff.mp there
    split_ifs at dead
    · rw [exhausts_requeued] at dead
      cases dead
    · exact ⟨run, found, dead⟩
  · rintro ⟨run, found, dead⟩
    have other : ¬ requeues now locked run = true := by
      intro first
      have budget := (requeues_iff.mp first).2.1
      have used := (exhausts_iff.mp dead).2.1
      omega
    refine ⟨run, ?_, dead⟩
    rw [found, Option.map_some, if_neg other]

/-- No id is returned twice. -/
theorem returned_once : (requeuedIds now locked db ++ failedIds now locked db).Nodup := by
  refine List.Nodup.append (returned_nodup _ _) (returned_nodup _ _) ?_
  intro r first second
  obtain ⟨run, there, matched⟩ := mem_requeuedIds.mp first
  obtain ⟨run', there', dead⟩ := mem_failedIds.mp second
  rw [there] at there'
  cases there'
  have budget := (requeues_iff.mp matched).2.1
  have used := (exhausts_iff.mp dead).2.1
  omega

/-- The statements change the rows whose ids they return. -/
theorem find?_swept_ne_iff {r : RunId} :
    (swept now locked db).runs.find? r ≠ db.runs.find? r ↔
      r ∈ requeuedIds now locked db ++ failedIds now locked db := by
  rw [List.mem_append, mem_requeuedIds, mem_failedIds, find?_swept]
  cases there : db.runs.find? r with
  | none => simp
  | some run =>
    simpa using reaped_ne_iff

theorem setRuns_of_none {p : Run → Bool} (f : Table.Assignment Run.id)
    (none : ∀ run ∈ db.runs, p run = false) : db.setRuns p f = db := by
  rw [Db.setRuns, Table.update_of_none none]

/-- Where no row matches, a call does nothing. -/
theorem reapExpired_of_none (none : ∀ run ∈ db.runs, ¬ Expired now locked run) :
    (reapExpired now locked).run db = .ok (0, db) := by
  have first : ∀ run ∈ db.runs, requeues now locked run = false := fun run mem =>
    Bool.eq_false_iff.mpr fun matched => none run mem (requeues_expired matched)
  have second : ∀ run ∈ db.runs, exhausts now locked run = false := fun run mem =>
    Bool.eq_false_iff.mpr fun matched => none run mem (exhausts_expired matched)
  have empty {p : Run → Bool} (unmatched : ∀ run ∈ db.runs, p run = false) :
      (db.runs.rows.filter p).map Run.id = [] := by
    rw [List.filter_eq_nil_iff.mpr fun run mem => Bool.eq_false_iff.mp (unmatched run mem),
      List.map_nil]
  simp only [reapExpired, Txn.bind_ok, updateReturning_ok, Txn.pure_ok]
  refine ⟨[], db, ⟨empty first, setRuns_of_none _ first⟩, [], db,
    ⟨empty second, setRuns_of_none _ second⟩, (), db, rfl, (), db, rfl, rfl, rfl⟩

/-- What a call that returns has written. -/
theorem reapExpired_writes {after : Db} {count : Nat}
    (h : (reapExpired now locked).run db = .ok (count, after)) :
    after.runs = (swept now locked db).runs ∧ after.approvals = db.approvals ∧
      after.schedules = db.schedules ∧
      count = (requeuedIds now locked db ++ failedIds now locked db).length ∧
      ∃ toQueued toFailed,
        after.runEvents.rows = db.runEvents.rows ++ (toQueued ++ toFailed) ∧
          List.Forall₂ (Reports now .queued) (requeuedIds now locked db) toQueued ∧
          List.Forall₂ (Reports now .failed) (failedIds now locked db) toFailed := by
  simp only [reapExpired, Txn.bind_ok, updateReturning_ok, Txn.pure_ok] at h
  obtain ⟨_, _, ⟨rfl, rfl⟩, _, _, ⟨rfl, rfl⟩, _, noted, first, _, last, second, rfl, is_last⟩ := h
  subst last
  obtain ⟨toQueued, rows, reports, runs, approvals, schedules⟩ := recordAll_reports first
  obtain ⟨toFailed, rows', reports', runs', approvals', schedules'⟩ := recordAll_reports second
  refine ⟨runs'.trans runs, approvals'.trans approvals, schedules'.trans schedules, ?_,
    toQueued, toFailed, ?_, reports, reports'⟩
  · rw [List.length_append]
    rfl
  · rw [rows', rows, List.append_assoc]
    rfl

/-- One call treats each expired run once, and a second call at the same instant, with the same
rows held by others or more of them, does nothing. -/
theorem reapExpired_once (now : Time) (locked : RunId → Bool) (db : Db) :
    ∃ count after requeued failed,
      (reapExpired now locked).run db = .ok (count, after) ∧
        Reaps now locked db after requeued failed count ∧
        ∀ locked' : RunId → Bool, (∀ r, locked r = true → locked' r = true) →
          (reapExpired now locked').run after = .ok (0, after) := by
  obtain ⟨count, after, ran⟩ := reapExpired_returns now locked db
  obtain ⟨runs, approvals, schedules, total, toQueued, toFailed, written, reports, reports'⟩ :=
    reapExpired_writes ran
  have rows (r : RunId) : after.runs.find? r = (db.runs.find? r).map (reaped now locked) := by
    rw [runs, find?_swept]
  refine ⟨count, after, requeuedIds now locked db, failedIds now locked db, ran, ?_,
    fun locked' held => reapExpired_of_none fun run mem => ?_⟩
  · refine
      { statements := ⟨_, _, updateReturning_ok.mpr ⟨rfl, rfl⟩, updateReturning_ok.mpr ⟨rfl, rfl⟩⟩
        once := returned_once
        requeues := fun run mem late budget => ?_
        fails := fun run mem late used => ?_
        spares := fun run mem timely => ?_
        rows := by rw [runs, ids_swept]
        changed := ?_
        events := ⟨toQueued, toFailed, written, reports, reports', ?_⟩
        tables := ⟨approvals, schedules⟩ }
    · have there := Table.find?_of_mem mem
      have matched := (requeues_of_expired late).mpr budget
      refine ⟨mem_requeuedIds.mpr ⟨run, there, matched⟩, ?_⟩
      rw [rows, there, Option.map_some, reaped_of_budget late budget]
    · have there := Table.find?_of_mem mem
      have dead := (exhausts_of_expired late).mpr used
      refine ⟨mem_failedIds.mpr ⟨run, there, dead⟩, ?_⟩
      rw [rows, there, Option.map_some, reaped_of_used late used]
    · have there := Table.find?_of_mem mem
      have kept : after.runs.find? run.id = some run := by
        rw [rows, there, Option.map_some, reaped_of_timely timely]
      refine ⟨fun treated => find?_swept_ne_iff.mpr treated ?_, kept⟩
      rw [← runs, kept, there]
    · have all : {r | after.runs.find? r ≠ db.runs.find? r} =
          {r | r ∈ requeuedIds now locked db ++ failedIds now locked db} := by
        rw [runs]
        exact Set.ext fun r => find?_swept_ne_iff
      rw [all, ← List.coe_toFinset, Set.ncard_coe_finset,
        List.toFinset_card_of_nodup returned_once, total]
    · rw [total, List.length_append, List.length_append, ← reports.length_eq,
        ← reports'.length_eq]
  · obtain ⟨run', -, rfl⟩ := Option.map_eq_some_iff.mp
      ((rows run.id).symm.trans (Table.find?_of_mem mem))
    exact not_expired_reaped held run'

def leased (id : RunId) (attempts lease : Int) : Run :=
  { id := id, agent := ↑"digest", status := .running, attempts := attempts, maxAttempts := 2,
    availableAt := 0, createdAt := 0, lockedBy := some ↑"w1", leaseExpiresAt := some lease }

/-- One attempt is left, none is left, and a lease that ends at the instant itself. -/
def threeLeases : Db :=
  { Db.empty with
    runs := ((Table.empty.insert (leased ↑"a" 1 9) rfl).insert (leased ↑"b" 2 9) rfl).insert
      (leased ↑"c" 2 10) rfl }

example :
    ((reapExpired 10 fun _ => false).run threeLeases).toOption.map (fun p =>
      (p.1, p.2.runs.rows.map Run.status)) = some (2, [.queued, .failed, .running]) := by
  decide +kernel

end AgenticOctopus.Spine.Queue
