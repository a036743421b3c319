import AgenticOctopus.Spine.Effects

/-!
# What the reaper and the scheduler do

Both sweep a table in one transaction. On each run the reaper does one act, chosen by the
row it found, and the scheduler creates each of its runs once.
-/
namespace AgenticOctopus.Spine
open Foundation

namespace Queue

theorem updateReturning_ok {p : Run → Bool} {f : Table.Assignment Run.id} {db db' : Db}
    {ids : List RunId} :
    (updateReturning p f).run db = .ok (ids, db') ↔
      (db.runs.rows.filter p).map Run.id = ids ∧ db.setRuns p f = db' := by
  simp only [updateReturning, Txn.bind_ok, Txn.get_ok, Txn.pure_ok, updateRuns_ok]
  constructor
  · rintro ⟨_, _, ⟨rfl, rfl⟩, _, _, ⟨-, rfl⟩, rfl, rfl⟩
    exact ⟨rfl, rfl⟩
  · rintro ⟨rfl, rfl⟩
    exact ⟨db, db, ⟨rfl, rfl⟩, _, _, ⟨rfl, rfl⟩, rfl, rfl⟩

/-- The ids that an update returns are those of the rows it matched, each once. -/
theorem mem_returned {db : Db} {p : Run → Bool} {r : RunId} :
    r ∈ (db.runs.rows.filter p).map Run.id ↔ (db.runs.find? r).any p = true := by
  simp only [List.mem_map, List.mem_filter, Option.any_eq_true]
  constructor
  · rintro ⟨run, ⟨mem, matched⟩, rfl⟩
    exact ⟨run, Table.find?_of_mem mem, matched⟩
  · rintro ⟨run, there, matched⟩
    exact ⟨run, ⟨Table.mem_of_find? there, matched⟩, Table.key_of_find? there⟩

theorem returned_nodup (db : Db) (p : Run → Bool) :
    ((db.runs.rows.filter p).map Run.id).Nodup :=
  db.runs.distinct.sublist (List.filter_sublist.map Run.id)

theorem recordAll_of_not_mem {now : Time} {payload : Dict Text Json} {rids : List RunId}
    {db db' : Db} {x : Unit} (h : (recordAll now payload rids).run db = .ok (x, db')) {r : RunId}
    (absent : r ∉ rids) : db'.dossier r = db.dossier r := by
  induction rids generalizing db with
  | nil =>
    obtain ⟨-, rfl⟩ := Txn.pure_ok.mp h
    rfl
  | cons rid rids ih =>
    simp only [recordAll, Txn.bind_ok, recordEvent, insertEvent_ok] at h
    obtain ⟨_, _, ⟨-, rfl⟩, h⟩ := h
    obtain ⟨other, absent⟩ := List.ne_and_not_mem_of_not_mem_cons absent
    rw [ih h absent, event_of_ne other]

/-- One event for each listed run. -/
theorem recordAll_of_mem {now : Time} {payload : Dict Text Json} {rids : List RunId}
    {db db' : Db} {x : Unit} (h : (recordAll now payload rids).run db = .ok (x, db'))
    (nodup : rids.Nodup) {r : RunId} (there : r ∈ rids) :
    ∃ id, db'.dossier r =
      ⟨(db.dossier r).row, (db.dossier r).approvals,
        (db.dossier r).trail ++ [⟨id, r, now, .statusChange, payload⟩]⟩ := by
  induction rids generalizing db with
  | nil => cases there
  | cons rid rids ih =>
    simp only [recordAll, Txn.bind_ok, recordEvent, insertEvent_ok] at h
    obtain ⟨_, _, ⟨-, rfl⟩, h⟩ := h
    obtain ⟨absent, nodup⟩ := List.nodup_cons.mp nodup
    by_cases hr : r = rid
    · subst hr
      rw [recordAll_of_not_mem h absent, dossier_addEvent, if_pos rfl]
      exact ⟨_, rfl⟩
    · have rest := ih h nodup (List.mem_of_ne_of_mem hr there)
      rwa [event_of_ne hr] at rest

theorem reapPayload_records {ev : RunEvent} {b : RunStatus} (type : ev.type = .statusChange)
    (payload : ev.payload = reapPayload b) : ev.Records (some .running) b :=
  RunEvent.records_of type payload (by constructor <;> simp [Dict.get?])

/-- The second statement of the reaper matches no row that the first has requeued. -/
theorem exhausts_requeued (now : Time) (locked : RunId → Bool) (run : Run) :
    exhausts now locked (requeueSet.apply run) = false := by
  simp [exhausts, expired, requeueSet]

theorem requeues_iff {now : Time} {locked : RunId → Bool} {run : Run} :
    requeues now locked run = true ↔
      expired now run = true ∧ run.attempts < run.maxAttempts ∧ locked run.id = false := by
  simp [requeues, and_assoc]

theorem exhausts_iff {now : Time} {locked : RunId → Bool} {run : Run} :
    exhausts now locked run = true ↔
      expired now run = true ∧ run.maxAttempts ≤ run.attempts ∧ locked run.id = false := by
  simp [exhausts, and_assoc]

theorem row_setRuns (db : Db) (p : Run → Bool) (f : Table.Assignment Run.id) (r : RunId) :
    (db.setRuns p f).runs.find? r =
      (db.runs.find? r).map fun run => if p run then f.apply run else run := by
  rw [Db.setRuns, Table.find?_update]

/-- What the reaper makes of a row. -/
def reaped (now : Time) (locked : RunId → Bool) (run : Run) : Run :=
  if requeues now locked run then requeueSet.apply run
  else if exhausts now locked run then (deadSet now).apply run else run

theorem reaped_dossier (db : Db) (now : Time) (locked : RunId → Bool) (r : RunId) :
    ((db.setRuns (requeues now locked) requeueSet).setRuns (exhausts now locked)
        (deadSet now)).dossier r =
      ⟨(db.runs.find? r).map (reaped now locked), (db.dossier r).approvals,
        (db.dossier r).trail⟩ := by
  rw [dossier_setRuns, dossier_setRuns]
  refine Dossier.ext ?_ rfl rfl
  cases there : db.runs.find? r with
  | none => simp [Db.dossier, there]
  | some run =>
    by_cases hq : requeues now locked run = true <;>
      simp [Db.dossier, there, hq, exhausts_requeued, reaped]

/-- The reaper requeues a run whose lease has passed, fails it when its attempts are used up,
and leaves any other run alone. -/
theorem reapExpired_writes_dossier {now : Time} {locked : RunId → Bool} {db db' : Db} {n : Nat}
    (h : (reapExpired now locked).run db = .ok (n, db')) (r : RunId) :
    (∃ run id, db.runs.find? r = some run ∧ requeues now locked run = true ∧
        db'.dossier r = ⟨some (requeueSet.apply run), (db.dossier r).approvals,
          (db.dossier r).trail ++ [⟨id, r, now, .statusChange, reapPayload .queued⟩]⟩) ∨
      (∃ run id, db.runs.find? r = some run ∧ exhausts now locked run = true ∧
        db'.dossier r = ⟨some ((deadSet now).apply run), (db.dossier r).approvals,
          (db.dossier r).trail ++ [⟨id, r, now, .statusChange, reapPayload .failed⟩]⟩) ∨
      ((∀ run, db.runs.find? r = some run →
          requeues now locked run = false ∧ exhausts now locked run = false) ∧
        db'.dossier r = db.dossier r) := by
  simp only [reapExpired, Txn.bind_ok, updateReturning_ok, Txn.pure_ok] at h
  obtain ⟨_, _, ⟨rfl, rfl⟩, _, _, ⟨rfl, rfl⟩, _, mid, first, _, _, second, -, rfl⟩ := h
  have swept := reaped_dossier db now locked r
  cases there : db.runs.find? r with
  | none =>
    have not_first := recordAll_of_not_mem first (r := r)
      (by rw [mem_returned, there]; simp)
    have not_second := recordAll_of_not_mem second (r := r)
      (by rw [mem_returned, row_setRuns, there]; simp)
    refine .inr (.inr ⟨fun run hrun => (nomatch hrun), ?_⟩)
    rw [not_second, not_first, swept]
    exact Dossier.ext (by simp [Db.dossier, there]) rfl rfl
  | some run =>
    rw [there] at swept
    by_cases hq : requeues now locked run = true
    · obtain ⟨id, recorded⟩ := recordAll_of_mem first (returned_nodup _ _) (r := r)
        (by rw [mem_returned, there]; simpa using hq)
      have not_second := recordAll_of_not_mem second (r := r)
        (by rw [mem_returned, row_setRuns, there]; simp [hq, exhausts_requeued])
      refine .inl ⟨run, id, rfl, hq, ?_⟩
      rw [not_second, recorded, swept]
      simp only [Option.map_some, reaped, hq, if_true]
    · have not_first := recordAll_of_not_mem first (r := r)
        (by rw [mem_returned, there]; simpa using hq)
      by_cases hx : exhausts now locked run = true
      · obtain ⟨id, recorded⟩ := recordAll_of_mem second (returned_nodup _ _)
          (r := r) (by rw [mem_returned, row_setRuns, there]; simpa [hq] using hx)
        refine .inr (.inl ⟨run, id, rfl, hx, ?_⟩)
        rw [recorded, not_first, swept]
        simp only [Option.map_some, reaped, hq, hx, if_true, if_false, Bool.false_eq_true]
      · have not_second := recordAll_of_not_mem second (r := r)
          (by rw [mem_returned, row_setRuns, there]; simpa [hq] using hx)
        refine .inr (.inr ⟨?_, ?_⟩)
        · rintro _ ⟨⟩
          exact ⟨by simpa using hq, by simpa using hx⟩
        · rw [not_second, not_first, swept, dossier_of_find there]
          simp [reaped, hq, hx]

/-- Seen from one run, the reaper does at most one act. -/
theorem reapExpired_dossier {now : Time} {locked : RunId → Bool} {db db' : Db} {n : Nat}
    (h : (reapExpired now locked).run db = .ok (n, db')) (r : RunId) :
    (∃ run, db.runs.find? r = some run ∧ requeues now locked run = true ∧
        (db.dossier r).Advance r .requeue (db'.dossier r)) ∨
      (∃ run, db.runs.find? r = some run ∧ exhausts now locked run = true ∧
        (db.dossier r).Advance r .expire (db'.dossier r)) ∨
      ((∀ run, db.runs.find? r = some run →
          requeues now locked run = false ∧ exhausts now locked run = false) ∧
        db'.dossier r = db.dossier r) := by
  rcases reapExpired_writes_dossier h r with
    ⟨run, id, there, matched, after⟩ | ⟨run, id, there, matched, after⟩ | spared
  · obtain ⟨late, budget, -⟩ := requeues_iff.mp matched
    refine .inl ⟨run, there, matched, ?_⟩
    rw [after, dossier_of_find there]
    exact .requeue now late budget (reapPayload_records rfl rfl)
  · obtain ⟨late, exhausted, -⟩ := exhausts_iff.mp matched
    refine .inr (.inl ⟨run, there, matched, ?_⟩)
    rw [after, dossier_of_find there]
    exact .expire now late exhausted (reapPayload_records rfl rfl)
  · exact .inr (.inr spared)

theorem recordAll_returns (now : Time) (payload : Dict Text Json) {rids : List RunId} (db : Db)
    (known : ∀ r ∈ rids, db.runs.contains r = true) :
    ∃ db', (recordAll now payload rids).run db = .ok ((), db') ∧ db'.runs = db.runs := by
  induction rids generalizing db with
  | nil => exact ⟨db, rfl, rfl⟩
  | cons rid rids ih =>
    obtain ⟨db', rest, same⟩ := ih (db.addEvent now rid .statusChange payload)
      fun r hr => known r (List.mem_cons_of_mem _ hr)
    refine ⟨db', ?_, same⟩
    rw [recordAll, Txn.bind_ok]
    exact ⟨(), _, insertEvent_ok.mpr ⟨known rid List.mem_cons_self, rfl⟩, rest⟩

theorem contains_setRuns {db : Db} {p : Run → Bool} {f : Table.Assignment Run.id} {r : RunId} :
    (db.setRuns p f).runs.contains r = db.runs.contains r := by
  rw [Table.contains, row_setRuns, Option.isSome_map, Table.contains]

theorem contains_of_returned {db : Db} {p : Run → Bool} {r : RunId}
    (h : r ∈ (db.runs.rows.filter p).map Run.id) : db.runs.contains r = true := by
  obtain ⟨run, there, -⟩ := (Option.any_eq_true _ _).mp (mem_returned.mp h)
  simp [Table.contains, there]

/-- The reaper never raises. -/
theorem reapExpired_returns (now : Time) (locked : RunId → Bool) (db : Db) :
    ∃ n db', (reapExpired now locked).run db = .ok (n, db') := by
  have known_first : ∀ r ∈ (db.runs.rows.filter (requeues now locked)).map Run.id,
      ((db.setRuns (requeues now locked) requeueSet).setRuns (exhausts now locked)
        (deadSet now)).runs.contains r = true := by
    intro r hr
    rw [contains_setRuns, contains_setRuns]
    exact contains_of_returned hr
  obtain ⟨mid, first, same⟩ := recordAll_returns now (reapPayload .queued) _ known_first
  have known_second : ∀ r ∈ ((db.setRuns (requeues now locked) requeueSet).runs.rows.filter
      (exhausts now locked)).map Run.id, mid.runs.contains r = true := by
    intro r hr
    rw [same, contains_setRuns]
    exact contains_of_returned hr
  obtain ⟨db', second, -⟩ := recordAll_returns now (reapPayload .failed) _ known_second
  exact ⟨_, db', Txn.bind_ok.mpr ⟨_, _, updateReturning_ok.mpr ⟨rfl, rfl⟩,
    Txn.bind_ok.mpr ⟨_, _, updateReturning_ok.mpr ⟨rfl, rfl⟩,
      Txn.bind_ok.mpr ⟨_, _, first, Txn.bind_ok.mpr ⟨_, _, second, rfl⟩⟩⟩⟩⟩

end Queue

/-! ## Schedules -/

namespace Scheduler

variable {host : Host} {db db' : Db}

theorem updateSchedules_dossier {p : Schedule → Bool} {f : Table.Assignment Schedule.id} {n : Nat}
    (h : (updateSchedules p f).run db = .ok (n, db')) (r : RunId) :
    db'.dossier r = db.dossier r := by
  obtain ⟨-, rfl⟩ := updateSchedules_ok.mp h
  exact dossier_congr rfl rfl rfl r

theorem insertSchedule_dossier {s : Schedule} {x : Unit}
    (h : (insertSchedule s).run db = .ok (x, db')) (r : RunId) :
    db'.dossier r = db.dossier r := by
  obtain ⟨fresh, rfl⟩ := insertSchedule_ok h
  exact dossier_congr rfl rfl rfl r

theorem computeNext_ok {clock next : Time} {cronExpr timezone : Text}
    (h : (computeNext host clock cronExpr timezone).run db = .ok (next, db')) :
    host.getNext cronExpr timezone clock = some next ∧ db' = db := by
  rw [computeNext] at h
  cases answer : host.getNext cronExpr timezone clock with
  | none =>
    rw [answer] at h
    exact (Txn.throw_ok.mp h).elim
  | some t =>
    rw [answer] at h
    obtain ⟨rfl, rfl⟩ := Txn.pure_ok.mp h
    exact ⟨rfl, rfl⟩

theorem fire_acts {now clock : Time} {runId : RunId} {s : Schedule} {x : Unit}
    (h : (fire host now clock runId s).run db = .ok (x, db')) :
    db.Acts db' runId .enqueue := by
  simp only [fire, Txn.bind_ok, Txn.pure_ok] at h
  obtain ⟨_, _, inserted, _, mid, recorded, next, _, computed, _, _, updated, -, rfl⟩ := h
  obtain ⟨-, rfl⟩ := computeNext_ok computed
  have untouched := updateSchedules_dossier updated
  obtain ⟨created, others⟩ := Queue.insert_acts ⟨_, _, _, _, _, _, rfl⟩ inserted recorded
    (by constructor <;> simp [Dict.get?])
  exact ⟨by rw [untouched]; exact created, fun r hr => by rw [untouched, others r hr]⟩

/-- Each run that the scheduler creates is created once: an id that is taken makes the
insert raise. -/
theorem fireAll_dossier {now : Time} {clocks : Nat → Time} {ids : Nat → RunId}
    {due : List Schedule} {n : Nat}
    (h : (fireAll host now clocks ids due).run db = .ok (n, db')) (r : RunId) :
    db'.dossier r = db.dossier r ∨ (db.dossier r).Advance r .enqueue (db'.dossier r) := by
  induction due generalizing db clocks ids n with
  | nil =>
    obtain ⟨-, rfl⟩ := Txn.pure_ok.mp h
    exact .inl rfl
  | cons s rest ih =>
    simp only [fireAll, Txn.bind_ok, Txn.pure_ok] at h
    obtain ⟨_, mid, fired, _, _, others, -, rfl⟩ := h
    obtain ⟨created, same⟩ := fire_acts fired
    have later := ih others
    by_cases hr : r = ids 0
    · subst hr
      rcases later with later | again
      · exact .inr (by rw [later]; exact created)
      · exact (created.row_ne_none again.row_of_enqueue).elim
    · rwa [same r hr] at later

theorem tick_dossier {now : Time} {clocks : Nat → Time} {locked : ScheduleId → Bool}
    {ids : Nat → RunId} {n : Nat}
    (h : (tick host now clocks locked ids).run db = .ok (n, db')) (r : RunId) :
    db'.dossier r = db.dossier r ∨ (db.dossier r).Advance r .enqueue (db'.dossier r) := by
  simp only [tick, Txn.bind_ok, Txn.get_ok] at h
  obtain ⟨_, _, ⟨rfl, rfl⟩, h⟩ := h
  exact fireAll_dossier h r

/-! ### The operator's operations -/

/-- Schedules are switched on or off, or one is added that has not fired. -/
inductive Edits (host : Host) (before : Db) : Db → Prop where
  | nothing : Edits host before before
  | switch {after p f} {n : Nat} (switches : ∀ row, ∃ enabled,
        (f : Table.Assignment Schedule.id).apply row = { row with enabled := enabled })
      (updated : (updateSchedules p f).run before = .ok (n, after)) : Edits host before after
  | add {after row x} {clock : Time}
      (computed : host.getNext row.cronExpr row.timezone clock = some row.nextRunAt)
      (unfired : row.lastRunId = none)
      (inserted : (insertSchedule row).run before = .ok (x, after)) : Edits host before after

theorem Edits.dossier (edits : Edits host db db') (r : RunId) : db'.dossier r = db.dossier r := by
  cases edits with
  | nothing => rfl
  | switch _ updated => exact updateSchedules_dossier updated r
  | add _ _ inserted => exact insertSchedule_dossier inserted r

theorem insertOrNothing_edits {row : Schedule} {n : Nat} {clock : Time}
    (computed : host.getNext row.cronExpr row.timezone clock = some row.nextRunAt)
    (unfired : row.lastRunId = none) (h : (insertOrNothing row).run db = .ok (n, db')) :
    Edits host db db' := by
  simp only [insertOrNothing, Txn.bind_ok, Txn.get_ok] at h
  obtain ⟨_, _, ⟨rfl, rfl⟩, h⟩ := h
  split_ifs at h with taken
  · obtain ⟨-, rfl⟩ := Txn.pure_ok.mp h
    exact .nothing
  · obtain ⟨_, _, inserted, h⟩ := Txn.bind_ok.mp h
    obtain ⟨-, rfl⟩ := Txn.pure_ok.mp h
    exact .add computed unfired inserted

theorem syncEntry_edits {now clock : Time} {id : ScheduleId} {name : Text} {agent : LoadedAgent}
    {created : List Text}
    (h : (syncEntry host now clock id name agent).run db = .ok (created, db')) :
    Edits host db db' := by
  rw [syncEntry] at h
  cases expr : agent.manifest.schedule with
  | none =>
    rw [expr] at h
    obtain ⟨-, rfl⟩ := Txn.pure_ok.mp h
    exact .nothing
  | some cronExpr =>
    rw [expr] at h
    dsimp only at h
    split_ifs at h with empty
    · obtain ⟨-, rfl⟩ := Txn.pure_ok.mp h
      exact .nothing
    · simp only [Txn.bind_ok, Txn.pure_ok] at h
      obtain ⟨_, _, computed, _, _, inserted, -, rfl⟩ := h
      obtain ⟨answer, rfl⟩ := computeNext_ok computed
      exact insertOrNothing_edits answer rfl inserted

/-- What every edit keeps, the whole synchronisation keeps. -/
theorem syncFromRegistry_induction {R : Db → Db → Prop} (refl : ∀ db, R db db)
    (trans : ∀ {db mid db'}, R db mid → R mid db' → R db db')
    (edits : ∀ {db db'}, Edits host db db' → R db db') {now : Time} {clocks : Nat → Time}
    {ids : Nat → ScheduleId} {registry : Registry} {created : List Text}
    (h : (syncFromRegistry host now clocks ids registry).run db = .ok (created, db')) :
    R db db' := by
  induction registry generalizing db clocks ids created with
  | nil =>
    obtain ⟨-, rfl⟩ := Txn.pure_ok.mp h
    exact refl _
  | cons entry rest ih =>
    simp only [syncFromRegistry, Txn.bind_ok, Txn.pure_ok] at h
    obtain ⟨_, _, one, _, _, others, -, rfl⟩ := h
    exact trans (edits (syncEntry_edits one)) (ih others)

theorem syncFromRegistry_dossier {now : Time} {clocks : Nat → Time} {ids : Nat → ScheduleId}
    {registry : Registry} {created : List Text}
    (h : (syncFromRegistry host now clocks ids registry).run db = .ok (created, db'))
    (r : RunId) : db'.dossier r = db.dossier r :=
  syncFromRegistry_induction (R := fun db db' => db'.dossier r = db.dossier r) (fun _ => rfl)
    (fun first second => second.trans first) (fun edits => edits.dossier r) h

/-- The row that the new one would repeat is switched on, or else the new one is added. -/
theorem createSchedule_ok {now clock : Time} {registry : Registry} {id x : ScheduleId}
    {agent cronExpr timezone : Text} {params : Dict Text Json}
    (h : (createSchedule host now clock registry id agent cronExpr timezone params).run db =
      .ok (x, db')) :
    (∃ old n, db.schedules.rows.find? (sameSchedule agent cronExpr) = some old ∧ x = old.id ∧
        (updateSchedules (fun t => decide (t.id = old.id)) enableSet).run db = .ok (n, db')) ∨
      ∃ next, db.schedules.rows.find? (sameSchedule agent cronExpr) = none ∧ x = id ∧
        host.getNext cronExpr timezone clock = some next ∧
        (insertSchedule
          { id := id, agent := agent, cronExpr := cronExpr, timezone := timezone,
            params := params, nextRunAt := next, createdAt := now }).run db = .ok ((), db') := by
  rw [createSchedule] at h
  split_ifs at h with unknown invalid
  · exact (Txn.throw_ok.mp h).elim
  · exact (Txn.throw_ok.mp h).elim
  simp only [Txn.bind_ok, Txn.get_ok] at h
  obtain ⟨next, _, computed, _, _, ⟨rfl, rfl⟩, h⟩ := h
  obtain ⟨answer, rfl⟩ := computeNext_ok computed
  split at h
  next old found =>
    simp only [Txn.bind_ok, Txn.pure_ok] at h
    obtain ⟨n, _, updated, rfl, rfl⟩ := h
    exact .inl ⟨old, n, found, rfl, updated⟩
  next none =>
    simp only [Txn.bind_ok, Txn.pure_ok] at h
    obtain ⟨_, _, inserted, rfl, rfl⟩ := h
    exact .inr ⟨next, none, rfl, answer, inserted⟩

theorem createSchedule_edits {now clock : Time} {registry : Registry} {id x : ScheduleId}
    {agent cronExpr timezone : Text} {params : Dict Text Json}
    (h : (createSchedule host now clock registry id agent cronExpr timezone params).run db =
      .ok (x, db')) : Edits host db db' := by
  rcases createSchedule_ok h with ⟨_, _, -, -, updated⟩ | ⟨_, -, -, computed, inserted⟩
  · exact .switch (fun row => ⟨true, rfl⟩) updated
  · exact .add computed rfl inserted

theorem toggleSchedule_ok {scheduleId : ScheduleId} {x : Bool}
    (h : (toggleSchedule scheduleId).run db = .ok (x, db')) :
    ∃ old n, db.schedules.find? scheduleId = some old ∧ x = !old.enabled ∧
      (updateSchedules (fun t => decide (t.id = scheduleId)) toggleSet).run db = .ok (n, db') := by
  simp only [toggleSchedule, Txn.bind_ok, Txn.get_ok] at h
  obtain ⟨_, _, ⟨rfl, rfl⟩, h⟩ := h
  split at h
  next => exact (Txn.throw_ok.mp h).elim
  next old found =>
    simp only [Txn.bind_ok, Txn.pure_ok] at h
    obtain ⟨n, _, updated, rfl, rfl⟩ := h
    exact ⟨old, n, found, rfl, updated⟩

end Scheduler

end AgenticOctopus.Spine
