import AgenticOctopus.Spine.Sweeps

/-!
# What a tick does

A tick that returns has fired each of its schedules: one run for it, and its next instant
moved. It is one transaction, so a schedule whose next instant cannot be computed undoes the
firings of all the others.
-/
namespace AgenticOctopus.Spine.Scheduler
open Foundation

/-- One schedule's turn in a tick. -/
structure Firing where
  /-- The row as the tick read it. -/
  schedule : Schedule
  runId : RunId
  now : Time
  clock : Time
  next : Time

namespace Firing

def run (f : Firing) : Run :=
  { id := f.runId, agent := f.schedule.agent, trigger := .schedule, params := f.schedule.params,
    scheduleId := some f.schedule.id, availableAt := f.now, createdAt := f.now }

def assignment (f : Firing) : Table.Assignment Schedule.id := firedSet f.now f.next f.runId

def scheduleId (f : Firing) : ScheduleId := f.schedule.id

@[simp] theorem scheduleId_run (f : Firing) : f.run.scheduleId = some f.scheduleId := rfl

end Firing

/-- The firings of a tick, unless one of the next instants cannot be computed. -/
def firings (host : Host) (now : Time) (clocks : Nat → Time) (ids : Nat → RunId) :
    List Schedule → Option (List Firing)
  | [] => some []
  | s :: rest => do
    let next ← host.getNext s.cronExpr s.timezone (clocks 0)
    let later ← firings host now (fun n => clocks (n + 1)) (fun n => ids (n + 1)) rest
    return ⟨s, ids 0, now, clocks 0, next⟩ :: later

/-- The database after these firings. -/
structure Fires (fs : List Firing) (db db' : Db) : Prop where
  runs : db'.runs.rows = db.runs.rows ++ fs.map Firing.run
  fired : ∀ f ∈ fs, db'.schedules.find? f.scheduleId =
    (db.schedules.find? f.scheduleId).map f.assignment.apply
  others : ∀ id, (∀ f ∈ fs, f.scheduleId ≠ id) →
    db'.schedules.find? id = db.schedules.find? id

/-- The next instant is later than the clock. -/
def Strict (host : Host) : Prop :=
  ∀ expr tz t next, host.getNext expr tz t = some next → t < next

variable {host : Host} {db db' : Db} {now : Time}

theorem fire_ok {clock : Time} {runId : RunId} {s : Schedule} {x : Unit}
    (h : (fire host now clock runId s).run db = .ok (x, db')) :
    ∃ next, host.getNext s.cronExpr s.timezone clock = some next ∧
      db.runs.find? runId = none ∧ Fires [⟨s, runId, now, clock, next⟩] db db' := by
  simp only [fire, Txn.bind_ok, Txn.pure_ok] at h
  obtain ⟨_, _, inserted, _, mid, recorded, next, _, computed, _, _, updated, -, rfl⟩ := h
  obtain ⟨answer, rfl⟩ := computeNext_ok computed
  obtain ⟨fresh, rfl⟩ := insertRun_ok inserted
  obtain ⟨-, rfl⟩ := insertEvent_ok.mp recorded
  obtain ⟨-, rfl⟩ := updateSchedules_ok.mp updated
  refine ⟨next, answer, fresh, rfl, fun f mem => ?_, fun id apart => ?_⟩
  · rw [List.mem_singleton.mp mem]
    exact (Table.find?_update_key ..).trans (if_pos rfl)
  · exact (Table.find?_update_key ..).trans (if_neg (apart _ List.mem_cons_self).symm)

theorem Fires.append {fs gs : List Firing} {mid : Db} (first : Fires fs db mid)
    (rest : Fires gs mid db')
    (apart : ∀ f ∈ fs, ∀ g ∈ gs, f.scheduleId ≠ g.scheduleId) : Fires (fs ++ gs) db db' where
  runs := by rw [rest.runs, first.runs, List.map_append, List.append_assoc]
  fired f mem := by
    rcases List.mem_append.mp mem with mem | mem
    · rw [rest.others _ fun g h => (apart f mem g h).symm, first.fired f mem]
    · rw [rest.fired f mem, first.others _ fun g h => apart g h f mem]
  others id none_of := by
    rw [rest.others id fun g h => none_of g (List.mem_append_right fs h),
      first.others id fun f h => none_of f (List.mem_append_left gs h)]

theorem Fires.find?_run {fs : List Firing} (fires : Fires fs db db') {r : RunId} {run : Run} :
    db'.runs.find? r = some run ↔
      db.runs.find? r = some run ∨ ∃ f ∈ fs, f.run = run ∧ f.runId = r := by
  rw [Table.find?_eq_some, Table.find?_eq_some, Table.mem_def, Table.mem_def, fires.runs,
    List.mem_append, List.mem_map, or_and_right]
  refine or_congr_right ⟨?_, ?_⟩
  · rintro ⟨⟨f, mem, rfl⟩, rfl⟩
    exact ⟨f, mem, rfl, rfl⟩
  · rintro ⟨f, mem, rfl, rfl⟩
    exact ⟨⟨f, mem, rfl⟩, rfl⟩

/-- The run ids of the firings are new, and no two are the same. -/
theorem Fires.fresh {fs : List Firing} (fires : Fires fs db db') :
    (fs.map Firing.runId).Nodup ∧ ∀ f ∈ fs, db.runs.find? f.runId = none := by
  have distinct := db'.runs.distinct
  rw [fires.runs, List.map_append, List.nodup_append, List.map_map] at distinct
  refine ⟨distinct.2.1, fun f mem => Table.find?_eq_none.mpr fun run there same => ?_⟩
  exact distinct.2.2 _ (List.mem_map_of_mem there) _ (List.mem_map_of_mem mem) same

theorem firings_schedules {clocks : Nat → Time} {ids : Nat → RunId} {due : List Schedule}
    {fs : List Firing} (h : firings host now clocks ids due = some fs) :
    fs.map Firing.schedule = due := by
  induction due generalizing clocks ids fs with
  | nil => cases h; rfl
  | cons s rest ih =>
    simp only [firings, Option.bind_eq_bind, Option.bind_eq_some_iff] at h
    obtain ⟨next, -, later, rest_fires, is⟩ := h
    cases is
    rw [List.map_cons, ih rest_fires]

/-- A tick that returns fires its schedules, each of which has a next instant. -/
theorem fireAll_ok {clocks : Nat → Time} {ids : Nat → RunId} {due : List Schedule} {n : Nat}
    (distinct : (due.map Schedule.id).Nodup)
    (h : (fireAll host now clocks ids due).run db = .ok (n, db')) :
    ∃ fs, firings host now clocks ids due = some fs ∧ Fires fs db db' ∧ n = due.length := by
  induction due generalizing db clocks ids n with
  | nil =>
    obtain ⟨rfl, rfl⟩ := Txn.pure_ok.mp h
    exact ⟨[], rfl, ⟨by simp, fun f mem => absurd mem List.not_mem_nil, fun _ _ => rfl⟩, rfl⟩
  | cons s rest ih =>
    rw [List.map_cons, List.nodup_cons] at distinct
    simp only [fireAll, Txn.bind_ok, Txn.pure_ok] at h
    obtain ⟨_, mid, fired, _, _, others, rfl, rfl⟩ := h
    obtain ⟨next, answer, -, fires⟩ := fire_ok fired
    obtain ⟨later, rest_fires, fires_rest, rfl⟩ := ih distinct.2 others
    refine ⟨⟨s, ids 0, now, clocks 0, next⟩ :: later, ?_, fires.append fires_rest ?_, rfl⟩
    · simp [firings, answer, rest_fires]
    · intro f mem g mem_g same
      rw [List.mem_singleton.mp mem] at same
      apply distinct.1
      rw [← firings_schedules rest_fires, List.map_map]
      exact List.mem_map.mpr ⟨g, mem_g, same.symm⟩

theorem fires_of_fireAll {clocks : Nat → Time} {ids : Nat → RunId} {due : List Schedule} {n : Nat}
    {fs : List Firing} (distinct : (due.map Schedule.id).Nodup)
    (computed : firings host now clocks ids due = some fs)
    (h : (fireAll host now clocks ids due).run db = .ok (n, db')) : Fires fs db db' := by
  obtain ⟨fs', computed', fires, -⟩ := fireAll_ok distinct h
  cases computed.symm.trans computed'
  exact fires

/-! ## Ticks that return -/

/-- Fresh ids for the runs: none is taken, and no two are the same. -/
structure FreshIds (db : Db) (ids : Nat → RunId) : Prop where
  free : ∀ i, db.runs.find? (ids i) = none
  distinct : Function.Injective ids

theorem fire_returns {clock next : Time} {runId : RunId} {s : Schedule}
    (answer : host.getNext s.cronExpr s.timezone clock = some next)
    (free : db.runs.find? runId = none) (there : db.schedules.contains s.id = true) :
    ∃ db', (fire host now clock runId s).run db = .ok ((), db') := by
  let run : Run :=
    { id := runId, agent := s.agent, trigger := .schedule, params := s.params,
      scheduleId := some s.id, availableAt := now, createdAt := now }
  have inserted : (insertRun run).run db = .ok ((), db.addRun run free) := by
    refine Txn.bind_ok.mpr ⟨db, db, Txn.get_ok.mpr ⟨rfl, rfl⟩, ?_⟩
    rw [if_neg (by simp [run, there]), dif_pos free]
    exact Txn.set_ok.mpr rfl
  have known : (db.addRun run free).runs.contains runId = true := by
    rw [Table.contains, Db.addRun, Table.find?_insert, if_pos rfl]
    rfl
  let payload := statusChange none .queued [(↑"trigger", .str ↑"schedule")]
  let mid := (db.addRun run free).addEvent now runId .statusChange payload
  have recorded : (insertEvent now runId .statusChange payload).run (db.addRun run free) =
      .ok ((), mid) := insertEvent_ok.mpr ⟨known, rfl⟩
  have computed : (computeNext host clock s.cronExpr s.timezone).run mid = .ok (next, mid) := by
    rw [computeNext, answer]
    rfl
  refine ⟨{ mid with
    schedules := mid.schedules.update (fun t => decide (t.id = s.id)) (firedSet now next runId) },
    ?_⟩
  unfold fire
  rw [Txn.run_bind_of_ok inserted, Txn.run_bind_of_ok recorded, Txn.run_bind_of_ok computed]
  exact Txn.run_bind_of_ok (updateSchedules_ok.mpr ⟨rfl, rfl⟩)

theorem fireAll_returns {clocks : Nat → Time} {ids : Nat → RunId} {due : List Schedule}
    {fs : List Firing} (computes : firings host now clocks ids due = some fs)
    (fresh : FreshIds db ids) (there : ∀ s ∈ due, db.schedules.contains s.id = true) :
    ∃ db', (fireAll host now clocks ids due).run db = .ok (due.length, db') := by
  induction due generalizing db clocks ids fs with
  | nil => exact ⟨db, rfl⟩
  | cons s rest ih =>
    simp only [firings, Option.bind_eq_bind, Option.bind_eq_some_iff] at computes
    obtain ⟨next, answer, later, rest_computes, -⟩ := computes
    obtain ⟨mid, fired⟩ := fire_returns answer (fresh.free 0)
      (there s List.mem_cons_self)
    obtain ⟨next', -, -, fires⟩ := fire_ok fired
    have still_fresh : FreshIds mid fun n => ids (n + 1) := by
      refine ⟨fun i => ?_, fun i j same => ?_⟩
      · rw [Table.find?, fires.runs, List.find?_append, ← Table.find?, fresh.free]
        have other : ids 0 ≠ ids (i + 1) := fun same => by cases fresh.distinct same
        simp [Firing.run, other]
      · simpa using fresh.distinct same
    have still_there : ∀ t ∈ rest, mid.schedules.contains t.id = true := by
      intro t mem
      have before := there t (List.mem_cons_of_mem s mem)
      rw [Table.contains] at before ⊢
      by_cases same : s.id = t.id
      · have after := fires.fired _ List.mem_cons_self
        rw [Firing.scheduleId] at after
        rw [← same] at before ⊢
        rw [after, Option.isSome_map, before]
      · rw [fires.others t.id fun f mem_f => by rw [List.mem_singleton.mp mem_f]; exact same]
        exact before
    obtain ⟨db', others⟩ := ih rest_computes still_fresh still_there
    exact ⟨db', Txn.bind_ok.mpr ⟨_, _, fired, Txn.bind_ok.mpr ⟨_, _, others,
      Txn.pure_ok.mpr ⟨rfl, rfl⟩⟩⟩⟩

theorem mem_firings {clocks : Nat → Time} {ids : Nat → RunId} {due : List Schedule}
    {fs : List Firing} (h : firings host now clocks ids due = some fs) {f : Firing} (mem : f ∈ fs) :
    host.getNext f.schedule.cronExpr f.schedule.timezone f.clock = some f.next ∧ f.now = now ∧
      ∃ i, f.clock = clocks i := by
  induction due generalizing clocks ids fs with
  | nil =>
    cases h
    exact absurd mem List.not_mem_nil
  | cons s rest ih =>
    simp only [firings, Option.bind_eq_bind, Option.bind_eq_some_iff] at h
    obtain ⟨next, answer, later, rest_computes, is⟩ := h
    cases is
    rcases List.mem_cons.mp mem with rfl | mem
    · exact ⟨answer, rfl, 0, rfl⟩
    · obtain ⟨answers, at_now, i, clock⟩ := ih rest_computes mem
      exact ⟨answers, at_now, i + 1, clock⟩

/-! ## Runs of a schedule -/

def runsOf (id : ScheduleId) (db : Db) : List Run :=
  db.runs.rows.filter fun run => run.scheduleId = some id

theorem Fires.runsOf {fs : List Firing} (fires : Fires fs db db') (id : ScheduleId) :
    runsOf id db' = runsOf id db ++ (fs.filter fun f => f.scheduleId = id).map Firing.run := by
  have same : ((fun run : Run => decide (run.scheduleId = some id)) ∘ Firing.run) =
      fun f => decide (f.scheduleId = id) := by
    funext f
    simp
  rw [Scheduler.runsOf, Scheduler.runsOf, fires.runs, List.filter_append, List.filter_map, same]

theorem filter_scheduleId {fs : List Firing} (distinct : (fs.map Firing.scheduleId).Nodup)
    {f : Firing} (mem : f ∈ fs) : (fs.filter fun g => g.scheduleId = f.scheduleId) = [f] := by
  induction fs with
  | nil => exact absurd mem List.not_mem_nil
  | cons g fs ih =>
    rw [List.map_cons, List.nodup_cons] at distinct
    rcases List.mem_cons.mp mem with rfl | mem
    · have rest : (fs.filter fun g => decide (g.scheduleId = f.scheduleId)) = [] := by
        refine List.filter_eq_nil_iff.mpr fun g mem_g => ?_
        simp only [decide_eq_true_eq]
        intro same
        exact distinct.1 (List.mem_map.mpr ⟨g, mem_g, same⟩)
      rw [List.filter_cons_of_pos (by simp), rest]
    · have apart : g.scheduleId ≠ f.scheduleId := by
        intro same
        exact distinct.1 (same ▸ List.mem_map_of_mem mem)
      rw [List.filter_cons_of_neg (by simpa using apart), ih distinct.2 mem]

/-! ## One bad schedule -/

/-- The due rows, in the order in which a tick that finds none of them locked fires them. -/
def dueRows (now : Time) (db : Db) : List Schedule :=
  db.schedules.rows.filter (due now fun _ => false)

/-- `compute_next` returns for the `p.2`th of the due rows. -/
def computes (host : Host) (clocks : Nat → Time) (p : Schedule × Nat) : Bool :=
  (host.getNext p.1.cronExpr p.1.timezone (clocks p.2)).isSome

/-- A tick that holds all rows enqueues one run for each due schedule whose next instant can be
computed, moves its next instant past the `now` that `compute_next` read, and counts it. -/
def GoodOnesFire (host : Host) (now : Time) (clocks : Nat → Time) (ids : Nat → RunId) (db : Db) :
    Prop :=
  ∀ p ∈ (dueRows now db).zipIdx, computes host clocks p = true →
    ∃ db', (tick host now clocks (fun _ => false) ids).commit db =
        (.ok ((dueRows now db).zipIdx.countP (computes host clocks)), db') ∧
      (∃ run, runsOf p.1.id db' = runsOf p.1.id db ++ [run]) ∧
      ∃ row, db'.schedules.find? p.1.id = some row ∧ clocks p.2 < row.nextRunAt

theorem firings_isSome (clocks : Nat → Time) (ids : Nat → RunId) (due : List Schedule) (k : Nat) :
    (firings host now (fun n => clocks (n + k)) ids due).isSome = true ↔
      ∀ p ∈ due.zipIdx k, computes host clocks p = true := by
  induction due generalizing k ids with
  | nil => simp [firings]
  | cons s rest ih =>
    have shift : (fun n => clocks (n + 1 + k)) = fun n => clocks (n + (k + 1)) := by
      funext n
      congr 1
      omega
    rw [List.zipIdx_cons, List.forall_mem_cons, ← ih (fun n => ids (n + 1)) (k + 1),
      firings, shift]
    simp only [computes, Nat.zero_add]
    cases host.getNext s.cronExpr s.timezone (clocks k) with
    | none => simp
    | some next =>
      cases firings host now (fun n => clocks (n + (k + 1))) (fun n => ids (n + 1)) rest <;> simp

theorem firings_of_mem_zipIdx {clocks : Nat → Time} {ids : Nat → RunId} {due : List Schedule}
    {fs : List Firing} {k : Nat}
    (h : firings host now (fun n => clocks (n + k)) ids due = some fs) {p : Schedule × Nat}
    (mem : p ∈ due.zipIdx k) :
    ∃ f ∈ fs, f.schedule = p.1 ∧ f.clock = clocks p.2 := by
  induction due generalizing k ids fs with
  | nil => exact absurd mem List.not_mem_nil
  | cons s rest ih =>
    simp only [firings, Option.bind_eq_bind, Option.bind_eq_some_iff] at h
    obtain ⟨next, -, later, rest_fires, is⟩ := h
    cases is
    rw [List.zipIdx_cons] at mem
    rcases List.mem_cons.mp mem with rfl | mem
    · exact ⟨_, List.mem_cons_self, rfl, by simp⟩
    · have shift : (fun n => clocks (n + 1 + k)) = fun n => clocks (n + (k + 1)) := by
        funext n
        congr 1
        omega
      rw [shift] at rest_fires
      obtain ⟨f, mem_f, of⟩ := ih rest_fires mem
      exact ⟨f, List.mem_cons_of_mem _ mem_f, of⟩

theorem tick_eq {clocks : Nat → Time} {ids : Nat → RunId} (db : Db) :
    (tick host now clocks (fun _ => false) ids).run db =
      (fireAll host now clocks ids (dueRows now db)).run db := rfl

theorem dueRows_distinct (now : Time) (db : Db) : ((dueRows now db).map Schedule.id).Nodup :=
  db.schedules.distinct.sublist (List.filter_sublist.map Schedule.id)

theorem mem_of_mem_dueRows {s : Schedule} (mem : s ∈ dueRows now db) : s ∈ db.schedules :=
  Table.mem_def.mpr (List.mem_of_mem_filter mem)

/-- A tick whose due schedules all have a next instant fires them all. -/
theorem tick_returns {clocks : Nat → Time} {ids : Nat → RunId} (fresh : FreshIds db ids)
    (all : ∀ p ∈ (dueRows now db).zipIdx, computes host clocks p = true) :
    ∃ fs db', firings host now clocks ids (dueRows now db) = some fs ∧ Fires fs db db' ∧
      (tick host now clocks (fun _ => false) ids).commit db =
        (.ok (dueRows now db).length, db') := by
  obtain ⟨fs, computed⟩ := Option.isSome_iff_exists.mp
    ((firings_isSome clocks ids (dueRows now db) 0).mpr all)
  have there : ∀ s ∈ dueRows now db, db.schedules.contains s.id = true := by
    intro s mem
    rw [Table.contains, Table.find?_of_mem (mem_of_mem_dueRows mem)]
    rfl
  obtain ⟨db', returned⟩ := fireAll_returns computed fresh there
  have fires := fires_of_fireAll (dueRows_distinct now db) computed returned
  exact ⟨fs, db', computed, fires, Txn.commit_ok returned⟩

/-- One due schedule without a next instant, and the tick leaves no trace. -/
theorem tick_blocked {clocks : Nat → Time} (ids : Nat → RunId) {p : Schedule × Nat}
    (mem : p ∈ (dueRows now db).zipIdx) (bad : computes host clocks p = false) :
    ∃ e, (tick host now clocks (fun _ => false) ids).commit db = (.error e, db) := by
  rcases Txn.commit_cases (tick host now clocks (fun _ => false) ids) db with
    ⟨e, -, raised⟩ | ⟨n, db', returned, -⟩
  · exact ⟨e, raised⟩
  · rw [tick_eq] at returned
    obtain ⟨fs, computed, -⟩ := fireAll_ok (dueRows_distinct now db) returned
    have all := (firings_isSome clocks ids (dueRows now db) 0).mp
      (Option.isSome_iff_exists.mpr ⟨fs, computed⟩) p mem
    rw [bad] at all
    cases all

/-- The tick after a blocked one finds the same rows: as long as the bad schedule is due and has
no next instant, no schedule fires. -/
theorem ticks_blocked {ticks : List (Time × (Nat → Time) × (Nat → RunId))}
    (blocked : ∀ t ∈ ticks, ∃ p ∈ (dueRows t.1 db).zipIdx, computes host t.2.1 p = false) :
    ticks.foldl (fun db t => (tick host t.1 t.2.1 (fun _ => false) t.2.2).after db) db = db := by
  induction ticks with
  | nil => rfl
  | cons t ticks ih =>
    obtain ⟨p, mem, bad⟩ := blocked t List.mem_cons_self
    obtain ⟨e, raised⟩ := tick_blocked t.2.2 mem bad
    rw [List.foldl_cons, Txn.after, raised]
    exact ih fun t' mem' => blocked t' (List.mem_cons_of_mem t mem')

theorem countP_computes {clocks : Nat → Time}
    (all : ∀ p ∈ (dueRows now db).zipIdx, computes host clocks p = true) :
    (dueRows now db).zipIdx.countP (computes host clocks) = (dueRows now db).length := by
  rw [List.countP_eq_length.mpr all, List.length_zipIdx]

theorem goodOnesFire_of_all {clocks : Nat → Time} {ids : Nat → RunId}
    (strict : Strict host) (fresh : FreshIds db ids)
    (all : ∀ p ∈ (dueRows now db).zipIdx, computes host clocks p = true) :
    GoodOnesFire host now clocks ids db := by
  intro p mem _
  obtain ⟨fs, db', computed, fires, committed⟩ := tick_returns fresh all
  refine ⟨db', by rw [countP_computes all]; exact committed, ?_, ?_⟩
  all_goals obtain ⟨f, mem_f, is, clock⟩ := firings_of_mem_zipIdx (k := 0) computed mem
  · have distinct : (fs.map Firing.scheduleId).Nodup := by
      have ids_of : fs.map Firing.scheduleId = (dueRows now db).map Schedule.id := by
        rw [← firings_schedules computed, List.map_map]
        rfl
      rw [ids_of]
      exact dueRows_distinct now db
    have own : f.scheduleId = p.1.id := congrArg Schedule.id is
    refine ⟨f.run, ?_⟩
    rw [fires.runsOf, ← own, filter_scheduleId distinct mem_f]
    rfl
  · have row : db.schedules.find? p.1.id = some p.1 :=
      Table.find?_of_mem (mem_of_mem_dueRows (List.fst_mem_of_mem_zipIdx mem))
    have moved := fires.fired f mem_f
    rw [Firing.scheduleId, is, row] at moved
    refine ⟨_, moved, ?_⟩
    rw [← clock]
    exact strict _ _ _ _ (mem_firings computed mem_f).1

/-- The good schedules fire if and only if there is no bad one among the due ones, or no good
one. -/
theorem goodOnesFire_iff (host : Host) (now : Time) (clocks : Nat → Time) (ids : Nat → RunId)
    (db : Db) (strict : Strict host) (fresh : FreshIds db ids) :
    GoodOnesFire host now clocks ids db ↔
      (∀ p ∈ (dueRows now db).zipIdx, computes host clocks p = true) ∨
        ∀ p ∈ (dueRows now db).zipIdx, computes host clocks p = false := by
  constructor
  · intro good
    by_contra mixed
    push Not at mixed
    obtain ⟨⟨p, mem_p, bad⟩, q, mem_q, computed⟩ := mixed
    obtain ⟨db', returned, -⟩ := good q mem_q (by simpa using computed)
    obtain ⟨e, raised⟩ := tick_blocked ids mem_p (by simpa using bad)
    rw [raised] at returned
    cases returned
  · rintro (all | none_of)
    · exact goodOnesFire_of_all strict fresh all
    · intro p mem computed
      rw [none_of p mem] at computed
      cases computed

/-! ### A bounded year -/

section BoundedYear

/-- The first microsecond of the year 2027. -/
def newYear2027 : Time := 1798761600000000

def fiveMinutes : Time := 300000000

def lastYearExpr : Text := ↑"0 0 1 1 * 0 2027"

def everyFiveExpr : Text := ↑"*/5 * * * *"

/-- `croniter` on two expressions, the first of which has no instant after the year 2027 has
begun. -/
def boundedHost : Host where
  isValid expr := expr == lastYearExpr || expr == everyFiveExpr
  getNext expr _ t :=
    if expr = lastYearExpr then if t < newYear2027 then some newYear2027 else none
    else if expr = everyFiveExpr then some ((t / fiveMinutes + 1) * fiveMinutes)
    else none
  repr expr := expr

def digestRegistry : Registry := [(↑"digest", ⟨{ name := ↑"digest" }, ↑"Digest."⟩)]

/-- Both schedules are created in the last minutes of 2026, and `create_schedule` accepts both. -/
def newYearSchedules : Block Unit := do
  let created := newYear2027 - 400000000
  let _ ← createSchedule boundedHost created created digestRegistry ↑"s1" ↑"digest" lastYearExpr
    utc []
  let _ ← createSchedule boundedHost created created digestRegistry ↑"s2" ↑"digest" everyFiveExpr
    utc []

def newYearDb : Db := newYearSchedules.after .empty

def numberedIds (n : Nat) : RunId := List.replicate n 114

theorem numberedIds_distinct : Function.Injective numberedIds := by
  intro m n same
  simpa [numberedIds] using congrArg List.length same

theorem numberedIds_fresh : FreshIds newYearDb numberedIds := ⟨fun _ => rfl, numberedIds_distinct⟩

theorem boundedHost_strict : Strict boundedHost := by
  intro expr tz t next h
  simp only [boundedHost] at h
  split_ifs at h with bounded before five
  · cases h
    exact before
  · cases h
    exact Int.lt_ediv_add_one_mul_self t (by decide)

/-- Before the new year only the other schedule is due, and it fires. -/
theorem fiveMinutes_fires :
    GoodOnesFire boundedHost (newYear2027 - 1) (fun _ => newYear2027) numberedIds newYearDb :=
  (goodOnesFire_iff boundedHost (newYear2027 - 1) (fun _ => newYear2027) numberedIds newYearDb
    boundedHost_strict numberedIds_fresh).mpr (.inl (by decide +kernel))

/-- From the new year on both are due, and neither fires. -/
theorem boundedYear_blocks :
    (newYearSchedules.run .empty).isOk = true ∧
      ¬ GoodOnesFire boundedHost newYear2027 (fun _ => newYear2027) numberedIds newYearDb := by
  refine ⟨by decide +kernel, fun good => ?_⟩
  have due : ∃ p ∈ (dueRows newYear2027 newYearDb).zipIdx,
      computes boundedHost (fun _ => newYear2027) p = true := by decide +kernel
  obtain ⟨p, mem, computed⟩ := due
  obtain ⟨db', returned, -⟩ := good p mem computed
  have raised : ((tick boundedHost newYear2027 (fun _ => newYear2027) (fun _ => false)
      numberedIds).commit newYearDb).1.isOk = false := by decide +kernel
  rw [returned] at raised
  cases raised

end BoundedYear

end AgenticOctopus.Spine.Scheduler
