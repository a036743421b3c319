import AgenticOctopus.Spine.Ticks

/-!
# The firings of a schedule in a row

Each firing consumes the value that the one before it left in `next_run_at`, and leaves an
instant later than the clock that it read. So the values that a schedule's firings consume
grow, its runs are those of its firings, and the row points to the last of them.
-/
namespace AgenticOctopus.Spine.Ticks
open Foundation Scheduler

def firedOf (s : ScheduleId) (fired : List Firing) : List Firing :=
  fired.filter fun f => f.scheduleId = s

theorem mem_firedOf {s : ScheduleId} {fired : List Firing} {f : Firing} :
    f ∈ firedOf s fired ↔ f ∈ fired ∧ f.scheduleId = s := by
  simp [firedOf]

theorem firedOf_append (s : ScheduleId) (fired fs : List Firing) :
    firedOf s (fired ++ fs) = firedOf s fired ++ firedOf s fs := by
  rw [firedOf, List.filter_append]
  rfl

/-! ## One schedule -/

/-- The firings of one schedule, and the row that they leave. -/
structure Line (row : Option Schedule) (fs : List Firing) : Prop where
  chained : fs.IsChain fun f g => g.schedule.nextRunAt = f.next
  later : fs.Pairwise fun f g => f.next ≤ g.schedule.nextRunAt
  ahead : ∀ r ∈ row, ∀ f ∈ fs, f.next ≤ r.nextRunAt
  last : ∀ r ∈ row, ∀ f ∈ fs.getLast?, r.nextRunAt = f.next
  points : ∀ r ∈ row, r.lastRunId = fs.getLast?.map Firing.runId
  unknown : row = none → fs = []

namespace Line

variable {row : Schedule} {fs : List Firing}

theorem empty (unfired : ∀ r ∈ (o : Option Schedule), r.lastRunId = none) : Line o [] where
  chained := .nil
  later := .nil
  ahead _ _ _ mem := (List.not_mem_nil mem).elim
  last _ _ _ is := by cases is
  points := unfired
  unknown _ := rfl

/-- Only the columns that a firing writes matter. -/
theorem congr {row' : Schedule} (line : Line (some row) fs)
    (next : row'.nextRunAt = row.nextRunAt) (points : row'.lastRunId = row.lastRunId) :
    Line (some row') fs where
  chained := line.chained
  later := line.later
  ahead _ is f mem := by
    cases is
    rw [next]
    exact line.ahead row rfl f mem
  last _ is f mem := by
    cases is
    rw [next]
    exact line.last row rfl f mem
  points _ is := by
    cases is
    rw [points]
    exact line.points row rfl
  unknown is := by cases is

theorem fire {f : Firing} (line : Line (some f.schedule) fs)
    (moves : f.schedule.nextRunAt < f.next) :
    Line (some (f.assignment.apply f.schedule)) (fs ++ [f]) where
  chained := by
    refine line.chained.append (.singleton f) fun g last h first => ?_
    cases first
    exact line.last _ rfl g last
  later := by
    rw [List.pairwise_append]
    refine ⟨line.later, List.pairwise_singleton _ f, fun g mem_g h mem_h => ?_⟩
    rw [List.mem_singleton.mp mem_h]
    exact line.ahead _ rfl g mem_g
  ahead _ is g mem := by
    cases is
    rcases List.mem_append.mp mem with mem | mem
    · exact (line.ahead _ rfl g mem).trans moves.le
    · rw [List.mem_singleton.mp mem]
      exact le_rfl
  last _ is g mem := by
    rw [List.getLast?_concat] at mem
    cases is
    cases mem
    rfl
  points _ is := by
    cases is
    rw [List.getLast?_concat]
    rfl
  unknown is := by cases is

end Line

/-! ## All schedules -/

/-- What the committed firings say about the database. -/
structure History (host : Host) (db : Db) (fired : List Firing) : Prop where
  line : ∀ s, Line (db.schedules.find? s) (firedOf s fired)
  answered : ∀ f ∈ fired,
    host.getNext f.schedule.cronExpr f.schedule.timezone f.clock = some f.next
  inTime : ∀ f ∈ fired, f.schedule.nextRunAt ≤ f.now ∧ f.now ≤ f.clock
  run : ∀ f ∈ fired, ∃ run, db.runs.find? f.runId = some run ∧ run.origin = f.run
  distinct : (fired.map Firing.runId).Nodup
  ofRun : ∀ r run s, db.runs.find? r = some run → run.scheduleId = some s →
    ∃ f ∈ firedOf s fired, f.runId = r
  accepted : ∀ s row, db.schedules.find? s = some row →
    ∃ clock next, host.getNext row.cronExpr row.timezone clock = some next

variable {host : Host} {db db' : Db} {fired fs : List Firing}

theorem History.start : History host Db.empty [] where
  line s := .empty fun r is => by cases is
  answered _ mem := (List.not_mem_nil mem).elim
  inTime _ mem := (List.not_mem_nil mem).elim
  run _ mem := (List.not_mem_nil mem).elim
  distinct := List.nodup_nil
  ofRun _ _ _ there := by cases there
  accepted _ _ there := by cases there

theorem History.tends (history : History host db fired) (tends : Tends host db db') :
    History host db' fired where
  line s := by
    have line := history.line s
    cases before : db.schedules.find? s with
    | none =>
      rw [line.unknown before]
      exact .empty fun row there => (tends.created s row before there).1
    | some row =>
      obtain ⟨enabled, after⟩ := tends.rows s row before
      rw [before] at line
      rw [after]
      exact line.congr rfl rfl
  answered := history.answered
  inTime := history.inTime
  run f mem := by
    obtain ⟨run, there, same⟩ := history.run f mem
    obtain ⟨run', after, same'⟩ := tends.runs _ run there
    exact ⟨run', after, same'.trans same⟩
  distinct := history.distinct
  ofRun r run s there ofSchedule := by
    cases before : db.runs.find? r with
    | none =>
      rw [tends.enqueued r run before there] at ofSchedule
      cases ofSchedule
    | some run' =>
      obtain ⟨run'', after, same⟩ := tends.runs r run' before
      rw [there] at after
      cases after
      exact history.ofRun r run' s before ((congrArg Run.scheduleId same).symm.trans ofSchedule)
  accepted s row there := by
    cases before : db.schedules.find? s with
    | none =>
      obtain ⟨-, clock, answer⟩ := tends.created s row before there
      exact ⟨clock, _, answer⟩
    | some row' =>
      obtain ⟨enabled, after⟩ := tends.rows s row' before
      rw [there] at after
      cases after
      exact history.accepted s row' before

/-! ## A commit -/

/-- The firings of one commit, as its call has found the rows. -/
structure Ready (host : Host) (db : Db) (fs : List Firing) : Prop where
  distinct : (fs.map Firing.scheduleId).Nodup
  row : ∀ f ∈ fs, db.schedules.find? f.scheduleId = some f.schedule
  answered : ∀ f ∈ fs, host.getNext f.schedule.cronExpr f.schedule.timezone f.clock = some f.next
  due : ∀ f ∈ fs, isDue f.now f.schedule = true ∧ f.now ≤ f.clock

theorem isDue_iff {start : Time} {row : Schedule} :
    isDue start row = true ↔ row.enabled = true ∧ row.nextRunAt ≤ start := by
  simp [isDue, Scheduler.due]

namespace Ready

variable (ready : Ready host db fs)
include ready

/-- A schedule fires once or not at all. -/
theorem turn (s : ScheduleId) : (∃ f ∈ fs, f.scheduleId = s ∧ firedOf s fs = [f]) ∨
    (∀ f ∈ fs, f.scheduleId ≠ s) ∧ firedOf s fs = [] := by
  by_cases turns : ∃ f ∈ fs, f.scheduleId = s
  · obtain ⟨f, mem, rfl⟩ := turns
    exact .inl ⟨f, mem, rfl, filter_scheduleId ready.distinct mem⟩
  · push Not at turns
    exact .inr ⟨turns, List.filter_eq_nil_iff.mpr fun f mem => by simpa using turns f mem⟩

theorem after (fires : Fires fs db db') {f : Firing} (mem : f ∈ fs) :
    db'.schedules.find? f.scheduleId = some (f.assignment.apply f.schedule) := by
  rw [fires.fired f mem, ready.row f mem, Option.map_some]

theorem inTime {f : Firing} (mem : f ∈ fs) : f.schedule.nextRunAt ≤ f.now ∧ f.now ≤ f.clock :=
  ⟨(isDue_iff.mp (ready.due f mem).1).2, (ready.due f mem).2⟩

end Ready

theorem Ready.moves (ready : Ready host db fs) (strict : Strict host) {f : Firing} (mem : f ∈ fs) :
    f.schedule.nextRunAt < f.next := by
  obtain ⟨due, clock⟩ := ready.inTime mem
  exact (due.trans clock).trans_lt (strict _ _ _ _ (ready.answered f mem))

theorem History.line_fires (history : History host db fired) (strict : Strict host)
    (ready : Ready host db fs) (fires : Fires fs db db') (s : ScheduleId) :
    Line (db'.schedules.find? s) (firedOf s (fired ++ fs)) := by
  have line := history.line s
  rw [firedOf_append]
  rcases ready.turn s with ⟨f, mem, rfl, once⟩ | ⟨apart, never⟩
  · rw [ready.row f mem] at line
    rw [once, ready.after fires mem]
    exact line.fire (ready.moves strict mem)
  · rw [never, List.append_nil, fires.others s apart]
    exact line

theorem History.fires (history : History host db fired) (strict : Strict host)
    (ready : Ready host db fs) (fires : Fires fs db db') : History host db' (fired ++ fs) where
  line := history.line_fires strict ready fires
  answered f mem := (List.mem_append.mp mem).elim (history.answered f) (ready.answered f)
  inTime f mem := (List.mem_append.mp mem).elim (history.inTime f) fun mem => ready.inTime mem
  run f mem := by
    rcases List.mem_append.mp mem with mem | mem
    · obtain ⟨run, there, same⟩ := history.run f mem
      exact ⟨run, fires.find?_run.mpr (.inl there), same⟩
    · exact ⟨f.run, fires.find?_run.mpr (.inr ⟨f, mem, rfl, rfl⟩), rfl⟩
  distinct := by
    obtain ⟨distinct, fresh⟩ := fires.fresh
    rw [List.map_append, List.nodup_append]
    refine ⟨history.distinct, distinct, fun a mem_a b mem_b same => ?_⟩
    obtain ⟨f, mem_f, rfl⟩ := List.mem_map.mp mem_a
    obtain ⟨g, mem_g, rfl⟩ := List.mem_map.mp mem_b
    obtain ⟨run, there, -⟩ := history.run f mem_f
    rw [same, fresh g mem_g] at there
    cases there
  ofRun r run s there ofSchedule := by
    rw [firedOf_append]
    rcases fires.find?_run.mp there with there | ⟨f, mem, rfl, rfl⟩
    · obtain ⟨f, mem, is⟩ := history.ofRun r run s there ofSchedule
      exact ⟨f, List.mem_append_left _ mem, is⟩
    · obtain rfl : f.scheduleId = s := Option.some.inj ofSchedule
      exact ⟨f, List.mem_append_right _ (mem_firedOf.mpr ⟨mem, rfl⟩), rfl⟩
  accepted s row there := by
    rcases ready.turn s with ⟨f, mem, rfl, -⟩ | ⟨apart, -⟩
    · rw [ready.after fires mem] at there
      cases there
      exact history.accepted _ f.schedule (ready.row f mem)
    · exact history.accepted s row ((fires.others s apart).symm.trans there)

/-! ## Every run -/

variable {s t : State} {l : Label}

theorem ready_of_commit (scans : Scans s) {c : Call} {start : Time} {due : List Schedule}
    {clocks : Nat → Time} {ids : Nat → RunId} (scanning : s.call c = .scanning start [] due)
    (shared : ∀ i, start ≤ clocks i ∧ clocks i ≤ s.now)
    (computed : firings host start clocks ids due = some fs) : Ready host s.db fs := by
  have scan := scans c start [] due scanning
  have schedules := firings_schedules computed
  have found : ∀ f ∈ fs, f.schedule ∈ due := fun f mem =>
    schedules ▸ List.mem_map_of_mem mem
  refine ⟨?_, fun f mem => (scan.holds _ (found f mem)).2.1, fun f mem =>
    (mem_firings computed mem).1, fun f mem => ?_⟩
  · have same : fs.map Firing.scheduleId = due.map Schedule.id := by
      rw [← schedules, List.map_map]
      rfl
    rw [same]
    exact scan.nodup
  · obtain ⟨-, now, i, clock⟩ := mem_firings computed mem
    rw [now, clock]
    exact ⟨(scan.holds _ (found f mem)).2.2, (shared i).1⟩

/-- What is written is never a tick. -/
def Writes (host : Host) (s : State) : Prop :=
  ∀ c now op, s.call c = .writing now op → OtherThanTick host op

theorem writes_step (writes : Writes host s) (h : Step host s l t) : Writes host t := by
  intro c now op writing
  by_cases own : l.call = some c
  · cases h with
    | pass => cases own
    | start idle other =>
      cases own
      rw [State.goto_call, if_pos rfl] at writing
      cases writing
      exact other
    | grab => exact writes c now op writing
    | commit | raise | fail | finish =>
      cases own
      rw [State.release_call, if_pos rfl] at writing
      cases writing
    | begin | select | skip | lock =>
      cases own
      rw [State.goto_call, if_pos rfl] at writing
      cases writing
  · rw [other_call h own] at writing
    exact writes c now op writing

theorem writes_of_reachable (h : (ticks host).Reachable s) : Writes host s :=
  h.invariant (P := Writes host)
    (fun s start c _ _ writing => by
      rw [start.2.2.1 c] at writing
      cases writing)
    fun _ _ _ _ writes step => writes_step writes step

theorem history_step (strict : Strict host) (scans : Scans s) (writes : Writes host s)
    (history : History host s.db s.fired) (h : Step host s l t) : History host t.db t.fired := by
  cases h with
  | @commit c start due clocks ids fs n db scanning fresh shared computed ran =>
    have fires := fires_of_fireAll (scans c start [] due scanning).nodup computed ran
    exact history.fires strict (ready_of_commit scans scanning shared computed) fires
  | finish writing => exact history.tends (tends_after (writes _ _ _ writing) s.db)
  | _ => exact history

theorem history_of_reachable (strict : Strict host) (h : (ticks host).Reachable s) :
    History host s.db s.fired :=
  h.invariant (P := fun s => History host s.db s.fired)
    (fun s start => by
      rw [start.1, start.2.2.2]
      exact .start)
    fun _ _ _ reachable history step =>
      history_step strict (scans_of_reachable reachable) (writes_of_reachable reachable) history
        step

end AgenticOctopus.Spine.Ticks
