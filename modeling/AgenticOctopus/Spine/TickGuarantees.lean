import AgenticOctopus.Spine.FiringHistory

/-!
# What concurrent ticks guarantee

A tick that no lock blocks fires a schedule exactly when it is due both in the snapshot and
at the commit, and the commit never raises. Between commits nothing moves `next_run_at`, and
each commit moves it past the clock, so every instant up to it is done with.
-/
namespace AgenticOctopus.Spine.Ticks
open Foundation Scheduler

/-- `croniter` refuses an expression, or its `get_next(t)` is the least of the expression's
instants strictly after `t`. -/
def LeastAfter (host : Host) (instants : Text → Text → Set Time) : Prop :=
  ∀ expr tz, (∀ t, host.getNext expr tz t = none) ∨
    ∀ t, ∃ next, host.getNext expr tz t = some next ∧
      IsLeast {v | v ∈ instants expr tz ∧ t < v} next

section LeastAfter

variable {host : Host} {instants : Text → Text → Set Time} (croniter : LeastAfter host instants)
include croniter

theorem LeastAfter.isLeast {expr tz : Text} {t next : Time}
    (answer : host.getNext expr tz t = some next) :
    IsLeast {v | v ∈ instants expr tz ∧ t < v} next := by
  rcases croniter expr tz with refused | answers
  · rw [refused] at answer
    cases answer
  · obtain ⟨next', answer', least⟩ := answers t
    rw [answer] at answer'
    cases answer'
    exact least

theorem LeastAfter.strict : Strict host := fun _ _ _ _ answer => (croniter.isLeast answer).1.2

theorem LeastAfter.total {expr tz : Text} {t next : Time}
    (answer : host.getNext expr tz t = some next) (u : Time) :
    ∃ next, host.getNext expr tz u = some next := by
  rcases croniter expr tz with refused | answers
  · rw [refused] at answer
    cases answer
  · obtain ⟨next, answer, -⟩ := answers u
    exact ⟨next, answer⟩

end LeastAfter

variable {host : Host} {s t : State} {l : Label}

/-! ## One step, seen from one schedule -/

/-- The step leaves the schedule where it is. -/
structure Spared (id : ScheduleId) (s t : State) : Prop where
  fired : firedOf id t.fired = firedOf id s.fired
  row : ∀ row, s.db.schedules.find? id = some row →
    ∃ enabled, t.db.schedules.find? id = some { row with enabled := enabled }
  runs : ∀ r run, t.db.runs.find? r = some run → run.scheduleId = some id →
    ∃ run, s.db.runs.find? r = some run

/-- The step is the firing of the schedule from the row that stands there. -/
structure Fired (instants : Text → Text → Set Time) (f : Firing) (s t : State) : Prop where
  before : s.db.schedules.find? f.scheduleId = some f.schedule
  due : f.schedule.enabled = true ∧ f.schedule.nextRunAt ≤ f.now
  clock : f.now ≤ f.clock ∧ f.clock ≤ s.now
  least : IsLeast
    {v | v ∈ instants f.schedule.cronExpr f.schedule.timezone ∧ f.clock < v} f.next
  after : t.db.schedules.find? f.scheduleId =
    some { f.schedule with
      nextRunAt := f.next, lastRunAt := some f.now, lastRunId := some f.runId }
  fired : firedOf f.scheduleId t.fired = firedOf f.scheduleId s.fired ++ [f]
  runs : runsOf f.scheduleId t.db = runsOf f.scheduleId s.db ++ [f.run]

theorem Spared.of_same (db : t.db = s.db) (fired : t.fired = s.fired) (id : ScheduleId) :
    Spared id s t where
  fired := by rw [fired]
  row row there := ⟨row.enabled, by rw [db]; exact there⟩
  runs r run there _ := ⟨run, by rw [← db]; exact there⟩

/-- Only a commit fires a schedule, and fires it once. -/
theorem step_schedule {instants : Text → Text → Set Time} (croniter : LeastAfter host instants)
    (scans : Scans s) (writes : Writes host s) (h : Step host s l t) (id : ScheduleId) :
    Spared id s t ∨
      ∃ f, f.scheduleId = id ∧ (∃ c clocks ids, l = .commit c clocks ids) ∧
        Fired instants f s t := by
  cases h with
  | @commit c start due clocks ids fs n db scanning fresh shared computed ran =>
    have ready := ready_of_commit scans scanning shared computed
    have fires := fires_of_fireAll (scans c start [] due scanning).nodup computed ran
    rcases ready.turn id with ⟨f, mem, rfl, once⟩ | ⟨apart, never⟩
    · refine .inr ⟨f, rfl, ⟨c, clocks, ids, rfl⟩, ready.row f mem, isDue_iff.mp (ready.due f mem).1,
        ⟨(ready.inTime mem).2, ?_⟩, croniter.isLeast (ready.answered f mem),
        ready.after fires mem, ?_, ?_⟩
      · obtain ⟨-, -, i, clock⟩ := mem_firings computed mem
        rw [clock]
        exact (shared i).2
      · exact (firedOf_append ..).trans (congrArg _ once)
      · have added := fires.runsOf f.scheduleId
        rw [filter_scheduleId ready.distinct mem] at added
        exact added
    · refine .inl ⟨?_, fun row there => ⟨row.enabled, ?_⟩, fun r run there ofSchedule => ?_⟩
      · exact (firedOf_append ..).trans ((congrArg _ never).trans (List.append_nil _))
      · exact (fires.others id apart).trans there
      · rcases fires.find?_run.mp there with there | ⟨f, mem, rfl, -⟩
        · exact ⟨run, there⟩
        · exact (apart f mem (Option.some.inj ofSchedule)).elim
  | @finish c now op writing respects =>
    have tends : Tends host s.db (op.after now s.db) := tends_after (writes c now op writing) s.db
    refine .inl ⟨rfl, tends.rows id, fun r run there ofSchedule => ?_⟩
    cases before : s.db.runs.find? r with
    | none =>
      rw [tends.enqueued r run before there] at ofSchedule
      cases ofSchedule
    | some run' => exact ⟨run', rfl⟩
  | _ => refine .inl (.of_same ?_ ?_ id) <;> rfl

/-! ## A commit never raises -/

theorem not_raise {instants : Text → Text → Set Time} (croniter : LeastAfter host instants)
    (scans : Scans s) (history : History host s.db s.fired) {c : Call} {clocks : Nat → Time}
    {ids : Nat → RunId} : ¬ Step host s (.raise c clocks ids) t := by
  intro h
  cases h with
  | @raise _ start due _ _ e scanning fresh shared raised =>
    have scan := scans c start [] due scanning
    have computes : ∀ p ∈ due.zipIdx 0, computes host clocks p = true := by
      intro p mem
      have there := (scan.holds p.1 (List.fst_mem_of_mem_zipIdx mem)).2.1
      obtain ⟨_, _, answer⟩ := history.accepted _ _ there
      obtain ⟨next, answer⟩ := croniter.total answer (clocks p.2)
      rw [Scheduler.computes, answer]
      rfl
    obtain ⟨fs, computed⟩ : ∃ fs, firings host start clocks ids due = some fs :=
      Option.isSome_iff_exists.mp ((firings_isSome clocks ids due 0).mpr computes)
    obtain ⟨db, returned⟩ := fireAll_returns computed fresh fun row mem => by
      rw [Table.contains, (scan.holds row mem).2.1]
      rfl
    rw [returned] at raised
    cases raised

/-! ## One tick, seen from one schedule -/

/-- The schedule is there, enabled and due at this start. -/
def dueIn (start : Time) (id : ScheduleId) (db : Db) : Bool :=
  (db.schedules.find? id).any (isDue start)

theorem dueIn_iff {start : Time} {id : ScheduleId} {db : Db} :
    dueIn start id db = true ↔
      ∃ row, db.schedules.find? id = some row ∧ isDue start row = true := by
  rw [dueIn, Option.any_eq_true]

/-- What a step does to a scan: it takes the snapshot, or visits a row, or leaves the scan
alone. -/
theorem scanning_step (h : Step host s l t) {c : Call} {start : Time} {rest due : List Schedule}
    (after : t.call c = .scanning start rest due) :
    (l = .select c ∧ s.call c = .begun start ∧
        rest = s.db.schedules.rows.filter (isDue start) ∧ due = []) ∨
      ∃ rest' due', s.call c = .scanning start rest' due' ∧
        ((rest = rest' ∧ due = due') ∨
          (∃ row d, l = .skip c row.id ∧ s.holder row.id = some d ∧ d ≠ c ∧ row ∈ rest' ∧
            rest = unvisited row.id rest' ∧ due = due') ∨
          ∃ row, l = .lock c row.id ∧ s.holder row.id = none ∧ row ∈ rest' ∧
            rest = unvisited row.id rest' ∧ due = due' ++ latest s.db start row.id ∧
            t.holder row.id = some c ∧ t.db = s.db) := by
  by_cases own : l.call = some c
  · cases h with
    | pass => cases own
    | grab => exact .inr ⟨rest, due, after, .inl ⟨rfl, rfl⟩⟩
    | begin | start =>
      cases own
      rw [State.goto_call, if_pos rfl] at after
      cases after
    | commit | raise | fail | finish =>
      cases own
      rw [State.release_call, if_pos rfl] at after
      cases after
    | select begun =>
      cases own
      rw [State.goto_call, if_pos rfl] at after
      cases after
      exact .inl ⟨rfl, begun, rfl, rfl⟩
    | skip scanning mem locked other =>
      cases own
      rw [State.goto_call, if_pos rfl] at after
      cases after
      exact .inr ⟨_, _, scanning, .inr (.inl ⟨_, _, rfl, locked, other, mem, rfl, rfl⟩)⟩
    | lock scanning mem free =>
      cases own
      rw [State.goto_call, if_pos rfl] at after
      cases after
      refine .inr ⟨_, _, scanning, .inr (.inr ⟨_, rfl, free, mem, rfl, rfl, ?_, rfl⟩)⟩
      rw [State.goto_holder, State.hold_holder, if_pos rfl]
  · rw [other_call h own] at after
    exact .inr ⟨rest, due, after, .inl ⟨rfl, rfl⟩⟩

/-- The row is still to be visited. -/
def Pending (id : ScheduleId) (rest : List Schedule) : Prop := ∃ row ∈ rest, row.id = id

/-- The tick has the row's lock, and will fire it if it is due. -/
def Decided (s : State) (c : Call) (start : Time) (id : ScheduleId) (due : List Schedule) : Prop :=
  s.holder id = some c ∧ ((∃ row ∈ due, row.id = id) ↔ dueIn start id s.db = true)

/-- The tick will not fire the row. -/
def Passed (id : ScheduleId) (rest due : List Schedule) : Prop :=
  (∀ row ∈ rest, row.id ≠ id) ∧ ∀ row ∈ due, row.id ≠ id

theorem Passed.unvisited {id : ScheduleId} {rest due : List Schedule} (passed : Passed id rest due)
    (q : ScheduleId) : Passed id (unvisited q rest) due :=
  ⟨fun row mem => passed.1 row (mem_unvisited.mp mem).1, passed.2⟩

theorem id_of_mem_latest {db : Db} {start : Time} {id : ScheduleId} {row : Schedule}
    (mem : row ∈ latest db start id) : row.id = id := Table.key_of_find? (mem_latest.mp mem).1

theorem passed_step (h : Step host s l t) {c : Call} {start : Time}
    {rest due rest' due' : List Schedule}
    {id : ScheduleId} (before : s.call c = .scanning start rest due)
    (after : t.call c = .scanning start rest' due') (passed : Passed id rest due) :
    Passed id rest' due' := by
  rcases scanning_step h after with ⟨-, begun, -⟩ | ⟨_, _, was, same | visited⟩
  · rw [before] at begun
    cases begun
  · obtain ⟨rfl, rfl⟩ := same
    rw [before] at was
    cases was
    exact passed
  · rw [before] at was
    cases was
    rcases visited with ⟨row, _, -, -, -, -, rfl, rfl⟩ | ⟨row, -, -, mem, rfl, rfl, -⟩
    · exact passed.unvisited row.id
    · refine ⟨(passed.unvisited row.id).1, fun r mem_r => ?_⟩
      rcases List.mem_append.mp mem_r with mem_r | mem_r
      · exact passed.2 r mem_r
      · rw [id_of_mem_latest mem_r]
        exact passed.1 row mem

theorem decided_step (scans : Scans s) (h : Step host s l t) {c : Call} {start : Time}
    {rest due rest' due' : List Schedule} {id : ScheduleId}
    (before : s.call c = .scanning start rest due)
    (after : t.call c = .scanning start rest' due') (decided : Decided s c start id due) :
    Decided t c start id due' := by
  obtain ⟨holder, iff⟩ := decided
  rcases held_step scans h holder with idle | ⟨still, same⟩
  · rw [after] at idle
    cases idle
  refine ⟨still, ?_⟩
  rw [dueIn, same, ← dueIn, ← iff]
  rcases scanning_step h after with ⟨-, begun, -⟩ | ⟨_, _, was, kept | visited⟩
  · rw [before] at begun
    cases begun
  · obtain ⟨-, rfl⟩ := kept
    rw [before] at was
    cases was
    rfl
  · rw [before] at was
    cases was
    rcases visited with ⟨_, _, -, -, -, -, -, rfl⟩ | ⟨row, -, free, -, -, rfl, -⟩
    · rfl
    · constructor
      · rintro ⟨r, mem, rfl⟩
        rcases List.mem_append.mp mem with mem | mem
        · exact ⟨r, mem, rfl⟩
        · rw [id_of_mem_latest mem, free] at holder
          cases holder
      · rintro ⟨r, mem, is⟩
        exact ⟨r, List.mem_append_left _ mem, is⟩

/-- A visit decides, unless the row is locked by another. -/
theorem pending_step (scans : Scans s) (h : Step host s l t) {c : Call} {start : Time}
    {rest due rest' due' : List Schedule} {id : ScheduleId}
    (before : s.call c = .scanning start rest due)
    (after : t.call c = .scanning start rest' due') (pending : Pending id rest) :
    Pending id rest' ∨ Decided t c start id due' ∨ (Passed id rest' due' ∧ l = .skip c id) := by
  have scan := scans c start rest due before
  rcases scanning_step h after with ⟨-, begun, -⟩ | ⟨_, _, was, kept | visited⟩
  · rw [before] at begun
    cases begun
  · obtain ⟨rfl, -⟩ := kept
    rw [before] at was
    cases was
    exact .inl pending
  rw [before] at was
  cases was
  obtain ⟨waiting, mem_w, is⟩ := pending
  have undecided : ∀ held ∈ due, held.id ≠ id := fun held mem same =>
    scan.apart waiting mem_w held mem (is.trans same.symm)
  rcases visited with ⟨row, d, label, -, -, mem, rfl, rfl⟩ |
    ⟨row, label, -, mem, rfl, rfl, holder, same⟩
  · by_cases own : row.id = id
    · subst own
      exact .inr (.inr ⟨⟨fun r mem_r => (mem_unvisited.mp mem_r).2, undecided⟩, label⟩)
    · exact .inl ⟨waiting, mem_unvisited.mpr ⟨mem_w, by rw [is]; exact Ne.symm own⟩, is⟩
  · by_cases own : row.id = id
    · subst own
      refine .inr (.inl ⟨holder, ?_⟩)
      rw [same, dueIn_iff]
      constructor
      · rintro ⟨r, mem_r, own⟩
        rcases List.mem_append.mp mem_r with mem_r | mem_r
        · exact (undecided r mem_r own).elim
        · exact ⟨r, mem_latest.mp mem_r⟩
      · rintro ⟨r, there, is_due⟩
        exact ⟨r, List.mem_append_right _ (mem_latest.mpr ⟨there, is_due⟩),
            Table.key_of_find? there⟩
    · exact .inl ⟨waiting, mem_unvisited.mpr ⟨mem_w, by rw [is]; exact Ne.symm own⟩, is⟩

/-! ## One tick, from its snapshot to its commit -/

/-- The tick took its snapshot at step `b` and has been visiting its rows since. -/
def ScanningSince (e : (ticks host).Execution) (b k : Nat) (c : Call) (start : Time) : Prop :=
  e.label b = .select c ∧ (e.state b).call c = .begun start ∧
    ∀ m, b < m → m ≤ k → ∃ rest due, (e.state m).call c = .scanning start rest due

theorem scanning_since (e : (ticks host).Execution) {k : Nat} (hk : k ≤ e.length) {c : Call}
    {start : Time} {rest due : List Schedule}
    (scanning : (e.state k).call c = .scanning start rest due) :
    ∃ b, b < k ∧ ScanningSince e b k c start := by
  induction k generalizing rest due with
  | zero =>
    rw [e.start.2.2.1 c] at scanning
    cases scanning
  | succ k ih =>
    rcases scanning_step (e.next k (by omega)) scanning with
      ⟨label, begun, -, -⟩ | ⟨rest', due', before, -⟩
    · refine ⟨k, by omega, label, begun, fun m hkm hm => ?_⟩
      obtain rfl : m = k + 1 := by omega
      exact ⟨rest, due, scanning⟩
    · obtain ⟨b, hb, label, begun, since⟩ := ih (by omega) before
      refine ⟨b, by omega, label, begun, fun m hbm hm => ?_⟩
      rcases Nat.lt_or_ge k m with last | earlier
      · obtain rfl : m = k + 1 := by omega
        exact ⟨rest, due, scanning⟩
      · exact since m hbm earlier

section Fate

variable {e : (ticks host).Execution} {b i : Nat} {c : Call} {start : Time}
  (since : ScanningSince e b i c start) (hi : i < e.length) {id : ScheduleId}
include since hi

/-- What the tick has made of the schedule after its first steps. -/
theorem fate {k : Nat} (hbk : b < k) (hki : k ≤ i) {rest due : List Schedule}
    (scanning : (e.state k).call c = .scanning start rest due) :
    (dueIn start id (e.state b).db = false → Passed id rest due) ∧
      (dueIn start id (e.state b).db = true → Pending id rest ∨
        Decided (e.state k) c start id due ∨
          (Passed id rest due ∧ ∃ m, b < m ∧ m < k ∧ e.label m = .skip c id)) := by
  induction k, hbk using Nat.le_induction generalizing rest due with
  | base =>
    rcases scanning_step (e.next b (by omega)) scanning with
      ⟨-, -, rfl, rfl⟩ | ⟨_, _, before, -⟩
    · constructor
      · refine fun absent => ⟨fun row mem same => ?_, fun _ mem => (List.not_mem_nil mem).elim⟩
        obtain ⟨there, is_due⟩ := List.mem_filter.mp mem
        have found := dueIn_iff.mpr ⟨row, same ▸ Table.find?_of_mem there, is_due⟩
        rw [absent] at found
        cases found
      · intro found
        obtain ⟨row, there, is_due⟩ := dueIn_iff.mp found
        exact .inl ⟨row, List.mem_filter.mpr ⟨Table.mem_of_find? there, is_due⟩,
          Table.key_of_find? there⟩
    · rw [since.2.1] at before
      cases before
  | succ k hbk ih =>
    obtain ⟨rest', due', before⟩ := since.2.2 k hbk (by omega)
    have hk : k < e.length := by omega
    have scans := scans_of_reachable (e.reachable hk.le)
    obtain ⟨absent, found⟩ := ih (by omega) before
    refine ⟨fun h => passed_step (e.next k hk) before scanning (absent h), fun h => ?_⟩
    rcases found h with pending | decided | ⟨passed, m, hbm, hm, skipped⟩
    · rcases pending_step scans (e.next k hk) before scanning pending with
        pending | decided | ⟨passed, label⟩
      · exact .inl pending
      · exact .inr (.inl decided)
      · exact .inr (.inr ⟨passed, k, hbk, by omega, label⟩)
    · exact .inr (.inl (decided_step scans (e.next k hk) before scanning decided))
    · exact .inr (.inr ⟨passed_step (e.next k hk) before scanning passed, m, hbm, by omega,
        skipped⟩)

/-- A schedule that the tick passed over stays passed over. -/
theorem passed_of_skip {m : Nat} (hbm : b < m) (hmi : m < i) (skipped : e.label m = .skip c id)
    {k : Nat} (hmk : m < k) (hki : k ≤ i) {rest due : List Schedule}
    (scanning : (e.state k).call c = .scanning start rest due) : Passed id rest due := by
  induction k, hmk using Nat.le_induction generalizing rest due with
  | base =>
    have hm : m < e.length := by omega
    have scans := scans_of_reachable (e.reachable hm.le)
    rcases scanning_step (e.next m hm) scanning with ⟨label, -⟩ | ⟨rest', due', before, visit⟩
    · rw [skipped] at label
      cases label
    · have next := e.next m hm
      rw [skipped] at next
      generalize e.state (m + 1) = t at next scanning
      cases next with
      | @skip _ start' rest'' due'' row d was mem locked other =>
        rw [State.goto_call, if_pos rfl] at scanning
        cases scanning
        have scan := scans c _ _ _ was
        exact ⟨fun r mem_r => (mem_unvisited.mp mem_r).2,
          fun r mem_r same => scan.apart row mem r mem_r same.symm⟩
  | succ k hmk ih =>
    obtain ⟨rest', due', before⟩ := since.2.2 k (by omega) (by omega)
    exact passed_step (e.next k (by omega)) before scanning (ih (by omega) before)

end Fate

/-- The number of runs that a commit adds for a schedule is the number of rows that it fires. -/
theorem commit_adds (scans : Scans s) {c : Call} {start : Time} {due : List Schedule}
    {clocks : Nat → Time} {ids : Nat → RunId} (h : Step host s (.commit c clocks ids) t)
    (scanning : s.call c = .scanning start [] due) (id : ScheduleId) :
    ((∃ row ∈ due, row.id = id) → (runsOf id t.db).length = (runsOf id s.db).length + 1) ∧
      ((∀ row ∈ due, row.id ≠ id) → runsOf id t.db = runsOf id s.db) := by
  cases h with
  | @commit _ start' due' _ _ fs n db was fresh shared computed ran =>
    rw [scanning] at was
    cases was
    have ready := ready_of_commit scans scanning shared computed
    have fires := fires_of_fireAll (scans c start [] due scanning).nodup computed ran
    have added : runsOf id db = _ := fires.runsOf id
    have schedules := firings_schedules computed
    change (_ → (runsOf id db).length = _) ∧ (_ → runsOf id db = _)
    rw [added]
    rcases ready.turn id with ⟨f, mem, same, once⟩ | ⟨apart, never⟩
    · refine ⟨fun _ => ?_, fun absent => ?_⟩
      · rw [← firedOf, once]
        simp
      · have row : f.schedule ∈ due := schedules ▸ List.mem_map_of_mem mem
        exact (absent f.schedule row same).elim
    · refine ⟨fun visited => ?_, fun _ => ?_⟩
      · obtain ⟨row, mem, same⟩ := visited
        rw [← schedules] at mem
        obtain ⟨f, mem_f, rfl⟩ := List.mem_map.mp mem
        exact (apart f mem_f same).elim
      · rw [← firedOf, never]
        simp

theorem scanning_of_commit {c : Call} {clocks : Nat → Time} {ids : Nat → RunId}
    (h : Step host s (.commit c clocks ids) t) :
    ∃ start due, s.call c = .scanning start [] due := by
  cases h with
  | commit scanning => exact ⟨_, _, scanning⟩

/-- A tick that no lock has blocked enqueues one run for a schedule if it is due in the snapshot
and at the commit, and none otherwise; a blocked one enqueues none. -/
theorem tick_adds (e : (ticks host).Execution) {i : Nat} (hi : i < e.length) {c : Call}
    {clocks : Nat → Time} {ids : Nat → RunId} (label : e.label i = .commit c clocks ids) :
    ∃ b start, b < i ∧ ScanningSince e b i c start ∧ ∀ id,
      ((∀ m, b < m → m < i → e.label m ≠ .skip c id) →
        (runsOf id (e.state (i + 1)).db).length = (runsOf id (e.state i).db).length +
          if dueIn start id (e.state b).db && dueIn start id (e.state i).db then 1 else 0) ∧
      ((∃ m, b < m ∧ m < i ∧ e.label m = .skip c id) →
        runsOf id (e.state (i + 1)).db = runsOf id (e.state i).db) := by
  have next := e.next i hi
  rw [label] at next
  obtain ⟨start, due, scanning⟩ := scanning_of_commit next
  obtain ⟨b, hb, since⟩ := scanning_since e hi.le scanning
  have scans := scans_of_reachable (e.reachable hi.le)
  refine ⟨b, start, hb, since, fun id => ⟨fun unblocked => ?_, ?_⟩⟩
  · obtain ⟨one, none_of⟩ := commit_adds scans next scanning id
    obtain ⟨absent, found⟩ := fate since hi hb le_rfl scanning
    cases snapshot : dueIn start id (e.state b).db with
    | false =>
      rw [none_of (absent snapshot).2]
      simp
    | true =>
      rcases found snapshot with ⟨_, mem, -⟩ | ⟨-, iff⟩ | ⟨-, m, hbm, hmi, skipped⟩
      · exact (List.not_mem_nil mem).elim
      · cases now : dueIn start id (e.state i).db with
        | true =>
          rw [one (iff.mpr now)]
          rfl
        | false =>
          rw [none_of fun row mem same => ?_]
          · rfl
          · rw [iff.mp ⟨row, mem, same⟩] at now
            cases now
      · exact (unblocked m hbm hmi skipped).elim
  · rintro ⟨m, hbm, hmi, skipped⟩
    exact (commit_adds scans next scanning id).2
      (passed_of_skip since hi hbm hmi skipped hmi le_rfl scanning).2

/-! ## Exactly once -/

theorem countP_le_one {α : Type*} {R : α → α → Prop} {p : α → Bool} {l : List α}
    (pairwise : l.Pairwise R) (apart : ∀ a b, R a b → p a = true → p b = false) :
    l.countP p ≤ 1 := by
  induction pairwise with
  | nil => exact Nat.zero_le 1
  | @cons a l related _ ih =>
    by_cases here : p a = true
    · have rest : l.countP p = 0 := by
        rw [List.countP_eq_zero]
        intro b mem
        simp [apart a b (related b mem) here]
      rw [List.countP_cons_of_pos here, rest]
    · rw [List.countP_cons_of_neg here]
      exact ih

/-- The instants from the value that a firing consumed up to the clock that it read. -/
def covers (u : Time) (f : Firing) : Bool :=
  decide (f.schedule.nextRunAt ≤ u) && decide (u ≤ f.clock)

/-- Each value leads to at most one firing, and each instant is covered by at most one. -/
structure Once (fs : List Firing) : Prop where
  value : ∀ v, (fs.countP fun f => decide (f.schedule.nextRunAt = v)) ≤ 1
  instant : ∀ u, fs.countP (covers u) ≤ 1

/-- The runs of the schedule are those of its firings, and the row points to the last. -/
structure Corresponds (db : Db) (id : ScheduleId) (fs : List Firing) : Prop where
  runs : ∀ r, (∃ run, db.runs.find? r = some run ∧ run.scheduleId = some id) ↔
    ∃ f ∈ fs, f.runId = r
  distinct : (fs.map Firing.runId).Nodup
  last : ∀ row, db.schedules.find? id = some row →
    row.lastRunId = fs.getLast?.map Firing.runId ∧ ∀ f ∈ fs.getLast?, row.nextRunAt = f.next

variable {db : Db} {fired : List Firing}

theorem History.once (history : History host db fired) (strict : Strict host) (id : ScheduleId) :
    Once (firedOf id fired) := by
  have passes : (firedOf id fired).Pairwise fun f g =>
      f.schedule.nextRunAt ≤ f.clock ∧ f.clock < g.schedule.nextRunAt := by
    refine (history.line id).later.imp_of_mem fun {f g} mem _ later => ?_
    have there := (mem_firedOf.mp mem).1
    obtain ⟨value, clock⟩ := history.inTime f there
    exact ⟨value.trans clock, (strict _ _ _ _ (history.answered f there)).trans_le later⟩
  constructor
  · intro v
    refine countP_le_one passes fun f g ⟨value, clock⟩ is => ?_
    simp only [decide_eq_true_eq, decide_eq_false_iff_not] at is ⊢
    rintro rfl
    rw [← is] at clock
    exact absurd value clock.not_ge
  · intro u
    refine countP_le_one passes fun f g ⟨_, clock⟩ is => ?_
    simp only [covers, Bool.and_eq_true, decide_eq_true_eq] at is
    have early : ¬ g.schedule.nextRunAt ≤ u := (is.2.trans_lt clock).not_ge
    simp [covers, early]

theorem History.corresponds (history : History host db fired) (id : ScheduleId) :
    Corresponds db id (firedOf id fired) where
  runs r := by
    constructor
    · rintro ⟨run, there, ofSchedule⟩
      exact history.ofRun r run id there ofSchedule
    · rintro ⟨f, mem, rfl⟩
      obtain ⟨committed, rfl⟩ := mem_firedOf.mp mem
      obtain ⟨run, there, same⟩ := history.run f committed
      exact ⟨run, there, (congrArg Run.scheduleId same).trans f.scheduleId_run⟩
  distinct := history.distinct.sublist (List.filter_sublist.map Firing.runId)
  last row there := by
    have line := history.line id
    exact ⟨line.points row there, line.last row there⟩

/-- Schedules fire exactly once: every step leaves a schedule where it is or is the commit that
fires it, no value and no instant leads to two firings, a tick adds one run for a schedule that
is due and not blocked and none otherwise, no tick raises, and the runs of a schedule are those
of its firings. -/
theorem schedules_fire_exactly_once (host : Host) (instants : Text → Text → Set Time)
    (croniter : LeastAfter host instants) (e : (ticks host).Execution) (id : ScheduleId) :
    (∀ i, i < e.length → Spared id (e.state i) (e.state (i + 1)) ∨
      ∃ f, f.scheduleId = id ∧ (∃ c clocks ids, e.label i = .commit c clocks ids) ∧
        Fired instants f (e.state i) (e.state (i + 1))) ∧
    (∀ k, k ≤ e.length → Once (firedOf id (e.state k).fired)) ∧
    (∀ i c clocks ids, i < e.length → e.label i = .commit c clocks ids →
      ∃ b start, b < i ∧ ScanningSince e b i c start ∧
        ((∀ m, b < m → m < i → e.label m ≠ .skip c id) →
          (runsOf id (e.state (i + 1)).db).length = (runsOf id (e.state i).db).length +
            if dueIn start id (e.state b).db && dueIn start id (e.state i).db then 1 else 0) ∧
        ((∃ m, b < m ∧ m < i ∧ e.label m = .skip c id) →
          runsOf id (e.state (i + 1)).db = runsOf id (e.state i).db)) ∧
    (∀ i c clocks ids, i < e.length → e.label i ≠ .raise c clocks ids) ∧
    ∀ k, k ≤ e.length → Corresponds (e.state k).db id (firedOf id (e.state k).fired) := by
  have history : ∀ k, k ≤ e.length → History host (e.state k).db (e.state k).fired :=
    fun k hk => history_of_reachable croniter.strict (e.reachable hk)
  refine ⟨fun i hi => ?_, fun k hk => (history k hk).once croniter.strict id,
    fun i c clocks ids hi label => ?_, fun i c clocks ids hi label => ?_,
    fun k hk => (history k hk).corresponds id⟩
  · exact step_schedule croniter (scans_of_reachable (e.reachable hi.le))
      (writes_of_reachable (e.reachable hi.le)) (e.next i hi) id
  · obtain ⟨b, start, hb, since, adds⟩ := tick_adds e hi label
    exact ⟨b, start, hb, since, adds id⟩
  · have next := e.next i hi
    rw [label] at next
    exact not_raise croniter (scans_of_reachable (e.reachable hi.le)) (history i hi.le) next

/-! ### A schedule that is being enabled -/

section Enabling

/-- `croniter` on the expression of every five minutes. -/
def fiveHost : Host where
  isValid _ := true
  getNext _ _ t := some ((t / fiveMinutes + 1) * fiveMinutes)
  repr expr := expr

def fiveInstants (_ _ : Text) : Set Time := {v | fiveMinutes ∣ v}

theorem fiveHost_leastAfter : LeastAfter fiveHost fiveInstants := by
  intro expr tz
  refine .inr fun t => ⟨_, rfl, ⟨Dvd.intro_left _ rfl, Int.lt_ediv_add_one_mul_self t (by decide)⟩,
    ?_⟩
  rintro v ⟨⟨k, rfl⟩, later⟩
  have five : (0 : Int) < fiveMinutes := by decide
  rw [mul_comm fiveMinutes k] at later ⊢
  exact Int.mul_le_mul_of_nonneg_right (Int.ediv_lt_of_lt_mul five later) five.le

/-- `POST /schedules`, which enables the schedule when it is there. -/
def createDigest : Op :=
  .createSchedule fiveHost 0 digestRegistry ↑"s" ↑"digest" everyFiveExpr utc []

def atFirst : State := ⟨Db.empty, 0, fun _ => none, fun _ => .idle, []⟩
def creating : State := atFirst.goto 0 (.writing 0 createDigest)
def created : State := (creating.write (createDigest.after 0 creating.db)).release 0
def fiveLater : State := { created with now := fiveMinutes }
def enabling : State := fiveLater.goto 1 (.writing fiveMinutes createDigest)
def grabbed : State := enabling.hold ↑"s" 1
def beganOne : State := grabbed.goto 0 (.begun fiveMinutes)
def theRow : Schedule := (created.db.schedules.find? ↑"s").get (by decide +kernel)
def selectedOne : State := beganOne.goto 0 (.scanning fiveMinutes [theRow] [])
def skippedOne : State := selectedOne.goto 0 (.scanning fiveMinutes [] [])
def committedOne : State := ((skippedOne.write skippedOne.db).record []).release 0
def enabled : State := (committedOne.write
  (createDigest.after fiveMinutes committedOne.db)).release 1
def beganTwo : State := enabled.goto 0 (.begun fiveMinutes)
def selectedTwo : State := beganTwo.goto 0 (.scanning fiveMinutes [theRow] [])
def lockedTwo : State := (selectedTwo.hold ↑"s" 0).goto 0 (.scanning fiveMinutes [] [theRow])
def digestFiring : Firing := ⟨theRow, [], fiveMinutes, fiveMinutes, 2 * fiveMinutes⟩
def committedTwo : State :=
  ((lockedTwo.write
    ((fireAll fiveHost fiveMinutes (fun _ => fiveMinutes) numberedIds [theRow]).after
      lockedTwo.db)).record [digestFiring]).release 0

/-- A tick comes while the schedule, which is due, is being enabled once more; another comes
after that. -/
def twoTicks : (ticks fiveHost).Execution where
  length := 14
  state i := [atFirst, creating, created, fiveLater, enabling, grabbed, beganOne, selectedOne,
    skippedOne, committedOne, enabled, beganTwo, selectedTwo, lockedTwo].getD i committedTwo
  label i := [.start 0 createDigest, .finish 0, .pass fiveMinutes, .start 1 createDigest,
    .grab 1 ↑"s", .begin 0, .select 0, .skip 0 ↑"s",
    .commit 0 (fun _ => fiveMinutes) numberedIds, .finish 1, .begin 0, .select 0,
    .lock 0 ↑"s"].getD i (.commit 0 (fun _ => fiveMinutes) numberedIds)
  start := ⟨rfl, fun _ => rfl, fun _ => rfl, rfl⟩
  next i hi := by
    interval_cases i
    · exact .start rfl rfl
    · exact .finish (show creating.call 0 = .writing 0 createDigest from rfl)
        fun id d held => by cases held
    · exact .pass (by decide)
    · exact .start rfl rfl
    · exact .grab (show enabling.call 1 = .writing fiveMinutes createDigest from rfl)
        (by rfl) rfl
    · exact .begin rfl
    · exact .select (show beganOne.call 0 = .begun fiveMinutes from rfl)
    · exact .skip (show selectedOne.call 0 = .scanning fiveMinutes [theRow] [] from rfl)
        (show theRow ∈ [theRow] from List.mem_singleton.mpr rfl)
        (show selectedOne.holder ↑"s" = some 1 from rfl) (by decide)
    · exact .commit (show skippedOne.call 0 = .scanning fiveMinutes [] [] from rfl)
        ⟨fun _ => rfl, numberedIds_distinct⟩ (fun _ => ⟨le_rfl, le_rfl⟩) rfl rfl
    · exact .finish (show committedOne.call 1 = .writing fiveMinutes createDigest from rfl)
        fun id d held other => by rfl
    · exact .begin rfl
    · exact .select (show beganTwo.call 0 = .begun fiveMinutes from rfl)
    · exact .lock (show selectedTwo.call 0 = .scanning fiveMinutes [theRow] [] from rfl)
        (show theRow ∈ [theRow] from List.mem_singleton.mpr rfl) (by rfl)
    · exact .commit (show lockedTwo.call 0 = .scanning fiveMinutes [] [theRow] from rfl)
        ⟨fun _ => rfl, numberedIds_distinct⟩ (fun _ => ⟨le_rfl, le_rfl⟩) (by rfl) (by rfl)

/-- The schedule is due from the snapshot to the commit, and no other tick has its lock. -/
structure Unhindered (e : (ticks host).Execution) (b i : Nat) (c : Call) (start : Time)
    (id : ScheduleId) : Prop where
  since : ScanningSince e b i c start
  due : ∀ m, b ≤ m → m ≤ i → dueIn start id (e.state m).db = true
  unlocked : ∀ m d, b ≤ m → m ≤ i → (e.state m).holder id = some d →
    ∃ now op, (e.state m).call d = .writing now op

/-- The first tick passes over the schedule, although no other tick holds it. -/
theorem enabling_blocks : ¬ ∀ (e : (ticks fiveHost).Execution) (b i : Nat) (c : Call)
    (clocks : Nat → Time) (ids : Nat → RunId) (start : Time) (id : ScheduleId),
    i < e.length → e.label i = .commit c clocks ids → Unhindered e b i c start id →
      (runsOf id (e.state (i + 1)).db).length = (runsOf id (e.state i).db).length + 1 := by
  intro once
  have adds := once twoTicks 6 8 0 (fun _ => fiveMinutes) numberedIds fiveMinutes ↑"s" (by decide)
    rfl
  have unhindered : Unhindered twoTicks 6 8 0 fiveMinutes ↑"s" := by
    refine ⟨⟨rfl, rfl, fun m hbm hmi => ?_⟩, fun m hbm hmi => ?_, fun m d hbm hmi held => ?_⟩
    · interval_cases m
      · exact ⟨_, _, rfl⟩
      · exact ⟨_, _, rfl⟩
    · interval_cases m <;> rfl
    · interval_cases m <;>
        (obtain rfl : 1 = d := Option.some.inj held
         exact ⟨fiveMinutes, createDigest, rfl⟩)
  have same := adds unhindered
  cases same

theorem twoTicks_corresponds : Corresponds committedTwo.db ↑"s" [digestFiring] :=
  (schedules_fire_exactly_once fiveHost fiveInstants fiveHost_leastAfter twoTicks ↑"s").2.2.2.2 14
    le_rfl

end Enabling

end AgenticOctopus.Spine.Ticks
