import AgenticOctopus.Spine.TickGuarantees

/-!
# What a posted schedule does

`POST /schedules` inserts a row with what it was asked for. Where the agent already has a row
with that expression, it enables this row and leaves the rest of it, so the next firing is
that of the row which was there.
-/
namespace AgenticOctopus.Spine.Ticks
open Foundation Scheduler

/-- The steps of the ticks from any database, among calls that are already under way. -/
def onwards (host : Host) : Machine State Label where
  start s := Scans s ∧ Writes host s
  step := Step host

variable {host : Host} {s t : State} {l : Label}

theorem scans_onwards (h : (onwards host).Reachable s) : Scans s ∧ Writes host s :=
  h.invariant (P := fun s => Scans s ∧ Writes host s) (fun _ start => start)
    fun _ _ _ _ both step => ⟨scans_step both.1 step, writes_step both.2 step⟩

/-- The body of `POST /schedules`, with the clock that is read, the registry of the API and the
id that an insert draws. -/
structure Post where
  clock : Time
  registry : Registry
  id : ScheduleId
  agent : Text
  cronExpr : Text
  timezone : Text
  params : Dict Text Json

namespace Post

variable (p : Post)

def op (host : Host) : Op :=
  .createSchedule host p.clock p.registry p.id p.agent p.cronExpr p.timezone p.params

def block (host : Host) (now : Time) : Block ScheduleId :=
  createSchedule host now p.clock p.registry p.id p.agent p.cronExpr p.timezone p.params

/-- The row that the request inserts. -/
def row (now nextRunAt : Time) : Schedule where
  id := p.id
  agent := p.agent
  cronExpr := p.cronExpr
  timezone := p.timezone
  params := p.params
  nextRunAt := nextRunAt
  createdAt := now

/-- The row that the request conflicts with. -/
def prior (db : Db) : Option Schedule := db.schedules.rows.find? (sameSchedule p.agent p.cronExpr)

end Post

/-- The row is the one that the request leaves. -/
structure Leaves (host : Host) (p : Post) (db : Db) (x : ScheduleId) (row : Schedule) : Prop where
  enabled : row.enabled = true
  inserted : p.prior db = none → row.params = p.params ∧
    host.getNext p.cronExpr p.timezone p.clock = some row.nextRunAt
  kept : ∀ old, p.prior db = some old → x = old.id ∧ row = { old with enabled := true }

theorem createSchedule_leaves {p : Post} {now : Time} {db db' : Db} {x : ScheduleId}
    (h : (p.block host now).run db = .ok (x, db')) :
    ∃ row, db'.schedules.find? x = some row ∧ Leaves host p db x row := by
  rcases createSchedule_ok h with ⟨old, n, found, rfl, updated⟩ | ⟨next, none, rfl, answer, inserted⟩
  · obtain ⟨-, rfl⟩ := updateSchedules_ok.mp updated
    have there := Table.find?_of_mem (List.mem_of_find?_eq_some found)
    refine ⟨{ old with enabled := true }, ?_, rfl, fun none => ?_, fun old' found' => ?_⟩
    · rw [Table.find?_update_key, if_pos rfl, there]
      rfl
    · rw [Post.prior, found] at none
      cases none
    · rw [Post.prior, found] at found'
      cases found'
      exact ⟨rfl, rfl⟩
  · obtain ⟨fresh, rfl⟩ := insertSchedule_ok inserted
    refine ⟨p.row now next, ?_, rfl, fun _ => ⟨rfl, answer⟩, fun old found => ?_⟩
    · rw [Table.find?_insert]
      exact if_pos rfl
    · rw [Post.prior, none] at found
      cases found

/-! ## The next firing -/

/-- The step is the commit of the request, which answers with the id of a schedule. -/
def Posted (host : Host) (p : Post) (s : State) (l : Label) (x : ScheduleId) : Prop :=
  ∃ c now db, l = .finish c ∧ s.call c = .writing now (p.op host) ∧
    (p.block host now).run s.db = .ok (x, db)

theorem Posted.leaves {p : Post} {x : ScheduleId} (posted : Posted host p s l x)
    (h : Step host s l t) :
    ∃ row, t.db.schedules.find? x = some row ∧ Leaves host p s.db x row := by
  obtain ⟨c, now, db, rfl, phase, ran⟩ := posted
  cases h with
  | finish writing respects =>
    cases phase.symm.trans writing
    have after : (p.op host).after now s.db = db := by
      have block : ((p.op host).block now).run s.db = .ok ((), db) :=
        Txn.run_bind_of_ok ran
      rw [Op.after, Txn.after, Txn.commit_ok block]
    rw [State.release_db, State.write_db, after]
    exact createSchedule_leaves ran

/-- The step commits no operation that writes schedules. -/
def Quiet (s : State) (l : Label) : Prop :=
  ∀ c now op, l = .finish c → s.call c = .writing now op → op.IsScheduling = false

theorem row_kept (scans : Scans s) (h : Step host s l t) (quiet : Quiet s l) {x : ScheduleId}
    (unfired : firedOf x t.fired = firedOf x s.fired) :
    t.db.schedules.find? x = s.db.schedules.find? x := by
  cases h with
  | @commit c start due clocks ids fs n db scanning fresh shared computed ran =>
    have ready := ready_of_commit scans scanning shared computed
    have fires := fires_of_fireAll (scans c start [] due scanning).nodup computed ran
    rcases ready.turn x with ⟨f, mem, rfl, once⟩ | ⟨apart, -⟩
    · have longer := (firedOf_append f.scheduleId s.fired fs).symm.trans unfired
      rw [once] at longer
      simp at longer
    · exact fires.others x apart
  | @finish c now op writing respects =>
    have same := (Op.leaves_schedules now (quiet c now op rfl writing)).after s.db
    exact congrArg (fun schedules => schedules.find? x) same
  | _ => rfl

/-- The firing at step `j` is the first of the schedule after step `i`, and nothing but ticks has
written schedules in between. -/
structure Follows (e : (onwards host).Execution) (i j : Nat) (x : ScheduleId) (f : Firing) :
    Prop where
  later : i < j
  inside : j < e.length
  alone : ∀ k, i < k → k < j → Quiet (e.state k) (e.label k)
  first : ∀ k, i < k → k < j →
    firedOf x (e.state (k + 1)).fired = firedOf x (e.state k).fired
  fires : firedOf x (e.state (j + 1)).fired = firedOf x (e.state j).fired ++ [f]

theorem Follows.row {e : (onwards host).Execution} {i j : Nat} {x : ScheduleId} {f : Firing}
    (follows : Follows e i j x f) {row : Schedule}
    (there : (e.state (i + 1)).db.schedules.find? x = some row) :
    (e.state j).db.schedules.find? x = some row := by
  refine e.persists (P := fun s => s.db.schedules.find? x = some row) follows.later
    (fun k hik hkj same => ?_) there
  have hk : k < e.length := hkj.trans follows.inside
  rw [row_kept (scans_onwards (e.reachable hk.le)).1 (e.next k hk) (follows.alone k hik hkj)
    (follows.first k hik hkj)]
  exact same

/-- What the run of the next firing carries, and when it is enqueued at the earliest. -/
structure FiresFrom (instants : Text → Text → Set Time) (p : Post) (db : Db) (r : Run) :
    Prop where
  inserted : p.prior db = none → r.params = p.params ∧
    ∃ first, IsLeast {v | v ∈ instants p.cronExpr p.timezone ∧ p.clock < v} first ∧
      first ≤ r.createdAt
  kept : ∀ old, p.prior db = some old → r.params = old.params ∧ old.nextRunAt ≤ r.createdAt

/-- A schedule that is posted is enabled in its row, and every firing that follows undisturbed adds
the run of that post: a new row with the post's parameters from its first instant on, a row that was
there with its own, from the instant it had kept. -/
theorem posted_schedule_fires (host : Host) (instants : Text → Text → Set Time)
    (croniter : LeastAfter host instants) (e : (onwards host).Execution) {i : Nat}
    (hi : i < e.length) {p : Post} {x : ScheduleId}
    (posted : Posted host p (e.state i) (e.label i) x) :
    (∃ row, (e.state (i + 1)).db.schedules.find? x = some row ∧ row.enabled = true) ∧
    (∀ old, p.prior (e.state i).db = some old → x = old.id) ∧
    ∀ j f, Follows e i j x f →
      (∃ row, (e.state j).db.schedules.find? x = some row ∧ row.enabled = true) ∧
      runsOf x (e.state (j + 1)).db = runsOf x (e.state j).db ++ [f.run] ∧
      FiresFrom instants p (e.state i).db f.run := by
  obtain ⟨row, there, leaves⟩ := posted.leaves (e.next i hi)
  refine ⟨⟨row, there, leaves.enabled⟩, fun old found => (leaves.kept old found).1,
    fun j f follows => ?_⟩
  have still := follows.row there
  obtain ⟨scans, writes⟩ := scans_onwards (e.reachable follows.inside.le)
  rcases step_schedule croniter scans writes (e.next j follows.inside) x with
    spared | ⟨g, rfl, -, fired⟩
  · have none := follows.fires.symm.trans spared.fired
    simp at none
  · obtain rfl : g = f := by
      have same := fired.fired.symm.trans follows.fires
      simpa using same
    obtain rfl : g.schedule = row := Option.some.inj (fired.before.symm.trans still)
    refine ⟨⟨g.schedule, still, leaves.enabled⟩, fired.runs, fun none => ?_, fun old found => ?_⟩
    · obtain ⟨params, answer⟩ := leaves.inserted none
      exact ⟨params, g.schedule.nextRunAt, croniter.isLeast answer, fired.due.2⟩
    · have row := (leaves.kept old found).2
      have params := congrArg Schedule.params row
      have due := fired.due.2
      rw [row] at due
      exact ⟨params, due⟩

/-! ### A schedule that is posted again -/

section PostedAgain

def sixMinutes : Time := fiveMinutes + 60000000

/-- A disabled schedule, whose next instant has passed. -/
def staleDb : Db := (Op.toggleSchedule ↑"s").after 0 (createDigest.after 0 Db.empty)

def topicPost : Post where
  clock := sixMinutes
  registry := digestRegistry
  id := ↑"t"
  agent := ↑"digest"
  cronExpr := everyFiveExpr
  timezone := utc
  params := [(↑"topic", .str ↑"k8s")]

def stale : State := ⟨staleDb, sixMinutes, fun _ => none, fun _ => .idle, []⟩
def posting : State := stale.goto 0 (.writing sixMinutes (topicPost.op fiveHost))
def reenabled : State :=
  (posting.write ((topicPost.op fiveHost).after sixMinutes posting.db)).release 0
def beganSix : State := reenabled.goto 0 (.begun sixMinutes)
def oldRow : Schedule := (reenabled.db.schedules.find? ↑"s").get (by decide +kernel)
def selectedSix : State := beganSix.goto 0 (.scanning sixMinutes [oldRow] [])
def lockedSix : State := (selectedSix.hold ↑"s" 0).goto 0 (.scanning sixMinutes [] [oldRow])
def oldFiring : Firing := ⟨oldRow, [], sixMinutes, sixMinutes, 2 * fiveMinutes⟩
def committedSix : State :=
  ((lockedSix.write
    ((fireAll fiveHost sixMinutes (fun _ => sixMinutes) numberedIds [oldRow]).after
      lockedSix.db)).record [oldFiring]).release 0

/-- The schedule is posted with a topic, and a tick comes right after that. -/
def postedAgain : (onwards fiveHost).Execution where
  length := 6
  state i := [stale, posting, reenabled, beganSix, selectedSix, lockedSix].getD i committedSix
  label i := [.start 0 (topicPost.op fiveHost), .finish 0, .begin 0, .select 0, .lock 0 ↑"s"].getD i
    (.commit 0 (fun _ => sixMinutes) numberedIds)
  start := show Scans stale ∧ Writes fiveHost stale from
    ⟨fun _ _ _ _ scanning => (by cases scanning), fun _ _ _ writing => (by cases writing)⟩
  next i hi := by
    interval_cases i
    · exact .start rfl rfl
    · exact .finish (show posting.call 0 = .writing sixMinutes (topicPost.op fiveHost) from rfl)
        fun id d held => by cases held
    · exact .begin rfl
    · exact .select (show beganSix.call 0 = .begun sixMinutes from rfl)
    · exact .lock (show selectedSix.call 0 = .scanning sixMinutes [oldRow] [] from rfl)
        (show oldRow ∈ [oldRow] from List.mem_singleton.mpr rfl) (by rfl)
    · exact .commit (show lockedSix.call 0 = .scanning sixMinutes [] [oldRow] from rfl)
        ⟨fun _ => rfl, numberedIds_distinct⟩ (fun _ => ⟨le_rfl, le_rfl⟩) (by rfl) (by rfl)

theorem postedAgain_posted :
    Posted fiveHost topicPost (postedAgain.state 1) (postedAgain.label 1) ↑"s" :=
  ⟨0, sixMinutes, reenabled.db, rfl, rfl, rfl⟩

theorem postedAgain_follows : Follows postedAgain 1 5 ↑"s" oldFiring where
  later := by decide
  inside := by decide
  alone k hik hkj := by
    intro c now op finish
    interval_cases k <;> cases finish
  first k hik hkj := by interval_cases k <;> rfl
  fires := rfl

/-- The run that is enqueued has no topic, and comes four minutes before the next instant. -/
theorem postedAgain_keeps_old : ¬ ∀ (e : (onwards fiveHost).Execution) (i j : Nat) (p : Post)
    (x : ScheduleId) (f : Firing), i < e.length →
      Posted fiveHost p (e.state i) (e.label i) x → Follows e i j x f →
        f.run.params = p.params ∧
          ∃ first, IsLeast {v | v ∈ fiveInstants p.cronExpr p.timezone ∧ p.clock < v} first ∧
            first ≤ f.run.createdAt := by
  intro behaves
  obtain ⟨params, -⟩ := behaves postedAgain 1 5 topicPost ↑"s" oldFiring (by decide)
    postedAgain_posted postedAgain_follows
  cases params

theorem postedAgain_fires : FiresFrom fiveInstants topicPost staleDb oldFiring.run :=
  ((posted_schedule_fires fiveHost fiveInstants fiveHost_leastAfter postedAgain (i := 1) (by decide)
    postedAgain_posted).2.2 5 oldFiring postedAgain_follows).2.2

end PostedAgain

end AgenticOctopus.Spine.Ticks
