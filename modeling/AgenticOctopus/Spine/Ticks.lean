import AgenticOctopus.Spine.Tending

/-!
# Concurrent ticks

A tick begins its transaction, which fixes its `now()`; takes the snapshot of the due rows;
visits each of them, where it passes over a row that another call has locked and else locks
it and reads its latest version; and fires in one commit the rows that still are due. Any
other operation may hold the row that it updates for a while before it commits, and waits
for the rows that are locked. One clock is read by all and never goes back; the firings that
were committed are kept as a history.
-/
namespace AgenticOctopus.Spine.Ticks
open Foundation Scheduler

/-- One call of `tick` or of another operation. -/
abbrev Call := Nat

inductive Phase where
  | idle
  | begun (start : Time)
  | scanning (start : Time) (rest due : List Schedule)
  | writing (now : Time) (op : Op)

structure State where
  db : Db
  now : Time
  holder : ScheduleId → Option Call
  call : Call → Phase
  fired : List Firing

namespace State

variable (s : State)

def goto (c : Call) (phase : Phase) : State := { s with call := Function.update s.call c phase }

def hold (id : ScheduleId) (c : Call) : State :=
  { s with holder := Function.update s.holder id (some c) }

def write (db : Db) : State := { s with db := db }

def record (fs : List Firing) : State := { s with fired := s.fired ++ fs }

/-- The end of a transaction. -/
def release (c : Call) : State :=
  { s with
    holder := fun id => if s.holder id = some c then none else s.holder id
    call := Function.update s.call c .idle }

@[simp] theorem goto_db (c : Call) (phase : Phase) : (s.goto c phase).db = s.db := rfl
@[simp] theorem goto_holder (c : Call) (phase : Phase) : (s.goto c phase).holder = s.holder := rfl
@[simp] theorem hold_db (id : ScheduleId) (c : Call) : (s.hold id c).db = s.db := rfl
@[simp] theorem hold_call (id : ScheduleId) (c : Call) : (s.hold id c).call = s.call := rfl
@[simp] theorem write_db (db : Db) : (s.write db).db = db := rfl
@[simp] theorem release_db (c : Call) : (s.release c).db = s.db := rfl

theorem goto_call (c d : Call) (phase : Phase) :
    (s.goto c phase).call d = if d = c then phase else s.call d := Function.update_apply ..

theorem hold_holder (id q : ScheduleId) (c : Call) :
    (s.hold id c).holder q = if q = id then some c else s.holder q := Function.update_apply ..

theorem release_call (c d : Call) :
    (s.release c).call d = if d = c then .idle else s.call d := Function.update_apply ..

theorem release_holder (c : Call) (id : ScheduleId) :
    (s.release c).holder id = if s.holder id = some c then none else s.holder id := rfl

end State

inductive Label where
  | pass (now : Time)
  | begin (c : Call)
  | select (c : Call)
  | skip (c : Call) (id : ScheduleId)
  | lock (c : Call) (id : ScheduleId)
  /-- The readings of the host's clock and the run ids are those of `fireAll`. -/
  | commit (c : Call) (clocks : Nat → Time) (ids : Nat → RunId)
  | raise (c : Call) (clocks : Nat → Time) (ids : Nat → RunId)
  /-- The worker dies or loses its connection. -/
  | fail (c : Call)
  | start (c : Call) (op : Op)
  | grab (c : Call) (id : ScheduleId)
  | finish (c : Call)

def Label.call : Label → Option Call
  | .pass _ => none
  | .begin c | .select c | .skip c _ | .lock c _ | .commit c _ _ | .raise c _ _ | .fail c
  | .start c _ | .grab c _ | .finish c => some c

/-- Enabled and due at the start of a tick. -/
def isDue (start : Time) : Schedule → Bool := due start fun _ => false

def unvisited (id : ScheduleId) (rest : List Schedule) : List Schedule :=
  rest.filter fun row => row.id ≠ id

/-- The latest version of the row, if it still is due. -/
def latest (db : Db) (start : Time) (id : ScheduleId) : List Schedule :=
  (db.schedules.find? id).toList.filter (isDue start)

/-- The row that the statement of an operation updates, and so locks. -/
def Updates (db : Db) : Op → ScheduleId → Prop
  | .toggleSchedule scheduleId, id => id = scheduleId
  | .createSchedule _ _ _ _ agent cronExpr _ _, id =>
    (db.schedules.rows.find? (sameSchedule agent cronExpr)).map Schedule.id = some id
  | _, _ => False

/-- The call leaves alone the rows that others have locked. -/
def RespectsLocks (s : State) (c : Call) (db : Db) : Prop :=
  ∀ id d, s.holder id = some d → d ≠ c → db.schedules.find? id = s.db.schedules.find? id

inductive Step (host : Host) (s : State) : Label → State → Prop where
  | pass {now} (later : s.now ≤ now) : Step host s (.pass now) { s with now := now }
  | begin {c} (idle : s.call c = .idle) : Step host s (.begin c) (s.goto c (.begun s.now))
  | select {c start} (begun : s.call c = .begun start) :
      Step host s (.select c)
        (s.goto c (.scanning start (s.db.schedules.rows.filter (isDue start)) []))
  | skip {c start rest due row d} (scanning : s.call c = .scanning start rest due)
      (mem : row ∈ rest) (locked : s.holder row.id = some d) (other : d ≠ c) :
      Step host s (.skip c row.id) (s.goto c (.scanning start (unvisited row.id rest) due))
  | lock {c start rest due row} (scanning : s.call c = .scanning start rest due)
      (mem : row ∈ rest) (free : s.holder row.id = none) :
      Step host s (.lock c row.id)
        ((s.hold row.id c).goto c
          (.scanning start (unvisited row.id rest) (due ++ latest s.db start row.id)))
  | commit {c start due clocks ids fs n db} (scanning : s.call c = .scanning start [] due)
      (fresh : FreshIds s.db ids) (shared : ∀ i, start ≤ clocks i ∧ clocks i ≤ s.now)
      (computed : firings host start clocks ids due = some fs)
      (ran : (fireAll host start clocks ids due).run s.db = .ok (n, db)) :
      Step host s (.commit c clocks ids)
        (((s.write db).record fs).release c)
  | raise {c start due clocks ids e} (scanning : s.call c = .scanning start [] due)
      (fresh : FreshIds s.db ids) (shared : ∀ i, start ≤ clocks i ∧ clocks i ≤ s.now)
      (raised : (fireAll host start clocks ids due).run s.db = .error e) :
      Step host s (.raise c clocks ids) (s.release c)
  | fail {c} : Step host s (.fail c) (s.release c)
  | start {c op} (idle : s.call c = .idle) (other : OtherThanTick host op) :
      Step host s (.start c op) (s.goto c (.writing s.now op))
  | grab {c now op id} (writing : s.call c = .writing now op) (updates : Updates s.db op id)
      (free : s.holder id = none) : Step host s (.grab c id) (s.hold id c)
  | finish {c now op} (writing : s.call c = .writing now op)
      (respects : RespectsLocks s c (op.after now s.db)) :
      Step host s (.finish c) ((s.write (op.after now s.db)).release c)

/-- Any number of ticks among any other operations, from an empty database. -/
def ticks (host : Host) : Machine State Label where
  start s := s.db = Db.empty ∧ (∀ id, s.holder id = none) ∧ (∀ c, s.call c = .idle) ∧ s.fired = []
  step := Step host

variable {host : Host} {s t : State} {l : Label}

theorem other_call (h : Step host s l t) {d : Call} (other : l.call ≠ some d) :
    t.call d = s.call d := by
  cases h with
  | pass | grab => rfl
  | raise | fail =>
    rw [State.release_call, if_neg fun same => other (congrArg some same.symm)]
  | commit | finish =>
    rw [State.release_call, if_neg fun same => other (congrArg some same.symm)]
    rfl
  | lock =>
    rw [State.goto_call, if_neg fun same => other (congrArg some same.symm), State.hold_call]
  | begin | select | skip | start =>
    rw [State.goto_call, if_neg fun same => other (congrArg some same.symm)]

/-! ## Locks -/

/-- What a scanning tick has found: the rows to fire are due and locked by it. -/
structure Scan (s : State) (c : Call) (start : Time) (rest due : List Schedule) : Prop where
  nodup : (due.map Schedule.id).Nodup
  apart : ∀ row ∈ rest, ∀ held ∈ due, row.id ≠ held.id
  holds : ∀ row ∈ due, s.holder row.id = some c ∧ s.db.schedules.find? row.id = some row ∧
    isDue start row = true

def Scans (s : State) : Prop :=
  ∀ c start rest due, s.call c = .scanning start rest due → Scan s c start rest due

theorem mem_unvisited {id : ScheduleId} {rest : List Schedule} {row : Schedule} :
    row ∈ unvisited id rest ↔ row ∈ rest ∧ row.id ≠ id := by
  simp [unvisited]

theorem mem_latest {db : Db} {start : Time} {id : ScheduleId} {row : Schedule} :
    row ∈ latest db start id ↔ db.schedules.find? id = some row ∧ isDue start row = true := by
  simp [latest]

/-- A commit fires the rows that its call holds, and no others. -/
theorem commit_others (scans : Scans s) {c : Call} {start : Time} {due : List Schedule}
    {clocks : Nat → Time} {ids : Nat → RunId} {n : Nat} {db : Db}
    (scanning : s.call c = .scanning start [] due)
    (ran : (fireAll host start clocks ids due).run s.db = .ok (n, db)) {id : ScheduleId}
    (other : s.holder id ≠ some c) : db.schedules.find? id = s.db.schedules.find? id := by
  have scan := scans c start [] due scanning
  obtain ⟨fs, computed, fires, -⟩ := fireAll_ok scan.nodup ran
  refine fires.others id fun f mem same => other ?_
  have row : f.schedule ∈ due := firings_schedules computed ▸ List.mem_map_of_mem mem
  rw [← same]
  exact (scan.holds f.schedule row).1

theorem held_release {u : State} {c d : Call} {id : ScheduleId} (same : u.holder = s.holder)
    (held : s.holder id = some c)
    (row : c ≠ d → u.db.schedules.find? id = s.db.schedules.find? id) :
    (u.release d).call c = .idle ∨ (u.release d).holder id = some c ∧
      (u.release d).db.schedules.find? id = s.db.schedules.find? id := by
  by_cases own : c = d
  · exact .inl (by rw [State.release_call, if_pos own])
  · refine .inr ⟨?_, row own⟩
    rw [State.release_holder, same, held, if_neg fun is => own (Option.some.inj is)]

/-- A locked row stays locked and stays as it is until its call ends. -/
theorem held_step (scans : Scans s) (h : Step host s l t) {id : ScheduleId} {c : Call}
    (held : s.holder id = some c) :
    t.call c = .idle ∨
      t.holder id = some c ∧ t.db.schedules.find? id = s.db.schedules.find? id := by
  cases h with
  | pass | begin | select | skip | start => exact .inr ⟨held, rfl⟩
  | lock scanning mem free =>
    refine .inr ⟨?_, rfl⟩
    rw [State.goto_holder, State.hold_holder, if_neg, held]
    rintro rfl
    rw [free] at held
    cases held
  | grab writing updates free =>
    refine .inr ⟨?_, rfl⟩
    rw [State.hold_holder, if_neg, held]
    rintro rfl
    rw [free] at held
    cases held
  | @commit d start due clocks ids fs n db scanning fresh shared computed ran =>
    exact held_release (u := (s.write db).record fs) rfl held fun other =>
      commit_others scans scanning ran (by rw [held]; exact fun is => other (Option.some.inj is))
  | raise | fail => exact held_release rfl held fun _ => rfl
  | @finish d now op writing respects =>
    exact held_release (u := s.write (op.after now s.db)) rfl held fun other =>
      respects id c held other

theorem scans_step (scans : Scans s) (h : Step host s l t) : Scans t := by
  intro c start rest due scanning
  by_cases own : l.call = some c
  · cases h with
    | pass => cases own
    | begin | start =>
      cases own
      rw [State.goto_call, if_pos rfl] at scanning
      cases scanning
    | commit | raise | fail | finish =>
      cases own
      rw [State.release_call, if_pos rfl] at scanning
      cases scanning
    | grab writing =>
      cases own
      rw [State.hold_call, writing] at scanning
      cases scanning
    | select =>
      cases own
      rw [State.goto_call, if_pos rfl] at scanning
      cases scanning
      exact ⟨List.nodup_nil, fun _ _ _ mem => (List.not_mem_nil mem).elim,
        fun _ mem => (List.not_mem_nil mem).elim⟩
    | skip was =>
      cases own
      rw [State.goto_call, if_pos rfl] at scanning
      cases scanning
      have scan := scans c _ _ _ was
      exact ⟨scan.nodup, fun row mem => scan.apart row (mem_unvisited.mp mem).1, scan.holds⟩
    | @lock _ _ rest' due' row was mem free =>
      cases own
      rw [State.goto_call, if_pos rfl] at scanning
      cases scanning
      have scan := scans c _ _ _ was
      have new : ∀ r ∈ latest s.db start row.id, r.id = row.id := fun r mem_r =>
        Table.key_of_find? (mem_latest.mp mem_r).1
      refine ⟨?_, fun r mem_r held mem_held => ?_, fun r mem_r => ?_⟩
      · rw [List.map_append, List.nodup_append]
        refine ⟨scan.nodup, ?_, ?_⟩
        · rw [latest]
          cases s.db.schedules.find? row.id with
          | none => exact List.nodup_nil
          | some r =>
            rw [Option.toList_some]
            exact ((List.nodup_singleton r.id).sublist (List.filter_sublist.map Schedule.id))
        · rintro _ mem_a _ mem_b rfl
          obtain ⟨a, mem_a, same⟩ := List.mem_map.mp mem_a
          obtain ⟨b, mem_b, is⟩ := List.mem_map.mp mem_b
          exact scan.apart row mem a mem_a ((new b mem_b).symm.trans (is.trans same.symm))
      · obtain ⟨mem_r, other⟩ := mem_unvisited.mp mem_r
        rcases List.mem_append.mp mem_held with mem_held | mem_held
        · exact scan.apart r mem_r held mem_held
        · rw [new held mem_held]
          exact other
      · rw [State.goto_holder, State.hold_holder]
        rcases List.mem_append.mp mem_r with mem_r | mem_r
        · obtain ⟨holder, rest_holds⟩ := scan.holds r mem_r
          rw [if_neg (scan.apart row mem r mem_r).symm]
          exact ⟨holder, rest_holds⟩
        · rw [if_pos (new r mem_r), new r mem_r]
          exact ⟨rfl, mem_latest.mp mem_r⟩
  · rw [other_call h own] at scanning
    have scan := scans c start rest due scanning
    refine ⟨scan.nodup, scan.apart, fun row mem => ?_⟩
    obtain ⟨holder, row_is, is_due⟩ := scan.holds row mem
    rcases held_step scans h holder with idle | ⟨still, same⟩
    · rw [other_call h own, scanning] at idle
      cases idle
    · exact ⟨still, same.trans row_is, is_due⟩

theorem scans_of_reachable (h : (ticks host).Reachable s) : Scans s :=
  h.invariant (P := Scans)
    (fun s start c _ _ _ scanning => by
      rw [start.2.2.1 c] at scanning
      cases scanning)
    fun _ _ _ _ scans step => scans_step scans step

end AgenticOctopus.Spine.Ticks
