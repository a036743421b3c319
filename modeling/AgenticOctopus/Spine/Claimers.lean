import AgenticOctopus.Spine.Guarantees

/-!
# Concurrent claims

A claim takes its snapshot, then locks a row, then updates it and commits. The lock goes to
the oldest row that was eligible in the snapshot, that no other claim has locked, and whose
latest version still is eligible: `SKIP LOCKED` passes the locked rows over and does not
wait, and a row that changed since the snapshot is checked again. Every other operation is
one step, and cannot write a row that a claim has locked.
-/
namespace AgenticOctopus.Spine.Claimers
open Foundation

/-- One call of `claim`. -/
abbrev Call := Nat

inductive Phase where
  | idle
  | begun (workerId : WorkerId) (leaseMinutes : Int) (now : Time) (snapshot : List Run)
  | holding (workerId : WorkerId) (leaseMinutes : Int) (now : Time) (runId : RunId)
  | returned (result : Option Run)

structure State where
  db : Db
  holder : RunId → Option Call
  call : Call → Phase

namespace State

variable (s : State)

def goto (c : Call) (phase : Phase) : State := { s with call := Function.update s.call c phase }

def hold (r : RunId) (holder : Option Call) : State :=
  { s with holder := Function.update s.holder r holder }

def write (db : Db) : State := { s with db := db }

@[simp] theorem goto_db (c : Call) (phase : Phase) : (s.goto c phase).db = s.db := rfl
@[simp] theorem goto_holder (c : Call) (phase : Phase) : (s.goto c phase).holder = s.holder := rfl
@[simp] theorem hold_db (r : RunId) (h : Option Call) : (s.hold r h).db = s.db := rfl
@[simp] theorem hold_call (r : RunId) (h : Option Call) : (s.hold r h).call = s.call := rfl
@[simp] theorem write_db (db : Db) : (s.write db).db = db := rfl
@[simp] theorem write_call (db : Db) : (s.write db).call = s.call := rfl

theorem goto_call (c d : Call) (phase : Phase) :
    (s.goto c phase).call d = if d = c then phase else s.call d := Function.update_apply ..

theorem hold_holder (r q : RunId) (h : Option Call) :
    (s.hold r h).holder q = if q = r then h else s.holder q := Function.update_apply ..

end State

inductive Label where
  | begin (c : Call) (workerId : WorkerId) (leaseMinutes : Int) (now : Time)
  /-- `pick` settles ties of `created_at`. -/
  | select (c : Call) (pick : Option RunId)
  | commit (c : Call)
  | other (now : Time) (op : Op)

def IsClaim : Op → Bool
  | .claim .. => true
  | _ => false

/-- The rows that the subselect of this call may lock, as its snapshot has them. -/
def candidates (s : State) (now : Time) (snapshot : List Run) : List Run :=
  snapshot.filter fun run =>
    Queue.eligible now run && (s.holder run.id).isNone &&
      (s.db.runs.find? run.id).any (Queue.eligible now)

/-- The pick is the oldest candidate, or there is none. -/
def Picks (rows : List Run) : Option RunId → Prop
  | none => rows = []
  | some r => ∃ run ∈ rows, run.id = r ∧ ∀ other ∈ rows, run.createdAt ≤ other.createdAt

/-- The operation leaves the locked rows alone. -/
def RespectsLocks (s : State) (db : Db) : Prop :=
  ∀ r, (s.holder r).isSome → db.runs.find? r = s.db.runs.find? r

inductive Step (s : State) : Label → State → Prop where
  | begin {c workerId leaseMinutes now} (idle : s.call c = .idle) :
      Step s (.begin c workerId leaseMinutes now)
        (s.goto c (.begun workerId leaseMinutes now s.db.runs.rows))
  | pass {c workerId leaseMinutes now snapshot}
      (begun : s.call c = .begun workerId leaseMinutes now snapshot)
      (empty : Picks (candidates s now snapshot) none) :
      Step s (.select c none) (s.goto c (.returned none))
  | lock {c r workerId leaseMinutes now snapshot}
      (begun : s.call c = .begun workerId leaseMinutes now snapshot)
      (picks : Picks (candidates s now snapshot) (some r)) :
      Step s (.select c (some r))
        ((s.hold r (some c)).goto c (.holding workerId leaseMinutes now r))
  | commit {c r workerId leaseMinutes now run result db}
      (holding : s.call c = .holding workerId leaseMinutes now r)
      (latest : s.db.runs.find? r = some run)
      (ran : (Queue.claimRun now run workerId leaseMinutes).run s.db = .ok (result, db)) :
      Step s (.commit c) (((s.write db).hold r none).goto c (.returned (some result)))
  | other {now op} (noClaim : IsClaim op = false) (respects : RespectsLocks s (op.after now s.db)) :
      Step s (.other now op) (s.write (op.after now s.db))

/-- Any number of claims among any other operations, from an empty database. -/
def claimers : Machine State Label where
  start s := s.db = Db.empty ∧ (∀ r, s.holder r = none) ∧ ∀ c, s.call c = .idle
  step := Step

/-! ## Locks and latest versions -/

theorem eligible_iff {now : Time} {run : Run} :
    Queue.eligible now run = true ↔ run.status = .queued ∧ run.availableAt ≤ now := by
  simp [Queue.eligible]

theorem mem_candidates {s : State} {now : Time} {snapshot : List Run} {run : Run} :
    run ∈ candidates s now snapshot ↔
      run ∈ snapshot ∧ Queue.eligible now run = true ∧ s.holder run.id = none ∧
        ∃ latest, s.db.runs.find? run.id = some latest ∧ Queue.eligible now latest = true := by
  simp only [candidates, List.mem_filter, Bool.and_eq_true, Option.isNone_iff_eq_none,
    Option.any_eq_true, and_assoc]

/-- A row is locked by the claim that holds it, and stays eligible while it is. -/
structure Locked (s : State) : Prop where
  holder : ∀ r c, s.holder r = some c ↔ ∃ w l now, s.call c = .holding w l now r
  eligible : ∀ c w l now r, s.call c = .holding w l now r →
    ∃ run, s.db.runs.find? r = some run ∧ Queue.eligible now run = true

/-- What a commit does: a claim of the row that it holds. -/
theorem commit_acts {s : State} (locked : Locked s) {c : Call} {r : RunId} {w : WorkerId} {l : Int}
    {now : Time} {run result : Run} {db : Db} (holding : s.call c = .holding w l now r)
    (latest : s.db.runs.find? r = some run)
    (ran : (Queue.claimRun now run w l).run s.db = .ok (result, db)) :
    result.id = r ∧ db.runs.find? r = some result ∧ s.db.Acts db r (.claim w) := by
  obtain ⟨_, is, elig⟩ := locked.eligible c w l now r holding
  rw [latest] at is
  cases is
  obtain rfl : run.id = r := Table.key_of_find? latest
  obtain ⟨rfl, after, acts⟩ := Queue.claimRun_acts latest (eligible_iff.mp elig).1 ran
  exact ⟨rfl, after, acts⟩

/-- A change of phase that neither begins nor ends a hold. -/
theorem Locked.goto {s : State} (locked : Locked s) {c : Call} {phase : Phase}
    (before : ∀ w l now r, s.call c ≠ .holding w l now r)
    (after : ∀ w l now r, phase ≠ .holding w l now r) : Locked (s.goto c phase) := by
  refine ⟨fun r d => ?_, fun d w l now r holding => ?_⟩
  · rw [State.goto_holder, locked.holder, State.goto_call]
    split_ifs with hd
    · subst hd
      simp [before, after]
    · rfl
  · rw [State.goto_call] at holding
    split_ifs at holding with hd
    · exact (after w l now r holding).elim
    · exact locked.eligible d w l now r holding

theorem locked_step {s t : State} {l : Label} (locked : Locked s) (h : Step s l t) : Locked t := by
  cases h with
  | begin idle => exact locked.goto (by simp [idle]) (by simp)
  | pass begun => exact locked.goto (by simp [begun]) (by simp)
  | @lock c r workerId lease now snapshot begun picks =>
    obtain ⟨run, candidate, rfl, -⟩ := picks
    obtain ⟨-, -, free, latest, there, elig⟩ := mem_candidates.mp candidate
    refine ⟨fun q d => ?_, fun d w l' now' q holding => ?_⟩
    · rw [State.goto_holder, State.hold_holder, State.goto_call]
      by_cases hq : q = run.id
      · subst hq
        by_cases hd : d = c
        · subst hd
          simp
        · have other : ¬ s.holder run.id = some d := by simp [free]
          rw [locked.holder] at other
          simpa [hd, Ne.symm hd] using other
      · by_cases hd : d = c
        · subst hd
          have other := locked.holder q d
          rw [begun] at other
          simp only [reduceCtorEq, exists_false, iff_false] at other
          simp [hq, Ne.symm hq, other]
        · simp [hq, hd, locked.holder]
    · rw [State.goto_call] at holding
      split_ifs at holding with hd
      · cases holding
        exact ⟨latest, there, elig⟩
      · exact locked.eligible d w l' now' q holding
  | @commit c r workerId lease now run result db holding latest ran =>
    obtain ⟨-, -, acts⟩ := commit_acts locked holding latest ran
    have mine : s.holder r = some c := (locked.holder r c).mpr ⟨_, _, _, holding⟩
    have apart : ∀ d w l' now' q, d ≠ c → s.call d = .holding w l' now' q → q ≠ r := by
      rintro d w l' now' q hd held rfl
      have yours := (locked.holder q d).mpr ⟨w, l', now', held⟩
      rw [mine] at yours
      exact hd (Option.some.inj yours).symm
    refine ⟨fun q d => ?_, fun d w l' now' q held => ?_⟩
    · rw [State.goto_holder, State.hold_holder, State.goto_call]
      by_cases hd : d = c
      · subst hd
        simp only [if_true, reduceCtorEq, exists_false, iff_false]
        split_ifs with hq
        · simp
        · intro held
          obtain ⟨w, l', now', held⟩ := (locked.holder q d).mp held
          rw [holding] at held
          cases held
          exact hq rfl
      · rw [if_neg hd, State.hold_call, State.write_call]
        split_ifs with hq
        · subst hq
          simp only [false_iff]
          rintro ⟨w, l', now', held⟩
          exact apart d w l' now' q hd held rfl
        · exact locked.holder q d
    · rw [State.goto_call] at held
      split_ifs at held with hd
      obtain ⟨run', there, elig⟩ := locked.eligible d w l' now' q held
      have kept := acts.2 q (apart d w l' now' q hd held)
      exact ⟨run', (congrArg Dossier.row kept).trans there, elig⟩
  | @other now op noClaim respects =>
    refine ⟨locked.holder, fun c w l' now' r holding => ?_⟩
    obtain ⟨run, there, elig⟩ := locked.eligible c w l' now' r holding
    have held : (s.holder r).isSome := by
      rw [(locked.holder r c).mpr ⟨w, l', now', holding⟩]
      rfl
    exact ⟨run, (respects r held).trans there, elig⟩

theorem locked {s : State} (h : claimers.Reachable s) : Locked s :=
  h.invariant (P := Locked)
    (fun s start => ⟨fun r c => by simp [start.2.1, start.2.2], fun c w l now r holding => by
      rw [start.2.2 c] at holding
      cases holding⟩)
    fun _ _ _ _ inv step => locked_step inv step

end AgenticOctopus.Spine.Claimers
