import AgenticOctopus.Foundation.Matching
import AgenticOctopus.Spine.ConcurrentClaims

/-!
# Claims that race with nothing else

Between two instants only the given calls move, and all of them would pick from the same
eligible runs. A run belongs to the call that holds it or has returned it; a run that
belongs to nobody stays as it was and is in every snapshot. So no two calls share a run, and
a call goes away with nothing only after every run has an owner.
-/
namespace AgenticOctopus.Spine.Claimers
open Foundation

/-- The run that the call holds or has returned. -/
def Phase.run? : Phase → Option RunId
  | .holding _ _ _ r => some r
  | .returned (some run) => some run.id
  | .idle | .begun .. | .returned none => none

/-- A step of one of the calls, which finds the runs `runs` of `s₀` eligible and no others. -/
def Contends (s₀ : State) (calls : Finset Call) (runs : Finset RunId) : Label → Prop
  | .begin c _ _ now =>
    c ∈ calls ∧ ∀ run ∈ s₀.db.runs, Queue.eligible now run = true ↔ run.id ∈ runs
  | .select c _ | .commit c => c ∈ calls
  | .other .. => False

/-- From step `i` to step `j` these calls, all idle at first and returned in the end, contend
for these runs, and nothing else happens. -/
structure Race (e : claimers.Execution) (i j : Nat) (calls : Finset Call) (runs : Finset RunId) :
    Prop where
  order : i ≤ j
  within : j ≤ e.length
  idle : ∀ c ∈ calls, (e.state i).call c = .idle
  unlocked : ∀ r ∈ runs, (e.state i).holder r = none
  enqueued : ∀ r ∈ runs, ((e.state i).db.runs.find? r).isSome
  alone : ∀ k, i ≤ k → k < j → Contends (e.state i) calls runs (e.label k)
  returned : ∀ c ∈ calls, ∃ result, (e.state j).call c = .returned result

/-- What holds throughout a race that started in `s₀`. -/
structure Shared (s₀ : State) (calls : Finset Call) (runs : Finset RunId) (s : State) : Prop where
  offered : ∀ c ∈ calls, ∀ r, (s.call c).run? = some r → r ∈ runs
  once : ∀ c ∈ calls, ∀ d ∈ calls, ∀ r,
    (s.call c).run? = some r → (s.call d).run? = some r → c = d
  exhausted : ∀ c ∈ calls, s.call c = .returned none →
    ∀ r ∈ runs, ∃ d ∈ calls, (s.call d).run? = some r
  untaken : ∀ r ∈ runs, (∀ d ∈ calls, (s.call d).run? ≠ some r) →
    s.holder r = none ∧ s.db.runs.find? r = s₀.db.runs.find? r
  snapshot : ∀ c ∈ calls, ∀ w lease now rows, s.call c = .begun w lease now rows →
    (∀ run ∈ s₀.db.runs, Queue.eligible now run = true ↔ run.id ∈ runs) ∧
      ∀ run ∈ s₀.db.runs, run.id ∈ runs →
        (∀ d ∈ calls, (s.call d).run? ≠ some run.id) → run ∈ rows
  waiting : ∀ run ∈ s.db.runs, run.status = .queued → run ∈ s₀.db.runs
  out : ∀ c ∈ calls, ∀ run, s.call c = .returned (some run) → Out s.db run.id

namespace Shared

variable {s₀ s : State} {calls : Finset Call} {runs : Finset RunId}

theorem initial (idle : ∀ c ∈ calls, s.call c = .idle) (unlocked : ∀ r ∈ runs, s.holder r = none) :
    Shared s calls runs s := by
  refine ⟨?_, ?_, ?_, fun r hr _ => ⟨unlocked r hr, rfl⟩, ?_, fun run mem _ => mem, ?_⟩
  all_goals
    intro c hc
    simp [idle c hc, Phase.run?]

variable (shared : Shared s₀ calls runs s) (locked : Locked s)
include shared

/-- A call that neither had a run nor gets one. -/
theorem goto {c : Call} {phase : Phase} (before : (s.call c).run? = none)
    (after : phase.run? = none)
    (exhausted : phase = .returned none → ∀ r ∈ runs, ∃ d ∈ calls, (s.call d).run? = some r)
    (snapshot : ∀ w lease now rows, phase = .begun w lease now rows →
      (∀ run ∈ s₀.db.runs, Queue.eligible now run = true ↔ run.id ∈ runs) ∧
        ∀ run ∈ s₀.db.runs, run.id ∈ runs →
          (∀ d ∈ calls, (s.call d).run? ≠ some run.id) → run ∈ rows) :
    Shared s₀ calls runs (s.goto c phase) := by
  have runOf : ∀ d, ((s.goto c phase).call d).run? = (s.call d).run? := by
    intro d
    rw [State.goto_call]
    split_ifs with hd
    · rw [hd, before, after]
    · rfl
  refine ⟨?_, ?_, fun d hd nothing => ?_, ?_, fun d hd w lease now rows begun => ?_,
    shared.waiting, fun d hd run ret => ?_⟩
  · simpa only [runOf] using shared.offered
  · simpa only [runOf] using shared.once
  · rw [State.goto_call] at nothing
    simp only [runOf]
    split_ifs at nothing
    · exact exhausted nothing
    · exact shared.exhausted d hd nothing
  · simpa only [runOf, State.goto_holder, State.goto_db] using shared.untaken
  · simp only [runOf]
    rw [State.goto_call] at begun
    split_ifs at begun
    · exact snapshot w lease now rows begun
    · exact shared.snapshot d hd w lease now rows begun
  · rw [State.goto_call] at ret
    split_ifs at ret
    · rw [ret] at after
      cases after
    · exact shared.out d hd run ret

theorem begin {c : Call} {w : WorkerId} {lease : Int} {now : Time}
    (same : ∀ run ∈ s₀.db.runs, Queue.eligible now run = true ↔ run.id ∈ runs)
    (idle : s.call c = .idle) :
    Shared s₀ calls runs (s.goto c (.begun w lease now s.db.runs.rows)) := by
  refine shared.goto (by rw [idle]; rfl) rfl (fun h => by cases h) ?_
  intro w' lease' now' rows is
  cases is
  refine ⟨same, fun run mem hr free => ?_⟩
  have there := (shared.untaken run.id hr free).2
  rw [Table.find?_of_mem mem] at there
  exact Table.mem_of_find? there

/-- A run that nobody has is a candidate of every call that has its snapshot. -/
theorem candidate (enqueued : ∀ r ∈ runs, (s₀.db.runs.find? r).isSome) {c : Call} {w : WorkerId}
    {lease : Int} {now : Time} {rows : List Run} (hc : c ∈ calls)
    (begun : s.call c = .begun w lease now rows) {r : RunId} (hr : r ∈ runs)
    (free : ∀ d ∈ calls, (s.call d).run? ≠ some r) : ∃ run, run ∈ candidates s now rows := by
  obtain ⟨run, there⟩ := Option.isSome_iff_exists.mp (enqueued r hr)
  obtain rfl : run.id = r := Table.key_of_find? there
  have mem := Table.mem_of_find? there
  obtain ⟨same, held⟩ := shared.snapshot c hc w lease now rows begun
  obtain ⟨unlocked, latest⟩ := shared.untaken run.id hr free
  have elig := (same run mem).mpr hr
  exact ⟨run, mem_candidates.mpr
    ⟨held run mem hr free, elig, unlocked, run, latest.trans there, elig⟩⟩

theorem pass (enqueued : ∀ r ∈ runs, (s₀.db.runs.find? r).isSome) {c : Call} {w : WorkerId}
    {lease : Int} {now : Time} {rows : List Run} (hc : c ∈ calls)
    (begun : s.call c = .begun w lease now rows) (empty : candidates s now rows = []) :
    Shared s₀ calls runs (s.goto c (.returned none)) := by
  refine shared.goto (by rw [begun]; rfl) rfl (fun _ r hr => ?_) fun _ _ _ _ h => by cases h
  by_contra free
  push Not at free
  obtain ⟨run, mem⟩ := shared.candidate enqueued hc begun hr free
  rw [empty] at mem
  cases mem

include locked in
/-- What a call may lock is one of the runs, and nobody has it. -/
theorem unowned {c : Call} {w : WorkerId} {lease : Int} {now : Time} {rows : List Run}
    (hc : c ∈ calls) (begun : s.call c = .begun w lease now rows) {run : Run}
    (candidate : run ∈ candidates s now rows) :
    run.id ∈ runs ∧ ∀ d ∈ calls, (s.call d).run? ≠ some run.id := by
  obtain ⟨-, -, free, latest, there, elig⟩ := mem_candidates.mp candidate
  have key : latest.id = run.id := Table.key_of_find? there
  obtain ⟨queued, -⟩ := eligible_iff.mp elig
  have old := shared.waiting latest (Table.mem_of_find? there) queued
  refine ⟨key ▸ ((shared.snapshot c hc w lease now rows begun).1 latest old).mp elig, ?_⟩
  intro d hd owns
  cases phase : s.call d with
  | idle | begun =>
    rw [phase] at owns
    cases owns
  | holding w' lease' now' r =>
    rw [phase] at owns
    cases owns
    rw [(locked.holder run.id d).mpr ⟨w', lease', now', phase⟩] at free
    cases free
  | returned result =>
    cases result with
    | none =>
      rw [phase] at owns
      cases owns
    | some done =>
      rw [phase] at owns
      obtain ⟨row, there', out⟩ := shared.out d hd done phase
      rw [show done.id = run.id from Option.some.inj owns, there] at there'
      cases there'
      exact out queued

include locked in
theorem lock {c : Call} {w : WorkerId} {lease : Int} {now : Time} {rows : List Run}
    (hc : c ∈ calls) (begun : s.call c = .begun w lease now rows) {run : Run}
    (candidate : run ∈ candidates s now rows) :
    Shared s₀ calls runs ((s.hold run.id (some c)).goto c (.holding w lease now run.id)) := by
  obtain ⟨eligible, unowned⟩ := shared.unowned locked hc begun candidate
  generalize taken : (s.hold run.id (some c)).goto c (.holding w lease now run.id) = t
  have mine : (t.call c).run? = some run.id := by
    rw [← taken, State.goto_call, if_pos rfl]
    rfl
  have others : ∀ d, d ≠ c → t.call d = s.call d := by
    intro d hd
    rw [← taken, State.goto_call, if_neg hd]
    rfl
  have nothing : (s.call c).run? = none := by
    rw [begun]
    rfl
  -- whoever had a run still has it
  have keeps : ∀ d r, (s.call d).run? = some r → (t.call d).run? = some r := by
    intro d r owns
    by_cases hd : d = c
    · rw [hd, nothing] at owns
      cases owns
    · rwa [others d hd]
  have free : ∀ r, (∀ d ∈ calls, (t.call d).run? ≠ some r) →
      r ≠ run.id ∧ ∀ d ∈ calls, (s.call d).run? ≠ some r := by
    intro r free
    refine ⟨?_, fun d hd owns => free d hd (keeps d r owns)⟩
    rintro rfl
    exact free c hc mine
  refine ⟨fun d hd r owns => ?_, fun d hd d' hd' r owns owns' => ?_, fun d hd ret r hr => ?_,
    fun r hr free_ => ?_, fun d hd w' lease' now' rows' begun' => ?_, ?_, fun d hd run' ret => ?_⟩
  · by_cases hdc : d = c
    · rw [hdc, mine] at owns
      cases owns
      exact eligible
    · rw [others d hdc] at owns
      exact shared.offered d hd r owns
  · by_cases hdc : d = c <;> by_cases hdc' : d' = c
    · rw [hdc, hdc']
    · rw [hdc, mine] at owns
      rw [others d' hdc'] at owns'
      cases owns
      exact (unowned d' hd' owns').elim
    · rw [hdc', mine] at owns'
      rw [others d hdc] at owns
      cases owns'
      exact (unowned d hd owns).elim
    · rw [others d hdc] at owns
      rw [others d' hdc'] at owns'
      exact shared.once d hd d' hd' r owns owns'
  · have hdc : d ≠ c := by
      rintro rfl
      rw [ret] at mine
      cases mine
    rw [others d hdc] at ret
    obtain ⟨d', hd', owns⟩ := shared.exhausted d hd ret r hr
    exact ⟨d', hd', keeps d' r owns⟩
  · obtain ⟨other, before⟩ := free r free_
    obtain ⟨unlocked, same⟩ := shared.untaken r hr before
    rw [← taken, State.goto_holder, State.hold_holder, if_neg other]
    exact ⟨unlocked, same⟩
  · have hdc : d ≠ c := by
      rintro rfl
      rw [begun'] at mine
      cases mine
    rw [others d hdc] at begun'
    obtain ⟨same, held⟩ := shared.snapshot d hd w' lease' now' rows' begun'
    exact ⟨same, fun run' mem hr free_ => held run' mem hr (free run'.id free_).2⟩
  · rw [← taken]
    exact shared.waiting
  · have hdc : d ≠ c := by
      rintro rfl
      rw [← taken, State.goto_call, if_pos rfl] at ret
      cases ret
    rw [others d hdc] at ret
    rw [← taken]
    exact shared.out d hd run' ret

include locked in
theorem commit {c : Call} {r : RunId} {w : WorkerId} {lease : Int} {now : Time}
    {run result : Run} {db : Db} (hc : c ∈ calls) (holding : s.call c = .holding w lease now r)
    (latest : s.db.runs.find? r = some run)
    (ran : (Queue.claimRun now run w lease).run s.db = .ok (result, db)) :
    Shared s₀ calls runs (((s.write db).hold r none).goto c (.returned (some result))) := by
  obtain ⟨rfl, after, acts⟩ := commit_acts locked holding latest ran
  generalize done : ((s.write db).hold result.id none).goto c (.returned (some result)) = t
  have store : t.db = db := by rw [← done]; rfl
  have returned : t.call c = .returned (some result) := by
    rw [← done, State.goto_call, if_pos rfl]
  have others : ∀ d, d ≠ c → t.call d = s.call d := by
    intro d hd
    rw [← done, State.goto_call, if_neg hd]
    rfl
  have runOf : ∀ d, (t.call d).run? = (s.call d).run? := by
    intro d
    by_cases hd : d = c
    · rw [hd, returned, holding]
      rfl
    · rw [others d hd]
  have rows : ∀ q, q ≠ result.id → db.runs.find? q = s.db.runs.find? q :=
    fun q hq => congrArg Dossier.row (acts.2 q hq)
  have gone : Out db result.id := by
    obtain ⟨row, there, running⟩ := acts.1.target rfl
    exact ⟨row, there, by rw [running]; decide⟩
  refine ⟨?_, ?_, fun d hd ret => ?_, fun q hq free => ?_,
    fun d hd w' lease' now' rows' begun => ?_, fun row mem queued => ?_, fun d hd run' ret => ?_⟩
  · simpa only [runOf] using shared.offered
  · simpa only [runOf] using shared.once
  · have hdc : d ≠ c := by
      rintro rfl
      rw [returned] at ret
      cases ret
    rw [others d hdc] at ret
    simpa only [runOf] using shared.exhausted d hd ret
  · simp only [runOf] at free
    have other : q ≠ result.id := by
      rintro rfl
      exact free c hc (by rw [holding]; rfl)
    obtain ⟨unlocked, same⟩ := shared.untaken q hq free
    rw [store, ← done, State.goto_holder, State.hold_holder, if_neg other]
    exact ⟨unlocked, (rows q other).trans same⟩
  · have hdc : d ≠ c := by
      rintro rfl
      rw [returned] at begun
      cases begun
    rw [others d hdc] at begun
    simpa only [runOf] using shared.snapshot d hd w' lease' now' rows' begun
  · rw [store] at mem
    have other : row.id ≠ result.id := by
      intro same
      obtain ⟨row', there, out⟩ := gone
      rw [← same, Table.find?_of_mem mem] at there
      cases there
      exact out queued
    have there := rows row.id other
    rw [Table.find?_of_mem mem] at there
    exact shared.waiting row (Table.mem_of_find? there.symm) queued
  · rw [store]
    by_cases hq : run'.id = result.id
    · rw [hq]
      exact gone
    · have hdc : d ≠ c := by
        rintro rfl
        rw [returned] at ret
        cases ret
        exact hq rfl
      rw [others d hdc] at ret
      obtain ⟨row, there, out⟩ := shared.out d hd run' ret
      exact ⟨row, (rows run'.id hq).trans there, out⟩

include locked in
theorem step (enqueued : ∀ r ∈ runs, (s₀.db.runs.find? r).isSome) {t : State} {l : Label}
    (contends : Contends s₀ calls runs l) (h : Step s l t) : Shared s₀ calls runs t := by
  cases h with
  | begin idle => exact shared.begin contends.2 idle
  | pass begun empty => exact shared.pass enqueued contends begun empty
  | lock begun picks =>
    obtain ⟨run, candidate, rfl, -⟩ := picks
    exact shared.lock locked contends begun candidate
  | commit holding latest ran => exact shared.commit locked contends holding latest ran
  | other => exact contends.elim

end Shared

theorem Race.shared {e : claimers.Execution} {i j : Nat} {calls : Finset Call}
    {runs : Finset RunId} (race : Race e i j calls runs) :
    Shared (e.state i) calls runs (e.state j) := by
  refine e.persists (P := Shared (e.state i) calls runs) race.order (fun k hik hkj shared => ?_)
    (.initial race.idle race.unlocked)
  have hk : k < e.length := hkj.trans_le race.within
  exact shared.step (locked (e.reachable hk.le)) race.enqueued (race.alone k hik hkj) (e.next k hk)

/-- The calls that come back with a run. -/
def served (s : State) (calls : Finset Call) : Finset Call :=
  calls.filter fun c => (s.call c).run?.isSome

/-- A race serves as many calls as there are calls or runs, each with a run of its own. -/
theorem Race.served {e : claimers.Execution} {i j : Nat} {calls : Finset Call}
    {runs : Finset RunId} (race : Race e i j calls runs) :
    (served (e.state j) calls).card = min calls.card runs.card ∧
      (∀ c ∈ calls, ∀ run, (e.state j).call c = .returned (some run) → run.id ∈ runs) ∧
      ∀ c ∈ calls, ∀ d ∈ calls, ∀ run run', (e.state j).call c = .returned (some run) →
        (e.state j).call d = .returned (some run') → run.id = run'.id → c = d := by
  have shared := race.shared
  refine ⟨card_served shared.offered shared.once fun c hc nothing => ?_, fun c hc run ret => ?_,
    fun c hc d hd run run' ret ret' same => ?_⟩
  · obtain ⟨result, ret⟩ := race.returned c hc
    cases result with
    | none => exact shared.exhausted c hc ret
    | some run =>
      rw [ret] at nothing
      cases nothing
  · exact shared.offered c hc run.id (by rw [ret]; rfl)
  · refine shared.once c hc d hd run.id (by rw [ret]; rfl) ?_
    rw [ret', same]
    rfl

/-- Claims never collide: no run is returned twice without a requeue between, an empty claim
overlooked nothing, a claim counts one attempt and writes one event, and claims that race
with nothing else share out the runs they contend for. -/
theorem claims_never_collide (e : claimers.Execution) :
    (∀ i j c d run run', i < j → j < e.length → ReturnsAt e i c run → ReturnsAt e j d run' →
      run'.id = run.id → ∃ k, i < k ∧ k < j ∧ RequeuedAt e k run.id) ∧
    (∀ k c, k < e.length → e.label k = .select c none →
      ∃ b now, b < k ∧ BegunSince e b k c now ∧
        ∀ run ∈ (e.state b).db.runs, Queue.eligible now run = true →
          ((∃ d, d ≠ c ∧ (e.state k).holder run.id = some d) ∨
            ∃ m d result, b < m ∧ m < k ∧ d ≠ c ∧ ReturnsAt e m d result ∧ result.id = run.id) ∧
          (((e.state k).db.runs.find? run.id).any (Queue.eligible now) = true →
            ∃ d, d ≠ c ∧ (e.state k).holder run.id = some d)) ∧
    (∀ i c run, i < e.length → ReturnsAt e i c run →
      ∃ was ev, (e.state i).db.runs.find? run.id = some was ∧ was.status = .queued ∧
        (e.state (i + 1)).db.runs.find? run.id = some run ∧ run.status = .running ∧
        run.attempts = was.attempts + 1 ∧
        Queue.listEvents (e.state (i + 1)).db run.id =
          Queue.listEvents (e.state i).db run.id ++ [ev] ∧
        ev.Records (some .queued) .running ∧
        ∀ r, r ≠ run.id → (e.state (i + 1)).db.dossier r = (e.state i).db.dossier r) ∧
    ∀ i j calls runs, Race e i j calls runs →
      (served (e.state j) calls).card = min calls.card runs.card ∧
        (∀ c ∈ calls, ∀ run, (e.state j).call c = .returned (some run) → run.id ∈ runs) ∧
        ∀ c ∈ calls, ∀ d ∈ calls, ∀ run run', (e.state j).call c = .returned (some run) →
          (e.state j).call d = .returned (some run') → run.id = run'.id → c = d :=
  ⟨fun _ _ _ _ _ _ hij hj first second same => requeued_between e hij hj first second same,
    fun _ _ hk nothing => nothing_overlooked e hk nothing,
    fun _ _ _ hi returns => claim_effect e hi returns, fun _ _ _ _ race => race.served⟩

/-! ## Two calls, one run -/

section TwoCalls

def enqueueOne : Op := .enqueue ↑"r" ↑"agent" .api [] none 1 []

def quiet : State := ⟨Db.empty, fun _ => none, fun _ => .idle⟩

def queued : State := quiet.write (enqueueOne.after 0 quiet.db)

def theRun : Run := (queued.db.runs.find? ↑"r").get (by decide)

def begunOne : State := queued.goto 0 (.begun ↑"w" 15 5 queued.db.runs.rows)

def begunTwo : State := begunOne.goto 1 (.begun ↑"v" 15 6 begunOne.db.runs.rows)

def lockedOne : State := (begunTwo.hold ↑"r" (some 0)).goto 0 (.holding ↑"w" 15 5 ↑"r")

def passedTwo : State := lockedOne.goto 1 (.returned none)

def committedOne : State :=
  ((passedTwo.write ((Queue.claimRun 5 theRun ↑"w" 15).after passedTwo.db)).hold ↑"r" none).goto 0
    (.returned (some ((Queue.claimSet 5 ↑"w" 15).apply theRun)))

/-- The second call's select finds the only run locked by the first. -/
def twoCalls : claimers.Execution where
  length := 6
  state i := [quiet, queued, begunOne, begunTwo, lockedOne, passedTwo].getD i committedOne
  label i :=
    [.other 0 enqueueOne, .begin 0 ↑"w" 15 5, .begin 1 ↑"v" 15 6, .select 0 (some ↑"r"),
      .select 1 none].getD i (.commit 0)
  start := ⟨rfl, fun _ => rfl, fun _ => rfl⟩
  next i hi := by
    interval_cases i
    · exact .other rfl fun r held => by cases held
    · exact .begin rfl
    · exact .begin rfl
    · exact .lock (show begunTwo.call 0 = .begun ↑"w" 15 5 queued.db.runs.rows from rfl)
        ⟨theRun, List.mem_singleton.mpr rfl, rfl, fun _ h => (List.mem_singleton.mp h) ▸ le_rfl⟩
    · exact .pass (show lockedOne.call 1 = .begun ↑"v" 15 6 queued.db.runs.rows from rfl) (by rfl)
    · exact .commit (show passedTwo.call 0 = .holding ↑"w" 15 5 ↑"r" from rfl)
        (show passedTwo.db.runs.find? ↑"r" = some theRun from rfl) (by rfl)

theorem queued_rows : queued.db.runs.rows = [theRun] := rfl

theorem twoCalls_race : Race twoCalls 1 6 {0, 1} {↑"r"} where
  order := by decide
  within := by decide
  idle c _ := rfl
  unlocked r _ := rfl
  enqueued := by decide
  alone k h1 h6 := by
    have eligible : ∀ now : Time, 0 ≤ now → ∀ run ∈ queued.db.runs,
        Queue.eligible now run = true ↔ run.id ∈ ({↑"r"} : Finset RunId) := by
      intro now later run mem
      obtain rfl : run = theRun := List.mem_singleton.mp (queued_rows ▸ mem)
      rw [eligible_iff]
      exact ⟨fun _ => by decide, fun _ => ⟨rfl, later⟩⟩
    interval_cases k
    · exact ⟨by decide, eligible 5 (by decide)⟩
    · exact ⟨by decide, eligible 6 (by decide)⟩
    · exact (show (0 : Call) ∈ ({0, 1} : Finset Call) by decide)
    · exact (show (1 : Call) ∈ ({0, 1} : Finset Call) by decide)
    · exact (show (0 : Call) ∈ ({0, 1} : Finset Call) by decide)
  returned c hc := by
    obtain rfl | rfl : c = 0 ∨ c = 1 := by simpa using hc
    · exact ⟨_, rfl⟩
    · exact ⟨_, rfl⟩

theorem twoCalls_share : (served (twoCalls.state 6) {0, 1}).card = 1 :=
  ((claims_never_collide twoCalls).2.2.2 1 6 {0, 1} {↑"r"} twoCalls_race).1

end TwoCalls

end AgenticOctopus.Spine.Claimers
