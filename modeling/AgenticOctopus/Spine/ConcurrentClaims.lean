import AgenticOctopus.Spine.Claimers

/-!
# What concurrent claims guarantee

The two steps of a claim amount to one atomic claim that skips the locked rows, so the
claimers refine the spine. A run is handed out again only after it was requeued, and a claim
comes back empty only if every run it could have had was locked or taken.
-/
namespace AgenticOctopus.Spine.Claimers
open Foundation

/-- A commit is the atomic claim at its instant, with every other row locked. -/
theorem commit_is_claim {s : State} (locked : Locked s) {c : Call} {r : RunId} {w : WorkerId}
    {l : Int} {now : Time} {run result : Run} {db : Db} (holding : s.call c = .holding w l now r)
    (latest : s.db.runs.find? r = some run)
    (ran : (Queue.claimRun now run w l).run s.db = .ok (result, db)) :
    (Queue.claim now (fun q => decide (q ≠ r)) w l).run s.db = .ok (some result, db) := by
  obtain ⟨_, is, elig⟩ := locked.eligible c w l now r holding
  rw [latest] at is
  cases is
  have picked : Queue.oldest now (fun q => decide (q ≠ r)) s.db.runs.rows = some run := by
    cases oldest : Queue.oldest now (fun q => decide (q ≠ r)) s.db.runs.rows with
    | none =>
      have taken := Queue.oldest_none oldest run (Table.mem_of_find? latest) elig
      simp [Table.key_of_find? latest] at taken
    | some other =>
      obtain ⟨mem, -, free, -⟩ := Queue.oldest_some oldest
      have same : other.id = r := by simpa using free
      rw [← same, Table.find?_of_mem mem] at latest
      exact latest
  rw [Queue.claim, Txn.bind_ok]
  refine ⟨_, _, Txn.get_ok.mpr ⟨rfl, rfl⟩, ?_⟩
  rw [picked]
  exact Txn.bind_ok.mpr ⟨_, _, ran, rfl⟩

def claimersRefine : Machine.Refinement claimers spine where
  abstraction := State.db
  start _ h := h.1
  step s l t reachable h := by
    cases h with
    | @commit c r w lease now run result db holding latest ran =>
      have claimed := commit_is_claim (locked reachable) holding latest ran
      refine .inr ⟨(now, .claim (fun q => decide (q ≠ r)) w lease), ?_⟩
      exact (after_of_ok (Txn.bind_ok.mpr ⟨_, _, claimed, rfl⟩)).symm
    | @other now op => exact .inr ⟨(now, op), rfl⟩
    | _ => exact .inl rfl

/-! ## One step, seen from one run -/

/-- Step `i` is the commit of a claim that returns this run. -/
def ReturnsAt (e : claimers.Execution) (i : Nat) (c : Call) (run : Run) : Prop :=
  e.label i = .commit c ∧ (e.state (i + 1)).call c = .returned (some run)

/-- Step `k` puts the run back into the queue: the reaper, or an approval. -/
def RequeuedAt (e : claimers.Execution) (k : Nat) (r : RunId) : Prop :=
  ∃ now op, e.label k = .other now op ∧
    ((∃ locked, op = .reapExpired locked) ∨ ∃ via note, op = .decide r true via note) ∧
    (∃ row, (e.state k).db.runs.find? r = some row ∧ row.status ≠ .queued) ∧
    ∃ row, (e.state (k + 1)).db.runs.find? r = some row ∧ row.status = .queued

/-- What a step may do to a run: nothing, a claim by the call that holds it, or an act of
another operation. -/
theorem step_run {s t : State} {l : Label} (inv : Locked s) (h : Step s l t) (r : RunId) :
    t.db.dossier r = s.db.dossier r ∨
      (∃ c w lease now result, l = .commit c ∧ s.call c = .holding w lease now r ∧
        t.call c = .returned (some result) ∧ result.id = r ∧
        t.db.runs.find? r = some result ∧
        (s.db.dossier r).Advance r (.claim w) (t.db.dossier r)) ∨
      ∃ now op act, l = .other now op ∧ op.Performs r act ∧ (∀ w, act ≠ .claim w) ∧
        (s.db.dossier r).Advance r act (t.db.dossier r) := by
  cases h with
  | begin | pass | lock => exact .inl rfl
  | @commit c q w lease now run result db holding latest ran =>
    obtain ⟨same, after, acts⟩ := commit_acts inv holding latest ran
    by_cases hr : r = q
    · subst hr
      exact .inr (.inl ⟨c, w, lease, now, result, rfl, holding, by simp [State.goto_call], same,
        after, acts.1⟩)
    · exact .inl (acts.2 r hr)
  | @other now op noClaim respects =>
    rcases Op.effect now op s.db r with same | ⟨act, performs, -, advance⟩
    · exact .inl same
    · refine .inr (.inr ⟨now, op, act, rfl, performs, ?_, advance⟩)
      rintro w rfl
      obtain ⟨_, _, rfl⟩ := Op.performs_claim performs
      cases noClaim

theorem returned_of_returnsAt {e : claimers.Execution} {i : Nat} (hi : i < e.length) {c : Call}
    {run : Run} (h : ReturnsAt e i c run) :
    ∃ w lease now, (e.state i).call c = .holding w lease now run.id ∧
      (e.state (i + 1)).db.runs.find? run.id = some run ∧
      (e.state i).db.Acts (e.state (i + 1)).db run.id (.claim w) := by
  obtain ⟨label, returned⟩ := h
  have next := e.next i hi
  have inv := locked (e.reachable hi.le)
  rw [label] at next
  generalize e.state (i + 1) = t at next returned ⊢
  cases next with
  | @commit _ r w lease now was result db holding latest ran =>
    obtain ⟨rfl, after, acts⟩ := commit_acts inv holding latest ran
    rw [State.goto_call, if_pos rfl] at returned
    cases returned
    exact ⟨w, lease, now, holding, after, acts⟩

/-! ## No run twice -/

/-- The row of this run exists and is not queued. -/
def Out (db : Db) (r : RunId) : Prop :=
  ∃ row, db.runs.find? r = some row ∧ row.status ≠ .queued

theorem requeued_of_step (e : claimers.Execution) {k : Nat} (hk : k < e.length) {r : RunId}
    (before : Out (e.state k).db r) (after : ¬ Out (e.state (k + 1)).db r) : RequeuedAt e k r := by
  rcases step_run (locked (e.reachable hk.le)) (e.next k hk) r with
    same | ⟨c, w, lease, now, result, -, -, -, -, -, advance⟩ |
      ⟨now, op, act, label, performs, unclaimed, advance⟩
  · refine (after ?_).elim
    obtain ⟨row, there, out⟩ := before
    exact ⟨row, (congrArg Dossier.row same).trans there, out⟩
  · obtain ⟨row, there, running⟩ := advance.target rfl
    exact (after ⟨row, there, by rw [running]; decide⟩).elim
  · obtain ⟨row, there, out⟩ := id before
    obtain ⟨row', there'⟩ := Option.ne_none_iff_exists'.mp advance.row_ne_none
    have queued : row'.status = .queued := by
      by_contra out'
      exact after ⟨row', there', out'⟩
    obtain ⟨source, target⟩ := advance.ends there there' (by rw [queued]; exact Ne.symm out)
    rw [queued] at target
    refine ⟨now, op, label, ?_, before, row', there', queued⟩
    cases act with
    | enqueue => cases source
    | claim w => exact (unclaimed w rfl).elim
    | finish status =>
      cases target
      rcases advance.finish_outcome with ended | ended <;> cases ended
    | decide approved =>
      cases approved
      · cases target
      · exact .inr (Op.performs_decide performs)
    | requeue => exact .inl (Op.performs_reap performs (.inl rfl))
    | heartbeat | park | expire | emit | retag => cases target

theorem requeued_between (e : claimers.Execution) {i j : Nat} (hij : i < j) (hj : j < e.length)
    {c d : Call} {run run' : Run} (first : ReturnsAt e i c run) (second : ReturnsAt e j d run')
    (same : run'.id = run.id) : ∃ k, i < k ∧ k < j ∧ RequeuedAt e k run.id := by
  obtain ⟨w, _, _, -, -, acts⟩ := returned_of_returnsAt (by omega) first
  obtain ⟨_, _, _, holding, -, -⟩ := returned_of_returnsAt hj second
  obtain ⟨row, there, running⟩ := acts.1.target rfl
  have taken : Out (e.state (i + 1)).db run.id := ⟨row, there, by rw [running]; decide⟩
  have back : ¬ Out (e.state j).db run.id := by
    rintro ⟨row, is, out⟩
    obtain ⟨row', is', elig⟩ := (locked (e.reachable hj.le)).eligible _ _ _ _ _ holding
    rw [same, is] at is'
    cases is'
    exact out (eligible_iff.mp elig).1
  obtain ⟨k, hik, hkj, before, after⟩ := e.exists_change (P := fun s => ¬ Out s.db run.id)
    (show i + 1 ≤ j by omega) (not_not.mpr taken) back
  exact ⟨k, by omega, hkj, requeued_of_step e (by omega) (not_not.mp before) after⟩

/-! ## Nothing overlooked -/

/-- The run still waits as it did in the snapshot. -/
def Waits (db : Db) (run : Run) : Prop :=
  ∃ row, db.runs.find? run.id = some row ∧ row.status = .queued ∧
    row.availableAt = run.availableAt

/-- A waiting run that waits no more was returned by a claim. -/
theorem returned_of_step (e : claimers.Execution) {k : Nat} (hk : k < e.length) {run : Run}
    (before : Waits (e.state k).db run) (after : ¬ Waits (e.state (k + 1)).db run) :
    ∃ d result, ReturnsAt e k d result ∧ result.id = run.id := by
  obtain ⟨row, there, queued, available⟩ := before
  rcases step_run (locked (e.reachable hk.le)) (e.next k hk) run.id with
    same | ⟨c, w, lease, now, result, label, -, returned, mine, -, -⟩ |
      ⟨now, op, act, -, -, unclaimed, advance⟩
  · exact (after ⟨row, (congrArg Dossier.row same).trans there, queued, available⟩).elim
  · exact ⟨c, result, ⟨label, returned⟩, mine⟩
  · obtain ⟨row', there', queued', same⟩ := advance.waiting there queued unclaimed
    exact (after ⟨row', there', queued', same.trans available⟩).elim

/-- The call has had its snapshot since step `b`. -/
def BegunSince (e : claimers.Execution) (b k : Nat) (c : Call) (now : Time) : Prop :=
  ∃ w lease, e.label b = .begin c w lease now ∧
    ∀ m, b < m → m ≤ k → (e.state m).call c = .begun w lease now (e.state b).db.runs.rows

theorem begun_since (e : claimers.Execution) {k : Nat} (hk : k ≤ e.length) {c : Call}
    {w : WorkerId} {lease : Int} {now : Time} {snapshot : List Run}
    (begun : (e.state k).call c = .begun w lease now snapshot) :
    ∃ b, b < k ∧ BegunSince e b k c now ∧ snapshot = (e.state b).db.runs.rows := by
  induction k with
  | zero =>
    rw [e.start.2.2 c] at begun
    cases begun
  | succ k ih =>
    have next := e.next k (by omega)
    have extend : (e.state k).call c = .begun w lease now snapshot →
        ∃ b, b < k + 1 ∧ BegunSince e b (k + 1) c now ∧ snapshot = (e.state b).db.runs.rows := by
      intro earlier
      obtain ⟨b, hb, ⟨w', lease', label, since⟩, rfl⟩ := ih (by omega) earlier
      refine ⟨b, by omega, ⟨w', lease', label, fun m hbm hm => ?_⟩, rfl⟩
      rcases Nat.lt_or_ge k m with last | before
      · have now_ := since k hb le_rfl
        rw [earlier] at now_
        rw [show m = k + 1 by omega, begun, now_]
      · exact since m hbm before
    generalize label : e.label k = l at next
    generalize stepped : e.state (k + 1) = t at next begun
    cases next with
    | @begin d w' lease' now' idle =>
      rw [State.goto_call] at begun
      split_ifs at begun with hd
      · subst hd
        cases begun
        refine ⟨k, by omega, ⟨w, lease, label, fun m hkm hm => ?_⟩, rfl⟩
        rw [show m = k + 1 by omega, stepped, State.goto_call, if_pos rfl]
      · exact extend begun
    | pass | lock | commit =>
      rw [State.goto_call] at begun
      split_ifs at begun
      exact extend begun
    | other => exact extend begun

/-- A claim that finds nothing overlooks nothing: whatever was eligible in its snapshot is
locked by another claim or was returned by one since, and is locked if it is eligible yet. -/
theorem nothing_overlooked (e : claimers.Execution) {k : Nat} (hk : k < e.length) {c : Call}
    (nothing : e.label k = .select c none) :
    ∃ b now, b < k ∧ BegunSince e b k c now ∧
      ∀ run ∈ (e.state b).db.runs, Queue.eligible now run = true →
        ((∃ d, d ≠ c ∧ (e.state k).holder run.id = some d) ∨
          ∃ m d result, b < m ∧ m < k ∧ d ≠ c ∧ ReturnsAt e m d result ∧ result.id = run.id) ∧
        (((e.state k).db.runs.find? run.id).any (Queue.eligible now) = true →
          ∃ d, d ≠ c ∧ (e.state k).holder run.id = some d) := by
  have next := e.next k hk
  rw [nothing] at next
  generalize e.state (k + 1) = t at next
  cases next with
  | @pass _ w lease now snapshot begun empty =>
    obtain ⟨b, hbk, since, rfl⟩ := begun_since e hk.le begun
    refine ⟨b, now, hbk, since, fun run mem elig => ?_⟩
    cases free : (e.state k).holder run.id with
    | some d =>
      have other : d ≠ c := by
        rintro rfl
        obtain ⟨_, _, _, holding⟩ := ((locked (e.reachable hk.le)).holder _ _).mp free
        rw [begun] at holding
        cases holding
      exact ⟨.inl ⟨d, other, rfl⟩, fun _ => ⟨d, other, rfl⟩⟩
    | none =>
      have stale : ∀ latest, (e.state k).db.runs.find? run.id = some latest →
          Queue.eligible now latest ≠ true := by
        intro latest there elig'
        have candidate : run ∈ candidates (e.state k) now (e.state b).db.runs.rows :=
          mem_candidates.mpr ⟨mem, elig, free, latest, there, elig'⟩
        rw [show candidates _ _ _ = [] from empty] at candidate
        cases candidate
      refine ⟨.inr ?_, fun still => ?_⟩
      · obtain ⟨queued, available⟩ := eligible_iff.mp elig
        have waited : Waits (e.state b).db run := ⟨run, Table.find?_of_mem mem, queued, rfl⟩
        have gone : ¬ Waits (e.state k).db run := by
          rintro ⟨latest, there, queued', same⟩
          exact stale latest there (eligible_iff.mpr ⟨queued', same ▸ available⟩)
        obtain ⟨m, hbm, hmk, before, after⟩ := e.exists_change (P := fun s => ¬ Waits s.db run)
          hbk.le (not_not.mpr waited) gone
        obtain ⟨d, result, returns, mine⟩ :=
          returned_of_step e (by omega) (not_not.mp before) after
        obtain ⟨w', lease', began, held⟩ := since
        have later : b < m := by
          rcases Nat.lt_or_eq_of_le hbm with h | rfl
          · exact h
          · rw [returns.1] at began
            cases began
        refine ⟨m, d, result, later, hmk, ?_, returns, mine⟩
        rintro rfl
        obtain ⟨_, _, _, holding, -⟩ := returned_of_returnsAt (by omega) returns
        rw [held m later hmk.le] at holding
        cases holding
      · obtain ⟨latest, there, elig'⟩ := (Option.any_eq_true _ _).mp still
        exact (stale latest there elig').elim

/-! ## What a claim does -/

/-- A claim adds one attempt and one event to the run it returns, and touches no other run. -/
theorem claim_effect (e : claimers.Execution) {i : Nat} (hi : i < e.length) {c : Call} {run : Run}
    (h : ReturnsAt e i c run) :
    ∃ was ev, (e.state i).db.runs.find? run.id = some was ∧ was.status = .queued ∧
      (e.state (i + 1)).db.runs.find? run.id = some run ∧ run.status = .running ∧
      run.attempts = was.attempts + 1 ∧
      Queue.listEvents (e.state (i + 1)).db run.id =
        Queue.listEvents (e.state i).db run.id ++ [ev] ∧
      ev.Records (some .queued) .running ∧
      ∀ r, r ≠ run.id → (e.state (i + 1)).db.dossier r = (e.state i).db.dossier r := by
  obtain ⟨w, lease, now, -, after, acts⟩ := returned_of_returnsAt hi h
  obtain ⟨was, run', ev, there, queued, there', running, attempts, trail, recorded⟩ :=
    acts.1.claimed
  rw [dossier_row, after] at there'
  cases there'
  exact ⟨was, ev, there, queued, after, running, attempts, trail, recorded, acts.2⟩

end AgenticOctopus.Spine.Claimers
