import AgenticOctopus.Spine.Guarantees
import AgenticOctopus.Spine.Tending

/-!
# Default schedules

A synchronisation adds the schedules that the manifests ask for and the table lacks. What the
operator knows of a schedule (everything but its instants) is then written by the operator
alone: no operation removes a row or repeats its agent and expression, and none but a toggle or
a post of that row changes it. So a later synchronisation finds every default and adds nothing.
-/
namespace AgenticOctopus.Spine
open Foundation

/-- The columns of the unique index. -/
def Schedule.pair (s : Schedule) : Text × Text := (s.agent, s.cronExpr)

def Db.pairs (db : Db) : List (Text × Text) := db.schedules.rows.map Schedule.pair

/-- The row without the instants that a tick writes, and with its switch only where `seen`. -/
def Schedule.standing (seen : ScheduleId → Bool) (s : Schedule) : Schedule :=
  { s with
    enabled := seen s.id && s.enabled
    nextRunAt := 0
    lastRunAt := none
    lastRunId := none }

theorem Schedule.id_of_standing {seen : ScheduleId → Bool} {s t : Schedule}
    (same : s.standing seen = t.standing seen) : s.id = t.id :=
  show (s.standing seen).id = (t.standing seen).id from congrArg Schedule.id same

theorem Schedule.map_pair {seen : ScheduleId → Bool} {rows rows' : List Schedule}
    (same : rows.map (standing seen) = rows'.map (standing seen)) :
    rows.map pair = rows'.map pair := by
  have factors : pair = pair ∘ standing seen := rfl
  rw [factors, ← List.map_map, ← List.map_map, same]

namespace Scheduler

/-- Rows are added at the end, of pairs that are new; the others stand as they did. -/
def Grows (seen : ScheduleId → Bool) (db db' : Db) : Prop :=
  ∃ added : List Schedule,
    db'.schedules.rows.map (Schedule.standing seen) =
      db.schedules.rows.map (Schedule.standing seen) ++ added.map (Schedule.standing seen) ∧
    (added.map Schedule.pair).Nodup ∧ ∀ s ∈ added, s.pair ∉ db.pairs

variable {seen : ScheduleId → Bool} {db mid db' : Db} {host : Host}

theorem Grows.of_same
    (same : db'.schedules.rows.map (Schedule.standing seen) =
      db.schedules.rows.map (Schedule.standing seen)) : Grows seen db db' :=
  ⟨[], by simpa using same, List.nodup_nil, by simp⟩

theorem Grows.refl (db : Db) : Grows seen db db := .of_same rfl

theorem Grows.pairs {added : List Schedule}
    (rows : db'.schedules.rows.map (Schedule.standing seen) =
      db.schedules.rows.map (Schedule.standing seen) ++ added.map (Schedule.standing seen)) :
    db'.pairs = db.pairs ++ added.map Schedule.pair := by
  rw [← List.map_append] at rows
  have pairs := Schedule.map_pair rows
  rwa [List.map_append] at pairs

theorem Grows.trans (first : Grows seen db mid) (second : Grows seen mid db') :
    Grows seen db db' := by
  obtain ⟨added, rows, distinct, fresh⟩ := first
  obtain ⟨more, rows', distinct', fresh'⟩ := second
  have pairs := Grows.pairs rows
  refine ⟨added ++ more, ?_, ?_, ?_⟩
  · rw [rows', rows, List.map_append, List.append_assoc]
  · rw [List.map_append, List.nodup_append]
    refine ⟨distinct, distinct', ?_⟩
    rintro p old _ new rfl
    obtain ⟨s, mem, rfl⟩ := List.mem_map.mp new
    apply fresh' s mem
    rw [pairs]
    exact List.mem_append_right _ old
  · intro s mem
    rcases List.mem_append.mp mem with mem | mem
    · exact fresh s mem
    · rintro old
      apply fresh' s mem
      rw [pairs]
      exact List.mem_append_left _ old

theorem Grows.nodup (h : Grows seen db db') (distinct : db.pairs.Nodup) : db'.pairs.Nodup := by
  obtain ⟨added, rows, new, fresh⟩ := h
  rw [Grows.pairs rows, List.nodup_append]
  refine ⟨distinct, new, ?_⟩
  rintro p old _ new rfl
  obtain ⟨s, mem, rfl⟩ := List.mem_map.mp new
  exact fresh s mem old

theorem Grows.subset (h : Grows seen db db') : db.pairs ⊆ db'.pairs := by
  obtain ⟨added, rows, -⟩ := h
  rw [Grows.pairs rows]
  exact List.subset_append_left _ _

/-- A row that is there stays there, as it stood. -/
theorem Grows.row (h : Grows seen db db') {row : Schedule} (there : row ∈ db.schedules) :
    ∃ row' ∈ db'.schedules, row'.standing seen = row.standing seen := by
  obtain ⟨added, rows, -⟩ := h
  have mem : row.standing seen ∈ db'.schedules.rows.map (Schedule.standing seen) := by
    rw [rows]
    exact List.mem_append_left _ (List.mem_map_of_mem there)
  obtain ⟨row', mem, is⟩ := List.mem_map.mp mem
  exact ⟨row', mem, is⟩

/-! ## Statements -/

theorem updateSchedules_grows {p : Schedule → Bool} {f : Table.Assignment Schedule.id} {n : Nat}
    (stands : ∀ s, p s = true → (f.apply s).standing seen = s.standing seen)
    (h : (updateSchedules p f).run db = .ok (n, db')) : Grows seen db db' := by
  obtain ⟨-, rfl⟩ := updateSchedules_ok.mp h
  apply Grows.of_same
  rw [Table.update, List.map_map]
  refine List.map_congr_left fun s _ => ?_
  by_cases matched : p s = true
  · simp [matched, stands s matched]
  · simp [matched]

theorem insertSchedule_grows {row : Schedule} {x : Unit} (fresh : row.pair ∉ db.pairs)
    (h : (insertSchedule row).run db = .ok (x, db')) : Grows seen db db' := by
  obtain ⟨_, rfl⟩ := insertSchedule_ok h
  refine ⟨[row], by simp [Table.insert], by simp, ?_⟩
  intro s mem
  rwa [List.mem_singleton.mp mem]

theorem sameSchedule_iff {agent cronExpr : Text} {s : Schedule} :
    sameSchedule agent cronExpr s = true ↔ s.pair = (agent, cronExpr) := by
  simp [sameSchedule, Schedule.pair]

theorem mem_pairs {p : Text × Text} :
    p ∈ db.pairs ↔ db.schedules.rows.any (sameSchedule p.1 p.2) = true := by
  simp only [Db.pairs, List.mem_map, List.any_eq_true, sameSchedule_iff, Prod.mk.eta]

theorem fireAll_grows {now : Time} {clocks : Nat → Time} {ids : Nat → RunId}
    {due : List Schedule} {n : Nat}
    (h : (fireAll host now clocks ids due).run db = .ok (n, db')) : Grows seen db db' := by
  induction due generalizing db clocks ids n with
  | nil =>
    obtain ⟨-, rfl⟩ := Txn.pure_ok.mp h
    exact .refl _
  | cons s rest ih =>
    simp only [fireAll, Txn.bind_ok, Txn.pure_ok] at h
    obtain ⟨_, mid, fired, _, _, others, -, rfl⟩ := h
    refine Grows.trans ?_ (ih others)
    simp only [fire, Txn.bind_ok, Txn.pure_ok] at fired
    obtain ⟨_, _, inserted, _, _, recorded, next, _, computed, _, _, updated, -, rfl⟩ := fired
    obtain ⟨_, rfl⟩ := insertRun_ok inserted
    obtain ⟨-, rfl⟩ := insertEvent_ok.mp recorded
    obtain ⟨-, rfl⟩ := computeNext_ok computed
    have moved : Grows seen _ _ := updateSchedules_grows (fun _ _ => rfl) updated
    exact moved

/-! ## A synchronisation -/

/-- The schedule that a manifest asks for. -/
def default? (agent : LoadedAgent) : Option Text := agent.manifest.schedule.filter (· ≠ [])

def defaults (registry : Registry) : List (Text × Text) :=
  registry.filterMap fun entry => (default? entry.2).map (Prod.mk entry.1)

/-- The defaults that the table lacks. -/
def missing (db : Db) (registry : Registry) : List (Text × Text) :=
  (defaults registry).filter (· ∉ db.pairs)

/-- The row that a synchronisation adds for a default of the registry. -/
structure Seeded (host : Host) (now : Time) (clocks : Nat → Time) (registry : Registry)
    (row : Schedule) : Prop where
  params : ∃ agent, (row.agent, agent) ∈ registry ∧ row.params = agent.manifest.params
  enabled : row.enabled = true
  timezone : row.timezone = utc
  next : ∃ n, host.getNext row.cronExpr utc (clocks n) = some row.nextRunAt
  unfired : row.lastRunAt = none ∧ row.lastRunId = none
  created : row.createdAt = now

/-- What one entry of the registry adds. -/
def seedOf (db : Db) (name : Text) (agent : LoadedAgent) : List (Text × Text) :=
  ((default? agent).map (Prod.mk name)).toList.filter (· ∉ db.pairs)

def line (p : Text × Text) : Text := createdLine p.1 p.2

/-- Rows are added for these pairs, and nothing else is written. -/
structure Adds (host : Host) (now : Time) (clocks : Nat → Time) (registry : Registry)
    (pairs : List (Text × Text)) (db db' : Db) (added : List Schedule) : Prop where
  rows : db'.schedules.rows = db.schedules.rows ++ added
  pairs : added.map Schedule.pair = pairs
  seeded : ∀ row ∈ added, Seeded host now clocks registry row
  others : db'.runs = db.runs ∧ db'.runEvents = db.runEvents ∧ db'.approvals = db.approvals

variable {now : Time} {clocks : Nat → Time}

theorem syncEntry_ok {clock : Time} {id : ScheduleId} {name : Text} {agent : LoadedAgent}
    {created : List Text} (reads : clock = clocks 0)
    (h : (syncEntry host now clock id name agent).run db = .ok (created, db')) :
    created = (seedOf db name agent).map line ∧
      ∃ added, Adds host now clocks [(name, agent)] (seedOf db name agent) db db' added := by
  have nothing : seedOf db name agent = [] → created = [] → db = db' →
      created = (seedOf db name agent).map line ∧
        ∃ added, Adds host now clocks [(name, agent)] (seedOf db name agent) db db' added := by
    rintro none rfl rfl
    rw [none]
    exact ⟨rfl, [], by simp, rfl, by simp, rfl, rfl, rfl⟩
  rw [syncEntry] at h
  cases wants : agent.manifest.schedule with
  | none =>
    rw [wants] at h
    obtain ⟨rfl, rfl⟩ := Txn.pure_ok.mp h
    exact nothing (by simp [seedOf, default?, wants]) rfl rfl
  | some expr =>
    rw [wants] at h
    dsimp only at h
    split_ifs at h with empty
    · obtain ⟨rfl, rfl⟩ := Txn.pure_ok.mp h
      exact nothing (by simp [seedOf, default?, wants, empty]) rfl rfl
    have asks : default? agent = some expr := by simp [default?, wants, empty]
    simp only [Txn.bind_ok, Txn.pure_ok, insertOrNothing, Txn.get_ok] at h
    obtain ⟨next, mid, computed, n, _, ⟨_, _, ⟨rfl, rfl⟩, inserted⟩, rfl, rfl⟩ := h
    obtain ⟨answer, same⟩ := computeNext_ok computed
    subst mid
    split_ifs at inserted with taken
    · obtain ⟨rfl, rfl⟩ := Txn.pure_ok.mp inserted
      have old : (name, expr) ∈ db.pairs := mem_pairs.mpr taken
      exact nothing (by simp [seedOf, asks, old]) rfl rfl
    · have new : (name, expr) ∉ db.pairs := fun old => taken (mem_pairs.mp old)
      have seeds : seedOf db name agent = [(name, expr)] := by simp [seedOf, asks, new]
      obtain ⟨_, _, wrote, inserted⟩ := Txn.bind_ok.mp inserted
      obtain ⟨rfl, rfl⟩ := Txn.pure_ok.mp inserted
      obtain ⟨fresh, rfl⟩ := insertSchedule_ok wrote
      rw [seeds]
      refine ⟨rfl, [_], rfl, rfl, ?_, rfl, rfl, rfl⟩
      intro row mem
      obtain rfl := List.mem_singleton.mp mem
      exact
        { params := ⟨agent, List.mem_singleton.mpr rfl, rfl⟩
          enabled := rfl
          timezone := rfl
          next := ⟨0, reads ▸ answer⟩
          unfired := ⟨rfl, rfl⟩
          created := rfl }

theorem Adds.pairs_eq {registry : Registry} {pairs : List (Text × Text)} {added : List Schedule}
    (adds : Adds host now clocks registry pairs db db' added) : db'.pairs = db.pairs ++ pairs := by
  rw [Db.pairs, adds.rows, List.map_append, adds.pairs]
  rfl

theorem name_of_mem_defaults {registry : Registry} {p : Text × Text} (mem : p ∈ defaults registry) :
    p.1 ∈ registry.map Prod.fst := by
  obtain ⟨entry, there, is⟩ := List.mem_filterMap.mp mem
  obtain ⟨expr, -, rfl⟩ := Option.map_eq_some_iff.mp is
  exact List.mem_map_of_mem there

/-- One entry adds no pair of another name. -/
theorem missing_cons {name : Text} {agent : LoadedAgent} {rest : Registry} {added : List Schedule}
    (absent : name ∉ rest.map Prod.fst)
    (adds : Adds host now clocks [(name, agent)] (seedOf db name agent) db mid added) :
    missing db ((name, agent) :: rest) = seedOf db name agent ++ missing mid rest := by
  have later : missing mid rest = missing db rest := by
    refine List.filter_congr fun p mem => ?_
    have other : p ∉ seedOf db name agent := by
      intro same
      obtain ⟨expr, -, rfl⟩ : ∃ expr, default? agent = some expr ∧ (name, expr) = p := by
        simpa [seedOf] using (List.mem_filter.mp same).1
      exact absent (name_of_mem_defaults mem)
    rw [adds.pairs_eq]
    simp [other]
  rw [later, missing, defaults, List.filterMap_cons]
  cases asks : default? agent with
  | none => simp [seedOf, asks, missing, defaults]
  | some expr => by_cases old : (name, expr) ∈ db.pairs <;> simp [seedOf, asks, missing, defaults, old]

theorem syncFromRegistry_ok {ids : Nat → ScheduleId} {registry : Registry} {created : List Text}
    (keys : (registry.map Prod.fst).Nodup)
    (h : (syncFromRegistry host now clocks ids registry).run db = .ok (created, db')) :
    created = (missing db registry).map line ∧
      ∃ added, Adds host now clocks registry (missing db registry) db db' added := by
  induction registry generalizing db clocks ids created with
  | nil =>
    obtain ⟨rfl, rfl⟩ := Txn.pure_ok.mp h
    exact ⟨rfl, [], by simp, rfl, by simp, rfl, rfl, rfl⟩
  | cons entry rest ih =>
    obtain ⟨name, agent⟩ := entry
    obtain ⟨absent, keys⟩ := List.nodup_cons.mp keys
    simp only [syncFromRegistry, Txn.bind_ok, Txn.pure_ok] at h
    obtain ⟨first, mid, one, more, _, others, rfl, rfl⟩ := h
    obtain ⟨rfl, seeded, adds⟩ := syncEntry_ok rfl one
    obtain ⟨rfl, later, adds'⟩ := ih keys others
    rw [missing_cons absent adds]
    refine ⟨(List.map_append).symm, seeded ++ later, ?_, ?_, ?_, ?_⟩
    · rw [adds'.rows, adds.rows, List.append_assoc]
    · rw [List.map_append, adds.pairs, adds'.pairs]
    · intro row mem
      rcases List.mem_append.mp mem with mem | mem
      · have seed := adds.seeded row mem
        obtain ⟨agent', there, params⟩ := seed.params
        refine { seed with params := ⟨agent', ?_, params⟩ }
        exact List.mem_cons.mpr (.inl (List.mem_singleton.mp there))
      · have seed := adds'.seeded row mem
        obtain ⟨agent', there, params⟩ := seed.params
        obtain ⟨n, next⟩ := seed.next
        exact { seed with
          params := ⟨agent', List.mem_cons_of_mem _ there, params⟩
          next := ⟨n + 1, next⟩ }
    · obtain ⟨runs, events, approvals⟩ := adds.others
      obtain ⟨runs', events', approvals'⟩ := adds'.others
      exact ⟨runs'.trans runs, events'.trans events, approvals'.trans approvals⟩

theorem nodup_seedOf (db : Db) (name : Text) (agent : LoadedAgent) : (seedOf db name agent).Nodup := by
  unfold seedOf
  cases default? agent with
  | none => exact List.nodup_nil
  | some expr => exact (List.nodup_singleton _).filter _

theorem Adds.grows {registry : Registry} {name : Text} {agent : LoadedAgent} {added : List Schedule}
    (adds : Adds host now clocks registry (seedOf db name agent) db db' added) :
    Grows seen db db' := by
  refine ⟨added, by rw [adds.rows, List.map_append], ?_, fun s mem => ?_⟩
  · rw [adds.pairs]
    exact nodup_seedOf db name agent
  · have seed : s.pair ∈ seedOf db name agent := by
      rw [← adds.pairs]
      exact List.mem_map_of_mem mem
    simpa using (List.mem_filter.mp seed).2

theorem syncFromRegistry_grows {ids : Nat → ScheduleId} {registry : Registry} {created : List Text}
    (h : (syncFromRegistry host now clocks ids registry).run db = .ok (created, db')) :
    Grows seen db db' := by
  induction registry generalizing db clocks ids created with
  | nil =>
    obtain ⟨-, rfl⟩ := Txn.pure_ok.mp h
    exact .refl _
  | cons entry rest ih =>
    simp only [syncFromRegistry, Txn.bind_ok, Txn.pure_ok] at h
    obtain ⟨_, _, one, _, _, others, -, rfl⟩ := h
    obtain ⟨-, _, adds⟩ := syncEntry_ok rfl one
    exact adds.grows.trans (ih others)

/-! ## Every operation -/

/-- The operation is a toggle of this schedule, or a post of its agent and expression. -/
def Switches (db : Db) (x : ScheduleId) : Op → Prop
  | .toggleSchedule scheduleId => scheduleId = x
  | .createSchedule _ _ _ _ agent cronExpr _ _ =>
    ∃ s ∈ db.schedules, s.id = x ∧ s.pair = (agent, cronExpr)
  | _ => False

theorem grows_of_ok {op : Op} (spares : ∀ x, seen x = true → ¬ Switches db x op)
    (h : (op.block now).run db = .ok ((), db')) : Grows seen db db' := by
  cases scheduling : op.IsScheduling with
  | false =>
    have same := Op.leaves_schedules now scheduling _ _ _ h
    exact .of_same (congrArg (fun t => t.rows.map (Schedule.standing seen)) same)
  | true =>
    cases op with
    | tick host clocks locked ids =>
      obtain ⟨_, ran⟩ := Txn.discard_ok.mp h
      simp only [tick, Txn.bind_ok, Txn.get_ok] at ran
      obtain ⟨_, _, ⟨rfl, rfl⟩, ran⟩ := ran
      exact fireAll_grows ran
    | syncFromRegistry host clocks ids registry =>
      obtain ⟨_, ran⟩ := Txn.discard_ok.mp h
      exact syncFromRegistry_grows ran
    | createSchedule host clock registry id agent cronExpr timezone params =>
      obtain ⟨_, ran⟩ := Txn.discard_ok.mp h
      rcases createSchedule_ok ran with ⟨old, _, found, -, updated⟩ | ⟨_, none, -, -, inserted⟩
      · refine updateSchedules_grows (fun s matched => ?_) updated
        have unseen : seen s.id = false := by
          by_contra seen
          apply spares s.id (by simpa using seen)
          have same : s.id = old.id := by simpa using matched
          exact ⟨old, List.mem_of_find?_eq_some found, same.symm,
            sameSchedule_iff.mp (List.find?_some found)⟩
        simp [Schedule.standing, enableSet, unseen]
      · refine insertSchedule_grows (fun old => ?_) inserted
        obtain ⟨s, mem, same⟩ := List.any_eq_true.mp (mem_pairs.mp old)
        exact List.find?_eq_none.mp none s mem same
    | toggleSchedule scheduleId =>
      obtain ⟨_, ran⟩ := Txn.discard_ok.mp h
      obtain ⟨_, _, -, -, updated⟩ := toggleSchedule_ok ran
      refine updateSchedules_grows (fun s matched => ?_) updated
      have unseen : seen s.id = false := by
        by_contra seen
        have same : s.id = scheduleId := by simpa using matched
        exact spares s.id (by simpa using seen) same.symm
      simp [Schedule.standing, toggleSet, unseen]
    | _ => cases scheduling

theorem grows_after {op : Op} (spares : ∀ x, seen x = true → ¬ Switches db x op) :
    Grows seen db (op.after now db) := by
  rcases Txn.after_cases (op.block now) db with same | ⟨_, ran⟩
  · rw [Op.after, same]
    exact .refl db
  · exact grows_of_ok spares ran

theorem grows_between (e : spine.Execution) {i j : Nat} (hij : i ≤ j) (hj : j ≤ e.length)
    (spares : ∀ k, i ≤ k → k < j → ∀ x, seen x = true → ¬ Switches (e.state k) x (e.label k).2) :
    Grows seen (e.state i) (e.state j) := by
  refine e.persists (P := fun db => Grows seen (e.state i) db) hij (fun k hik hkj grown => ?_)
    (.refl _)
  rw [show e.state (k + 1) = _ from e.next k (by omega)]
  exact grown.trans (grows_after (spares k hik hkj))

/-- In every reachable state the unique index on the agent and the expression holds. -/
theorem reachable_pairs {db : Db} (h : spine.Reachable db) : db.pairs.Nodup := by
  refine h.invariant (P := fun db => db.pairs.Nodup) ?_ fun db l db' _ distinct after => ?_
  · rintro _ rfl
    exact List.nodup_nil
  · have grows : Grows (fun _ => false) db (l.2.after l.1 db) :=
      grows_after fun _ seen => by cases seen
    rw [show db' = _ from after]
    exact grows.nodup distinct

theorem Adds.nothing {registry : Registry} (adds : Adds host now clocks registry [] db db' []) :
    db' = db := by
  obtain ⟨runs, events, approvals⟩ := adds.others
  have rows : db'.schedules = db.schedules := Table.ext_rows (by simpa using adds.rows)
  cases db
  cases db'
  cases runs
  cases events
  cases approvals
  cases rows
  rfl

/-- When every default is there, a synchronisation changes nothing. -/
theorem sync_again {registry : Registry} {ids : Nat → ScheduleId}
    (keys : (registry.map Prod.fst).Nodup) (there : defaults registry ⊆ db.pairs) :
    (Op.syncFromRegistry host clocks ids registry).after now db = db := by
  rcases Txn.after_cases ((Op.syncFromRegistry host clocks ids registry).block now) db with
    same | ⟨_, ran⟩
  · exact same
  · obtain ⟨created, ran⟩ := Txn.discard_ok.mp ran
    obtain ⟨-, added, adds⟩ := syncFromRegistry_ok keys ran
    have none : missing db registry = [] :=
      List.filter_eq_nil_iff.mpr fun p mem => by simpa using there mem
    obtain rfl : added = [] := by
      have pairs := adds.pairs
      rw [none] at pairs
      exact List.map_eq_nil_iff.mp pairs
    rw [none] at adds
    exact adds.nothing

/-- The rows are one schedule, but for the instants that a tick writes. -/
def SameButInstants (row row' : Schedule) : Prop :=
  row' = { row with
    nextRunAt := row'.nextRunAt
    lastRunAt := row'.lastRunAt
    lastRunId := row'.lastRunId }

theorem sameButInstants_of_standing {row row' : Schedule} (own : seen row.id = true)
    (same : row'.standing seen = row.standing seen) : SameButInstants row row' := by
  have id := Schedule.id_of_standing same
  cases row
  cases row'
  simp only [Schedule.standing, Schedule.mk.injEq] at same id own
  simp only [SameButInstants, Schedule.mk.injEq]
  grind

/-- A synchronisation adds exactly the defaults that the table lacks. Whatever is done after it,
every default is there once, synchronising again changes nothing, and each row is what it was,
but for the instants of its firings, until the operator toggles it or posts it. -/
theorem defaults_seeded_once (e : spine.Execution) {i j : Nat} (hij : i < j) (hj : j ≤ e.length)
    {now : Time} {host : Host} {clocks : Nat → Time} {ids : Nat → ScheduleId} {registry : Registry}
    {created : List Text} {db : Db} (keys : (registry.map Prod.fst).Nodup)
    (label : e.label i = (now, .syncFromRegistry host clocks ids registry))
    (returned : (syncFromRegistry host now clocks ids registry).run (e.state i) =
      .ok (created, db)) :
    (created = (missing (e.state i) registry).map line ∧
      ∃ added, Adds host now clocks registry (missing (e.state i) registry) (e.state i)
        (e.state (i + 1)) added) ∧
    (∀ p ∈ defaults registry, ∃! row, row ∈ (e.state j).schedules ∧ row.pair = p) ∧
    (∀ (now : Time) (host : Host) (clocks : Nat → Time) (ids : Nat → ScheduleId),
      (Op.syncFromRegistry host clocks ids registry).after now (e.state j) = e.state j) ∧
    ∀ row ∈ (e.state (i + 1)).schedules,
      (∀ k, i < k → k < j → ¬ Switches (e.state k) row.id (e.label k).2) →
        ∃ row', (e.state j).schedules.find? row.id = some row' ∧ SameButInstants row row' := by
  have after : e.state (i + 1) = db := by
    rw [show e.state (i + 1) = _ from e.next i (by omega), label]
    exact after_of_ok (Txn.discard_ok.mpr ⟨created, returned⟩)
  obtain ⟨lines, added, adds⟩ := syncFromRegistry_ok keys returned
  rw [← after] at adds
  have seeded : defaults registry ⊆ (e.state (i + 1)).pairs := by
    intro p mem
    rw [adds.pairs_eq, List.mem_append]
    by_cases old : p ∈ (e.state i).pairs
    · exact .inl old
    · exact .inr (List.mem_filter.mpr ⟨mem, by simpa using old⟩)
  have grown : Grows (fun _ => false) (e.state (i + 1)) (e.state j) :=
    grows_between e hij hj fun _ _ _ _ seen => by cases seen
  have there : defaults registry ⊆ (e.state j).pairs := fun p mem => grown.subset (seeded mem)
  refine ⟨⟨lines, added, adds⟩, fun p mem => ?_, fun _ _ _ _ => sync_again keys there, ?_⟩
  · obtain ⟨row, held, rfl⟩ := List.mem_map.mp (there mem)
    refine ⟨row, ⟨held, rfl⟩, ?_⟩
    rintro other ⟨held', same⟩
    exact List.inj_on_of_nodup_map (reachable_pairs (e.reachable hj)) held' held same
  · intro row mem alone
    have stands : Grows (fun x => decide (x = row.id)) (e.state (i + 1)) (e.state j) := by
      refine grows_between e hij hj fun k hik hkj x own => ?_
      rw [of_decide_eq_true own]
      exact alone k hik hkj
    obtain ⟨row', mem', same⟩ := stands.row mem
    have id := Schedule.id_of_standing same
    refine ⟨row', ?_, sameButInstants_of_standing (by simp) same⟩
    rw [← id]
    exact Table.find?_of_mem mem'

/-! ### A default that the operator switches off -/

def hourly : Host where
  isValid _ := true
  getNext _ _ t := some (t + 3600000000)
  repr := id

def newsDefault : Registry :=
  [(↑"news", { manifest := { name := ↑"news", schedule := some ↑"0 * * * *" }, prompt := [] }),
    (↑"pay", { manifest := { name := ↑"pay" }, prompt := [] })]

def seedNews : Op := .syncFromRegistry hourly (fun _ => 0) (fun _ => ↑"s") newsDefault

/-- The default is seeded, fires, and is switched off; then a worker starts. -/
def switchedOff : spine.Execution :=
  history [(0, seedNews), (3600000000, .tick hourly (fun _ => 3600000000) (fun _ => false)
    fun _ => ↑"r"), (3600000000, .toggleSchedule ↑"s"), (7200000000, seedNews)]

theorem switchedOff_seeded :
    ∃! row, row ∈ (switchedOff.state 4).schedules ∧ row.pair = (↑"news", ↑"0 * * * *") :=
  (defaults_seeded_once switchedOff (i := 0) (j := 4) (by decide) (by decide)
    (by decide : (newsDefault.map Prod.fst).Nodup) rfl rfl).2.1 _ (by decide)

end Scheduler

end AgenticOctopus.Spine
