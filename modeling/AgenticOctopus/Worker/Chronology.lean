import AgenticOctopus.Spine.Journal
import AgenticOctopus.Worker.Steps

/-!
# The times of a run are in order

Every transaction stamps what it writes with the one clock of the database, which does not go
back. So a run is created before it is started and started before it is finished, an approval
is asked for before it is decided, and the events of a run stand in the order of their times,
whichever worker wrote them and however late.
-/
namespace AgenticOctopus.Worker
open Foundation Spine

/-- The times of a row, none of them after `now`. -/
structure RunInOrder (now : Time) (run : Run) : Prop where
  created : run.createdAt ≤ now
  available : run.availableAt = run.createdAt
  started : ∀ t, run.startedAt = some t → run.createdAt ≤ t ∧ t ≤ now
  finished : ∀ t, run.finishedAt = some t →
    run.createdAt ≤ t ∧ t ≤ now ∧ ∀ s, run.startedAt = some s → s ≤ t

structure ApprovalInOrder (now : Time) (run : Run) (a : Approval) : Prop where
  requested : run.createdAt ≤ a.requestedAt ∧ a.requestedAt ≤ now
  decided : ∀ t, a.decidedAt = some t → a.requestedAt ≤ t ∧ t ≤ now

/-- The times of a run, of its approvals and of its events. -/
structure InOrder (now : Time) (d : Dossier) : Prop where
  blank : d.row = none → d.approvals = [] ∧ d.trail = []
  row : ∀ run, d.row = some run → RunInOrder now run
  approvals : ∀ run, d.row = some run → ∀ a ∈ d.approvals, ApprovalInOrder now run a
  events : ∀ run, d.row = some run → ∀ ev ∈ d.trail, run.createdAt ≤ ev.ts ∧ ev.ts ≤ now
  trail : d.trail.Pairwise fun a b => a.ts ≤ b.ts

variable {now later : Time} {d d' : Dossier}

theorem InOrder.mono (h : InOrder now d) (le : now ≤ later) : InOrder later d where
  blank := h.blank
  row run there := by
    obtain ⟨created, available, started, finished⟩ := h.row run there
    exact
      { created := created.trans le
        available := available
        started := fun t is => ⟨(started t is).1, (started t is).2.trans le⟩
        finished := fun t is =>
          ⟨(finished t is).1, (finished t is).2.1.trans le, (finished t is).2.2⟩ }
  approvals run there a mem := by
    obtain ⟨requested, decided⟩ := h.approvals run there a mem
    exact
      { requested := ⟨requested.1, requested.2.trans le⟩
        decided := fun t is => ⟨(decided t is).1, (decided t is).2.trans le⟩ }
  events run there ev mem :=
    ⟨(h.events run there ev mem).1, (h.events run there ev mem).2.trans le⟩
  trail := h.trail

/-- Events of this instant go to the end. -/
theorem trail_append {es evs : List RunEvent} (ordered : es.Pairwise fun a b => a.ts ≤ b.ts)
    (past : ∀ ev ∈ es, ev.ts ≤ now) (stamped : ∀ ev ∈ evs, ev.ts = now) :
    (es ++ evs).Pairwise fun a b => a.ts ≤ b.ts := by
  rw [List.pairwise_append]
  refine ⟨ordered, List.pairwise_of_forall_mem_list ?_, ?_⟩
  · intro a ha b hb
    rw [stamped a ha, stamped b hb]
  · intro a ha b hb
    rw [stamped b hb]
    exact past a ha

/-- A new row for the run, and events of this instant. -/
theorem InOrder.write {run run' : Run} {as as' : List Approval} {es : List RunEvent}
    (h : InOrder now ⟨some run, as, es⟩) (row : RunInOrder now run')
    (same : run'.createdAt = run.createdAt)
    (approvals : ∀ a ∈ as', ApprovalInOrder now run a) (evs : List RunEvent)
    (stamped : ∀ ev ∈ evs, ev.ts = now) : InOrder now ⟨some run', as', es ++ evs⟩ where
  blank gone := by cases gone
  row _ is := by
    cases is
    exact row
  approvals _ is a mem := by
    cases is
    obtain ⟨requested, decided⟩ := approvals a mem
    exact ⟨by rwa [same], decided⟩
  events _ is ev mem := by
    cases is
    rw [same]
    rcases List.mem_append.mp mem with old | new
    · exact h.events run rfl ev old
    · rw [stamped ev new]
      exact ⟨(h.row run rfl).created, le_rfl⟩
  trail := trail_append h.trail (fun ev mem => (h.events run rfl ev mem).2) stamped

theorem RunInOrder.start {run run' : Run} (h : RunInOrder now run) (unfinished : run.finishedAt = none)
    (created : run'.createdAt = run.createdAt) (available : run'.availableAt = run.availableAt)
    (started : run'.startedAt = some (run.startedAt.getD now))
    (finished : run'.finishedAt = run.finishedAt) : RunInOrder now run' where
  created := by rw [created]; exact h.created
  available := by rw [created, available]; exact h.available
  started := by
    rintro t is
    rw [started] at is
    cases is
    rw [created]
    cases was : run.startedAt with
    | none => exact ⟨h.created, le_rfl⟩
    | some s => exact h.started s was
  finished := by
    intro t is
    rw [finished, unfinished] at is
    cases is

theorem RunInOrder.close {run run' : Run} (h : RunInOrder now run)
    (created : run'.createdAt = run.createdAt) (available : run'.availableAt = run.availableAt)
    (started : run'.startedAt = run.startedAt) (finished : run'.finishedAt = some now) :
    RunInOrder now run' where
  created := by rw [created]; exact h.created
  available := by rw [created, available]; exact h.available
  started := by
    intro t is
    rw [created]
    rw [started] at is
    exact h.started t is
  finished := by
    intro t is
    rw [finished] at is
    cases is
    rw [created, started]
    exact ⟨h.created, le_rfl, fun s was => (h.started s was).2⟩

/-- What an entry writes is later than all that was there. -/
theorem InOrder.entry {r : RunId} (entry : d.Entry r now d') (shaped : d.Shaped)
    (h : InOrder now d) : InOrder now d' := by
  cases entry with
  | enqueue n agent trigger params scheduleId maxAttempts tags =>
    obtain ⟨rfl, rfl⟩ := h.blank rfl
    exact
      { blank := fun gone => by cases gone
        row := by
          rintro _ ⟨⟩
          constructor <;> simp [Queue.newRun]
        approvals := fun _ _ _ mem => by cases mem
        events := by
          rintro _ ⟨⟩ ev mem
          rw [List.mem_singleton.mp mem]
          exact ⟨le_rfl, le_rfl⟩
        trail := List.pairwise_singleton _ _ }
  | @claim run as es n workerId lease queued available =>
    have open_ : run.finishedAt = none := by
      have closed := (shaped run rfl).closed
      rw [queued] at closed
      simpa using closed
    apply h.write
    · exact (h.row run rfl).start open_ rfl rfl rfl rfl
    · rfl
    · exact h.approvals run rfl
    · simp
  | @heartbeat run as es workerId lease running held =>
    obtain ⟨created, available, started, finished⟩ := h.row run rfl
    have moved : RunInOrder now ((Queue.leaseSet now lease).apply run) :=
      ⟨created, available, started, finished⟩
    simpa using h.write moved rfl (h.approvals run rfl) [] (by simp)
  | @finish run as es n status result error costUsd sessionId outcome running =>
    apply h.write
    · exact (h.row run rfl).close rfl rfl rfl rfl
    · rfl
    · exact h.approvals run rfl
    · simp
  | @park run as es n id action payload running =>
    obtain ⟨created, available, started, finished⟩ := h.row run rfl
    apply h.write
    · exact ⟨created, available, started, finished⟩
    · rfl
    · intro a mem
      rcases List.mem_append.mp mem with old | new
      · exact h.approvals run rfl a old
      · rw [List.mem_singleton.mp new]
        exact ⟨⟨created, le_rfl⟩, fun t is => by cases is⟩
    · simp
  | @decide run as es n approved via note awaiting =>
    have row := h.row run rfl
    apply h.write
    · cases approved with
      | true => exact ⟨row.created, row.available, row.started, row.finished⟩
      | false => exact row.close rfl rfl rfl rfl
    · rfl
    · intro a mem
      obtain ⟨b, old, rfl⟩ := List.mem_map.mp mem
      have was := h.approvals run rfl b old
      split_ifs
      · refine ⟨was.requested, ?_⟩
        rintro t ⟨⟩
        exact ⟨was.requested.2, le_rfl⟩
      · exact was
    · simp
  | @requeue run as es n running =>
    obtain ⟨created, available, started, finished⟩ := h.row run rfl
    apply h.write
    · exact ⟨created, available, started, finished⟩
    · rfl
    · exact h.approvals run rfl
    · simp
  | @expire run as es n running =>
    apply h.write
    · exact (h.row run rfl).close rfl rfl rfl rfl
    · rfl
    · exact h.approvals run rfl
    · simp
  | @emit run as es ev emitted at_ =>
    apply h.write (h.row run rfl) rfl (h.approvals run rfl)
    simpa using at_
  | @retag run as es tags =>
    obtain ⟨created, available, started, finished⟩ := h.row run rfl
    have moved : RunInOrder now ((tagsSet tags).apply run) :=
      ⟨created, available, started, finished⟩
    simpa using h.write moved rfl (h.approvals run rfl) [] (by simp)

/-! ## Whole runs -/

theorem now_le {registry : Registry} {s t : Sys} {l : Label} (h : step registry s l = some t) :
    s.now ≤ t.now := by
  cases step_inversion h with
  | clock label later_ => exact later_
  | turn | transaction | nothing => exact le_rfl

/-- In every state that the workers, the scheduler, the reaper and the callers reach, the times
of each run are in order and none of them lies ahead. -/
theorem times_in_order {registry : Registry} {s : Sys} (h : (system registry).Reachable s)
    (r : RunId) : InOrder s.now (s.db.dossier r) := by
  refine h.invariant (P := fun s => InOrder s.now (s.db.dossier r)) ?_ ?_
  · rintro s ⟨empty, -⟩
    rw [empty, dossier_empty]
    exact ⟨fun _ => ⟨rfl, rfl⟩, fun _ is => (by cases is), fun _ is => (by cases is),
      fun _ is => (by cases is), .nil⟩
  · intro s l t reachable ordered moved
    refine InOrder.mono ?_ (now_le moved)
    rcases step_transaction moved with same | ⟨op, -, after⟩
    · rwa [same]
    · have spine_ := (systemRefines registry).reachable reachable
      rcases Op.enters s.now op s.db r with same | entry
      · rwa [after, same]
      · rw [after]
        exact ordered.entry entry (reachable_shaped spine_ r)

/-- A run that is created, claimed and closed at three times. -/
def tickingRun : (system
    [(↑"news", { manifest := { name := ↑"news" }, prompt := [] })]).Execution :=
  replay _
    [.call (.enqueue ↑"r" ↑"news" .api [] none 2 []) trivial,
      .clock 1,
      .claim ↑"w" fun _ => false,
      .execute ↑"w",
      .outcome ↑"w" (.ok { status := ↑"completed" }),
      .clock 2,
      .finish ↑"w"]
    (by decide)

theorem tickingRun_in_order : InOrder 2 ((tickingRun.state 7).db.dossier ↑"r") :=
  times_in_order (tickingRun.reachable (i := 7) (by decide)) ↑"r"

end AgenticOctopus.Worker
