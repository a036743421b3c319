import AgenticOctopus.Api.Gateway
import AgenticOctopus.Spine.Replay
import AgenticOctopus.Worker.ApprovedParams

/-!
# Following a run

`octo run --follow` posts a run and then asks for its row until the run has ended. The client
sees the row only when it asks, so it may miss statuses; what it prints is still a part of the
audit trail in its order, and the row that it ends with is final but for its tags.
-/
namespace AgenticOctopus.Api.Gateway
open Foundation Spine
open Worker (Sys)

/-! ## The command -/

inductive Line where
  | runId (runId : Text)
  | status (status : Text)
  /-- `→ approve with: octo approve {run_id}` -/
  | hint (runId : Text)
  | row (response : Response)

inductive Ending where
  | polling | returned | raised
deriving DecidableEq

def terminalStates : List Text := [↑"completed", ↑"failed", ↑"rejected", ↑"cancelled"]

/-- `response.json()["status"]`; the body of an error has no such field. -/
def statusField : Response → Option Text
  | .answer _ (.run row) => some row.status.value
  | .answer _ (.json fields) =>
    match fields.get? ↑"status" with
    | some (.str status) => some status
    | _ => none
  | _ => none

/-- The loop, over the answers to its polls: the row's, and the one that it prints at the end. -/
def follow (runId : Text) (last : Option Text) : List (Response × Response) → List Line × Ending
  | [] => ([], .polling)
  | (polled, final) :: polls =>
    match statusField polled with
    | none => ([], .raised)
    | some status =>
      let news := if some status ≠ last then [.status status] else []
      if status ∈ terminalStates then (news ++ [.row final], .returned)
      else
        let hint := if status = ↑"awaiting_approval" then [.hint runId] else []
        let (lines, ending) := follow runId (some status) polls
        (news ++ hint ++ lines, ending)

/-- `octo run --follow`; an error of the post raises. -/
def run (posted : Response) (polls : List (Response × Response)) : List Line × Ending :=
  match posted with
  | .answer _ (.json fields) =>
    match fields.get? ↑"run_id" with
    | some (.str runId) =>
      let (lines, ending) := follow runId none polls
      (.runId runId :: lines, ending)
    | _ => ([], .raised)
  | _ => ([], .raised)

def statusLines (lines : List Line) : List Text :=
  lines.filterMap fun line =>
    match line with
    | .status status => some status
    | _ => none

/-! ## Sampling -/

/-- A value that was last in a log, past the ones seen so far, and what comes after it. -/
theorem sublist_drop_of_last {α : Type*} {a b c : List α} (hab : a <+: b) (hbc : b <+: c) {x : α}
    (is : b.getLast? = some x) (news : a.getLast? ≠ some x) {xs : List α}
    (rest : xs.Sublist (c.drop b.length)) : (x :: xs).Sublist (c.drop a.length) := by
  obtain ⟨between, rfl⟩ := hab
  obtain ⟨after, rfl⟩ := hbc
  have mem : x ∈ between := by
    rcases List.eq_nil_or_concat' between with rfl | ⟨front, y, rfl⟩
    · rw [List.append_nil] at is
      exact (news is).elim
    · rw [← List.append_assoc, List.getLast?_concat] at is
      cases is
      simp
  rw [List.drop_left] at rest
  rw [List.append_assoc, List.drop_left]
  exact (List.singleton_sublist.mpr mem).append rest

/-! ## The audit trail as statuses -/

def auditTrail (db : Db) (r : RunId) : List Text :=
  (statusChangesOf db r).filterMap fun ev => ev.text? ↑"to"

theorem auditTrail_last {db : Db} (h : spine.Reachable db) {r : RunId} {run : Run}
    (there : db.runs.find? r = some run) :
    (auditTrail db r).getLast? = some run.status.value := by
  have trail : Dossier.Trail (statusChangesOf db r) run.status :=
    (reachable_audited h r).2 run there
  rw [auditTrail]
  generalize statusChangesOf db r = evs, run.status = status at trail ⊢
  cases trail with
  | first recorded => simp [RunEvent.text?, recorded.2.2]
  | next before legal recorded => simp [RunEvent.text?, recorded.2.2]

theorem Dossier.Advance.trail_grows {r : RunId} {d d' : Dossier} {act : Act}
    (h : d.Advance r act d') : d.trail <+: d'.trail := by
  cases h <;> first | exact List.prefix_append _ _ | exact List.prefix_refl _

variable {host : Host} {registry : Registry}

theorem auditTrail_step {s t : Sys} {l : Label} (h : step host registry s l = some t) (r : RunId) :
    auditTrail s.db r <+: auditTrail t.db r := by
  have grows : (s.db.dossier r).trail <+: (t.db.dossier r).trail := by
    rcases Worker.step_effect (step_worker h) r with same | ⟨_, _, -, -, -, advance⟩
    · rw [same]
    · exact Dossier.Advance.trail_grows advance
  exact (grows.filter _).filterMap _

theorem reachable_spine (e : (served host registry).Execution) {k : Nat} (hk : k ≤ e.length) :
    spine.Reachable (e.state k).db :=
  (Worker.systemRefines registry).reachable ((workers e).reachable hk)

theorem auditTrail_grows (e : (served host registry).Execution) {i j : Nat} (hij : i ≤ j)
    (hj : j ≤ e.length) (r : RunId) :
    auditTrail (e.state i).db r <+: auditTrail (e.state j).db r :=
  e.log_grows (fun s => auditTrail s.db r)
    (fun k hk => auditTrail_step (e.next k hk) r) hij hj

/-! ## What a follower sees -/

/-- The answer to a poll of this run in this state. -/
def polled (e : (served host registry).Execution) (runId : Text) (draw : Draw) (k : Nat) :
    Response :=
  (serve host (e.state k).now draw (e.state k).db (some host.octoApiToken)
    (.getRun runId)).response (e.state k).db

variable {e : (served host registry).Execution} {runId : Text} {r : RunId} {draw : Draw}

theorem polled_row (connected : host.connected = true) (uuid : host.uuid runId = some r) {k : Nat}
    {row : Run} (there : (e.state k).db.runs.find? r = some row) :
    polled e runId draw k = .answer 200 (.run row) := by
  simp [polled, serve, handle, getRun, withPool, withUuid, connected, uuid, Queue.getRun, there,
    Plan.response]

theorem row_stays {i j : Nat} (hij : i ≤ j) (hj : j ≤ e.length)
    (there : ∃ row, (e.state i).db.runs.find? r = some row) :
    ∃ row, (e.state j).db.runs.find? r = some row := by
  refine e.persists (P := fun s => ∃ row, s.db.runs.find? r = some row) hij ?_ there
  rintro k - hkj ⟨row, there⟩
  obtain ⟨row', after, -⟩ := Worker.origin_step (step_worker (e.next k (by omega))) there
  exact ⟨row', after⟩

/-- The same row but for its tags. -/
def SameButTags (row row' : Run) : Prop := ∃ tags, row' = { row with tags := tags }

theorem SameButTags.status {row row' : Run} (h : SameButTags row row') :
    row'.status = row.status := by
  obtain ⟨tags, rfl⟩ := h
  rfl

theorem ended_row_stays {i j : Nat} (hij : i ≤ j) (hj : j ≤ e.length) {row : Run}
    (there : (e.state i).db.runs.find? r = some row) (ended : row.status.Terminal) :
    ∃ row', (e.state j).db.runs.find? r = some row' ∧ SameButTags row row' := by
  refine e.persists (P := fun s => ∃ row', s.db.runs.find? r = some row' ∧ SameButTags row row') hij
    ?_ ⟨row, there, row.tags, rfl⟩
  rintro k - hkj ⟨row', there, tags, rfl⟩
  rcases Worker.step_effect (step_worker (e.next k (by omega))) r with
    same | ⟨_, _, -, -, -, advance⟩
  · exact ⟨_, (congrArg Dossier.row same).trans there, tags, rfl⟩
  · obtain ⟨tags', after⟩ := advance.frozen there ended
    exact ⟨_, after, tags', rfl⟩

/-- The instants of the polls: each asks for the status, and then perhaps for the row. -/
def PollsBetween : Nat → List (Nat × Nat) → Nat → Prop
  | i, [], n => i ≤ n
  | i, (k, k') :: times, n => i ≤ k ∧ k ≤ k' ∧ PollsBetween k' times n

theorem PollsBetween.le : ∀ {i n : Nat} {times : List (Nat × Nat)}, PollsBetween i times n → i ≤ n
  | _, _, [], h => h
  | _, _, _ :: _, ⟨hik, hkk, rest⟩ => (hik.trans hkk).trans rest.le

/-- What the client has printed by step `n`, past the statuses in `seen`. -/
structure Tells (e : (served host registry).Execution) (r : RunId) (seen : List Text)
    (times : List (Nat × Nat)) (n : Nat) (out : List Line × Ending) : Prop where
  /-- Its statuses are a part of what is left of the audit trail, in order. -/
  statuses : (statusLines out.1).Sublist ((auditTrail (e.state n).db r).drop seen.length)
  smooth : out.2 ≠ .raised
  /-- It returns if and only if a poll found the run ended. -/
  ends : out.2 = .returned ↔ ∃ t ∈ times, ∃ row, (e.state t.1).db.runs.find? r = some row ∧
    row.status.Terminal
  /-- The last row it prints is final but for its tags. -/
  final : out.2 = .returned → ∃ row, out.1.getLast? = some (.row (.answer 200 (.run row))) ∧
    row.status.Terminal ∧ (auditTrail (e.state n).db r).getLast? = some row.status.value ∧
    ∀ m, n ≤ m → m ≤ e.length →
      ∃ row', (e.state m).db.runs.find? r = some row' ∧ SameButTags row row'

theorem mem_terminalStates (s : RunStatus) : s.value ∈ terminalStates ↔ s.Terminal := by
  cases s <;> decide +kernel

def newsOf (last : Option Text) (status : Text) : List Line :=
  if some status ≠ last then [.status status] else []

def hintOf (runId status : Text) : List Line :=
  if status = ↑"awaiting_approval" then [.hint runId] else []

theorem follow_ended {last : Option Text} {polled final : Response}
    {polls : List (Response × Response)} {status : Text} (field : statusField polled = some status)
    (ended : status ∈ terminalStates) :
    follow runId last ((polled, final) :: polls) = (newsOf last status ++ [.row final], .returned) := by
  rw [follow, field]
  simp only [if_pos ended]
  rfl

theorem follow_going {last : Option Text} {polled final : Response}
    {polls : List (Response × Response)} {status : Text} (field : statusField polled = some status)
    (going : status ∉ terminalStates) :
    follow runId last ((polled, final) :: polls) =
      (newsOf last status ++ hintOf runId status ++ (follow runId (some status) polls).1,
        (follow runId (some status) polls).2) := by
  rw [follow, field]
  simp only [if_neg going]
  rfl

theorem statusLines_append (lines lines' : List Line) :
    statusLines (lines ++ lines') = statusLines lines ++ statusLines lines' :=
  List.filterMap_append

theorem statusLines_hintOf (status : Text) : statusLines (hintOf runId status) = [] := by
  unfold hintOf
  split_ifs <;> rfl

/-- What is printed of a status that is last in the trail so far, before what comes later. -/
theorem news_sublist {seen now all : List Text} (before : seen <+: now) (after : now <+: all)
    {status : Text} (latest : now.getLast? = some status) {later : List Text}
    (rest : later.Sublist (all.drop now.length)) :
    (statusLines (newsOf seen.getLast? status) ++ later).Sublist (all.drop seen.length) := by
  unfold newsOf
  split_ifs with fresh
  · exact sublist_drop_of_last before after latest (Ne.symm fresh) rest
  · exact rest.trans (List.drop_sublist_drop_left _ before.length_le)

theorem follow_tells (connected : host.connected = true) (uuid : host.uuid runId = some r)
    {n : Nat} (hn : n ≤ e.length) : ∀ (times : List (Nat × Nat)) {i : Nat} {seen : List Text},
      PollsBetween i times n → (∃ row, (e.state i).db.runs.find? r = some row) →
      seen <+: auditTrail (e.state i).db r →
      Tells e r seen times n (follow runId seen.getLast?
        (times.map fun t => (polled e runId draw t.1, polled e runId draw t.2)))
  | [], i, seen, between, there, sofar =>
    { statuses := List.nil_sublist _
      smooth := by simp [follow]
      ends := by simp [follow]
      final := by simp [follow] }
  | (k, k') :: times, i, seen, ⟨hik, hkk, rest⟩, there, sofar => by
    have hk'n : k' ≤ n := rest.le
    obtain ⟨row, at_⟩ := row_stays (e := e) hik (by omega) there
    have latest := auditTrail_last (reachable_spine e (k := k) (by omega)) at_
    have before : seen <+: auditTrail (e.state k).db r :=
      sofar.trans (auditTrail_grows e hik (by omega) r)
    have after := auditTrail_grows e (i := k) (j := n) (by omega) hn r
    have field : statusField (polled e runId draw k) = some row.status.value := by
      rw [polled_row connected uuid at_]
      rfl
    by_cases ended : row.status.Terminal
    · have listed := (mem_terminalStates row.status).mpr ended
      obtain ⟨final, atEnd, same⟩ := ended_row_stays (e := e) hkk (by omega) at_ ended
      have closed : final.status.Terminal := by
        rw [same.status]
        exact ended
      rw [List.map_cons, follow_ended field listed, polled_row connected uuid atEnd]
      exact
        { statuses := by
            rw [statusLines_append]
            exact news_sublist before after latest (List.nil_sublist _)
          smooth := Ending.noConfusion
          ends := ⟨fun _ => ⟨(k, k'), List.mem_cons_self, row, at_, ended⟩, fun _ => rfl⟩
          final := by
            intro _
            obtain ⟨row', last, same'⟩ := ended_row_stays (e := e) hk'n hn atEnd closed
            refine ⟨final, List.getLast?_concat, closed, ?_, ?_⟩
            · rw [← same'.status]
              exact auditTrail_last (reachable_spine e hn) last
            · intro m hnm hm
              exact ended_row_stays (e := e) (hk'n.trans hnm) hm atEnd closed }
    · have unlisted := (mem_terminalStates row.status).not.mpr ended
      have ih := follow_tells connected uuid hn times rest
        (row_stays (e := e) hkk (by omega) ⟨row, at_⟩) (auditTrail_grows e hkk (by omega) r)
      rw [latest] at ih
      rw [List.map_cons, follow_going field unlisted]
      exact
        { statuses := by
            rw [statusLines_append, statusLines_append, statusLines_hintOf, List.append_nil]
            exact news_sublist before after latest ih.statuses
          smooth := ih.smooth
          ends := by
            rw [ih.ends]
            constructor
            · rintro ⟨t, mem, found⟩
              exact ⟨t, List.mem_cons_of_mem _ mem, found⟩
            · rintro ⟨t, mem, row', there', closed⟩
              rcases List.mem_cons.mp mem with rfl | mem
              · rw [at_] at there'
                cases there'
                exact (ended closed).elim
              · exact ⟨t, mem, row', there', closed⟩
          final := by
            intro returned
            obtain ⟨final, last, rest⟩ := ih.final returned
            refine ⟨final, ?_, rest⟩
            rw [List.getLast?_append, last]
            rfl }

/-! ## The whole command -/

theorem enqueued {now : Time} {name : Text} {params tags : Dict Text Json} {db db' : Db} {x : RunId}
    (h : (Queue.enqueue now r name .api params none 1 tags).run db = .ok (x, db')) :
    x = r ∧ ∃ row, db'.runs.find? r = some row := by
  obtain ⟨rows, -⟩ := Queue.enqueue_ok h
  simp only [Queue.enqueue, Txn.bind_ok, Txn.pure_ok] at h
  obtain ⟨_, _, -, _, _, -, rfl, -⟩ := h
  exact ⟨rfl, _, (rows _).trans (if_pos rfl)⟩

theorem runAgent_answered {now : Time} {db : Db} {name : Text} {params tags : Dict Text Json}
    {status : Nat} {fields : Dict Text Json}
    (h : (runAgent host now draw name params tags).response db = .answer status (.json fields)) :
    host.connected = true ∧ fields.get? ↑"run_id" = some (.str draw.id) ∧
      ∃ row, ((runAgent host now draw name params tags).database db).runs.find? draw.id =
        some row := by
  unfold runAgent withPool at h ⊢
  split_ifs at h ⊢ with unknown connected unstorable
  · cases h
  · cases h
  · rcases Txn.commit_cases (Queue.enqueue now draw.id name .api params none 1 tags) db with
      ⟨error, -, raised⟩ | ⟨x, db', ran, returned⟩
    · rw [Plan.response, raised] at h
      cases error <;> cases h
    · obtain ⟨rfl, there⟩ := enqueued ran
      rw [Plan.response, returned] at h
      cases h
      refine ⟨connected, by simp [Dict.get?], ?_⟩
      rw [Plan.database, returned]
      exact there
  · cases h

/-- `octo run --follow`, when its post is answered: it prints the run's id, and from then on it
tells what the run does. -/
theorem run_follow_tells (e : (served host registry).Execution) {i n : Nat} (hi : i < e.length)
    (hn : n ≤ e.length) {name : Text} {params tags : Dict Text Json} {draw drawn : Draw}
    (label : e.label i = .http (some host.octoApiToken) (.runAgent name params tags) draw)
    (uuid : host.uuid draw.id = some draw.id) {status : Nat} {fields : Dict Text Json}
    (posted : (serve host (e.state i).now draw (e.state i).db (some host.octoApiToken)
      (.runAgent name params tags)).response (e.state i).db = .answer status (.json fields))
    {times : List (Nat × Nat)} (between : PollsBetween (i + 1) times n) :
    ∃ lines ending, run (.answer status (.json fields))
        (times.map fun t => (polled e draw.id drawn t.1, polled e draw.id drawn t.2)) =
          (.runId draw.id :: lines, ending) ∧ Tells e draw.id [] times n (lines, ending) := by
  rw [serve, if_pos rfl] at posted
  obtain ⟨connected, id, there⟩ := runAgent_answered posted
  have next : step host registry (e.state i) (e.label i) = some (e.state (i + 1)) := e.next i hi
  rw [label, step, Option.some.injEq, serve, if_pos rfl] at next
  have row : ∃ row, (e.state (i + 1)).db.runs.find? draw.id = some row := by
    rw [← next]
    exact there
  have tells : Tells e draw.id [] times n (follow draw.id none
      (times.map fun t => (polled e draw.id drawn t.1, polled e draw.id drawn t.2))) :=
    follow_tells connected uuid hn times between row List.nil_prefix
  refine ⟨_, _, ?_, tells⟩
  rw [run, id]

/-- A gateway that knows one agent. -/
def newsHost : Host where
  octoApiToken := ↑"change-me"
  connected := true
  registry := [(↑"news", { manifest := { name := ↑"news" }, prompt := [] })]
  scheduler := { isValid := fun _ => true, getNext := fun _ _ t => some t, repr := id }
  uuid := some

def newsDraw : Draw where
  id := ↑"r"
  clock := 0
  ids _ := ↑"s"
  clocks _ := 0

/-- A run from its post to its end. -/
def newsServed : (served newsHost newsHost.registry).Execution :=
  Machine.replay (step newsHost newsHost.registry) ⟨Db.empty, 0, fun _ => .idle⟩
    (served_starts newsHost newsHost.registry)
    [.http (some ↑"change-me") (.runAgent ↑"news" [] []) newsDraw,
      .inside (.claim ↑"w" fun _ => false) trivial,
      .inside (.execute ↑"w") trivial,
      .inside (.outcome ↑"w" (.ok { status := ↑"completed" })) trivial,
      .inside (.finish ↑"w") trivial]
    (.inside (.clock 0) trivial) (by decide)

theorem newsServed_told :
    ∃ lines ending, run (.answer 202 (.json [(↑"run_id", .str ↑"r"), (↑"status", .str ↑"queued")]))
        ([(2, 2), (5, 5)].map fun t => (polled newsServed ↑"r" newsDraw t.1,
          polled newsServed ↑"r" newsDraw t.2)) = (.runId ↑"r" :: lines, ending) ∧
      Tells newsServed ↑"r" [] [(2, 2), (5, 5)] 5 (lines, ending) :=
  run_follow_tells newsServed (i := 0) (n := 5) (by decide) (by decide) rfl rfl rfl
    (by simp [PollsBetween])

end AgenticOctopus.Api.Gateway
