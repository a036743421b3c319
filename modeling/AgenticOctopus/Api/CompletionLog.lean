import AgenticOctopus.Api.Completions
import AgenticOctopus.Chat.Usage

/-!
# The log of completions

The report of a day counts the rows of the log for the requests to the shim, so it misses the
calls whose answer came to no figures that the log takes. Otherwise the log shows nowhere: a
shim without a database serves the same.
-/
namespace AgenticOctopus.Api.OpenAICompat
open Foundation Providers Program
open Chat (PyDict)
open Spine (Time)

/-! ## Every call -/

/-- A call of `chat_completions`. -/
structure Call where
  outside : Outside
  body : Json
  header : Option Text

namespace Call

variable (c : Call) (s : Desk)

def run : EStateM.Result Raised Desk Reply := (completion c.outside c.body c.header).run s

def after : Desk := state (c.run s)

def reply : Except Raised Reply := outcome (c.run s)

/-- The call asks a provider. -/
def Asks : Prop := ∃ asked, routed c.outside c.body = .ok asked

/-- The call comes to these figures, with these tags. -/
def Figures (requests : List Request) (usage : PyDict) (actual : Json) (tags : Dict Text Json) :
    Prop :=
  ∃ request model providerName, routed c.outside c.body = .ok (request, model, providerName) ∧
    figures c.outside request model requests = some (usage, actual) ∧
    tags = completionTags c.outside.upstream.py providerName model c.header

/-- The call comes to figures that the log takes. -/
def Counts (requests : List Request) : Prop :=
  ∃ usage actual tags, c.Figures requests usage actual tags ∧ Takes c.outside usage actual tags

/-- The call comes to figures that the log does not take. -/
def Refused (requests : List Request) : Prop :=
  ∃ usage actual tags, c.Figures requests usage actual tags ∧ ¬ Takes c.outside usage actual tags

variable {c}

/-- A call that asks nobody changes nothing. -/
theorem after_idle (idle : ¬ c.Asks) : c.after s = s := by
  unfold after run completion
  cases route : routed c.outside c.body with
  | error e => cases e <;> rfl
  | ok asked => exact absurd ⟨asked, route⟩ idle

theorem run_asks {request : Request} {model providerName : Text}
    (route : routed c.outside c.body = .ok (request, model, providerName)) :
    c.run s = (answer c.outside request model
      (completionTags c.outside.upstream.py providerName model c.header)).run s := by
  rw [run, completion, route]

theorem figures_iff {request : Request} {model providerName : Text}
    (route : routed c.outside c.body = .ok (request, model, providerName))
    {requests : List Request} {P : PyDict → Json → Dict Text Json → Prop} :
    (∃ usage actual tags, c.Figures requests usage actual tags ∧ P usage actual tags) ↔
      ∃ usage actual, figures c.outside request model requests = some (usage, actual) ∧
        P usage actual (completionTags c.outside.upstream.py providerName model c.header) := by
  constructor
  · rintro ⟨usage, actual, _, ⟨_, _, _, same, found, rfl⟩, holds⟩
    rw [route] at same
    cases same
    exact ⟨usage, actual, found, holds⟩
  · rintro ⟨usage, actual, found, holds⟩
    exact ⟨usage, actual, _, ⟨request, model, providerName, route, found, rfl⟩, holds⟩

/-- A call that asks makes one request, and a row if the log takes its figures. -/
theorem after_asks {request : Request} {model providerName : Text}
    (route : routed c.outside c.body = .ok (request, model, providerName)) :
    (c.after s).requests = s.requests ++ [request] ∧
      (s.pool = none → (c.after s).pool = none) ∧
      ∀ rows, s.pool = some rows →
        (c.Counts s.requests → ∃ row, (c.after s).pool = some (rows ++ [⟨c.outside.now, row⟩])) ∧
        (¬ c.Counts s.requests → (c.after s).pool = some rows) := by
  let tags := completionTags c.outside.upstream.py providerName model c.header
  have answered := (congrArg state (run_asks s route)).trans (state_answer request model tags s)
  change c.after s = _ at answered
  rw [answered]
  unfold Counts
  rw [figures_iff route]
  cases found : figures c.outside request model s.requests with
  | none =>
    refine ⟨rfl, id, fun rows there => ⟨?_, fun _ => there⟩⟩
    rintro ⟨usage, actual, ⟨⟩, -⟩
  | some fit =>
    obtain ⟨usage, actual⟩ := fit
    dsimp only
    cases pool : s.pool with
    | none =>
      have same : (s.asked request).pool = none := pool
      rw [log_none same]
      exact ⟨rfl, fun _ => pool, fun rows there => by cases there⟩
    | some rows =>
      have same : (s.asked request).pool = some rows := pool
      rcases log_some same usage actual request.stream tags with ⟨takes, row, ran⟩ | ⟨refuses, ran⟩
      · rw [ran]
        refine ⟨rfl, (nomatch ·), ?_⟩
        rintro _ ⟨⟩
        exact ⟨fun _ => ⟨row, rfl⟩, fun refuses => absurd ⟨usage, actual, rfl, takes⟩ refuses⟩
      · rw [ran]
        refine ⟨rfl, (nomatch ·), ?_⟩
        rintro _ ⟨⟩
        refine ⟨?_, fun _ => pool⟩
        rintro ⟨_, _, ⟨⟩, takes⟩
        exact absurd takes refuses

/-- A desk without a database serves the same, but for the calls whose row is refused. -/
theorem reply_bare {t : Desk} (same : t.requests = s.requests) (bare : t.pool = none) :
    (c.after t).requests = (c.after s).requests ∧ (c.after t).pool = none ∧
      ((s.pool ≠ none ∧ c.Refused s.requests) → c.reply s = (c.reply t).bind Reply.unlogged) ∧
      (¬ (s.pool ≠ none ∧ c.Refused s.requests) → c.reply s = c.reply t) := by
  by_cases asks : c.Asks
  · obtain ⟨⟨request, model, providerName⟩, route⟩ := asks
    obtain ⟨asked, -, -⟩ := c.after_asks s route
    obtain ⟨asked', kept, -⟩ := c.after_asks t route
    refine ⟨by rw [asked, asked', same], kept bare, ?_⟩
    have shows := outcome_answer (o := c.outside) request model
      (completionTags c.outside.upstream.py providerName model c.header) s same bare
    unfold reply Refused
    rw [run_asks s route, run_asks t route, shows, figures_iff route]
    cases found : figures c.outside request model s.requests with
    | none =>
      refine ⟨?_, fun _ => rfl⟩
      rintro ⟨-, _, _, ⟨⟩, -⟩
    | some fit =>
      obtain ⟨usage, actual⟩ := fit
      dsimp only
      rcases log_ends (o := c.outside) (s.asked request) usage actual request.stream
        (completionTags c.outside.upstream.py providerName model c.header) with
        ⟨logs, _, ran⟩ | ⟨there, refuses, ran⟩ <;> rw [ran]
      · refine ⟨?_, fun _ => rfl⟩
        rintro ⟨there, _, _, ⟨⟩, refuses⟩
        exact absurd logs (by simpa [Desk.asked, there] using refuses)
      · exact ⟨fun _ => rfl, fun fits => absurd ⟨there, usage, actual, rfl, refuses⟩ fits⟩
  · rw [c.after_idle s asks, c.after_idle t asks]
    refine ⟨same, bare, ?_, ?_⟩
    · rintro ⟨-, _, _, _, ⟨request, model, providerName, route, -⟩, -⟩
      exact absurd ⟨_, route⟩ asks
    · intro _
      unfold reply run completion
      cases route : routed c.outside c.body with
      | error e => cases e <;> rfl
      | ok asked => exact absurd ⟨asked, route⟩ asks

end Call

/-- Calls, one after the other, over a log that may have rows of earlier days. -/
def shim : Machine Desk Call where
  start s := s.requests = []
  step s c s' := s' = c.after s

/-- The times of the rows, which the report counts. -/
def Desk.times (s : Desk) : List Time := (s.pool.getD []).map LogRow.ts

/-- A provider was asked, and the log has no row of it. -/
def Call.Missed (c : Call) (s : Desk) : Prop := c.Asks ∧ ¬ c.Counts s.requests

theorem report_rows {s : Desk} {rows : List LogRow} (pool : s.pool = some rows) {midnight : Time}
    {store : Chat.Store} :
    (Chat.usageToday midnight store s.times).openaiCompatRequestsToday =
      rows.countP fun logged => decide (midnight ≤ logged.ts) := by
  rw [Chat.usageToday, Desk.times, pool, Option.getD_some, List.countP_map]
  rfl

open Classical in
/-- What one call does to the requests and to the report. -/
theorem Call.charges (c : Call) {s : Desk} {rows : List LogRow} (pool : s.pool = some rows)
    {midnight : Time} (late : midnight ≤ c.outside.now) (store : Chat.Store) :
    ∃ rows', (c.after s).pool = some rows' ∧
      (c.after s).requests.length +
          (Chat.usageToday midnight store s.times).openaiCompatRequestsToday =
        s.requests.length +
          (Chat.usageToday midnight store (c.after s).times).openaiCompatRequestsToday +
          if c.Missed s then 1 else 0 := by
  by_cases asks : c.Asks
  · obtain ⟨⟨request, model, providerName⟩, route⟩ := asks
    obtain ⟨requests, -, logs⟩ := c.after_asks s route
    obtain ⟨counts, skips⟩ := logs rows pool
    have asked : c.Missed s ↔ ¬ c.Counts s.requests :=
      ⟨fun missed => missed.2, fun missed => ⟨⟨_, route⟩, missed⟩⟩
    by_cases counted : c.Counts s.requests
    · obtain ⟨row, grown⟩ := counts counted
      refine ⟨_, grown, ?_⟩
      rw [report_rows pool, report_rows grown, requests, if_neg (by simp [asked, counted])]
      simp only [List.length_append, List.countP_append, List.length_singleton,
        List.countP_singleton, late, decide_true, if_true]
      omega
    · refine ⟨rows, skips counted, ?_⟩
      rw [report_rows pool, report_rows (skips counted), requests, if_pos (asked.mpr counted)]
      simp only [List.length_append, List.length_singleton]
      omega
  · have missed : ¬ c.Missed s := fun missed => asks missed.1
    rw [c.after_idle s asks, if_neg missed]
    exact ⟨rows, pool, rfl⟩

/-- Since midnight, the requests of the shim are what the report counts, and one for each call
whose answer came to no figures that the log takes. -/
theorem completions_counted (e : shim.Execution) {i j : Nat} (hij : i ≤ j) (hj : j ≤ e.length)
    {rows : List LogRow} (pool : (e.state i).pool = some rows) {midnight : Time}
    (timely : ∀ k, i ≤ k → k < j → midnight ≤ (e.label k).outside.now) (store : Chat.Store) :
    (e.state j).requests.length +
        (Chat.usageToday midnight store (e.state i).times).openaiCompatRequestsToday =
      (e.state i).requests.length +
        (Chat.usageToday midnight store (e.state j).times).openaiCompatRequestsToday +
        Machine.Execution.steps (fun k => (e.label k).Missed (e.state k)) i j := by
  suffices run : ∃ rows', (e.state j).pool = some rows' ∧ _ from run.choose_spec.2
  induction j, hij using Nat.le_induction with
  | base => exact ⟨rows, pool, by simp [Machine.Execution.steps_self]⟩
  | succ j hij ih =>
    obtain ⟨rows', there, before⟩ := ih (by omega) fun k hik hkj => timely k hik (by omega)
    have step : e.state (j + 1) = (e.label j).after (e.state j) := e.next j (by omega)
    obtain ⟨rows'', after, charges⟩ :=
      (e.label j).charges there (timely j hij (by omega)) store
    refine ⟨rows'', step ▸ after, ?_⟩
    rw [Machine.Execution.steps_succ _ hij, step]
    split_ifs at charges ⊢ <;> omega

/-- With the same calls, a shim without a database asks the same of the providers and serves the
same, but for the calls whose row the log refuses: their plain answer is lost, their stream cut. -/
theorem served_without_log (e bare : shim.Execution) {n : Nat} (hn : n ≤ e.length)
    (hn' : n ≤ bare.length) (calls : ∀ k, k < n → bare.label k = e.label k)
    (nothing : (bare.state 0).pool = none) {k : Nat} (hk : k < n) :
    (bare.state k).requests = (e.state k).requests ∧
      (((e.state k).pool ≠ none ∧ (e.label k).Refused (e.state k).requests) →
        (e.label k).reply (e.state k) =
          ((bare.label k).reply (bare.state k)).bind Reply.unlogged) ∧
      (¬ ((e.state k).pool ≠ none ∧ (e.label k).Refused (e.state k).requests) →
        (e.label k).reply (e.state k) = (bare.label k).reply (bare.state k)) := by
  obtain ⟨same, away⟩ : (bare.state k).requests = (e.state k).requests ∧
      (bare.state k).pool = none := by
    induction k with
    | zero =>
      have start : (e.state 0).requests = [] := e.start
      have start' : (bare.state 0).requests = [] := bare.start
      exact ⟨by rw [start, start'], nothing⟩
    | succ k ih =>
      obtain ⟨same, away⟩ := ih (by omega)
      have step : e.state (k + 1) = (e.label k).after (e.state k) := e.next k (by omega)
      have step' : bare.state (k + 1) = (bare.label k).after (bare.state k) := bare.next k (by omega)
      rw [step, step', calls k (by omega)]
      obtain ⟨requests, pool, -⟩ := Call.reply_bare (c := e.label k) (e.state k) same away
      exact ⟨requests, pool⟩
  obtain ⟨-, -, refused, served⟩ := Call.reply_bare (c := e.label k) (e.state k) same away
  rw [calls k hk]
  exact ⟨same, refused, served⟩

/-! ### Two calls -/

section TwoCalls

def spoken : Json :=
  .obj [(↑"model", .str ↑"m:free"), (↑"choices", .arr [.obj [(↑"message",
    .obj [(↑"content", .str ↑"Hi")])]]), (↑"usage", .obj [(↑"prompt_tokens", .int 3)])]

def answering : Upstream where
  py := Chat.plainPython
  installedTags := []
  respond _ := .ok ⟨200, ↑"", .ok spoken⟩
  openStream _ := .error .httpError

def outside (connects : Bool) : Outside where
  settings := {}
  upstream := answering
  chunks _ := ([], none)
  describe _ := ↑""
  now := 10
  durationMs := 700
  connects := connects
  columns := plainColumns

/-- Of two calls the second finds no connection to the database. -/
def twoCalls (pool : Option (List LogRow)) : shim.Execution where
  length := 2
  label
    | 0 => ⟨outside true, .obj [], some ↑"team=ops"⟩
    | _ => ⟨outside false, .obj [], none⟩
  state
    | 0 => ⟨[], pool⟩
    | 1 => Call.after ⟨outside true, .obj [], some ↑"team=ops"⟩ ⟨[], pool⟩
    | _ => Call.after ⟨outside false, .obj [], none⟩
        (Call.after ⟨outside true, .obj [], some ↑"team=ops"⟩ ⟨[], pool⟩)
  start := rfl
  next i hi := by
    interval_cases i <;> rfl

theorem twoCalls_counted :
    ((twoCalls (some [])).state 2).requests.length +
        (Chat.usageToday 0 .empty ((twoCalls (some [])).state 0).times).openaiCompatRequestsToday =
      ((twoCalls (some [])).state 0).requests.length +
        (Chat.usageToday 0 .empty ((twoCalls (some [])).state 2).times).openaiCompatRequestsToday +
        Machine.Execution.steps
          (fun k => ((twoCalls (some [])).label k).Missed ((twoCalls (some [])).state k)) 0 2 ∧
      ((twoCalls (some [])).state 2).requests.length = 2 ∧
      ((twoCalls (some [])).state 2).times = [10] := by
  have empty : ((twoCalls (some [])).state 0).pool = some [] := rfl
  refine ⟨completions_counted (twoCalls (some [])) (i := 0) (j := 2) (by decide) (by decide)
    empty ?_ .empty, by decide +kernel, by decide +kernel⟩
  intro k _ hk
  interval_cases k <;> decide

theorem twoCalls_served :
    ((twoCalls none).state 1).requests = ((twoCalls (some [])).state 1).requests ∧
      ((twoCalls (some [])).label 1).reply ((twoCalls (some [])).state 1) =
        (((twoCalls none).label 1).reply ((twoCalls none).state 1)).bind Reply.unlogged := by
  obtain ⟨same, refused, -⟩ := served_without_log (twoCalls (some [])) (twoCalls none) (n := 2)
    le_rfl le_rfl (fun _ _ => rfl) rfl (k := 1) (by decide)
  have there : ((twoCalls (some [])).state 1).pool.isSome = true := by decide +kernel
  exact ⟨same, refused ⟨fun gone => by simp [gone] at there, _, _, _, ⟨_, _, _, rfl, rfl, rfl⟩,
    fun takes => by cases takes.1⟩⟩

end TwoCalls

end AgenticOctopus.Api.OpenAICompat
