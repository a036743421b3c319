import AgenticOctopus.Providers.Routing
import AgenticOctopus.Worker.Process

/-!
# The OpenRouter executor

One chat completion, whose answer becomes the output file. Every failure that the executor
foresees is an outcome; any other exception reaches the worker. The model is told to `on_event`
before the completion, the content after it is written.
-/
namespace AgenticOctopus.Worker.OpenRouterExecutor
open Foundation Providers
open Spine (EventType LoadedAgent Run)

/-- What the executor runs against: the provider, today's date and the output directory. -/
structure Desk where
  settings : Settings
  upstream : Upstream
  today : Text
  writeText : (name content : Text) → Except Raised Unit

/-- What was posted, and what `on_event` was told. -/
structure Session where
  requests : List Request := []
  events : List (EventType × Dict Text Json) := []

def onRequests : Program.Lens Session (List Request) where
  get s := s.requests
  set s requests := { s with requests }

def onEvent (type : EventType) (payload : Dict Text Json) : Program Raised Session Unit :=
  modify fun s => { s with events := s.events ++ [(type, payload)] }

variable (desk : Desk)

def failed (error : Text) : ExecOutcome := { status := ↑"failed", error := some error }

/-- `run.get("params") or m.params` -/
def paramsOf (run : Run) (agent : LoadedAgent) : Dict Text Json :=
  if run.params = [] then agent.manifest.params else run.params

def userMessage (py : Interpreter) (params : Dict Text Json) : Text :=
  ↑"Execute your task now, in a single response. Run parameters (JSON):\n" ++
    py.containerRepr (.obj params) ++
    ↑("\nYou have no tools in this environment: work from your knowledge, state its " ++
      "limits explicitly (including your knowledge cutoff), and return ONLY the " ++
      "final markdown document — it will be saved for you.")

def payload (py : Interpreter) (model : Text) (run : Run) (agent : LoadedAgent) :
    Dict Text Json :=
  [(↑"model", .str model),
   (↑"messages", .arr
      [.obj [(↑"role", .str ↑"system"), (↑"content", .str agent.prompt)],
       .obj [(↑"role", .str ↑"user"),
        (↑"content", .str (userMessage py (paramsOf run agent)))]])]

/-- The outcome that a well-formed answer leads to, once its content is written. -/
def completed (name : Text) (content model : Text) (totalTokens : Json) : ExecOutcome where
  status := ↑"completed"
  result := some (↑"wrote " ++ name ++ ↑" (" ++ Text.ofNat content.length ++ ↑" chars, model=" ++
    model ++ ↑", tokens=" ++ totalTokens.toStr desk.upstream.py ++ ↑")")
  costUsd := if model.endswith OpenRouter.freeSuffix then some 0 else none
  model := some model

/-- What the executor makes of the body of a response. -/
def readAnswer (agent : LoadedAgent) (model : Text) (data : Json) :
    Program Raised Session ExecOutcome := do
  let error ← Program.raises (getField data ↑"error")
  if error.truthy then
    return failed (↑"openrouter error: " ++ (error.toStr desk.upstream.py).take 500)
  else
    let choice ← Program.raises (item data ↑"choices" >>= firstItem)
    let content ← Program.raises (item choice ↑"message" >>= fun message =>
      item message ↑"content")
    let usage ← Program.raises (getField data ↑"usage")
    let actual ← Program.raises (getField data ↑"model")
    let name := agent.manifest.name ++ ↑"-" ++ desk.today ++ ↑".md"
    match content with
    | .str content =>
      Program.raises (desk.writeText name content)
      onEvent .message [(↑"text", .str (content.take 2000))]
      let totalTokens ← Program.raises
        (getField (if usage.truthy then usage else .obj []) ↑"total_tokens")
      match if actual.truthy then actual else .str model with
      | .str actualModel => return completed desk name content actualModel totalTokens
      | _ => throw .attributeError
    | _ => throw .typeError

def execute (run : Run) (agent : LoadedAgent) : Program Raised Session ExecOutcome := do
  let py := desk.upstream.py
  if desk.settings.openrouterApiKey = [] then return failed ↑"OPENROUTER_API_KEY not configured"
  else
    let model := OpenRouter.resolveModel desk.settings agent.manifest.model
    match OpenRouter.enforceFree desk.settings model with
    | .error (.paidModelRefused message) => return failed message
    | .error e => throw e
    | .ok () =>
      onEvent .log [(↑"executor", .str ↑"openrouter"), (↑"model", .str model)]
      match ← Program.attempt (Program.zoom onRequests
          (complete desk.upstream ⟨.openrouter, false, payload py model run agent⟩)) with
      | .error (.quotaExceeded message) => return failed message
      | .error e => throw e
      | .ok r =>
        if r.status ≠ 200 then
          return failed (↑"openrouter " ++ Text.ofInt r.status ++ ↑": " ++ r.text.take 500)
        else
          let data ← Program.raises r.json
          readAnswer desk agent model data

/-! ## What the session posts -/

theorem keeps_onEvent {P : List Request → Prop} (type : EventType) (payload : Dict Text Json) :
    Program.Keeps (fun s => P s.requests) (onEvent type payload) :=
  Program.keeps_modify fun _ h => h

theorem keeps_readAnswer {P : List Request → Prop} (agent : LoadedAgent) (model : Text)
    (data : Json) : Program.Keeps (fun s => P s.requests) (readAnswer desk agent model data) := by
  refine Program.keeps_bind (Program.keeps_raises _) fun error => ?_
  split
  · exact Program.keeps_pure _
  refine Program.keeps_bind (Program.keeps_raises _) fun choice =>
    Program.keeps_bind (Program.keeps_raises _) fun content =>
      Program.keeps_bind (Program.keeps_raises _) fun usage =>
        Program.keeps_bind (Program.keeps_raises _) fun actual => ?_
  cases content with
  | str content =>
    refine Program.keeps_bind (Program.keeps_raises _) fun _ =>
      Program.keeps_bind (keeps_onEvent _ _) fun _ =>
        Program.keeps_bind (Program.keeps_raises _) fun totalTokens => ?_
    split
    · exact Program.keeps_pure _
    · exact Program.keeps_throw _
  | _ => exact Program.keeps_throw _

/-- What every completion of a model that passes the guard keeps, the executor keeps. -/
theorem keeps_execute {P : List Request → Prop} (run : Run) (agent : LoadedAgent)
    (completes : ∀ model, model = OpenRouter.resolveModel desk.settings agent.manifest.model →
      OpenRouter.enforceFree desk.settings model = .ok () →
        Program.Keeps P (complete desk.upstream
          ⟨.openrouter, false, payload desk.upstream.py model run agent⟩)) :
    Program.Keeps (fun s => P s.requests) (execute desk run agent) := by
  unfold execute
  dsimp only
  split_ifs
  · exact Program.keeps_pure _
  cases passed : OpenRouter.enforceFree desk.settings
      (OpenRouter.resolveModel desk.settings agent.manifest.model) with
  | error e => cases e <;> first | exact Program.keeps_pure _ | exact Program.keeps_throw _
  | ok done =>
    refine Program.keeps_bind (keeps_onEvent _ _) fun _ =>
      Program.keeps_bind (Program.keeps_attempt (Program.keeps_zoom fun s kept =>
        completes _ rfl passed s.requests kept)) fun r => ?_
    cases r with
    | error e => cases e <;> first | exact Program.keeps_pure _ | exact Program.keeps_throw _
    | ok r =>
      dsimp only
      split
      · exact Program.keeps_pure _
      · exact Program.keeps_bind (Program.keeps_raises _) fun data =>
          keeps_readAnswer desk agent _ data

/-- Whatever is posted has the effective parameters. -/
theorem execute_posts (run : Run) (agent : LoadedAgent) :
    ∀ request ∈ (Program.state ((execute desk run agent).run {})).requests,
      ∃ model, request = ⟨.openrouter, false, payload desk.upstream.py model run agent⟩ := by
  let Posts (requests : List Request) : Prop := ∀ request ∈ requests,
    ∃ model, request = ⟨.openrouter, false, payload desk.upstream.py model run agent⟩
  refine keeps_execute desk (P := Posts) run agent (fun model _ _ => ?_) {} fun request mem =>
    (List.not_mem_nil mem).elim
  refine Program.keeps_bind (Program.keeps_modify fun requests posts request mem => ?_)
    fun _ => Program.keeps_bind Program.keeps_get fun _ =>
      Program.keeps_bind (Program.keeps_raises _) fun r => ?_
  · rcases List.mem_append.mp mem with mem | mem
    · exact posts request mem
    · exact ⟨_, List.mem_singleton.mp mem⟩
  · split
    · exact Program.keeps_throw _
    · exact Program.keeps_pure _

end AgenticOctopus.Worker.OpenRouterExecutor
