import AgenticOctopus.Providers.OpenRouter

/-!
# Providers and the routing seam

A requested model leads to one of three providers under that provider's policy. What lies
behind a provider is outside: it answers each request as it likes, knowing all earlier ones.
-/
namespace AgenticOctopus.Providers
open Foundation

inductive Provider where
  | openrouter | ollama | anthropic
deriving DecidableEq, Repr

/-- A call of `provider.complete` or `provider.stream`. -/
structure Request where
  provider : Provider
  stream : Bool
  payload : Dict Text Json

/-- An HTTP response; the body is JSON or `json()` raises. -/
structure Response where
  status : Int
  text : Text
  json : Except Raised Json

/-- What `_iter_sse_deltas` yields. -/
inductive SseEvent where
  | usage (usage : Json)
  | model (model : Json)
  | delta (content : Json)

/-- A streamed response: its events, and the exception that it breaks off with, if any. -/
structure Streamed where
  status : Int
  text : Text
  events : List SseEvent
  failure : Option Raised

structure Upstream where
  py : Interpreter
  /-- What Ollama has installed, `[]` when it cannot be reached. -/
  installedTags : List Text
  /-- The answer to the last of the requests. -/
  respond : List Request → Except Raised Response
  openStream : List Request → Except Raised Streamed

variable (settings : Settings) (upstream : Upstream)

/-! ## Ollama -/

namespace Ollama

def localPrefix : Text := ↑"octo/local-"

def enabled : Bool := !settings.ollamaBaseUrl.isEmpty

/-- `tag.replace(":", "-")` behind the `octo/local-` that marks a local model. -/
def virtualName (tag : Text) : Text := localPrefix ++ tag.map fun c => if c = 58 then 45 else c

def resolveLocal (requested : Text) : Except Raised Text :=
  if !enabled settings then
    throw (.ollamaUnavailable (↑"model '" ++ requested ++
      ↑("' is a local model but local LLMs are disabled on this " ++
        "host — enable with COMPOSE_PROFILES=local-llm in .env (see .env.example)")))
  else if upstream.installedTags.isEmpty then
    throw (.ollamaUnavailable (↑"model '" ++ requested ++
      ↑("' requires local LLMs, but no Ollama models are " ++
        "reachable on this host — is COMPOSE_PROFILES=local-llm enabled in .env, " ++
        "and has the model been pulled? (docker compose exec ollama ollama pull …)")))
  else
    match upstream.installedTags.find? fun tag => virtualName tag = requested with
    | some tag => return tag
    | none =>
      throw (.ollamaUnavailable (↑"no installed Ollama model matches '" ++ requested ++
        ↑"' (installed: " ++
        upstream.py.containerRepr
          (.arr (upstream.installedTags.map fun t => .str (virtualName t))) ++
        ↑" — `ollama pull` it first)"))

end Ollama

/-! ## Anthropic -/

namespace Claude

def claudeModel : Text := ↑"octo/claude"

def resolveModel (model : Text) : Text :=
  if model = ↑"default" ∨ model = claudeModel then settings.anthropicDefaultModel else model

end Claude

/-! ## Routing -/

def getChatProvider (name : Text) : Except Raised Provider :=
  if name = ↑"openrouter" then return .openrouter
  else throw (.valueError (↑"no chat provider registered for '" ++ name ++ ↑"'"))

/-- The provider, the model it is asked for, and the provider's name. -/
def routeChatModel (requested : Text) : Except Raised (Provider × Text × Text) :=
  if requested.startswith Ollama.localPrefix then do
    let tag ← Ollama.resolveLocal settings upstream requested
    return (.ollama, tag, ↑"ollama")
  else if requested = Claude.claudeModel ∨ requested.startswith ↑"claude-" then
    if !settings.anthropicKeySet then
      throw (.paidModelRefused (↑"model '" ++ requested ++
        ↑("' routes to the Anthropic API (billable) but " ++
          "ANTHROPIC_API_KEY is not set — add the key to opt in")))
    else return (.anthropic, Claude.resolveModel settings requested, ↑"anthropic")
  else do
    let provider ← getChatProvider settings.chatProvider
    let model := OpenRouter.resolveModel settings requested
    OpenRouter.enforceFree settings model
    return (provider, model, settings.chatProvider)

/-! ## Calls -/

def noDetail : Text := ↑"no detail"

/-- `body or "no detail"`, cut to 300 characters before. -/
def detailOf (text : Text) : Text := if text = [] then noDetail else text.take 300

def complete (request : Request) : Program Raised (List Request) Response := do
  modify (· ++ [request])
  let r ← Program.raises (upstream.respond (← get))
  if request.provider = .openrouter ∧ r.status = 429 then
    throw (.quotaExceeded OpenRouter.quotaMessage)
  else return r

def openStream (request : Request) : Program Raised (List Request) Streamed := do
  modify (· ++ [request])
  let r ← Program.raises (upstream.openStream (← get))
  if request.provider = .openrouter ∧ r.status = 429 then
    throw (.quotaExceeded OpenRouter.quotaMessage)
  else if request.provider = .openrouter ∧ r.status ≠ 200 then
    throw (.providerError r.status (detailOf r.text))
  else if request.provider = .ollama ∧ r.status ≠ 200 then
    throw (.providerError r.status (↑"ollama: " ++ detailOf r.text))
  else return r

variable (request : Request) (requests : List Request)

/-- A request is made before it is answered. -/
theorem complete_run : (complete upstream request).run requests =
    match upstream.respond (requests ++ [request]) with
    | .error e => .error e (requests ++ [request])
    | .ok r =>
      if request.provider = .openrouter ∧ r.status = 429 then
        .error (.quotaExceeded OpenRouter.quotaMessage) (requests ++ [request])
      else .ok r (requests ++ [request]) := by
  unfold complete
  rw [EStateM.run_bind, EStateM.run_modify]
  dsimp only
  rw [EStateM.run_bind, EStateM.run_get]
  dsimp only
  cases upstream.respond (requests ++ [request]) with
  | error e => rfl
  | ok r =>
    rw [Program.raises_ok_bind]
    dsimp only
    split_ifs <;> rfl

theorem openStream_run : (openStream upstream request).run requests =
    match upstream.openStream (requests ++ [request]) with
    | .error e => .error e (requests ++ [request])
    | .ok r =>
      if request.provider = .openrouter ∧ r.status = 429 then
        .error (.quotaExceeded OpenRouter.quotaMessage) (requests ++ [request])
      else if request.provider = .openrouter ∧ r.status ≠ 200 then
        .error (.providerError r.status (detailOf r.text)) (requests ++ [request])
      else if request.provider = .ollama ∧ r.status ≠ 200 then
        .error (.providerError r.status (↑"ollama: " ++ detailOf r.text)) (requests ++ [request])
      else .ok r (requests ++ [request]) := by
  unfold openStream
  rw [EStateM.run_bind, EStateM.run_modify]
  dsimp only
  rw [EStateM.run_bind, EStateM.run_get]
  dsimp only
  cases upstream.openStream (requests ++ [request]) with
  | error e => rfl
  | ok r =>
    rw [Program.raises_ok_bind]
    dsimp only
    split_ifs <;> rfl

theorem openStream_eq_ok {r : Streamed} {made : List Request}
    (opened : (openStream upstream request).run requests = .ok r made) :
    upstream.openStream (requests ++ [request]) = .ok r := by
  rw [openStream_run] at opened
  cases answer : upstream.openStream (requests ++ [request]) with
  | error e =>
    rw [answer] at opened
    cases opened
  | ok r' =>
    rw [answer] at opened
    dsimp only at opened
    split_ifs at opened
    cases opened
    rfl

theorem state_complete :
    Program.state ((complete upstream request).run requests) = requests ++ [request] := by
  rw [complete_run]
  cases upstream.respond (requests ++ [request]) with
  | error e => rfl
  | ok r =>
    dsimp only
    split_ifs <;> rfl

theorem state_openStream :
    Program.state ((openStream upstream request).run requests) = requests ++ [request] := by
  rw [openStream_run]
  cases upstream.openStream (requests ++ [request]) with
  | error e => rfl
  | ok r =>
    dsimp only
    split_ifs <;> rfl

end AgenticOctopus.Providers
