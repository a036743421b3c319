import AgenticOctopus.Foundation.JsonText
import AgenticOctopus.Foundation.Program
import AgenticOctopus.Worker.Process

/-!
# The Claude SDK executor

One session of the agent SDK: one query, whose messages become events, and whose last result
message becomes the outcome. The SDK is outside the repository; it answers a query with
messages, after which it may raise.
-/
namespace AgenticOctopus.Worker.ClaudeSDKExecutor
open Foundation Spine

/-- `ClaudeAgentOptions` -/
structure Options where
  systemPrompt : Text
  allowedTools : List Text
  maxTurns : Int
  cwd : Text
  settingSources : List Text := []
  permissionMode : Text := ↑"bypassPermissions"
  model : Option Text

structure Query where
  options : Options
  prompt : Text

inductive Block where
  | text (text : Text)
  | toolUse (name : Text) (input : Json)
  | other

inductive Message where
  | assistant (content : List Block)
  | result (subtype : Text) (result : Option Text) (totalCostUsd : Option Usd) (sessionId : Text)
  | other

/-- What a session has asked of the SDK, and what it has told `on_event`. -/
structure Session where
  queries : List Query := []
  events : List (EventType × Dict Text Json) := []

variable {ε : Type} (py : Interpreter)

def ask (q : Query) : Program ε Session Unit :=
  modify fun s => { s with queries := s.queries ++ [q] }

def onEvent (type : EventType) (payload : Dict Text Json) : Program ε Session Unit :=
  modify fun s => { s with events := s.events ++ [(type, payload)] }

def options (agent : LoadedAgent) (workdir : Text) : Options where
  systemPrompt := agent.prompt
  allowedTools := agent.manifest.tools
  maxTurns := agent.manifest.maxTurns
  cwd := workdir
  model := if agent.manifest.model = ↑"default" then none else some agent.manifest.model

/-- `run.get("params") or m.params` -/
def paramsOf (run : Run) (agent : LoadedAgent) : Dict Text Json :=
  if run.params = [] then agent.manifest.params else run.params

def prompt (params : Dict Text Json) : Text :=
  ↑"Execute your task now. Run parameters (JSON):\n" ++ py.containerRepr (.obj params) ++
    ↑"\nWrite outputs into the current working directory."

def clip (value : Json) (limit : Nat := 500) : Json :=
  let s := value.toStr py
  if s.length ≤ limit then value else .str (s.take limit ++ ↑"…")

def onBlock : Block → Program ε Session Unit
  | .text text => onEvent .message [(↑"text", .str (text.take 2000))]
  | .toolUse name input =>
    onEvent .toolUse [(↑"tool", .str name), (↑"input", clip py input)]
  | .other => return

def onBlocks : List Block → Program ε Session Unit
  | [] => return
  | block :: blocks => do
    onBlock py block
    onBlocks blocks

def noResult : ExecOutcome :=
  { status := ↑"failed", error := some ↑"executor produced no result" }

def resultOutcome (agent : LoadedAgent) (subtype : Text) (result : Option Text)
    (totalCostUsd : Option Usd) (sessionId : Text) : ExecOutcome where
  status := if subtype = ↑"success" then ↑"completed" else ↑"failed"
  result := if subtype = ↑"success" then result else none
  error := if subtype = ↑"success" then none else some (↑"sdk result subtype: " ++ subtype)
  costUsd := totalCostUsd
  sessionId := some sessionId
  model := some (if agent.manifest.model = ↑"default" then ↑"claude-sdk-default"
    else agent.manifest.model)

/-- The `async for` over the messages. -/
def receive (agent : LoadedAgent) (outcome : ExecOutcome) :
    List Message → Program ε Session ExecOutcome
  | [] => return outcome
  | .assistant content :: rest => do
    onBlocks py content
    receive agent outcome rest
  | .result subtype result totalCostUsd sessionId :: rest =>
    receive agent (resultOutcome agent subtype result totalCostUsd sessionId) rest
  | .other :: rest => receive agent outcome rest

/-- The end of the messages: the generator stops or raises. -/
def conclude (outcome : ExecOutcome) : Option ε → Program ε Session ExecOutcome
  | none => return outcome
  | some e => throw e

def execute (sdk : Query → List Message × Option ε) (run : Run) (agent : LoadedAgent)
    (workdir : Text) : Program ε Session ExecOutcome := do
  let q : Query := ⟨options agent workdir, prompt py (paramsOf run agent)⟩
  ask q
  conclude (← receive py agent noResult (sdk q).1) (sdk q).2

/-! ## What the session asks -/

theorem keeps_queries_onBlocks (queries : List Query) (blocks : List Block) :
    Program.Keeps (fun s => s.queries = queries) (onBlocks py blocks : Program ε Session Unit) := by
  induction blocks with
  | nil => exact Program.keeps_pure ()
  | cons block blocks ih =>
    refine Program.keeps_bind ?_ fun _ => ih
    cases block with
    | other => exact Program.keeps_pure ()
    | text | toolUse => exact Program.keeps_modify fun _ same => same

theorem keeps_queries_receive (queries : List Query) (agent : LoadedAgent) (outcome : ExecOutcome)
    (messages : List Message) :
    Program.Keeps (fun s => s.queries = queries)
      (receive py agent outcome messages : Program ε Session ExecOutcome) := by
  induction messages generalizing outcome with
  | nil => exact Program.keeps_pure outcome
  | cons message messages ih =>
    cases message with
    | assistant content =>
      exact Program.keeps_bind (keeps_queries_onBlocks py queries content) fun _ => ih outcome
    | result | other => exact ih _

/-- Whatever the SDK answers, the session asks it once, with the effective parameters. -/
theorem execute_asks (sdk : Query → List Message × Option ε) (run : Run) (agent : LoadedAgent)
    (workdir : Text) (s : Session) :
    (Program.state ((execute py sdk run agent workdir).run s)).queries =
      s.queries ++ [⟨options agent workdir, prompt py (paramsOf run agent)⟩] := by
  let q : Query := ⟨options agent workdir, prompt py (paramsOf run agent)⟩
  have rest : Program.Keeps (fun t => t.queries = s.queries ++ [q])
      (receive py agent noResult (sdk q).1 >>= fun outcome => conclude outcome (sdk q).2) := by
    refine Program.keeps_bind (keeps_queries_receive py _ agent noResult _) fun outcome => ?_
    cases (sdk q).2 with
    | none => exact Program.keeps_pure outcome
    | some e => exact Program.keeps_throw e
  exact rest { s with queries := s.queries ++ [q] } rfl

end AgenticOctopus.Worker.ClaudeSDKExecutor
