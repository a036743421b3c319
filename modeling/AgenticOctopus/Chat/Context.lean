import AgenticOctopus.Chat.ToolProtocol

/-!
# What the model is sent

The system prompt of a persona, the window of the conversation that fits the budget, the
tags of a request, and the lead-in that names the routed model.
-/
namespace AgenticOctopus.Chat
open Foundation Providers
open Spine (LoadedAgent Registry)

variable (settings : Settings)

def fallbackSystemPrompt : Text :=
  ↑("You are a helpful research assistant. Be accurate, cite what you know and what " ++
    "you don't, and state your knowledge cutoff when asked about recent events.")

def estimateTokens (text : Text) : Int := max 1 (text.length / 4)

def routedModelPrefix (py : Interpreter) (requestedModel : Text) (actualModel : Json) : Text :=
  if settings.chatShowRoutedModel ∧ requestedModel = OpenRouter.autoModel ∧ actualModel.truthy then
    ↑"`[" ++ actualModel.toStr py ++ ↑"]`\n\n"
  else []

def systemPromptFor (persona : Option Text) (registry : Registry) : Text :=
  let agent := registry.get? (orDefault persona defaultPersona)
  let base := (agent.map LoadedAgent.prompt).getD fallbackSystemPrompt
  let toolNames := toolsFor settings persona registry
  if toolNames.isEmpty then base else base ++ toolProtocolPrompt settings toolNames

/-- An entry of `messages` in a request. -/
structure ChatMessage where
  role : Text
  content : Text
deriving DecidableEq

def ChatMessage.json (m : ChatMessage) : Json :=
  .obj [(↑"role", .str m.role), (↑"content", .str m.content)]

def cost (m : Message) : Int :=
  match m.promptTokens with
  | some n => if n ≠ 0 then n else estimateTokens m.content
  | none => estimateTokens m.content

/-- The messages that are kept, newest first; the newest is kept whatever it costs. -/
def window (remaining : Int) (kept : List ChatMessage) : List Message → List ChatMessage
  | [] => kept
  | m :: ms =>
    if m.role = .tool then window remaining kept ms
    else if remaining - cost m < 0 ∧ kept ≠ [] then kept
    else window (remaining - cost m) (kept ++ [⟨m.role.value, m.content⟩]) ms

def buildContext (systemPrompt : Text) (history : List Message) (budget : Option Int) :
    List ChatMessage :=
  let budget :=
    match budget with
    | some b => if b ≠ 0 then b else settings.chatContextBudget
    | none => settings.chatContextBudget
  ⟨↑"system", systemPrompt⟩ ::
    (window (budget - estimateTokens systemPrompt) [] history.reverse).reverse

/-- Values that are `None` are dropped, the others cut to short strings. -/
def mergeTags (py : Interpreter) (auto : Dict Text Json) (manual : Option (Dict Text Json)) :
    Dict Text Json :=
  let merged := (auto.update (manual.getD [])).filter fun p =>
    match p.2 with
    | .null => false
    | _ => true
  merged.foldl (fun d p => d.set (p.1.take 64) (.str ((p.2.toStr py).take 200))) []

end AgenticOctopus.Chat
