import AgenticOctopus.Providers.Routing

/-!
# The OpenAI-compatible shim

`chat_completions` up to the provider's call: the body that the client posted goes on with
its model resolved and its tool fields taken out, and with everything else that it holds.
-/
namespace AgenticOctopus.Api.OpenAICompat
open Foundation Providers

/-- How the handler goes on: an error in OpenAI's shape, or a call of the provider. -/
inductive Handled where
  | openaiError (status : Nat) (message errType : Text)
  | forward (request : Request)

/-- Tool use arrives with the core tool loop. -/
def strippedFields : List Text := [↑"tools", ↑"tool_choice", ↑"functions", ↑"function_call"]

def strip (body : Dict Text Json) : Dict Text Json := strippedFields.foldl Dict.erase body

/-- `body.get("model") or "default"`, of which the router then asks `startswith`. -/
def requestedModel (body : Dict Text Json) : Except Raised Text :=
  match Json.orElse (body.get? ↑"model") (.str ↑"default") with
  | .str model => return model
  | _ => throw .attributeError

def chatCompletions (settings : Settings) (upstream : Upstream) (body : Json) :
    Except Raised Handled :=
  match body with
  | .obj fields => do
    let requested ← requestedModel fields
    match routeChatModel settings upstream requested with
    | .error (.paidModelRefused message) | .error (.ollamaUnavailable message) =>
      return .openaiError 400 message ↑"invalid_request_error"
    | .error e => throw e
    | .ok (provider, model, _) =>
      let payload := strip (Dict.set fields ↑"model" (.str model))
      return .forward ⟨provider, (Json.orElse (payload.get? ↑"stream") .null).truthy, payload⟩
  | _ => throw .attributeError

end AgenticOctopus.Api.OpenAICompat
