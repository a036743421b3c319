import AgenticOctopus.Providers.Config

/-!
# OpenRouter and the cost guard

The virtual model `octo/auto` passes the guard and is expanded, on the way out, into
OpenRouter's array of fallback models. Any other payload goes out as it came in.
-/
namespace AgenticOctopus.Providers.OpenRouter
open Foundation

variable (settings : Settings)

def autoModel : Text := ↑"octo/auto"

def freeSuffix : Text := ↑":free"

def maxFallbackModels : Nat := 3

def quotaMessage : Text :=
  ↑("OpenRouter free-tier quota exceeded (HTTP 429: 50 requests/day without credits, " ++
    "20/minute) — daily quota resets at midnight UTC")

def resolveModel (model : Text) : Text :=
  if model = ↑"default" then settings.openrouterDefaultModel else model

/-- The preferred models that are free, in order. -/
def preferredFree : List Text :=
  ((settings.openrouterPreferredModels.split 44).map Text.strip).filter fun m =>
    m.endswith freeSuffix

def routerCandidates : List Text := (preferredFree settings).take maxFallbackModels

def routePayload (payload : Dict Text Json) : Dict Text Json :=
  match payload.get? ↑"model" with
  | some (.str model) =>
    if model = autoModel then
      (payload.erase ↑"model").set ↑"models" (.arr ((routerCandidates settings).map .str))
    else payload
  | _ => payload

def refusal (model : Text) : Text :=
  ↑"model '" ++ model ++
    ↑("' is not a :free variant and OPENROUTER_ALLOW_PAID is off " ++
      "— refusing to run a potentially billable request")

def enforceFree (model : Text) : Except Raised Unit :=
  if model = autoModel then return
  else if !model.endswith freeSuffix && !settings.openrouterAllowPaid then
    throw (.paidModelRefused (refusal model))
  else return

/-- A request as it goes out. -/
structure Post where
  url : Text
  authorization : Text
  json : Dict Text Json

/-- What `complete` posts, and what `stream` posts. -/
def post (stream : Bool) (payload : Dict Text Json) : Post where
  url := settings.openrouterBaseUrl ++ ↑"/chat/completions"
  authorization := ↑"Bearer " ++ settings.openrouterApiKey
  json :=
    if stream then (routePayload settings payload).update [(↑"stream", .bool true)]
    else routePayload settings payload

end AgenticOctopus.Providers.OpenRouter
