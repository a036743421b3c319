import AgenticOctopus.Chat.Ledger
import AgenticOctopus.Foundation.JsonPrintable
import AgenticOctopus.Spine.Registry

/-!
# The prompted tool protocol

Which tools a persona may use, how the model is told about them, and how a call is read out
of what it answers.
-/
namespace AgenticOctopus.Chat
open Foundation Providers
open Spine (LoadedAgent Registry)

def defaultPersona : Text := ↑"chat-assistant"

def toolMarker : Text := ↑"TOOL_CALL"

/-- Names and descriptions, in the order of the registry. -/
def toolRegistry : Dict Text Text :=
  [(↑"web_search", ↑"search the web: \x7b\"query\": \"...\", \"max_results\": 5\x7d"),
   (↑"fetch_page", ↑"read a web page: \x7b\"url\": \"https://...\"\x7d")]

/-- `value or default` for an optional text. -/
def orDefault (v : Option Text) (default : Text) : Text :=
  match v with
  | some t => if t = [] then default else t
  | none => default

def toolsFor (settings : Settings) (persona : Option Text) (registry : Registry) : List Text :=
  if settings.chatToolsEnabled then
    match registry.get? (orDefault persona defaultPersona) with
    | some agent => agent.manifest.tools.filter fun t => (toolRegistry.get? t).isSome
    | none => []
  else []

def toolProtocolPrompt (settings : Settings) (toolNames : List Text) : Text :=
  let head : List Text :=
    [↑"\n\n## Tools",
      ↑"You can use tools for anything recent, factual, or verifiable. To call one,",
      ↑"reply with ONLY a single line (no other text):",
      ↑"TOOL_CALL \x7b\"tool\": \"<name>\", \"args\": \x7b...\x7d\x7d",
      ↑"Available tools:"]
  let tools : List Text :=
    toolNames.map fun name => ↑"- " ++ name ++ ↑": " ++ (toolRegistry.get? name).getD ↑""
  let tail : List Text :=
    [↑"You may chain up to " ++ Text.ofInt settings.chatMaxToolCalls ++ ↑" calls, one at a time.",
      ↑"After receiving results, either call another tool or give your final answer.",
      ↑"Final answers based on tool results MUST cite source URLs inline.",
      ↑"If tools fail, say so and answer from your knowledge, clearly labeled."]
  Json.intercalate [10] (head ++ tools ++ tail)

/-! ## Reading a call -/

/-- Keys of a dictionary must be hashable. -/
def hashable : Json → Bool
  | .arr _ | .obj _ => false
  | _ => true

/-- Numbers are one key if they are equal, whatever their types. -/
def sameKey : Json → Json → Bool
  | .str s, .str t => s = t
  | .null, .null | .nan, .nan => true
  | .infinity a, .infinity b => a = b
  | a, b =>
    match number a, number b with
    | some x, some y => x = y
    | _, _ => false
where
  number : Json → Option Rat
  | .bool b => some (if b then 1 else 0)
  | .int n => some n
  | .float negative mantissa exponent =>
    some ((if negative then -1 else 1) * mantissa * (2 : Rat) ^ exponent)
  | _ => none

def PyDict.set : PyDict → Json → Json → PyDict
  | [], k, v => [(k, v)]
  | (k', w) :: d, k, v => if sameKey k' k then (k', v) :: d else (k', w) :: PyDict.set d k v

def badLength (index length : Nat) : Raised :=
  .valueError (↑"dictionary update sequence element #" ++ Text.ofNat index ++ ↑" has length " ++
    Text.ofNat length ++ ↑"; 2 is required")

/-- One element of the sequence that `dict` is made of, as a key and a value. -/
def pairOf (index : Nat) : Json → Except Raised (Json × Json)
  | .arr [k, v] => if hashable k then return (k, v) else throw .typeError
  | .str [k, v] => return (.str [k], .str [v])
  | .obj [(k, _), (v, _)] => return (.str k, .str v)
  | .arr items => throw (badLength index items.length)
  | .str s => throw (badLength index s.length)
  | .obj fields => throw (badLength index fields.length)
  | _ => throw .typeError

def dictOfItems (index : Nat) (d : PyDict) : List Json → Except Raised PyDict
  | [] => return d
  | v :: vs => do
    let (k, v) ← pairOf index v
    dictOfItems (index + 1) (d.set k v) vs

/-- `dict(value)` -/
def dictOf : Json → Except Raised PyDict
  | .obj fields => return fields.map fun p => (.str p.1, p.2)
  | .arr items => dictOfItems 0 [] items
  | .str s => dictOfItems 0 [] (s.map fun c => .str [c])
  | _ => throw .typeError

/-- `str(data["tool"]), dict(data.get("args") or {})` -/
def toolAndArgs (py : Interpreter) (data : Json) : Except Raised (Text × PyDict) := do
  let tool ← item data ↑"tool"
  let args ← getField data ↑"args"
  return (tool.toStr py, ← dictOf (if args.truthy then args else .obj []))

/-- What the marker's line says, `none` where the code catches the exception. -/
def readCall (py : Interpreter) (payload : Text) : Except Raised (Option (Text × PyDict)) :=
  match Json.loads py payload with
  | .error .decode => return none
  | .error e => throw (loadRaised e)
  | .ok data =>
    match toolAndArgs py data with
    | .ok call => return some call
    | .error (.keyError _) | .error .typeError => return none
    | .error e => throw e

def parseLines (py : Interpreter) : List Text → Except Raised (Option (Text × PyDict))
  | [] => return none
  | line :: lines =>
    if line.strip.startswith toolMarker then
      readCall py (Text.strip (line.strip.drop toolMarker.length))
    else parseLines py lines

/-- The first line that starts with the marker decides. -/
def parseToolCall (py : Interpreter) (text : Text) : Except Raised (Option (Text × PyDict)) :=
  parseLines py text.splitlines

/-- An interpreter for the runs on fixed inputs: it knows one float. -/
def plainPython : Interpreter := ⟨fun _ _ _ => ↑"0.5", fun _ => ↑"[]", 900⟩

theorem printableFloats_plainPython : Json.PrintableFloats plainPython :=
  fun _ _ _ => (by decide : Json.Printable ↑"0.5")

end AgenticOctopus.Chat
