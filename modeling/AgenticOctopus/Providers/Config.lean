import AgenticOctopus.Foundation.JsonText
import AgenticOctopus.Foundation.Program

/-!
# Settings and exceptions

The settings that chat and its providers read, with their defaults, the exceptions that
reach their callers, and what the code does with decoded JSON: subscripts, JSON texts, columns.
-/
namespace AgenticOctopus.Providers
open Foundation

structure Settings where
  anthropicApiKey : Text := ↑""
  anthropicDefaultModel : Text := ↑"claude-opus-4-8"
  openrouterApiKey : Text := ↑""
  openrouterBaseUrl : Text := ↑"https://openrouter.ai/api/v1"
  openrouterDefaultModel : Text := ↑"octo/auto"
  openrouterPreferredModels : Text :=
    ↑("nvidia/nemotron-3-super-120b-a12b:free,google/gemma-4-26b-a4b-it:free," ++
      "tencent/hy3:free,qwen/qwen3-next-80b-a3b-instruct:free,google/gemma-4-31b-it:free")
  openrouterAllowPaid : Bool := false
  chatProvider : Text := ↑"openrouter"
  chatContextBudget : Int := 8000
  chatToolsEnabled : Bool := true
  chatShowRoutedModel : Bool := true
  ollamaBaseUrl : Text := ↑""
  chatMaxToolCalls : Int := 2

/-- The placeholder of the example configuration is no key. -/
def Settings.anthropicKeySet (settings : Settings) : Bool :=
  !settings.anthropicApiKey.isEmpty &&
    !decide ((Text.ofString "REPLACE") <:+: settings.anthropicApiKey)

inductive Raised where
  | lookupError (message : Text)
  | keyError (key : Text)
  | indexError
  | typeError
  | attributeError
  | valueError (message : Text)
  | recursionError
  | jsonDecodeError
  | runtimeError (message : Text)
  | paidModelRefused (message : Text)
  | ollamaUnavailable (message : Text)
  | quotaExceeded (message : Text)
  | providerError (status : Int) (detail : Text)
  /-- Any exception of the HTTP client. -/
  | httpError
  /-- Any exception of the database. -/
  | databaseError
  /-- Any exception of the file system. -/
  | osError
  /-- Any exception of a tool. -/
  | toolError
  | generatorExit
deriving DecidableEq

/-! ## Subscripts -/

/-- `value.get(key)`, with `None` as `null`. -/
def getField (v : Json) (key : Text) : Except Raised Json :=
  match v with
  | .obj fields => return (Dict.get? fields key).getD .null
  | _ => throw .attributeError

/-- `value[key]` for a string key. -/
def item (v : Json) (key : Text) : Except Raised Json :=
  match v with
  | .obj fields =>
    match Dict.get? fields key with
    | some v => return v
    | none => throw (.keyError key)
  | _ => throw .typeError

/-- `value[0]` -/
def firstItem (v : Json) : Except Raised Json :=
  match v with
  | .arr (v :: _) => return v
  | .str (c :: _) => return .str [c]
  | .arr [] | .str [] => throw .indexError
  | .obj _ => throw (.keyError ↑"0")
  | _ => throw .typeError

/-! ## JSON texts -/

/-- The exception of a `json.loads` that fails. -/
def loadRaised : Json.LoadError → Raised
  | .decode => .jsonDecodeError
  | .value digits =>
    .valueError (↑"Exceeds the limit (4300 digits) for integer string conversion: value has " ++
      Text.ofNat digits ++ ↑" digits; use sys.set_int_max_str_digits() to increase the limit")
  | .recursion => .recursionError

/-- `json.dumps(value)` -/
def dumps (py : Interpreter) (v : Json) : Except Raised Text :=
  if v.nests py.nesting then return v.dumped py else throw .recursionError

/-! ## Columns -/

/-- A value in the range of a column of type `int`. -/
def inIntRange (n : Int) : Bool := -2 ^ 31 ≤ n && n < 2 ^ 31

/-- What the database stores of a value that is given for a `text` or an `int` column. It takes
`NULL`, texts and integers as they are; what it makes of other values is its own affair. -/
structure Columns where
  text : Json → Except Raised (Option Text)
  int : Json → Except Raised (Option Int)
  text_null : text .null = .ok none
  text_str : ∀ s, text (.str s) = .ok (some s)
  int_null : int .null = .ok none
  int_int : ∀ n, int (.int n) = if inIntRange n then .ok (some n) else .error .databaseError
  text_raises : ∀ v e, text v = .error e → e = .databaseError
  int_raises : ∀ v e, int v = .error e → e = .databaseError

namespace Columns

variable (columns : Columns)

/-- A `text` column takes the value. -/
def takesText (v : Json) : Bool :=
  match columns.text v with
  | .ok stored => stored.all Text.storable
  | .error _ => false

/-- An `int` column takes the value. -/
def takesInt (v : Json) : Bool :=
  match columns.int v with
  | .ok _ => true
  | .error _ => false

theorem text_cases (v : Json) :
    (∃ stored, columns.text v = .ok stored ∧ columns.takesText v = stored.all Text.storable) ∨
      (columns.takesText v = false ∧ columns.text v = .error .databaseError) := by
  unfold takesText
  cases column : columns.text v with
  | ok stored => exact .inl ⟨stored, rfl, rfl⟩
  | error e => exact .inr ⟨rfl, congrArg _ (columns.text_raises v e column)⟩

theorem int_cases (v : Json) :
    (columns.takesInt v = true ∧ ∃ stored, columns.int v = .ok stored) ∨
      (columns.takesInt v = false ∧ columns.int v = .error .databaseError) := by
  unfold takesInt
  cases column : columns.int v with
  | ok stored => exact .inl ⟨rfl, stored, rfl⟩
  | error e => exact .inr ⟨rfl, congrArg _ (columns.int_raises v e column)⟩

end Columns

/-! Columns for the runs on fixed inputs. -/

def plainText : Json → Except Raised (Option Text)
  | .null => .ok none
  | .str s => .ok (some s)
  | .int n => .ok (some (Text.ofInt n))
  | _ => .error .databaseError

def plainInt : Json → Except Raised (Option Int)
  | .null => .ok none
  | .int n => if inIntRange n then .ok (some n) else .error .databaseError
  | _ => .error .databaseError

theorem plainText_raises (v : Json) (e : Raised) (h : plainText v = .error e) :
    e = .databaseError := by
  cases v <;> simp_all [plainText]

theorem plainInt_raises (v : Json) (e : Raised) (h : plainInt v = .error e) :
    e = .databaseError := by
  cases v with
  | int n =>
    rw [plainInt] at h
    split at h <;> simp_all
  | _ => simp_all [plainInt]

def plainColumns : Columns where
  text := plainText
  int := plainInt
  text_null := rfl
  text_str _ := rfl
  int_null := rfl
  int_int _ := rfl
  text_raises := plainText_raises
  int_raises := plainInt_raises

end AgenticOctopus.Providers
