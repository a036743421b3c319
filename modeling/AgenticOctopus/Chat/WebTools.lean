import AgenticOctopus.Chat.ToolRounds

/-!
# The web tools

`web_search` and `fetch_page` turn every exception of the library and of the site into a
result. What stands outside their `try` is the coercion of the arguments: `str(…)` takes any
value, `int(…)` does not.
-/
namespace AgenticOctopus.Chat
open Foundation Providers

/-! ## int(value) -/

/-- What `int(value)` raises. -/
inductive Uncoercible where
  | typeError | valueError | overflowError
deriving DecidableEq

/-- What `int` knows of the digits outside ASCII. -/
structure Numerals where
  decimal : Nat → Option Nat

namespace Numerals

variable (numerals : Numerals)

/-- The white space that `int` skips: of the separators below 128 it knows none. -/
def isSpace (c : Nat) : Bool := (9 ≤ c && c ≤ 13) || c == 32 || (127 < c && Text.isSpace c)

def digit? (c : Nat) : Option Nat :=
  if Json.isDigit c then some (c - 48) else if 127 < c then numerals.decimal c else none

def trim (t : Text) : Text := ((t.dropWhile isSpace).reverse.dropWhile isSpace).reverse

/-- Whether there is a minus, and what follows the sign. -/
def signed : Text → Bool × Text
  | 43 :: t => (false, t)
  | 45 :: t => (true, t)
  | t => (false, t)

/-- The digits, in groups that underscores separate. -/
def groups (t : Text) : List Text := Text.split (signed (trim t)).2 95

/-- The text is an integer literal that `int` is willing to read. -/
def readable (t : Text) : Bool :=
  ((groups t).all fun g => !g.isEmpty && g.all fun c => (numerals.digit? c).isSome) &&
    (groups t).flatten.length ≤ intMaxStrDigits

def valueOf (t : Text) : Int :=
  let n : Nat := (groups t).flatten.foldl (fun n c => 10 * n + (numerals.digit? c).getD 0) 0
  if (signed (trim t)).1 then -n else n

/-- The integer part of a double. -/
def truncate (negative : Bool) (mantissa : Nat) (exponent : Int) : Int :=
  let whole : Nat := mantissa * 2 ^ exponent.toNat / 2 ^ (-exponent).toNat
  if negative then -whole else whole

/-- `int(value)` -/
def toInt : Json → Except Uncoercible Int
  | .bool b => .ok (if b then 1 else 0)
  | .int n => .ok n
  | .float negative mantissa exponent => .ok (truncate negative mantissa exponent)
  | .nan => .error .valueError
  | .infinity _ => .error .overflowError
  | .str s => if numerals.readable s then .ok (numerals.valueOf s) else .error .valueError
  | .null | .arr _ | .obj _ => .error .typeError

/-- A finite number, or a text that spells an integer. -/
def numeric : Json → Bool
  | .bool _ | .int _ | .float _ _ _ => true
  | .str s => numerals.readable s
  | .nan | .infinity _ | .null | .arr _ | .obj _ => false

theorem toInt_ok_iff (v : Json) : (∃ n, numerals.toInt v = .ok n) ↔ numerals.numeric v = true := by
  cases v with
  | str s =>
    rw [toInt, numeric]
    split <;> simp_all
  | _ => simp [toInt, numeric]

end Numerals

/-! ## The tools -/

/-- The answer of a site; reading its body may raise. -/
structure Page where
  statusCode : Int
  text : Except Text Text

/-- What the tools run against. An exception of the outside is the text that `str` makes of it. -/
structure Web where
  py : Interpreter
  numerals : Numerals
  /-- The rows that the search library yields. -/
  ddgs : (query : Text) → (maxResults : Int) → Except Text (List Json)
  /-- The exception that a row without a sliceable body raises. -/
  unreadable : Json → Text
  get : (url : Text) → Except Text Page
  /-- The text of a page without its scripts, styles and frames. -/
  getText : (html : Text) → Except Text Text

def searchMaxResults : Int := 6

def fetchMaxChars : Nat := 6000

/-- `args.get(key, default)` -/
def PyDict.get (args : PyDict) (key : Text) (default : Json) : Json :=
  match args.find? fun p => sameKey p.1 (.str key) with
  | some p => p.2
  | none => default

def errorResult (message : Text) : Json := .obj [(↑"error", .str message)]

/-- `value[:300]` -/
def snippet? : Json → Option Json
  | .str s => some (.str (s.take 300))
  | .arr items => some (.arr (items.take 300))
  | _ => none

def searchRow? : Json → Option Json
  | .obj fields =>
    let field (key : Text) : Json := (Dict.get? fields key).getD (.str [])
    (snippet? (field ↑"body")).map fun snippet =>
      .obj [(↑"title", field ↑"title"), (↑"url", field ↑"href"), (↑"snippet", snippet)]
  | _ => none

namespace Web

variable (web : Web)

def searchSync (query : Text) (maxResults : Int) : Except Text (List Json) := do
  (← web.ddgs query maxResults).mapM fun r =>
    match searchRow? r with
    | some row => .ok row
    | none => .error (web.unreadable r)

def query (args : PyDict) : Text := Text.strip ((args.get ↑"query" (.str [])).toStr web.py)

def webSearch (args : PyDict) : Except Uncoercible Json := do
  let query := web.query args
  if query = [] then return errorResult ↑"web_search requires a 'query'"
  -- The `try` of the source begins after this line.
  let limit := min (← web.numerals.toInt (args.get ↑"max_results" (.int searchMaxResults))) 10
  match web.searchSync query limit with
  | .error exc => return errorResult (↑"search failed: " ++ exc)
  | .ok [] =>
    return .obj [(↑"results", .arr []), (↑"note", .str ↑"no results — try different keywords")]
  | .ok results => return .obj [(↑"results", .arr results)]

/-- `" ".join(text.split())` of the text of the page -/
def extractText (html : Text) : Except Text Text := do
  let text ← web.getText html
  return Json.intercalate [32] ((text.splitOnP Text.isSpace).filter fun word => !word.isEmpty)

def fetched (url : Text) : Except Text Json := do
  let r ← web.get url
  if r.statusCode ≠ 200 then
    return .obj [(↑"error", .str (↑"fetch failed: HTTP " ++ Text.ofInt r.statusCode)),
      (↑"url", .str url)]
  let text ← web.extractText (← r.text)
  return .obj [(↑"url", .str url), (↑"text", .str (text.take fetchMaxChars)),
    (↑"truncated", .bool (fetchMaxChars < text.length))]

def fetchPage (args : PyDict) : Json :=
  let url := Text.strip ((args.get ↑"url" (.str [])).toStr web.py)
  if Text.startswith url ↑"http://" || Text.startswith url ↑"https://" then
    match web.fetched url with
    | .ok result => result
    | .error exc => .obj [(↑"error", .str (↑"fetch failed: " ++ exc)), (↑"url", .str url)]
  else errorResult ↑"fetch_page requires an http(s) 'url'"

def runTool (name : Text) (args : PyDict) : Except Uncoercible Json :=
  if name = ↑"web_search" then web.webSearch args
  else if name = ↑"fetch_page" then .ok (web.fetchPage args)
  else .ok (errorResult (↑"unknown tool '" ++ name ++
    ↑"' (available: ['fetch_page', 'web_search'])"))

/-! ## What they return -/

/-- The value is a dictionary. -/
def IsResult (v : Json) : Prop := ∃ fields, v = .obj fields

theorem fetched_isResult {url : Text} {result : Json} (ok : web.fetched url = .ok result) :
    IsResult result := by
  unfold fetched at ok
  cases page : web.get url with
  | error exc => simp [page, bind, Except.bind] at ok
  | ok r =>
    simp only [page, bind, Except.bind] at ok
    split_ifs at ok
    · exact ⟨_, (Except.ok.inj ok).symm⟩
    · split at ok
      · cases ok
      · split at ok
        · cases ok
        · exact ⟨_, (Except.ok.inj ok).symm⟩

theorem fetchPage_isResult (args : PyDict) : IsResult (web.fetchPage args) := by
  unfold fetchPage
  dsimp only
  split_ifs
  · split
    case h_1 result ok => exact web.fetched_isResult ok
    case h_2 => exact ⟨_, rfl⟩
  · exact ⟨_, rfl⟩

/-- The coercion of a search's arguments goes through: there is nothing to search for, or the
limit is a number. -/
def Coercible (args : PyDict) : Prop :=
  web.query args ≠ [] →
    web.numerals.numeric (args.get ↑"max_results" (.int searchMaxResults)) = true

theorem webSearch_isResult {args : PyDict} {result : Json}
    (ok : web.webSearch args = .ok result) : IsResult result := by
  unfold webSearch at ok
  by_cases blank : web.query args = []
  · simp only [blank, if_pos] at ok
    exact ⟨_, (Except.ok.inj ok).symm⟩
  · cases coerced : web.numerals.toInt (args.get ↑"max_results" (.int searchMaxResults)) with
    | error e => simp [blank, coerced, bind, Except.bind] at ok
    | ok n =>
      simp only [blank, coerced, if_neg, not_false_eq_true, bind, Except.bind] at ok
      split at ok
      · exact ⟨_, (Except.ok.inj ok).symm⟩
      · exact ⟨_, (Except.ok.inj ok).symm⟩
      · exact ⟨_, (Except.ok.inj ok).symm⟩

theorem webSearch_ok_iff (args : PyDict) :
    (∃ result, web.webSearch args = .ok result) ↔ web.Coercible args := by
  unfold webSearch Coercible
  by_cases blank : web.query args = []
  · simp only [blank, if_pos, ne_eq, not_true_eq_false, false_implies, iff_true]
    exact ⟨_, rfl⟩
  · rw [← web.numerals.toInt_ok_iff]
    simp only [blank, if_neg, not_false_eq_true, ne_eq, true_implies]
    cases coerced : web.numerals.toInt (args.get ↑"max_results" (.int searchMaxResults)) with
    | error e => simp [bind, Except.bind]
    | ok n =>
      simp only [bind, Except.bind]
      constructor
      · intro _
        exact ⟨n, rfl⟩
      · intro _
        split
        · exact ⟨_, rfl⟩
        · exact ⟨_, rfl⟩
        · exact ⟨_, rfl⟩

theorem runTool_isResult {name : Text} {args : PyDict} {result : Json}
    (ok : web.runTool name args = .ok result) : IsResult result := by
  unfold runTool at ok
  split_ifs at ok
  · exact web.webSearch_isResult ok
  · rw [← Except.ok.inj ok]
    exact web.fetchPage_isResult args
  · exact ⟨_, (Except.ok.inj ok).symm⟩

theorem runTool_ok_iff (name : Text) (args : PyDict) :
    (∃ result, web.runTool name args = .ok result) ↔
      (name = ↑"web_search" → web.Coercible args) := by
  unfold runTool
  split_ifs with search fetch
  · rw [webSearch_ok_iff]
    exact ⟨fun coercible _ => coercible, fun coercible => coercible search⟩
  · exact ⟨fun _ named => absurd named search, fun _ => ⟨_, rfl⟩⟩
  · exact ⟨fun _ named => absurd named search, fun _ => ⟨_, rfl⟩⟩

/-- A tool returns a result or an error dict, except for a search whose arguments cannot be coerced,
which raises. -/
theorem runTool_returns_iff (name : Text) (args : PyDict) :
    (∃ result, web.runTool name args = .ok result ∧ IsResult result) ↔
      (name = ↑"web_search" → web.Coercible args) := by
  rw [← runTool_ok_iff]
  constructor
  · rintro ⟨result, ok, _⟩
    exact ⟨result, ok⟩
  · rintro ⟨result, ok⟩
    exact ⟨result, ok, web.runTool_isResult ok⟩

/-- A web where nothing is found. -/
def empty : Web where
  py := plainPython
  numerals := ⟨fun _ => none⟩
  ddgs _ _ := .ok []
  unreadable _ := ↑"'NoneType' object is not subscriptable"
  get _ := .error ↑"All connection attempts failed"
  getText := .ok

theorem nullLimit_raises :
    empty.runTool ↑"web_search" [(.str ↑"query", .str ↑"k8s"), (.str ↑"max_results", .null)] =
      .error .typeError := rfl

end Web

/-! ## The tools of a chat -/

/-- The tools of a host, through a web that may change from call to call. -/
def webTools (web : List ToolCall → Web) (calls : List ToolCall) : Except Raised Json :=
  match calls.getLast? with
  | some call =>
    match (web calls).runTool call.tool call.args with
    | .ok result => .ok result
    | .error _ => .error .toolError
  | none => .error .toolError

/-- An enabled tool gives the round a result exactly when its arguments can be coerced. -/
theorem results_iff_coercible {host : Host} {web : List ToolCall → Web}
    (tools : host.runTool = webTools web) {tool : Text} (args : PyDict) {allowed : List Text}
    (enabled : tool ∈ allowed) (ledger : Ledger) :
    (∃ result, Results host tool args allowed ledger result) ↔
      (tool = ↑"web_search" → (web (ledger.toolCalls ++ [⟨tool, args⟩])).Coercible args) := by
  rw [← Web.runTool_ok_iff]
  simp only [Results, if_pos enabled, tools, webTools, List.getLast?_concat]
  cases ran : (web (ledger.toolCalls ++ [⟨tool, args⟩])).runTool tool args with
  | ok result => simp
  | error e => simp

end AgenticOctopus.Chat
