import AgenticOctopus.Foundation.Binary64
import AgenticOctopus.Foundation.Json

/-!
# Reading and writing JSON

`json.loads` and `json.dumps` with their defaults. The reader accepts what CPython's scanner
accepts, lone surrogates, `NaN` and the infinities included, and keeps the last of two equal
keys. What depends on the interpreter and not on the text is a parameter.
-/
namespace AgenticOctopus.Foundation

/-- The interpreter: `repr` of a finite float, `str` of a value that is no scalar, and how
deep `json.loads` and `json.dumps` may nest. -/
structure Interpreter where
  floatRepr : (negative : Bool) → (mantissa : Nat) → (exponent : Int) → Text
  containerRepr : Json → Text
  nesting : Nat

/-- `int` refuses to read more digits than this. -/
def intMaxStrDigits : Nat := 4300

namespace Json

/-- What `json.loads` raises: `JSONDecodeError`, the `ValueError` of an integer with so many digits,
and `RecursionError`. -/
inductive LoadError where
  | decode
  | value (digits : Nat)
  | recursion
deriving DecidableEq, Repr

/-! ## Scanning -/

def isBlank (c : Nat) : Bool := c == 32 || (9 ≤ c && c ≤ 10) || c == 13

def skip (t : Text) : Text := t.dropWhile isBlank

def isDigit (c : Nat) : Bool := 48 ≤ c && c ≤ 57

def ofDigits (ds : Text) : Nat := ds.foldl (fun n d => 10 * n + (d - 48)) 0

def hexDigit? (c : Nat) : Option Nat :=
  if isDigit c then some (c - 48)
  else if 65 ≤ c && c ≤ 70 then some (c - 55)
  else if 97 ≤ c && c ≤ 102 then some (c - 87)
  else none

/-- The code unit of four hexadecimal digits. -/
def codeUnit? (a b c d : Nat) : Option Nat := do
  let a ← hexDigit? a
  let b ← hexDigit? b
  let c ← hexDigit? c
  let d ← hexDigit? d
  return ((a * 16 + b) * 16 + c) * 16 + d

def joinSurrogates (high low : Nat) : Nat := 0x10000 + (high - 0xD800) * 0x400 + (low - 0xDC00)

/-- The character after a backslash, other than `u`. -/
def escape? (c : Nat) : Option Nat :=
  if c = 34 ∨ c = 92 ∨ c = 47 then some c
  else if c = 98 then some 8
  else if c = 102 then some 12
  else if c = 110 then some 10
  else if c = 114 then some 13
  else if c = 116 then some 9
  else none

/-- What a `\u` escape adds, and the high surrogate that it leaves open. -/
def escapedUnit (high : Option Nat) (u : Nat) : Text × Option Nat :=
  match high with
  | some h =>
    if Text.isLow u then ([joinSurrogates h u], none)
    else if Text.isHigh u then ([h], some u)
    else ([h, u], none)
  | none => if Text.isHigh u then ([], some u) else ([u], none)

/-- The rest of a string literal, up to and with its closing quote. `high` is a high surrogate
just escaped, which only the escape of a low one completes. -/
def scanString (high : Option Nat) : Text → Except LoadError (Text × Text)
  | [] => throw .decode
  | 34 :: rest => return (high.toList, rest)
  | 92 :: 117 :: a :: b :: c :: d :: rest =>
    match codeUnit? a b c d with
    | none => throw .decode
    | some u => do
      let (s, rest) ← scanString (escapedUnit high u).2 rest
      return ((escapedUnit high u).1 ++ s, rest)
  | 92 :: c :: rest =>
    match escape? c with
    | none => throw .decode
    | some e => do
      let (s, rest) ← scanString none rest
      return (high.toList ++ e :: s, rest)
  | c :: rest =>
    if c < 32 ∨ c = 92 then throw .decode
    else do
      let (s, rest) ← scanString none rest
      return (high.toList ++ c :: s, rest)

/-- A decimal as the double nearest to it: far out that is an infinity, close to zero it is zero. -/
def ofDecimal (negative : Bool) (digits : Nat) (exponent : Int) : Json :=
  -- the first two cases spare the power of ten
  if digits = 0 ∨ (Nat.toDigits 10 digits).length + exponent < -330 then .float negative 0 (-1074)
  else if (Nat.toDigits 10 digits).length + exponent > 310 then .infinity negative
  else
    match Binary64.nearest (digits * 10 ^ exponent.toNat) (10 ^ (-exponent).toNat) with
    | some (mantissa, exponent) => .float negative mantissa exponent
    | none => .infinity negative

/-- A point and digits, or nothing. -/
def fraction : Text → Text × Text
  | 46 :: d :: rest => if isDigit d then (d :: rest).span isDigit else ([], 46 :: d :: rest)
  | t => ([], t)

/-- An exponent with its sign, or nothing. -/
def exponent : Text → Option Int × Text
  | e :: t =>
    if e = 101 ∨ e = 69 then
      let (negative, digits) :=
        match t with
        | 45 :: ds => (true, ds)
        | 43 :: ds => (false, ds)
        | ds => (false, ds)
      match digits.span isDigit with
      | ([], _) => (none, e :: t)
      | (ds, rest) => (some (if negative then -(ofDigits ds : Int) else ofDigits ds), rest)
    else (none, e :: t)
  | [] => (none, [])

def scanNumber (t : Text) : Except LoadError (Json × Text) := do
  let (negative, t) := match t with
    | 45 :: t => (true, t)
    | t => (false, t)
  let (whole, t) ← match t with
    | 48 :: t => pure ([48], t)
    | t => match t.span isDigit with
      | ([], _) => throw LoadError.decode
      | p => pure p
  let (part, t) := fraction t
  let (power, t) := exponent t
  if part = [] ∧ power = none then
    if whole.length > intMaxStrDigits then throw (.value whole.length)
    else
      let n : Int := ofDigits whole
      return (.int (if negative then -n else n), t)
  else
    return (ofDecimal negative (ofDigits (whole ++ part)) (power.getD 0 - part.length), t)

/-- The rest of the text after a word that it starts with. -/
def word? (w : String) (t : Text) : Option Text :=
  if (w : Text).isPrefixOf t then some (t.drop w.length) else none

/-- The values that are a word or a number. -/
def scanScalar (t : Text) : Except LoadError (Json × Text) :=
  (((word? "null" t).map fun rest => (Json.null, rest)) <|>
    ((word? "true" t).map fun rest => (Json.bool true, rest)) <|>
    ((word? "false" t).map fun rest => (Json.bool false, rest)) <|>
    ((word? "NaN" t).map fun rest => (Json.nan, rest)) <|>
    ((word? "Infinity" t).map fun rest => (Json.infinity false, rest)) <|>
    ((word? "-Infinity" t).map fun rest => (Json.infinity true, rest))).elim
    (scanNumber t) Except.ok

/-! ## loads -/

mutual

/-- One value at the head of the text. Of two nested calls at least one consumes text, so twice
its length is fuel enough; `depth` is how far it may nest yet. -/
def scanValue : (fuel depth : Nat) → Text → Except LoadError (Json × Text)
  | 0, _, _ => throw .decode
  | fuel + 1, depth, t =>
    match t, depth with
    | 34 :: rest, _ => do
      let (s, rest) ← scanString none rest
      return (.str s, rest)
    | 123 :: _, 0 | 91 :: _, 0 => throw .recursion
    | 123 :: rest, depth + 1 =>
      match skip rest with
      | 125 :: rest => return (.obj [], rest)
      | rest => scanMembers fuel depth [] rest
    | 91 :: rest, depth + 1 =>
      match skip rest with
      | 93 :: rest => return (.arr [], rest)
      | rest => scanItems fuel depth [] rest
    | t, _ => scanScalar t

def scanMembers : (fuel depth : Nat) → Dict Text Json → Text → Except LoadError (Json × Text)
  | 0, _, _, _ => throw .decode
  | fuel + 1, depth, fields, t => do
    match t with
    | 34 :: rest =>
      let (key, rest) ← scanString none rest
      match skip rest with
      | 58 :: rest =>
        let (v, rest) ← scanValue fuel depth (skip rest)
        match skip rest with
        | 125 :: rest => return (.obj (Dict.set fields key v), rest)
        | 44 :: rest => scanMembers fuel depth (Dict.set fields key v) (skip rest)
        | _ => throw .decode
      | _ => throw .decode
    | _ => throw .decode

def scanItems : (fuel depth : Nat) → List Json → Text → Except LoadError (Json × Text)
  | 0, _, _, _ => throw .decode
  | fuel + 1, depth, items, t => do
    let (v, rest) ← scanValue fuel depth t
    match skip rest with
    | 93 :: rest => return (.arr (items ++ [v]), rest)
    | 44 :: rest => scanItems fuel depth (items ++ [v]) (skip rest)
    | _ => throw .decode

end

def loads (py : Interpreter) (t : Text) : Except LoadError Json :=
  if t.head? = some 0xFEFF then throw .decode
  else do
    let (v, rest) ← scanValue (2 * t.length + 2) py.nesting (skip t)
    match skip rest with
    | [] => return v
    | _ => throw .decode

/-! ## dumped -/

def hexDigit (n : Nat) : Nat := if n < 10 then 48 + n else 87 + n

def unicodeEscape (u : Nat) : Text :=
  [92, 117, hexDigit (u / 4096 % 16), hexDigit (u / 256 % 16), hexDigit (u / 16 % 16),
    hexDigit (u % 16)]

/-- One character of a string literal; everything beyond ASCII is escaped. -/
def escape (c : Nat) : Text :=
  if c = 34 ∨ c = 92 then [92, c]
  else if c = 10 then [92, 110]
  else if c = 13 then [92, 114]
  else if c = 9 then [92, 116]
  else if c = 12 then [92, 102]
  else if c = 8 then [92, 98]
  else if 32 ≤ c ∧ c ≤ 126 then [c]
  else if c < 0x10000 then unicodeEscape c
  else
    unicodeEscape (0xD800 + (c - 0x10000) / 0x400) ++
      unicodeEscape (0xDC00 + (c - 0x10000) % 0x400)

def quote (s : Text) : Text := 34 :: s.flatMap escape ++ [34]

/-- `sep.join(parts)` -/
def intercalate (sep : Text) : List Text → Text
  | [] => []
  | [t] => t
  | t :: ts => t ++ sep ++ intercalate sep ts

mutual

/-- What `json.dumps` writes of a value that is not nested too deep. -/
def dumped (py : Interpreter) : Json → Text
  | null => ↑"null"
  | bool true => ↑"true"
  | bool false => ↑"false"
  | int n => Text.ofInt n
  | float negative mantissa exponent => py.floatRepr negative mantissa exponent
  | nan => ↑"NaN"
  | infinity false => ↑"Infinity"
  | infinity true => ↑"-Infinity"
  | str s => quote s
  | arr items => ↑"[" ++ intercalate ↑", " (dumpedItems py items) ++ ↑"]"
  | obj fields => [123] ++ intercalate ↑", " (dumpedFields py fields) ++ [125]

def dumpedItems (py : Interpreter) : List Json → List Text
  | [] => []
  | v :: vs => dumped py v :: dumpedItems py vs

def dumpedFields (py : Interpreter) : List (Text × Json) → List Text
  | [] => []
  | (k, v) :: fields => (quote k ++ ↑": " ++ dumped py v) :: dumpedFields py fields

end

/-- `str(value)` -/
def toStr (py : Interpreter) : Json → Text
  | str s => s
  | null => ↑"None"
  | bool true => ↑"True"
  | bool false => ↑"False"
  | int n => Text.ofInt n
  | float negative mantissa exponent => py.floatRepr negative mantissa exponent
  | nan => ↑"nan"
  | infinity false => ↑"inf"
  | infinity true => ↑"-inf"
  | v => py.containerRepr v

end Json

end AgenticOctopus.Foundation
