import AgenticOctopus.Foundation.JsonText

/-!
# The spellings of a JSON value

The language that `json.loads` reads, as trees that keep what the value forgets: white space,
escapes, the digits of a number. A tree has a text and a value, and it fits the limits of the
interpreter or not. The standard spellings are those without `NaN` and the infinities.
-/
namespace AgenticOctopus.Foundation.Json

/-! ## Tokens -/

/-- White space between two tokens. -/
structure Blank where
  text : Text
  blank : ∀ c ∈ text, isBlank c = true

/-- One or more digits. -/
structure Digits where
  text : Text
  digits : ∀ c ∈ text, isDigit c = true
  ne_nil : text ≠ []

/-- A character of a string literal. -/
inductive Piece where
  | raw (c : Nat) (plain : 32 ≤ c ∧ c ≠ 34 ∧ c ≠ 92)
  | escaped (c e : Nat) (names : escape? c = some e)
  | unit (a b c d u : Nat) (names : codeUnit? a b c d = some u)

def Piece.text : Piece → Text
  | raw c _ => [c]
  | escaped c _ _ => [92, c]
  | unit a b c d _ _ => [92, 117, a, b, c, d]

def Piece.texts (pieces : List Piece) : Text := pieces.flatMap text

/-- What a literal stands for; `high` is a high surrogate that is escaped right before it. -/
def Piece.decode (high : Option Nat) : List Piece → Text
  | [] => high.toList
  | raw c _ :: ps => high.toList ++ c :: decode none ps
  | escaped _ e _ :: ps => high.toList ++ e :: decode none ps
  | unit _ _ _ _ u _ :: ps => (escapedUnit high u).1 ++ decode (escapedUnit high u).2 ps

inductive Sign where
  | none | plus | minus
deriving DecidableEq

def Sign.text : Sign → Text
  | none => []
  | plus => [43]
  | minus => [45]

structure Power where
  letter : Nat
  sign : Sign
  digits : Digits
  isLetter : letter = 101 ∨ letter = 69

def Power.text (p : Power) : Text := p.letter :: (p.sign.text ++ p.digits.text)

def Power.value (p : Power) : Int :=
  if p.sign = .minus then -(ofDigits p.digits.text : Int) else ofDigits p.digits.text

structure Number where
  negative : Bool
  whole : Digits
  fraction : Option Digits
  power : Option Power
  noLeadingZero : whole.text = [48] ∨ whole.text.head? ≠ some 48

namespace Number

variable (n : Number)

def signText : Text := if n.negative then [45] else []

def fractionText : Text := n.fraction.elim [] fun ds => 46 :: ds.text

def powerText : Text := n.power.elim [] Power.text

def text : Text := n.signText ++ (n.whole.text ++ (n.fractionText ++ n.powerText))

/-- The digits after the point. -/
def part : Text := n.fraction.elim [] Digits.text

def isInt : Bool := n.fraction.isNone && n.power.isNone

def value : Json :=
  if n.isInt then
    .int (if n.negative then -(ofDigits n.whole.text : Int) else ofDigits n.whole.text)
  else
    ofDecimal n.negative (ofDigits (n.whole.text ++ n.part))
      ((n.power.map Power.value).getD 0 - n.part.length)

def fits : Bool := !n.isInt || n.whole.text.length ≤ intMaxStrDigits

end Number

/-! ## Trees -/

mutual

inductive Spelling where
  | null
  | bool (b : Bool)
  | nan
  | infinity (negative : Bool)
  | number (n : Number)
  | string (pieces : List Piece)
  | emptyArray (gap : Blank)
  | array (items : Items)
  | emptyObject (gap : Blank)
  | object (members : Members)

inductive Items where
  | last (before : Blank) (v : Spelling) (after : Blank)
  | next (before : Blank) (v : Spelling) (after : Blank) (items : Items)

inductive Members where
  | last (before : Blank) (key : List Piece) (colon lead : Blank) (v : Spelling) (after : Blank)
  | next (before : Blank) (key : List Piece) (colon lead : Blank) (v : Spelling) (after : Blank)
    (members : Members)

end

mutual

def Spelling.text : Spelling → Text
  | .null => ↑"null"
  | .bool true => ↑"true"
  | .bool false => ↑"false"
  | .nan => ↑"NaN"
  | .infinity false => ↑"Infinity"
  | .infinity true => ↑"-Infinity"
  | .number n => n.text
  | .string pieces => 34 :: (Piece.texts pieces ++ [34])
  | .emptyArray gap => 91 :: (gap.text ++ [93])
  | .array items => 91 :: items.text
  | .emptyObject gap => 123 :: (gap.text ++ [125])
  | .object members => 123 :: members.text

/-- The items with the bracket that ends them. -/
def Items.text : Items → Text
  | .last before v after => before.text ++ (v.text ++ (after.text ++ [93]))
  | .next before v after items => before.text ++ (v.text ++ (after.text ++ 44 :: items.text))

/-- The members with the brace that ends them. -/
def Members.text : Members → Text
  | .last before key colon lead v after =>
    before.text ++ 34 :: (Piece.texts key ++ 34 :: (colon.text ++ 58 ::
      (lead.text ++ (v.text ++ (after.text ++ [125])))))
  | .next before key colon lead v after members =>
    before.text ++ 34 :: (Piece.texts key ++ 34 :: (colon.text ++ 58 ::
      (lead.text ++ (v.text ++ (after.text ++ 44 :: members.text)))))

end

mutual

def Spelling.value : Spelling → Json
  | .null => .null
  | .bool b => .bool b
  | .nan => .nan
  | .infinity negative => .infinity negative
  | .number n => n.value
  | .string pieces => .str (Piece.decode none pieces)
  | .emptyArray _ => .arr []
  | .array items => .arr (items.values [])
  | .emptyObject _ => .obj []
  | .object members => .obj (members.fields [])

/-- The items behind those that were read. -/
def Items.values (read : List Json) : Items → List Json
  | .last _ v _ => read ++ [v.value]
  | .next _ v _ items => items.values (read ++ [v.value])

/-- The dictionary that was read with the members in it: the last of two equal keys stays. -/
def Members.fields (read : Dict Text Json) : Members → Dict Text Json
  | .last _ key _ _ v _ => read.set (Piece.decode none key) v.value
  | .next _ key _ _ v _ members => members.fields (read.set (Piece.decode none key) v.value)

end

mutual

/-- Neither an integer too long nor a value nested too deep. -/
def Spelling.fits : (depth : Nat) → Spelling → Bool
  | _, .number n => n.fits
  | depth, .emptyArray _ | depth, .emptyObject _ => depth ≠ 0
  | 0, .array _ | 0, .object _ => false
  | depth + 1, .array items => items.fits depth
  | depth + 1, .object members => members.fits depth
  | _, _ => true

def Items.fits (depth : Nat) : Items → Bool
  | .last _ v _ => v.fits depth
  | .next _ v _ items => v.fits depth && items.fits depth

def Members.fits (depth : Nat) : Members → Bool
  | .last _ _ _ _ v _ => v.fits depth
  | .next _ _ _ _ v _ members => v.fits depth && members.fits depth

end

mutual

/-- What every JSON reader accepts: no `NaN` and no infinity. -/
def Spelling.standard : Spelling → Bool
  | .nan | .infinity _ => false
  | .array items => items.standard
  | .object members => members.standard
  | _ => true

def Items.standard : Items → Bool
  | .last _ v _ => v.standard
  | .next _ v _ items => v.standard && items.standard

def Members.standard : Members → Bool
  | .last _ _ _ _ v _ => v.standard
  | .next _ _ _ _ v _ members => v.standard && members.standard

end

end AgenticOctopus.Foundation.Json
