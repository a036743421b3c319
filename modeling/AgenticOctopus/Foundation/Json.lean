import AgenticOctopus.Foundation.Text
import AgenticOctopus.Foundation.Dict

/-!
# JSON values as Python holds them

The values `json.loads` returns: a number without fraction and exponent is an integer, any
other is a double `mantissa * 2 ^ exponent` with its sign, and the three non-finite numbers that
Python reads and writes are values too. An object is a dictionary in insertion order.
-/
namespace AgenticOctopus.Foundation

inductive Json where
  | null
  | bool (b : Bool)
  | int (n : Int)
  | float (negative : Bool) (mantissa : Nat) (exponent : Int)
  | nan
  | infinity (negative : Bool)
  | str (s : Text)
  | arr (items : List Json)
  | obj (fields : List (Text × Json))
deriving Inhabited

namespace Json

/-- `bool(value)` -/
def truthy : Json → Bool
  | null => false
  | bool b => b
  | int n => n ≠ 0
  | float _ mantissa _ => mantissa ≠ 0
  | nan | infinity _ => true
  | str s => !s.isEmpty
  | arr items => !items.isEmpty
  | obj fields => !fields.isEmpty

/-- `value or default` -/
def orElse (v : Option Json) (d : Json) : Json :=
  match v with
  | some v => if v.truthy then v else d
  | none => d

/-! ## Nesting -/

mutual

/-- The value is nested at most this deep. -/
def nests (depth : Nat) : Json → Bool
  | arr items => depth ≠ 0 && nestsItems (depth - 1) items
  | obj fields => depth ≠ 0 && nestsFields (depth - 1) fields
  | _ => true

def nestsItems (depth : Nat) : List Json → Bool
  | [] => true
  | v :: vs => nests depth v && nestsItems depth vs

def nestsFields (depth : Nat) : List (Text × Json) → Bool
  | [] => true
  | (_, v) :: fields => nests depth v && nestsFields depth fields

end

/-! ## What a `jsonb` column takes -/

/-- No NUL, and surrogates in pairs only; `high` tells whether a high one came right before. -/
def paired (high : Bool) : Text → Bool
  | [] => !high
  | c :: t =>
    if Text.isLow c then high && paired false t
    else !high && c != 0 && paired (Text.isHigh c) t

mutual

def storable : Json → Bool
  | nan | infinity _ => false
  | str s => paired false s
  | arr items => storableItems items
  | obj fields => storableFields fields
  | _ => true

def storableItems : List Json → Bool
  | [] => true
  | v :: vs => storable v && storableItems vs

def storableFields : List (Text × Json) → Bool
  | [] => true
  | (k, v) :: fields => paired false k && storable v && storableFields fields

end

end Json

end AgenticOctopus.Foundation
