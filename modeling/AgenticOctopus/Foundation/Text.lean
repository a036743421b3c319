import Mathlib.Tactic

/-!
# Text as Python's `str`

A `str` is a sequence of code points, lone surrogates included, so it is a list of numbers
here; a literal is written as a string and coerced. The methods are those of `str`: white
space is what `str.isspace` accepts, and `splitlines` breaks at every line boundary that
Python knows, with `\r\n` as one boundary.
-/
namespace AgenticOctopus.Foundation

/-- A Python `str`: its code points. -/
abbrev Text := List Nat

namespace Text

instance : LawfulBEq Text := inferInstanceAs (LawfulBEq (List Nat))

def ofString (s : String) : Text := s.toList.map Char.toNat

instance : Coe String Text := ⟨ofString⟩

theorem ofString_injective : Function.Injective ofString := by
  intro s t h
  have chars : s.toList = t.toList :=
    List.map_injective_iff.mpr (fun _ _ => Char.toNat_inj.mp) h
  exact String.toList_injective chars

@[simp] theorem ofString_inj {s t : String} : ofString s = ofString t ↔ s = t :=
  ofString_injective.eq_iff

/-- `str.isspace` on one code point. -/
def isSpace (c : Nat) : Bool :=
  (9 ≤ c && c ≤ 13) || (28 ≤ c && c ≤ 32) || c == 133 || c == 160 || c == 5760 ||
    (8192 ≤ c && c ≤ 8202) || c == 8232 || c == 8233 || c == 8239 || c == 8287 || c == 12288

def lstrip (t : Text) : Text := t.dropWhile isSpace

def rstrip (t : Text) : Text := (t.reverse.dropWhile isSpace).reverse

def strip (t : Text) : Text := rstrip (lstrip t)

def startswith (t p : Text) : Bool := p.isPrefixOf t

def endswith (t p : Text) : Bool := p.isSuffixOf t

theorem startswith_iff {t p : Text} : startswith t p = true ↔ p <+: t :=
  List.isPrefixOf_iff_prefix

/-- `str.split(sep)` for a separator of one code point. -/
def split (t : Text) (sep : Nat) : List Text := List.splitOn sep t

/-- The code points at which `str.splitlines` ends a line. -/
def isLineBreak (c : Nat) : Bool :=
  (10 ≤ c && c ≤ 13) || (28 ≤ c && c ≤ 30) || c == 133 || c == 8232 || c == 8233

/-- `str.splitlines()`; `line` is the current line, reversed. -/
def splitlinesFrom : Text → Text → List Text
  | [], [] => []
  | [], line => [line.reverse]
  | 13 :: 10 :: rest, line => line.reverse :: splitlinesFrom rest []
  | c :: rest, line =>
    if isLineBreak c then line.reverse :: splitlinesFrom rest []
    else splitlinesFrom rest (c :: line)

def splitlines (t : Text) : List Text := splitlinesFrom t []

example : splitlines (ofString "a\r\nb\n\nc") = ["a", "b", "", "c"].map ofString := by decide

def isHigh (c : Nat) : Bool := 0xD800 ≤ c && c ≤ 0xDBFF

def isLow (c : Nat) : Bool := 0xDC00 ≤ c && c ≤ 0xDFFF

def isSurrogate (c : Nat) : Bool := isHigh c || isLow c

/-- No surrogate: a sequence of Unicode characters. -/
def wellFormed (t : Text) : Bool := t.all fun c => !isSurrogate c

/-- A `text` column takes it: no NUL, and nothing that UTF-8 cannot encode. -/
def storable (t : Text) : Bool := t.all fun c => c != 0 && !isSurrogate c

/-- `"".join(parts)` -/
def join (parts : List Text) : Text := parts.flatten

/-- The decimal digits of a natural number, as `str(n)` writes them. -/
def ofNat (n : Nat) : Text := (Nat.toDigits 10 n).map Char.toNat

def ofInt (n : Int) : Text := if n < 0 then 45 :: ofNat n.natAbs else ofNat n.natAbs

end Text

end AgenticOctopus.Foundation
