import AgenticOctopus.Foundation.JsonPrintable

/-!
# Text as bytes

UTF-8 as `str.encode` writes it, and the decoding that `json.loads` does on bytes: it tells
UTF-8, UTF-16 and UTF-32 apart by the first bytes and lets surrogates pass. On ASCII all of
it is the identity on codes.
-/
namespace AgenticOctopus.Foundation

abbrev Bytes := List UInt8

namespace Bytes

/-- The bytes of an ASCII text. -/
def ofText (t : Text) : Bytes := t.map Nat.toUInt8

instance : Coe String Bytes := ⟨fun s => ofText (Text.ofString s)⟩

/-- The white space of `bytes.strip()`. -/
def isSpace (b : UInt8) : Bool := (9 ≤ b && b ≤ 13) || b == 32

def strip (t : Bytes) : Bytes := ((t.dropWhile isSpace).reverse.dropWhile isSpace).reverse

/-! ## Encoding -/

/-- The UTF-8 bytes of a code point; surrogates have none. -/
def encodeChar (c : Nat) : Option Bytes :=
  if c < 0x80 then some [c.toUInt8]
  else if c < 0x800 then some [(0xC0 + c / 0x40).toUInt8, (0x80 + c % 0x40).toUInt8]
  else if Text.isSurrogate c then none
  else if c < 0x10000 then
    some [(0xE0 + c / 0x1000).toUInt8, (0x80 + c / 0x40 % 0x40).toUInt8,
      (0x80 + c % 0x40).toUInt8]
  else if c < 0x110000 then
    some [(0xF0 + c / 0x40000).toUInt8, (0x80 + c / 0x1000 % 0x40).toUInt8,
      (0x80 + c / 0x40 % 0x40).toUInt8, (0x80 + c % 0x40).toUInt8]
  else none

/-- `text.encode()` -/
def encode : Text → Option Bytes
  | [] => some []
  | c :: t => do return (← encodeChar c) ++ (← encode t)

/-! ## Decoding -/

/-- What a continuation byte carries. -/
def tail? (b : UInt8) : Option Nat := if 0x80 ≤ b ∧ b < 0xC0 then some (b.toNat - 0x80) else none

def decodeUtf8 : Bytes → Option Text
  | [] => some []
  | a :: t =>
    if a < 0x80 then do return a.toNat :: (← decodeUtf8 t)
    else
      match t with
      | [] => none
      | b :: t =>
        if 0xC2 ≤ a ∧ a < 0xE0 then do
          let c := (a.toNat - 0xC0) * 0x40 + (← tail? b)
          return c :: (← decodeUtf8 t)
        else
          match t with
          | [] => none
          | b' :: t =>
            if 0xE0 ≤ a ∧ a < 0xF0 then do
              let c := ((a.toNat - 0xE0) * 0x40 + (← tail? b)) * 0x40 + (← tail? b')
              if c < 0x800 then none else return c :: (← decodeUtf8 t)
            else
              match t with
              | [] => none
              | b'' :: t =>
                if 0xF0 ≤ a ∧ a < 0xF5 then do
                  let c := (((a.toNat - 0xF0) * 0x40 + (← tail? b)) * 0x40 + (← tail? b')) * 0x40 +
                    (← tail? b'')
                  if c < 0x10000 ∨ 0x110000 ≤ c then none else return c :: (← decodeUtf8 t)
                else none

/-- Numbers of two bytes each. -/
def units16 (bigEndian : Bool) : Bytes → Option (List Nat)
  | [] => some []
  | [_] => none
  | a :: b :: t => do
    let u := if bigEndian then a.toNat * 256 + b.toNat else b.toNat * 256 + a.toNat
    return u :: (← units16 bigEndian t)

def joinUnits : List Nat → Text
  | [] => []
  | [u] => [u]
  | u :: v :: t =>
    if Text.isHigh u && Text.isLow v then Json.joinSurrogates u v :: joinUnits t
    else u :: joinUnits (v :: t)

def decodeUtf16 (bigEndian : Bool) (t : Bytes) : Option Text :=
  (units16 bigEndian t).map joinUnits

def decodeUtf32 (bigEndian : Bool) : Bytes → Option Text
  | [] => some []
  | a :: b :: c :: d :: t => do
    let u :=
      if bigEndian then ((a.toNat * 256 + b.toNat) * 256 + c.toNat) * 256 + d.toNat
      else ((d.toNat * 256 + c.toNat) * 256 + b.toNat) * 256 + a.toNat
    if u < 0x110000 then return u :: (← decodeUtf32 bigEndian t) else none
  | _ => none

/-- `s.decode(detect_encoding(s), "surrogatepass")` -/
def decodeJson (s : Bytes) : Option Text :=
  if [0, 0, 0xFE, 0xFF].isPrefixOf s then decodeUtf32 true (s.drop 4)
  else if [0xFF, 0xFE, 0, 0].isPrefixOf s then decodeUtf32 false (s.drop 4)
  else if [0xFE, 0xFF].isPrefixOf s then decodeUtf16 true (s.drop 2)
  else if [0xFF, 0xFE].isPrefixOf s then decodeUtf16 false (s.drop 2)
  else if [0xEF, 0xBB, 0xBF].isPrefixOf s then decodeUtf8 (s.drop 3)
  else
    match s with
    | a :: b :: c :: d :: _ =>
      if a = 0 then if b ≠ 0 then decodeUtf16 true s else decodeUtf32 true s
      else if b = 0 then
        if c ≠ 0 ∨ d ≠ 0 then decodeUtf16 false s else decodeUtf32 false s
      else decodeUtf8 s
    | [a, b] =>
      if a = 0 then decodeUtf16 true s else if b = 0 then decodeUtf16 false s else decodeUtf8 s
    | _ => decodeUtf8 s

example : decodeJson [0xC3, 0xA9, 0xE2, 0x82, 0xAC] = some [0xE9, 0x20AC] := by decide +kernel

/-! ## ASCII -/

/-- ASCII characters other than NUL. -/
def Ascii (t : Text) : Prop := ∀ c ∈ t, 0 < c ∧ c < 128

instance (t : Text) : Decidable (Ascii t) := inferInstanceAs (Decidable (∀ c ∈ t, 0 < c ∧ c < 128))

theorem Ascii.append {t u : Text} (first : Ascii t) (second : Ascii u) : Ascii (t ++ u) := by
  intro c mem
  rcases List.mem_append.mp mem with mem | mem
  · exact first c mem
  · exact second c mem

theorem ascii_of_printable {t : Text} (h : Json.Printable t) : Ascii t := by
  intro c mem
  have range := h c mem
  omega

theorem toNat_toUInt8 {c : Nat} (small : c < 128) : c.toUInt8.toNat = c := by
  rw [Nat.toUInt8, UInt8.toNat_ofNat']
  omega

theorem ofText_append (t u : Text) : ofText (t ++ u) = ofText t ++ ofText u := List.map_append

theorem encode_ascii {t : Text} (ascii : Ascii t) : encode t = some (ofText t) := by
  induction t with
  | nil => rfl
  | cons c t ih =>
    have small := ascii c List.mem_cons_self
    have rest := ih fun d mem => ascii d (List.mem_cons_of_mem c mem)
    simp [encode, encodeChar, small.2, rest, ofText]

theorem decodeUtf8_ascii {t : Text} (ascii : Ascii t) : decodeUtf8 (ofText t) = some t := by
  induction t with
  | nil => rfl
  | cons c t ih =>
    have small := (ascii c List.mem_cons_self).2
    have rest := ih fun d mem => ascii d (List.mem_cons_of_mem c mem)
    have below : c.toUInt8 < 0x80 := by
      rw [UInt8.lt_iff_toNat_lt, toNat_toUInt8 small]
      exact small
    change decodeUtf8 (c.toUInt8 :: ofText t) = _
    unfold decodeUtf8
    rw [if_pos below, rest, toNat_toUInt8 small]
    rfl

/-- No ASCII text is taken for a wider encoding. -/
theorem decodeJson_ascii {t : Text} (ascii : Ascii t) : decodeJson (ofText t) = some t := by
  have inside : ∀ b ∈ ofText t, b ≠ 0 ∧ b < 0x80 := by
    intro b mem
    obtain ⟨c, char, rfl⟩ := List.mem_map.mp mem
    have range := ascii c char
    constructor
    · intro zero
      have code := congrArg UInt8.toNat zero
      rw [toNat_toUInt8 range.2] at code
      exact absurd code (by simpa using range.1.ne')
    · rw [UInt8.lt_iff_toNat_lt, toNat_toUInt8 range.2]
      exact range.2
  rw [← decodeUtf8_ascii ascii]
  generalize ofText t = s at inside
  have mark (b : UInt8) (p : Bytes) (foreign : b = 0 ∨ 0x80 ≤ b) :
      (b :: p).isPrefixOf s = false := by
    rw [Bool.eq_false_iff]
    intro starts
    have mem : b ∈ s := (List.isPrefixOf_iff_prefix.mp starts).subset List.mem_cons_self
    rcases foreign with zero | high
    · exact (inside b mem).1 zero
    · exact absurd (inside b mem).2 (UInt8.not_lt.mpr high)
  unfold decodeJson
  rw [mark 0 _ (by decide), mark 0xFF _ (by decide), mark 0xFE _ (by decide),
    mark 0xFF _ (by decide), mark 0xEF _ (by decide)]
  simp only [Bool.false_eq_true, if_false]
  split
  · next a b c d t =>
    rw [if_neg (inside a (by simp)).1, if_neg (inside b (by simp)).1]
  · next a b =>
    rw [if_neg (inside a (by simp)).1, if_neg (inside b (by simp)).1]
  · rfl

end Bytes

end AgenticOctopus.Foundation
