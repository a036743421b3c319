import AgenticOctopus.Foundation.JsonWriting

/-!
# The writer writes printable ASCII

`json.dumps` escapes everything else, so its text holds no line break and is its own encoding.
-/
namespace AgenticOctopus.Foundation.Json

def Printable (t : Text) : Prop := ∀ c ∈ t, 32 ≤ c ∧ c ≤ 126

instance (t : Text) : Decidable (Printable t) :=
  inferInstanceAs (Decidable (∀ c ∈ t, 32 ≤ c ∧ c ≤ 126))

/-- `repr` of a float is printable ASCII. -/
def PrintableFloats (py : Interpreter) : Prop :=
  ∀ negative mantissa exponent, Printable (py.floatRepr negative mantissa exponent)

theorem Printable.append {t u : Text} (first : Printable t) (second : Printable u) :
    Printable (t ++ u) := by
  intro c mem
  rcases List.mem_append.mp mem with mem | mem
  · exact first c mem
  · exact second c mem

theorem printable_intercalate {sep : Text} (h : Printable sep) {ts : List Text}
    (all : ∀ t ∈ ts, Printable t) : Printable (intercalate sep ts) := by
  induction ts with
  | nil => exact fun c mem => absurd mem List.not_mem_nil
  | cons t ts ih =>
    have first := all t List.mem_cons_self
    have rest := ih fun u mem => all u (List.mem_cons_of_mem t mem)
    cases ts with
    | nil => exact first
    | cons u ts => exact (first.append h).append rest

theorem printable_unicodeEscape (u : Nat) : Printable (unicodeEscape u) := by
  have digit (n : Nat) : 32 ≤ hexDigit (n % 16) ∧ hexDigit (n % 16) ≤ 126 := by
    unfold hexDigit
    split <;> omega
  intro c mem
  simp only [unicodeEscape, List.mem_cons, List.not_mem_nil, or_false] at mem
  rcases mem with rfl | rfl | rfl | rfl | rfl | rfl
  · decide
  · decide
  all_goals exact digit _

theorem printable_escape (c : Nat) : Printable (escape c) := by
  unfold escape
  split_ifs with h
  · intro d mem
    simp at mem
    omega
  · decide
  · decide
  · decide
  · decide
  · decide
  · intro d mem
    simp at mem
    omega
  · exact printable_unicodeEscape c
  · exact (printable_unicodeEscape _).append (printable_unicodeEscape _)

theorem printable_quote (s : Text) : Printable (quote s) := by
  intro c mem
  simp only [quote, List.cons_append, List.mem_cons, List.mem_append, List.mem_flatMap,
    List.not_mem_nil, or_false] at mem
  rcases mem with rfl | ⟨d, -, mem⟩ | rfl
  · decide
  · exact printable_escape d c mem
  · decide

theorem printable_ofInt (n : Int) : Printable (Text.ofInt n) := by
  have digits : Printable (Text.ofNat n.natAbs) := by
    intro c mem
    have digit := isDigit_of_mem_ofNat mem
    simp [isDigit] at digit
    omega
  unfold Text.ofInt
  split
  · exact Printable.append (t := [45]) (by decide : Printable [45]) digits
  · exact digits

mutual

theorem printable_dumped {py : Interpreter} (floats : PrintableFloats py) (v : Json) :
    Printable (dumped py v) := by
  match v with
  | .null => exact (by decide : Printable ↑"null")
  | .bool true => exact (by decide : Printable ↑"true")
  | .bool false => exact (by decide : Printable ↑"false")
  | .int n => exact printable_ofInt n
  | .float negative mantissa exponent => exact floats negative mantissa exponent
  | .nan => exact (by decide : Printable ↑"NaN")
  | .infinity false => exact (by decide : Printable ↑"Infinity")
  | .infinity true => exact (by decide : Printable ↑"-Infinity")
  | .str s => exact printable_quote s
  | .arr items =>
    have inner := printable_intercalate
      (by decide : Printable ↑", ") (printable_items floats items)
    exact (Printable.append (by decide : Printable ↑"[") inner).append
      (by decide : Printable ↑"]")
  | .obj fields =>
    have inner := printable_intercalate
      (by decide : Printable ↑", ") (printable_fields floats fields)
    exact (Printable.append (t := [123]) (by decide : Printable [123]) inner).append
      (by decide : Printable [125])

theorem printable_items {py : Interpreter} (floats : PrintableFloats py) (vs : List Json) :
    ∀ t ∈ dumpedItems py vs, Printable t := by
  match vs with
  | [] => exact fun t mem => absurd mem List.not_mem_nil
  | v :: vs =>
    have first := printable_dumped floats v
    have rest := printable_items floats vs
    intro t mem
    rcases List.mem_cons.mp mem with rfl | mem
    · exact first
    · exact rest t mem

theorem printable_fields {py : Interpreter} (floats : PrintableFloats py)
    (fields : List (Text × Json)) : ∀ t ∈ dumpedFields py fields, Printable t := by
  match fields with
  | [] => exact fun t mem => absurd mem List.not_mem_nil
  | (k, v) :: fields =>
    have first := printable_dumped floats v
    have rest := printable_fields floats fields
    intro t mem
    rcases List.mem_cons.mp mem with rfl | mem
    · exact ((printable_quote k).append
        (by decide : Printable ↑": ")).append first
    · exact rest t mem

end

/-! ## What columns take -/

theorem Printable.storable {t : Text} (h : Printable t) : t.storable = true := by
  refine List.all_eq_true.mpr fun c mem => ?_
  have range := h c mem
  simp [Text.isSurrogate, Text.isHigh, Text.isLow]
  omega

theorem storable_append (t u : Text) :
    Text.storable (t ++ u) = (Text.storable t && Text.storable u) := List.all_append

/-- A text without surrogates has them all in pairs. -/
theorem paired_of_storable {t : Text} (h : t.storable = true) : paired false t = true := by
  induction t with
  | nil => rfl
  | cons c t ih =>
    simp only [Text.storable, List.all_cons, Bool.and_eq_true] at h ih
    obtain ⟨⟨some_char, scalar⟩, rest⟩ := h
    simp only [Text.isSurrogate, Bool.not_or, Bool.and_eq_true, Bool.not_eq_true'] at scalar
    rw [paired, scalar.2, if_neg (by simp), scalar.1, ih rest]
    simp [some_char]

end AgenticOctopus.Foundation.Json
