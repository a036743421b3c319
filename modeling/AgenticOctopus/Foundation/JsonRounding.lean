import AgenticOctopus.Foundation.Encoding
import AgenticOctopus.Foundation.JsonWriting

/-!
# Writing again what was read

Python writes a float as its `repr`. All that is assumed of it is that it is a number whose
`repr` is the same again, so what `json.loads` returned, `json.dumps` writes so that it is read
as the same value, up to floats that `repr` does not tell apart.
-/
namespace AgenticOctopus.Foundation

namespace Json

variable (py : Interpreter)

/-- `float(repr(x)) == x`: what `repr` writes is a number, and `repr` of it is the same. -/
def ReprReads : Prop :=
  ∀ (negative : Bool) (mantissa : Nat) (exponent : Int), ∃ (n : Number) (d : Nat) (e : Int),
    n.text = py.floatRepr negative mantissa exponent ∧ n.value = .float negative d e ∧
      py.floatRepr negative d e = py.floatRepr negative mantissa exponent

/-- The float that is read from its `repr`. -/
def roundedFloat (negative : Bool) (mantissa : Nat) (exponent : Int) : Json :=
  match loads py (py.floatRepr negative mantissa exponent) with
  | .ok v => v
  | .error _ => .float negative mantissa exponent

mutual

def rounded : Json → Json
  | .float negative mantissa exponent => roundedFloat py negative mantissa exponent
  | .arr items => .arr (roundedItems items)
  | .obj fields => .obj (roundedFields fields)
  | v => v

def roundedItems : List Json → List Json
  | [] => []
  | v :: vs => rounded v :: roundedItems vs

def roundedFields : List (Text × Json) → List (Text × Json)
  | [] => []
  | (k, v) :: fields => (k, rounded v) :: roundedFields fields

end

/-! ## Values that were read -/

/-- Every character is a code point. -/
def InRange (t : Text) : Prop := ∀ c ∈ t, c < 0x110000

instance (t : Text) : Decidable (InRange t) := inferInstanceAs (Decidable (∀ c ∈ t, c < 0x110000))

mutual

/-- What `json.loads` returns: no integer too long, nothing nested too deep, a key once. -/
def Loaded : (depth : Nat) → Json → Prop
  | _, .int n => (Nat.toDigits 10 n.natAbs).length ≤ intMaxStrDigits
  | _, .str s => InRange s
  | 0, .arr _ | 0, .obj _ => False
  | depth + 1, .arr items => LoadedItems depth items
  | depth + 1, .obj fields => (Dict.keys fields).Nodup ∧ LoadedFields depth fields
  | _, _ => True

def LoadedItems (depth : Nat) : List Json → Prop
  | [] => True
  | v :: vs => Loaded depth v ∧ LoadedItems depth vs

def LoadedFields (depth : Nat) : List (Text × Json) → Prop
  | [] => True
  | (k, v) :: fields => InRange k ∧ Loaded depth v ∧ LoadedFields depth fields

end

variable {py}

theorem loads_floatRepr (reads : ReprReads py) (negative : Bool) (mantissa : Nat) (exponent : Int) :
    ∃ (n : Number) (d : Nat) (e : Int), n.text = py.floatRepr negative d e ∧
      n.value = .float negative d e ∧
      py.floatRepr negative d e = py.floatRepr negative mantissa exponent ∧
      loads py (py.floatRepr negative mantissa exponent) = .ok (.float negative d e) := by
  obtain ⟨n, d, e, text, value, same⟩ := reads negative mantissa exponent
  have notInt : n.isInt = false := by
    cases isInt : n.isInt with
    | false => rfl
    | true => simp [Number.value, isInt] at value
  have fits : (Spelling.number n).fits py.nesting := by simp [Spelling.fits, Number.fits, notInt]
  have read : loads py n.text = .ok n.value := loads_text_of_fits fits
  exact ⟨n, d, e, text.trans same.symm, value, same, by rw [← text, read, value]⟩

mutual

/-- Rounding changes neither the text nor the strings, and rounding twice is rounding once. -/
theorem rounded_spec (reads : ReprReads py) (v : Json) :
    dumped py (rounded py v) = dumped py v ∧ wellFormed (rounded py v) = wellFormed v ∧
      rounded py (rounded py v) = rounded py v := by
  match v with
  | .float negative mantissa exponent =>
    obtain ⟨-, d, e, -, -, same, read⟩ := loads_floatRepr reads negative mantissa exponent
    simp only [rounded, roundedFloat, read, same]
    exact ⟨same, rfl, trivial⟩
  | .arr items =>
    obtain ⟨text, clean, twice⟩ := roundedItems_spec reads items
    simp only [rounded, dumped, wellFormed, text, clean, twice, and_self]
  | .obj fields =>
    obtain ⟨text, clean, twice⟩ := roundedFields_spec reads fields
    simp only [rounded, dumped, wellFormed, text, clean, twice, and_self]
  | .null | .bool _ | .int _ | .nan | .infinity _ | .str _ => exact ⟨rfl, rfl, rfl⟩

theorem roundedItems_spec (reads : ReprReads py) (vs : List Json) :
    dumpedItems py (roundedItems py vs) = dumpedItems py vs ∧
      wellFormedItems (roundedItems py vs) = wellFormedItems vs ∧
      roundedItems py (roundedItems py vs) = roundedItems py vs := by
  match vs with
  | [] => exact ⟨rfl, rfl, rfl⟩
  | v :: vs =>
    obtain ⟨text, clean, twice⟩ := rounded_spec reads v
    obtain ⟨texts, cleans, twices⟩ := roundedItems_spec reads vs
    simp only [roundedItems, dumpedItems, wellFormedItems, text, clean, twice, texts, cleans, twices,
      and_self]

theorem roundedFields_spec (reads : ReprReads py) (fields : List (Text × Json)) :
    dumpedFields py (roundedFields py fields) = dumpedFields py fields ∧
      wellFormedFields (roundedFields py fields) = wellFormedFields fields ∧
      roundedFields py (roundedFields py fields) = roundedFields py fields := by
  match fields with
  | [] => exact ⟨rfl, rfl, rfl⟩
  | (k, v) :: fields =>
    obtain ⟨text, clean, twice⟩ := rounded_spec reads v
    obtain ⟨texts, cleans, twices⟩ := roundedFields_spec reads fields
    simp only [roundedFields, dumpedFields, wellFormedFields, text, clean, twice, texts, cleans,
      twices, and_self]

end

variable (py) in
theorem get?_roundedFields (fields : Dict Text Json) (key : Text) :
    Dict.get? (roundedFields py fields) key = (Dict.get? fields key).map (rounded py) := by
  induction fields with
  | nil => rfl
  | cons p fields ih =>
    obtain ⟨k, v⟩ := p
    rw [roundedFields, Dict.get?_cons, Dict.get?_cons, ih]
    split_ifs <;> rfl

theorem keys_roundedFields (fields : Dict Text Json) :
    Dict.keys (roundedFields py fields) = Dict.keys fields := by
  induction fields with
  | nil => rfl
  | cons p fields ih =>
    unfold Dict.keys at ih ⊢
    rw [roundedFields, List.map_cons, List.map_cons, ih]

mutual

theorem serialisable_rounded (reads : ReprReads py) (depth : Nat) (v : Json)
    (loaded : Loaded depth v) : Serialisable py depth (rounded py v) := by
  match v with
  | .float negative mantissa exponent =>
    obtain ⟨n, d, e, text, value, -, read⟩ := loads_floatRepr reads negative mantissa exponent
    rw [rounded, roundedFloat, read, Serialisable]
    exact ⟨n, text, value⟩
  | .arr items =>
    obtain _ | depth := depth
    · exact loaded.elim
    exact serialisable_roundedItems reads depth items loaded
  | .obj fields =>
    obtain _ | depth := depth
    · exact loaded.elim
    refine ⟨?_, serialisable_roundedFields reads depth fields loaded.2⟩
    rw [keys_roundedFields]
    exact loaded.1
  | .int n => exact loaded
  | .str s => exact loaded
  | .null | .bool _ | .nan | .infinity _ => simp [rounded, Serialisable]

theorem serialisable_roundedItems (reads : ReprReads py) (depth : Nat) (vs : List Json)
    (loaded : LoadedItems depth vs) : SerialisableItems py depth (roundedItems py vs) := by
  match vs with
  | [] => trivial
  | v :: vs =>
    exact ⟨serialisable_rounded reads depth v loaded.1,
      serialisable_roundedItems reads depth vs loaded.2⟩

theorem serialisable_roundedFields (reads : ReprReads py) (depth : Nat)
    (fields : List (Text × Json)) (loaded : LoadedFields depth fields) :
    SerialisableFields py depth (roundedFields py fields) := by
  match fields with
  | [] => trivial
  | (k, v) :: fields =>
    exact ⟨loaded.1, serialisable_rounded reads depth v loaded.2.1,
      serialisable_roundedFields reads depth fields loaded.2.2⟩

end

/-- What was read is written so that it is read again, up to the spelling of its floats. -/
theorem loads_dumped_rounded (reads : ReprReads py) {v : Json} (loaded : Loaded py.nesting v)
    (clean : wellFormed v = true) : loads py (dumped py v) = .ok (rounded py v) := by
  obtain ⟨text, same, -⟩ := rounded_spec reads v
  rw [← text]
  exact loads_dumped (serialisable_rounded reads _ v loaded) (same.trans clean)

/-! ## What is read -/

theorem InRange.append_iff {t u : Text} : InRange (t ++ u) ↔ InRange t ∧ InRange u :=
  List.forall_mem_append

theorem InRange.cons_iff {c : Nat} {t : Text} : InRange (c :: t) ↔ c < 0x110000 ∧ InRange t :=
  List.forall_mem_cons

theorem hexDigit?_lt {c n : Nat} (h : hexDigit? c = some n) : n < 16 := by
  unfold hexDigit? at h
  grind [isDigit]

theorem codeUnit?_lt {a b c d u : Nat} (h : codeUnit? a b c d = some u) : u < 0x10000 := by
  unfold codeUnit? at h
  simp only [Option.bind_eq_bind, Option.bind_eq_some_iff, Option.pure_def, Option.some.injEq] at h
  obtain ⟨a', ha, b', hb, c', hc, d', hd, rfl⟩ := h
  have := hexDigit?_lt ha
  have := hexDigit?_lt hb
  have := hexDigit?_lt hc
  have := hexDigit?_lt hd
  omega

theorem escape?_lt {c e : Nat} (h : escape? c = some e) : e < 0x110000 := by
  unfold escape? at h
  grind

/-- A literal of code points stands for code points. -/
theorem inRange_decode {ps : List Piece} (range : InRange (Piece.texts ps)) {high : Option Nat}
    (isHigh : ∀ h ∈ high, Text.isHigh h = true) : InRange (Piece.decode high ps) := by
  have high_range : InRange high.toList := by
    intro h mem
    have bound := isHigh h (Option.mem_toList.mp mem)
    grind [Text.isHigh]
  induction ps generalizing high with
  | nil => exact high_range
  | cons p ps ih =>
    rw [Piece.texts, List.flatMap_cons, InRange.append_iff] at range
    obtain ⟨here, rest⟩ := range
    have none_high : ∀ h ∈ (none : Option Nat), Text.isHigh h = true := fun h mem => by cases mem
    have no_range : InRange (none : Option Nat).toList := fun c mem => by cases mem
    cases p with
    | raw c plain =>
      exact InRange.append_iff.mpr ⟨high_range, InRange.cons_iff.mpr
        ⟨here c List.mem_cons_self, ih rest none_high no_range⟩⟩
    | escaped c e names =>
      exact InRange.append_iff.mpr ⟨high_range, InRange.cons_iff.mpr
        ⟨escape?_lt names, ih rest none_high no_range⟩⟩
    | unit a b c d u names =>
      have small := codeUnit?_lt names
      rw [Piece.decode, InRange.append_iff]
      have opened : ∀ h ∈ (escapedUnit high u).2, Text.isHigh h = true ∧ h < 0x110000 := by
        unfold escapedUnit
        grind
      have joined : ∀ h, Text.isHigh h = true → Text.isLow u = true →
          joinSurrogates h u < 0x110000 := by
        intro h first second
        simp only [Text.isHigh, Text.isLow, Bool.and_eq_true, decide_eq_true_eq] at first second
        unfold joinSurrogates
        omega
      have added : InRange (escapedUnit high u).1 := by
        unfold InRange escapedUnit
        cases high with
        | none => grind
        | some h =>
          have bound := high_range h List.mem_cons_self
          have first := isHigh h rfl
          grind
      refine ⟨added, ih rest (fun h mem => (opened h mem).1) fun h mem => ?_⟩
      exact (opened h (Option.mem_toList.mp mem)).2

theorem foldl_digits_lt {ds : Text} (digits : ∀ c ∈ ds, isDigit c = true) (n : Nat) :
    ds.foldl (fun n d => 10 * n + (d - 48)) n < (n + 1) * 10 ^ ds.length := by
  induction ds generalizing n with
  | nil => simp
  | cons c ds ih =>
    rw [List.forall_mem_cons] at digits
    have bound : c - 48 < 10 := by
      have digit := digits.1
      grind [isDigit]
    calc (c :: ds).foldl (fun n d => 10 * n + (d - 48)) n
        < (10 * n + (c - 48) + 1) * 10 ^ ds.length := ih digits.2 _
      _ ≤ (10 * (n + 1)) * 10 ^ ds.length := Nat.mul_le_mul_right _ (by omega)
      _ = (n + 1) * 10 ^ (c :: ds).length := by rw [List.length_cons, pow_succ]; ring

theorem length_ofDigits (ds : Digits) :
    (Nat.toDigits 10 (ofDigits ds.text)).length ≤ ds.text.length := by
  have some_digit : 0 < ds.text.length := List.length_pos_iff.mpr ds.ne_nil
  have small := foldl_digits_lt ds.digits 0
  rw [Nat.zero_add, Nat.one_mul] at small
  exact (Nat.length_toDigits_le_iff (by decide) some_digit).mpr small

theorem loaded_number (n : Number) (fits : n.fits = true) (depth : Nat) : Loaded depth n.value := by
  cases isInt : n.isInt with
  | true =>
    have short := length_ofDigits n.whole
    have limit : n.whole.text.length ≤ intMaxStrDigits := by simpa [Number.fits, isInt] using fits
    have digits := short.trans limit
    cases sign : n.negative <;> simpa [Number.value, isInt, sign, Loaded] using digits
  | false =>
    simp only [Number.value, isInt, Bool.false_eq_true, if_false, ofDecimal]
    split_ifs
    · simp [Loaded]
    · simp [Loaded]
    · split <;> simp [Loaded]

theorem loaded_obj_iff {depth : Nat} {fields : Dict Text Json} :
    Loaded depth (.obj fields) ↔
      ∃ d, depth = d + 1 ∧ (Dict.keys fields).Nodup ∧ LoadedFields d fields := by
  cases depth with
  | zero => simp [Loaded]
  | succ d => simp [Loaded]

theorem loaded_str_iff {depth : Nat} {s : Text} : Loaded depth (.str s) ↔ InRange s := by
  simp [Loaded]

theorem loaded_arr_iff {depth : Nat} {items : List Json} :
    Loaded depth (.arr items) ↔ ∃ d, depth = d + 1 ∧ LoadedItems d items := by
  cases depth with
  | zero => simp [Loaded]
  | succ d => simp [Loaded]

theorem loaded_of_get? {depth : Nat} {fields : Dict Text Json} (loaded : LoadedFields depth fields)
    {k : Text} {v : Json} (found : Dict.get? fields k = some v) : Loaded depth v := by
  induction fields with
  | nil => cases found
  | cons p fields ih =>
    obtain ⟨j, w⟩ := p
    rw [Dict.get?_cons] at found
    split at found
    · cases found
      exact loaded.2.1
    · exact ih loaded.2.2 found

theorem wellFormed_of_get? {fields : Dict Text Json} (clean : wellFormedFields fields = true)
    {k : Text} {v : Json} (found : Dict.get? fields k = some v) : wellFormed v = true := by
  induction fields with
  | nil => cases found
  | cons p fields ih =>
    obtain ⟨j, w⟩ := p
    rw [wellFormedFields, Bool.and_eq_true, Bool.and_eq_true] at clean
    rw [Dict.get?_cons] at found
    split at found
    · cases found
      exact clean.2.1
    · exact ih clean.2.2 found

theorem loadedItems_append {depth : Nat} {vs ws : List Json} :
    LoadedItems depth (vs ++ ws) ↔ LoadedItems depth vs ∧ LoadedItems depth ws := by
  induction vs with
  | nil => simp [LoadedItems]
  | cons v vs ih => simp [LoadedItems, ih, and_assoc]

theorem loadedFields_set {depth : Nat} {d : Dict Text Json} (before : LoadedFields depth d)
    {k : Text} (key : InRange k) {v : Json} (value : Loaded depth v) :
    LoadedFields depth (d.set k v) := by
  induction d with
  | nil => exact ⟨key, value, trivial⟩
  | cons p d ih =>
    obtain ⟨j, w⟩ := p
    obtain ⟨first, here, rest⟩ := before
    rw [Dict.set]
    split
    · exact ⟨key, value, rest⟩
    · exact ⟨first, here, ih rest⟩

/-- Setting a member keeps what was read. -/
theorem loaded_set {depth : Nat} {fields : Dict Text Json}
    (loaded : Loaded (depth + 1) (.obj fields))
    {k : Text} (key : InRange k) {v : Json} (value : Loaded depth v) :
    Loaded (depth + 1) (.obj (Dict.set fields k v)) :=
  ⟨Dict.nodup_set loaded.1 k v, loadedFields_set loaded.2 key value⟩

mutual

/-- What a spelling that fits stands for. -/
theorem Spelling.loaded (s : Spelling) (depth : Nat) (fits : s.fits depth = true)
    (range : InRange s.text) : Loaded depth s.value := by
  match s with
  | .number n => exact loaded_number n (by simpa [Spelling.fits] using fits) depth
  | .string pieces =>
    rw [Spelling.text, InRange.cons_iff, InRange.append_iff] at range
    exact inRange_decode range.2.1 fun h mem => by cases mem
  | .emptyArray gap =>
    obtain _ | depth := depth
    · simp [Spelling.fits] at fits
    · trivial
  | .emptyObject gap =>
    obtain _ | depth := depth
    · simp [Spelling.fits] at fits
    · exact ⟨List.nodup_nil, trivial⟩
  | .array items =>
    obtain _ | depth := depth
    · simp [Spelling.fits] at fits
    rw [Spelling.text, InRange.cons_iff] at range
    exact Items.loaded items depth (by simpa [Spelling.fits] using fits) range.2 trivial
  | .object members =>
    obtain _ | depth := depth
    · simp [Spelling.fits] at fits
    rw [Spelling.text, InRange.cons_iff] at range
    exact Members.loaded members depth (by simpa [Spelling.fits] using fits) range.2
      List.nodup_nil trivial
  | .null | .bool _ | .nan | .infinity _ => simp [Spelling.value, Loaded]

theorem Items.loaded (items : Items) (depth : Nat) (fits : items.fits depth = true)
    (range : InRange items.text) {read : List Json} (before : LoadedItems depth read) :
    LoadedItems depth (items.values read) := by
  match items with
  | .last lead v after =>
    simp only [Items.text, InRange.append_iff] at range
    have here := Spelling.loaded v depth (by simpa [Items.fits] using fits) range.2.1
    exact loadedItems_append.mpr ⟨before, here, trivial⟩
  | .next lead v after items =>
    simp only [Items.text, InRange.append_iff, InRange.cons_iff] at range
    rw [Items.fits, Bool.and_eq_true] at fits
    have here := Spelling.loaded v depth fits.1 range.2.1
    exact Items.loaded items depth fits.2 range.2.2.2.2
      (loadedItems_append.mpr ⟨before, here, trivial⟩)

theorem Members.loaded (members : Members) (depth : Nat) (fits : members.fits depth = true)
    (range : InRange members.text) {read : Dict Text Json} (distinct : (Dict.keys read).Nodup)
    (before : LoadedFields depth read) :
    (Dict.keys (members.fields read)).Nodup ∧ LoadedFields depth (members.fields read) := by
  have no_high : ∀ h ∈ (none : Option Nat), Text.isHigh h = true := fun h mem => by cases mem
  match members with
  | .last lead key colon gap v after =>
    simp only [Members.text, InRange.append_iff, InRange.cons_iff] at range
    obtain ⟨-, -, key_range, -, -, -, -, value_range, -⟩ := range
    have here := Spelling.loaded v depth (by simpa [Members.fits] using fits) value_range
    exact ⟨Dict.nodup_set distinct _ _,
      loadedFields_set before (inRange_decode key_range no_high) here⟩
  | .next lead key colon gap v after members =>
    simp only [Members.text, InRange.append_iff, InRange.cons_iff] at range
    obtain ⟨-, -, key_range, -, -, -, -, value_range, -, -, rest_range⟩ := range
    rw [Members.fits, Bool.and_eq_true] at fits
    have here := Spelling.loaded v depth fits.1 value_range
    exact Members.loaded members depth fits.2 rest_range (Dict.nodup_set distinct _ _)
      (loadedFields_set before (inRange_decode key_range no_high) here)

end

theorem loaded_of_loads {t : Text} {v : Json} (range : InRange t) (read : loads py t = .ok v) :
    Loaded py.nesting v := by
  obtain ⟨lead, s, trail, rfl, rfl, fits⟩ := loads_sound read
  simp only [InRange.append_iff] at range
  exact s.loaded py.nesting fits range.2.1

/-! ## The characters of numbers -/

theorem Digits.printable (ds : Digits) : Printable ds.text := by
  intro c mem
  have digit := ds.digits c mem
  simp only [isDigit, Bool.and_eq_true, decide_eq_true_eq] at digit
  omega

theorem printable_number (n : Number) : Printable n.text := by
  have sign : Printable n.signText := by
    unfold Number.signText
    split <;> decide
  have fraction : Printable n.fractionText := by
    unfold Number.fractionText
    cases n.fraction with
    | none => exact (by decide : Printable [])
    | some ds => exact Printable.append (by decide : Printable [46]) ds.printable
  have power : Printable n.powerText := by
    unfold Number.powerText
    cases n.power with
    | none => exact (by decide : Printable [])
    | some p =>
      have letter : Printable [p.letter] := by
        intro c mem
        rw [List.mem_singleton] at mem
        have range := p.isLetter
        omega
      have signed : Printable p.sign.text := by cases p.sign <;> decide
      exact letter.append (signed.append p.digits.printable)
  exact sign.append (n.whole.printable.append (fraction.append power))

theorem ReprReads.printable (reads : ReprReads py) : PrintableFloats py := by
  intro negative mantissa exponent
  obtain ⟨n, -, -, text, -⟩ := reads negative mantissa exponent
  rw [← text]
  exact printable_number n

end Json

/-! ## Bytes -/

namespace Bytes

theorem tail?_lt {b : UInt8} {n : Nat} (h : tail? b = some n) : n < 0x40 := by
  simp only [tail?, UInt8.le_iff_toNat_le, UInt8.lt_iff_toNat_lt, Option.ite_none_right_eq_some,
    Option.some.injEq, UInt8.toNat_ofNat] at h
  omega

theorem inRange_decodeUtf8 (s : Bytes) {t : Text} (h : decodeUtf8 s = some t) : Json.InRange t := by
  fun_induction decodeUtf8 s generalizing t with
  | case1 =>
    cases h
    exact fun _ mem => by cases mem
  | case2 a rest ascii ih =>
    simp only [Option.bind_eq_bind, Option.bind_eq_some_iff, Option.pure_def,
      Option.some.injEq] at h
    obtain ⟨u, read, rfl⟩ := h
    have bound := a.toNat_lt
    exact Json.InRange.cons_iff.mpr ⟨by omega, ih read⟩
  | case4 a _ b rest _ ih =>
    simp only [Option.bind_eq_bind, Option.bind_eq_some_iff, Option.pure_def,
      Option.some.injEq] at h
    obtain ⟨x, tail, u, read, rfl⟩ := h
    have bound := a.toNat_lt
    have first := tail?_lt tail
    exact Json.InRange.cons_iff.mpr ⟨by omega, ih read⟩
  | case6 a _ b _ b' rest _ ih =>
    simp only [Option.bind_eq_bind, Option.bind_eq_some_iff, Option.pure_def,
      Option.ite_none_left_eq_some, Option.some.injEq] at h
    obtain ⟨x, tail, y, tail', -, u, read, rfl⟩ := h
    have bound := a.toNat_lt
    have first := tail?_lt tail
    have second := tail?_lt tail'
    exact Json.InRange.cons_iff.mpr ⟨by omega, ih read⟩
  | case8 a _ b _ b' _ b'' rest _ ih =>
    simp only [Option.bind_eq_bind, Option.bind_eq_some_iff, Option.pure_def,
      Option.ite_none_left_eq_some, Option.some.injEq] at h
    obtain ⟨x, -, y, -, z, -, range, u, read, rfl⟩ := h
    exact Json.InRange.cons_iff.mpr ⟨by omega, ih read⟩
  | case3 | case5 | case7 | case9 => cases h

theorem inRange_joinUnits {us : List Nat} (small : ∀ u ∈ us, u < 0x10000) :
    Json.InRange (joinUnits us) := by
  fun_induction joinUnits us with
  | case1 => exact fun _ mem => by cases mem
  | case2 u =>
    have bound := small u List.mem_cons_self
    exact Json.InRange.cons_iff.mpr ⟨by omega, fun _ mem => by cases mem⟩
  | case3 u v t pair ih =>
    simp only [Text.isHigh, Text.isLow, Bool.and_eq_true, decide_eq_true_eq] at pair
    refine Json.InRange.cons_iff.mpr ⟨?_, ih fun w mem => small w ?_⟩
    · unfold Json.joinSurrogates
      omega
    · exact List.mem_cons_of_mem _ (List.mem_cons_of_mem _ mem)
  | case4 u v t pair ih =>
    have bound := small u List.mem_cons_self
    exact Json.InRange.cons_iff.mpr ⟨by omega, ih fun w mem => small w (List.mem_cons_of_mem _ mem)⟩

theorem units16_lt {bigEndian : Bool} {s : Bytes} {us : List Nat}
    (h : units16 bigEndian s = some us) : ∀ u ∈ us, u < 0x10000 := by
  fun_induction units16 bigEndian s generalizing us with
  | case1 =>
    cases h
    exact fun _ mem => by cases mem
  | case2 => cases h
  | case3 a b t u =>
    rename_i ih
    simp only [Option.bind_eq_bind, Option.bind_eq_some_iff, Option.pure_def,
      Option.some.injEq] at h
    obtain ⟨rest, read, rfl⟩ := h
    have first := a.toNat_lt
    have second := b.toNat_lt
    refine List.forall_mem_cons.mpr ⟨?_, ih read⟩
    change (if bigEndian then a.toNat * 256 + b.toNat else b.toNat * 256 + a.toNat) < 65536
    split <;> omega

theorem inRange_decodeUtf32 {bigEndian : Bool} {s : Bytes} {t : Text}
    (h : decodeUtf32 bigEndian s = some t) : Json.InRange t := by
  fun_induction decodeUtf32 bigEndian s generalizing t with
  | case1 =>
    cases h
    exact fun _ mem => by cases mem
  | case2 a b c d t u small =>
    rename_i ih
    simp only [Option.bind_eq_bind, Option.bind_eq_some_iff, Option.pure_def,
      Option.some.injEq] at h
    obtain ⟨rest, read, rfl⟩ := h
    exact Json.InRange.cons_iff.mpr ⟨small, ih read⟩
  | case3 => cases h
  | case4 => cases h

theorem inRange_decodeUtf16 {bigEndian : Bool} {s : Bytes} {t : Text}
    (h : decodeUtf16 bigEndian s = some t) : Json.InRange t := by
  obtain ⟨us, units, rfl⟩ := Option.map_eq_some_iff.mp h
  exact inRange_joinUnits (units16_lt units)

theorem inRange_decodeJson {s : Bytes} {t : Text} (h : decodeJson s = some t) : Json.InRange t := by
  unfold decodeJson at h
  split_ifs at h
  any_goals first
    | exact inRange_decodeUtf32 h
    | exact inRange_decodeUtf16 h
    | exact inRange_decodeUtf8 _ h
  split at h
  any_goals split_ifs at h
  all_goals first
    | exact inRange_decodeUtf32 h
    | exact inRange_decodeUtf16 h
    | exact inRange_decodeUtf8 _ h

end Bytes

end AgenticOctopus.Foundation
