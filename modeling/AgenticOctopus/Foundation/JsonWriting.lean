import AgenticOctopus.Foundation.JsonReading

/-!
# The writer writes spellings

What `json.dumps` writes of a value that it accepts is a spelling of that value, so reading it
back gives the value again. A string with a lone surrogate keeps its spelling but not always
its value: two surrogates that were apart are read as one character.
-/
namespace AgenticOctopus.Foundation.Json

/-! ## Values that can be written -/

mutual

/-- `json.dumps` writes the value: it is nested no deeper than the interpreter allows, its
integers are not too long, its floats are what is read from their `repr`, and a key comes
once. -/
def Serialisable (py : Interpreter) : (depth : Nat) → Json → Prop
  | _, .int n => (Nat.toDigits 10 n.natAbs).length ≤ intMaxStrDigits
  | _, .float negative mantissa exponent =>
    ∃ n : Number, n.text = py.floatRepr negative mantissa exponent ∧
      n.value = .float negative mantissa exponent
  | _, .str s => ∀ c ∈ s, c < 0x110000
  | 0, .arr _ | 0, .obj _ => False
  | depth + 1, .arr items => SerialisableItems py depth items
  | depth + 1, .obj fields => (Dict.keys fields).Nodup ∧ SerialisableFields py depth fields
  | _, _ => True

def SerialisableItems (py : Interpreter) (depth : Nat) : List Json → Prop
  | [] => True
  | v :: vs => Serialisable py depth v ∧ SerialisableItems py depth vs

def SerialisableFields (py : Interpreter) (depth : Nat) : List (Text × Json) → Prop
  | [] => True
  | (k, v) :: fields =>
    (∀ c ∈ k, c < 0x110000) ∧ Serialisable py depth v ∧ SerialisableFields py depth fields

end

mutual

/-- No string and no key in the value holds a surrogate. -/
def wellFormed : Json → Bool
  | .str s => s.wellFormed
  | .arr items => wellFormedItems items
  | .obj fields => wellFormedFields fields
  | _ => true

def wellFormedItems : List Json → Bool
  | [] => true
  | v :: vs => wellFormed v && wellFormedItems vs

def wellFormedFields : List (Text × Json) → Bool
  | [] => true
  | (k, v) :: fields => k.wellFormed && (wellFormed v && wellFormedFields fields)

end

/-! ## Strings -/

theorem hexDigit?_hexDigit : ∀ n < 16, hexDigit? (hexDigit n) = some n := by decide

theorem codeUnit?_unicodeEscape {u : Nat} (small : u < 0x10000) :
    codeUnit? (hexDigit (u / 4096 % 16)) (hexDigit (u / 256 % 16)) (hexDigit (u / 16 % 16))
      (hexDigit (u % 16)) = some u := by
  unfold codeUnit?
  rw [hexDigit?_hexDigit _ (by omega), hexDigit?_hexDigit _ (by omega),
    hexDigit?_hexDigit _ (by omega), hexDigit?_hexDigit _ (by omega)]
  simp
  omega

def unitPiece (u : Nat) (small : u < 0x10000) : Piece :=
  .unit _ _ _ _ u (codeUnit?_unicodeEscape small)

/-- A character is written as these pieces; read back they give it again, if it is one. -/
structure WrittenAs (c : Nat) (ps : List Piece) : Prop where
  text : Piece.texts ps = escape c
  value : Text.isSurrogate c = false →
    ∀ qs, Piece.decode none (ps ++ qs) = c :: Piece.decode none qs
  unit : Text.isSurrogate c = true → ∃ small, ps = [unitPiece c small]

theorem writtenAs_short {c e : Nat} (names : escape? e = some c) (form : escape c = [92, e])
    (scalar : Text.isSurrogate c = false) : WrittenAs c [.escaped e c names] where
  text := by simp [Piece.texts, Piece.text, form]
  value _ qs := by simp [Piece.decode]
  unit surrogate := by simp [scalar] at surrogate

theorem writtenAs_unit {c : Nat} (small : c < 0x10000) (form : escape c = unicodeEscape c) :
    WrittenAs c [unitPiece c small] where
  text := by simp [Piece.texts, unitPiece, Piece.text, form, unicodeEscape]
  value scalar qs := by
    have notHigh : Text.isHigh c = false := by grind [Text.isSurrogate]
    simp [unitPiece, Piece.decode, escapedUnit, notHigh]
  unit _ := ⟨small, rfl⟩

theorem writtenAs_pair {c high low : Nat} (isHigh_high : Text.isHigh high = true)
    (isLow_low : Text.isLow low = true) (joined : joinSurrogates high low = c)
    (form : escape c = unicodeEscape high ++ unicodeEscape low)
    (scalar : Text.isSurrogate c = false) : ∃ ps, WrittenAs c ps := by
  have small : high < 0x10000 ∧ low < 0x10000 := by grind [Text.isHigh, Text.isLow]
  refine ⟨[unitPiece high small.1, unitPiece low small.2], ?_, fun _ qs => ?_, fun surrogate => ?_⟩
  · simp [Piece.texts, unitPiece, Piece.text, form, unicodeEscape]
  · simp [unitPiece, Piece.decode, escapedUnit, isHigh_high, isLow_low, joined]
  · simp [scalar] at surrogate

theorem exists_pieces {c : Nat} (inRange : c < 0x110000) : ∃ ps, WrittenAs c ps := by
  have ascii (low : c < 128) : Text.isSurrogate c = false := by
    grind [Text.isSurrogate, Text.isHigh, Text.isLow]
  by_cases quoted : c = 34 ∨ c = 92
  · refine ⟨_, writtenAs_short (e := c) ?_ ?_ (ascii (by omega))⟩
    · grind [escape?]
    · simp [escape, quoted]
  by_cases control : c = 10 ∨ c = 13 ∨ c = 9 ∨ c = 12 ∨ c = 8
  · rcases control with rfl | rfl | rfl | rfl | rfl
    all_goals exact ⟨_, writtenAs_short (by rfl) rfl (ascii (by decide))⟩
  by_cases printable : 32 ≤ c ∧ c ≤ 126
  · have plain : 32 ≤ c ∧ c ≠ 34 ∧ c ≠ 92 := by omega
    have form : escape c = [c] := by grind [escape]
    have scalar := ascii (by omega)
    exact ⟨[.raw c plain], by simp [Piece.texts, Piece.text, form],
      fun _ qs => by simp [Piece.decode], fun surrogate => by simp [scalar] at surrogate⟩
  by_cases small : c < 0x10000
  · exact ⟨_, writtenAs_unit small (by grind [escape])⟩
  · have high : Text.isHigh (0xD800 + (c - 0x10000) / 0x400) = true := by
      simp [Text.isHigh]
      omega
    have low : Text.isLow (0xDC00 + (c - 0x10000) % 0x400) = true := by
      simp [Text.isLow]
      omega
    have joined : joinSurrogates (0xD800 + (c - 0x10000) / 0x400)
        (0xDC00 + (c - 0x10000) % 0x400) = c := by
      unfold joinSurrogates
      omega
    have scalar : Text.isSurrogate c = false := by
      grind [Text.isSurrogate, Text.isHigh, Text.isLow]
    exact writtenAs_pair high low joined (by grind [escape]) scalar

/-- A string literal is a spelling of its string; if its surrogates come in pairs, the value
that is read back has none. -/
structure Literal (s : Text) (ps : List Piece) : Prop where
  text : Piece.texts ps = s.flatMap escape
  value : s.wellFormed = true → Piece.decode none ps = s
  joined : ∀ high : Option Nat, (∀ h ∈ high, Text.isHigh h = true) → paired high.isSome s = true →
    Text.wellFormed (Piece.decode high ps) = true

theorem joinSurrogates_scalar (high low : Nat) :
    Text.isSurrogate (joinSurrogates high low) = false := by
  have beyond : 0x10000 ≤ joinSurrogates high low := by
    unfold joinSurrogates
    omega
  simp [Text.isSurrogate, Text.isHigh, Text.isLow]
  omega

theorem decode_unitPiece (high : Option Nat) {u : Nat} (small : u < 0x10000) (ps : List Piece) :
    Piece.decode high ([unitPiece u small] ++ ps) =
      (escapedUnit high u).1 ++ Piece.decode (escapedUnit high u).2 ps := rfl

theorem exists_literal {s : Text} (inRange : ∀ c ∈ s, c < 0x110000) : ∃ ps, Literal s ps := by
  induction s with
  | nil =>
    refine ⟨[], rfl, fun _ => rfl, fun high _ pairs => ?_⟩
    cases high with
    | none => rfl
    | some h => cases pairs
  | cons c s ih =>
    obtain ⟨ps, written⟩ := exists_pieces (inRange c List.mem_cons_self)
    obtain ⟨qs, rest⟩ := ih fun d h => inRange d (List.mem_cons_of_mem c h)
    refine ⟨ps ++ qs, ?_, fun scalar => ?_, fun high isHigh_high pairs => ?_⟩
    · rw [List.flatMap_cons, ← written.text, ← rest.text]
      simp [Piece.texts]
    · rw [Text.wellFormed, List.all_cons, Bool.and_eq_true] at scalar
      rw [written.value (by simpa using scalar.1) qs, rest.value scalar.2]
    · rw [paired] at pairs
      by_cases low : Text.isLow c = true
      · -- the low half of a pair
        rw [if_pos low, Bool.and_eq_true, Option.isSome_iff_exists] at pairs
        obtain ⟨⟨h, rfl⟩, after⟩ := pairs
        obtain ⟨small, rfl⟩ := written.unit (by simp [Text.isSurrogate, low])
        have joined := rest.joined none (by simp) after
        rw [decode_unitPiece, escapedUnit, if_pos low]
        simp only [Text.wellFormed, List.cons_append, List.nil_append, List.all_cons,
          joinSurrogates_scalar] at joined ⊢
        simpa using joined
      · rw [if_neg low, Bool.and_eq_true, Bool.and_eq_true] at pairs
        obtain ⟨⟨alone, -⟩, after⟩ := pairs
        obtain rfl : high = none := by simpa using alone
        by_cases high : Text.isHigh c = true
        · obtain ⟨small, rfl⟩ := written.unit (by simp [Text.isSurrogate, high])
          rw [decode_unitPiece]
          simp only [escapedUnit, high, if_true, List.nil_append]
          exact rest.joined (some c) (by simpa using high) (by simpa [high] using after)
        · have scalar : Text.isSurrogate c = false := by simp [Text.isSurrogate, low, high]
          have joined := rest.joined none (by simp) (by simpa [high] using after)
          rw [written.value scalar]
          simp only [Text.wellFormed, List.all_cons, scalar] at joined ⊢
          simpa using joined

theorem Literal.quote {s : Text} {ps : List Piece} (literal : Literal s ps) :
    34 :: (Piece.texts ps ++ [34]) = quote s := by
  rw [literal.text]
  rfl

/-! ## Integers -/

theorem isDigit_of_mem_ofNat {n c : Nat} (mem : c ∈ Text.ofNat n) : isDigit c = true := by
  obtain ⟨d, digit, rfl⟩ := List.mem_map.mp mem
  have range := Char.isDigit_iff_toNat.mp
    (Nat.isDigit_of_mem_toDigits (by decide) (by decide) digit)
  simpa [isDigit] using range

theorem ofDigits_ofNat (n : Nat) : ofDigits (Text.ofNat n) = n := by
  have digits := Nat.ofDigitChars_ten_toDigits (n := n)
  rw [Nat.ofDigitChars_eq_foldl] at digits
  rw [ofDigits, Text.ofNat, List.foldl_map]
  exact digits

theorem head_ofNat (n : Nat) : Text.ofNat n = [48] ∨ (Text.ofNat n).head? ≠ some 48 := by
  induction n using Nat.strong_induction_on with
  | _ n ih =>
    by_cases small : n < 10
    · interval_cases n <;> decide
    · have positive : Text.ofNat (n / 10) ≠ [48] := by
        intro zero
        have value := ofDigits_ofNat (n / 10)
        rw [zero] at value
        simp [ofDigits] at value
        omega
      have split_last : Text.ofNat n = Text.ofNat (n / 10) ++ [(Nat.digitChar (n % 10)).toNat] := by
        rw [Text.ofNat, Nat.toDigits_of_base_le (by decide) (by omega), List.map_append]
        rfl
      have ne_nil : Text.ofNat (n / 10) ≠ [] := by simp [Text.ofNat]
      obtain ⟨d, ds, form⟩ := List.exists_cons_of_ne_nil ne_nil
      have first := (ih (n / 10) (by omega)).resolve_left positive
      rw [form] at first
      right
      rw [split_last, form]
      exact first

/-- `str` of an integer is a number without fraction and exponent. -/
def ofNatDigits (n : Nat) : Digits :=
  ⟨Text.ofNat n, fun _ => isDigit_of_mem_ofNat, by simp [Text.ofNat]⟩

theorem exists_int (n : Int) : ∃ number : Number, number.text = Text.ofInt n ∧
    number.value = .int n ∧
    number.fits = decide ((Nat.toDigits 10 n.natAbs).length ≤ intMaxStrDigits) := by
  refine ⟨⟨decide (n < 0), ofNatDigits n.natAbs, none, none, head_ofNat n.natAbs⟩, ?_, ?_, ?_⟩
  · unfold Text.ofInt
    by_cases negative : n < 0 <;>
      simp [Number.text, Number.signText, Number.fractionText, Number.powerText, ofNatDigits,
        negative]
  · have magnitude : ofDigits (ofNatDigits n.natAbs).text = n.natAbs := ofDigits_ofNat n.natAbs
    by_cases negative : n < 0
    · simp [Number.value, Number.isInt, magnitude, negative, abs_of_neg negative]
    · simp [Number.value, Number.isInt, magnitude, negative, abs_of_nonneg (not_lt.mp negative)]
  · simp [Number.fits, Number.isInt, ofNatDigits, Text.ofNat]

/-! ## Values -/

def space : Blank := ⟨[32], by simp [isBlank]⟩

/-- The spelling is what `json.dumps` writes; it fits, and has the value if that is well formed,
and a well-formed one if a column takes the value. -/
structure SpelledBy (py : Interpreter) (depth : Nat) (v : Json) (s : Spelling) : Prop where
  text : s.text = dumped py v
  fits : s.fits depth
  value : wellFormed v → s.value = v
  joined : storable v → wellFormed s.value

/-- The items behind a blank are what `json.dumps` writes between the brackets. -/
structure ItemsSpelledBy (py : Interpreter) (depth : Nat) (vs : List Json) (before : Blank)
    (items : Items) : Prop where
  text : items.text = before.text ++ (intercalate ↑", " (dumpedItems py vs) ++ [93])
  fits : items.fits depth
  values : wellFormedItems vs → ∀ read, items.values read = read ++ vs
  joined : storableItems vs → ∀ read, wellFormedItems read → wellFormedItems (items.values read)

structure MembersSpelledBy (py : Interpreter) (depth : Nat) (fields : List (Text × Json))
    (before : Blank) (members : Members) : Prop where
  text : members.text = before.text ++ (intercalate ↑", " (dumpedFields py fields) ++ [125])
  fits : members.fits depth
  values : wellFormedFields fields → ∀ read : Dict Text Json,
    (Dict.keys (read ++ fields)).Nodup → members.fields read = read ++ fields
  joined : storableFields fields → ∀ read : Dict Text Json, wellFormedFields read →
    wellFormedFields (members.fields read)

theorem set_new (d : Dict Text Json) {k : Text} (v : Json) {fields : Dict Text Json}
    (distinct : (Dict.keys (d ++ (k, v) :: fields)).Nodup) : d.set k v = d ++ [(k, v)] := by
  induction d with
  | nil => rfl
  | cons p d ih =>
    obtain ⟨j, w⟩ := p
    unfold Dict.keys at ih distinct
    rw [List.cons_append, List.map_cons, List.nodup_cons] at distinct
    have other : j ≠ k := by
      rintro rfl
      exact distinct.1 (by simp)
    rw [Dict.set, if_neg other, ih distinct.2, List.cons_append]

theorem wellFormedItems_append (vs ws : List Json) :
    wellFormedItems (vs ++ ws) = (wellFormedItems vs && wellFormedItems ws) := by
  induction vs with
  | nil => rfl
  | cons v vs ih => simp [wellFormedItems, ih, Bool.and_assoc]

theorem wellFormedFields_set {d : Dict Text Json} {k : Text} {v : Json}
    (before : wellFormedFields d = true) (key : k.wellFormed = true)
    (value : wellFormed v = true) : wellFormedFields (d.set k v) = true := by
  induction d with
  | nil => simp [Dict.set, wellFormedFields, key, value]
  | cons p d ih =>
    obtain ⟨j, w⟩ := p
    simp only [wellFormedFields, Bool.and_eq_true] at before
    rw [Dict.set]
    split <;> simp_all [wellFormedFields]

mutual

theorem exists_spelling (py : Interpreter) (v : Json) (depth : Nat)
    (h : Serialisable py depth v) : ∃ s, SpelledBy py depth v s := by
  match v with
  | .null => exact ⟨.null, rfl, by simp [Spelling.fits], fun _ => rfl, fun _ => rfl⟩
  | .bool b =>
    exact ⟨.bool b, by cases b <;> rfl, by simp [Spelling.fits], fun _ => rfl, fun _ => rfl⟩
  | .int n =>
    obtain ⟨number, text, value, fits⟩ := exists_int n
    refine ⟨.number number, text, ?_, fun _ => value, fun _ => ?_⟩
    · simpa [Spelling.fits, fits, Serialisable] using h
    · rw [Spelling.value, value]
      rfl
  | .float negative mantissa exponent =>
    obtain ⟨number, text, value⟩ := h
    have notInt : number.isInt = false := by
      cases isInt : number.isInt with
      | false => rfl
      | true => simp [Number.value, isInt] at value
    refine ⟨.number number, text, ?_, fun _ => value, fun _ => ?_⟩
    · simp [Spelling.fits, Number.fits, notInt]
    · rw [Spelling.value, value]
      rfl
  | .nan => exact ⟨.nan, rfl, by simp [Spelling.fits], fun _ => rfl, fun _ => rfl⟩
  | .infinity negative =>
    exact ⟨.infinity negative, by cases negative <;> rfl, by simp [Spelling.fits], fun _ => rfl,
      fun _ => rfl⟩
  | .str s =>
    obtain ⟨ps, literal⟩ := exists_literal h
    exact ⟨.string ps, literal.quote, by simp [Spelling.fits],
      fun scalar => congrArg Json.str (literal.value scalar),
      fun pairs => literal.joined none (by simp) pairs⟩
  | .arr [] =>
    obtain _ | depth := depth
    · exact h.elim
    exact ⟨.emptyArray noBlank, rfl, by simp [Spelling.fits], fun _ => rfl, fun _ => rfl⟩
  | .arr (w :: ws) =>
    obtain _ | depth := depth
    · exact h.elim
    obtain ⟨items, spelled⟩ := exists_items py (w :: ws) depth h noBlank (by simp)
    refine ⟨.array items, ?_, by simpa [Spelling.fits] using spelled.fits, fun clean => ?_,
      fun pairs => spelled.joined pairs [] rfl⟩
    · simp [Spelling.text, spelled.text, noBlank, dumped, Text.ofString]
    · rw [Spelling.value, spelled.values clean, List.nil_append]
  | .obj [] =>
    obtain _ | depth := depth
    · exact h.elim
    exact ⟨.emptyObject noBlank, rfl, by simp [Spelling.fits], fun _ => rfl, fun _ => rfl⟩
  | .obj ((k, w) :: fields) =>
    obtain _ | depth := depth
    · exact h.elim
    obtain ⟨members, spelled⟩ := exists_members py ((k, w) :: fields) depth h.2 noBlank (by simp)
    refine ⟨.object members, ?_, by simpa [Spelling.fits] using spelled.fits, fun clean => ?_,
      fun pairs => spelled.joined pairs [] rfl⟩
    · simp [Spelling.text, spelled.text, noBlank, dumped]
    · rw [Spelling.value, spelled.values clean [] h.1, List.nil_append]

theorem exists_items (py : Interpreter) (vs : List Json) (depth : Nat)
    (h : SerialisableItems py depth vs) (before : Blank) (some_item : vs ≠ []) :
    ∃ items, ItemsSpelledBy py depth vs before items := by
  match vs with
  | [] => exact (some_item rfl).elim
  | [v] =>
    obtain ⟨s, spelled⟩ := exists_spelling py v depth h.1
    refine ⟨.last before s noBlank, ?_, by simpa [Items.fits] using spelled.fits,
      fun clean read => ?_, fun pairs read clean => ?_⟩
    · simp [Items.text, noBlank, dumpedItems, intercalate, spelled.text]
    · simp only [wellFormedItems, Bool.and_true] at clean
      simp [Items.values, spelled.value clean]
    · simp only [storableItems, Bool.and_true] at pairs
      simp [Items.values, wellFormedItems_append, clean, wellFormedItems, spelled.joined pairs]
  | v :: w :: ws =>
    obtain ⟨s, spelled⟩ := exists_spelling py v depth h.1
    obtain ⟨items, rest⟩ := exists_items py (w :: ws) depth h.2 space (by simp)
    refine ⟨.next before s noBlank items, ?_, by simp [Items.fits, spelled.fits, rest.fits],
      fun clean read => ?_, fun pairs read clean => ?_⟩
    · simp [Items.text, noBlank, dumpedItems, intercalate, spelled.text, rest.text, space,
        Text.ofString]
    · rw [wellFormedItems, Bool.and_eq_true] at clean
      simp [Items.values, spelled.value clean.1, rest.values clean.2]
    · rw [storableItems, Bool.and_eq_true] at pairs
      refine rest.joined pairs.2 _ ?_
      simp [wellFormedItems_append, clean, wellFormedItems, spelled.joined pairs.1]

theorem exists_members (py : Interpreter) (fields : List (Text × Json)) (depth : Nat)
    (h : SerialisableFields py depth fields) (before : Blank) (some_field : fields ≠ []) :
    ∃ members, MembersSpelledBy py depth fields before members := by
  match fields with
  | [] => exact (some_field rfl).elim
  | [(k, v)] =>
    obtain ⟨inRange, first, -⟩ := h
    obtain ⟨key, literal⟩ := exists_literal inRange
    obtain ⟨s, spelled⟩ := exists_spelling py v depth first
    refine ⟨.last before key noBlank space s noBlank, ?_,
      by simpa [Members.fits] using spelled.fits, fun clean read distinct => ?_,
      fun pairs read clean => ?_⟩
    · simp [Members.text, noBlank, space, dumpedFields, intercalate, spelled.text, ← literal.quote,
        Text.ofString]
    · simp only [wellFormedFields, Bool.and_true, Bool.and_eq_true] at clean
      simp [Members.fields, literal.value clean.1, spelled.value clean.2,
        set_new read v distinct]
    · simp only [storableFields, Bool.and_true, Bool.and_eq_true] at pairs
      exact wellFormedFields_set clean (literal.joined none (by simp) pairs.1)
        (spelled.joined pairs.2)
  | (k, v) :: (k', w) :: more =>
    obtain ⟨inRange, first, others⟩ := h
    obtain ⟨key, literal⟩ := exists_literal inRange
    obtain ⟨s, spelled⟩ := exists_spelling py v depth first
    obtain ⟨members, rest⟩ := exists_members py ((k', w) :: more) depth others space (by simp)
    refine ⟨.next before key noBlank space s noBlank members, ?_,
      by simp [Members.fits, spelled.fits, rest.fits], fun clean read distinct => ?_,
      fun pairs read clean => ?_⟩
    · simp [Members.text, noBlank, space, dumpedFields, intercalate, spelled.text, ← literal.quote,
        rest.text, Text.ofString]
    · rw [wellFormedFields, Bool.and_eq_true, Bool.and_eq_true] at clean
      rw [Members.fields, literal.value clean.1, spelled.value clean.2.1, set_new read v distinct,
        rest.values clean.2.2 _ (by simpa using distinct)]
      simp
    · rw [storableFields, Bool.and_eq_true, Bool.and_eq_true] at pairs
      exact rest.joined pairs.2 _ (wellFormedFields_set clean
        (literal.joined none (by simp) pairs.1.1) (spelled.joined pairs.1.2))

end

/-! ## Round trip -/

/-- What was written is read back. -/
theorem loads_dumped {py : Interpreter} {v : Json} (h : Serialisable py py.nesting v)
    (clean : wellFormed v) : loads py (dumped py v) = .ok v := by
  obtain ⟨s, spelled⟩ := exists_spelling py v py.nesting h
  rw [← spelled.text, loads_text_of_fits spelled.fits, spelled.value clean]

/-- An object with one member comes back with that member, whatever became of its value. -/
theorem loads_dumped_member {py : Interpreter} {k : Text} {v : Json}
    (h : Serialisable py py.nesting (.obj [(k, v)])) (clean : k.wellFormed = true) :
    ∃ w, loads py (dumped py (.obj [(k, v)])) = .ok (.obj [(k, w)]) := by
  cases depth : py.nesting with
  | zero =>
    rw [depth] at h
    exact h.elim
  | succ depth' =>
    rw [depth] at h
    obtain ⟨-, inRange, first, -⟩ := h
    obtain ⟨key, literal⟩ := exists_literal inRange
    obtain ⟨s, spelled⟩ := exists_spelling py v depth' first
    let whole : Spelling := .object (.last noBlank key noBlank space s noBlank)
    have text : whole.text = dumped py (.obj [(k, v)]) := by
      simp [whole, Spelling.text, Members.text, noBlank, space, dumped, dumpedFields, intercalate,
        spelled.text, ← literal.quote, Text.ofString]
    have fits : whole.fits py.nesting := by
      rw [depth]
      simpa [whole, Spelling.fits, Members.fits] using spelled.fits
    have value : whole.value = .obj [(k, s.value)] := by
      simp [whole, Spelling.value, Members.fields, literal.value clean, Dict.set]
    exact ⟨s.value, by rw [← text, loads_text_of_fits fits, value]⟩

/-- An object cut short is not read back. -/
theorem loads_cut_dumped {py : Interpreter} {fields : List (Text × Json)} {depth n : Nat} {v : Json}
    (h : Serialisable py depth (.obj fields))
    (read : loads py ((dumped py (.obj fields)).take n) = .ok v) :
    (dumped py (.obj fields)).length ≤ n := by
  obtain ⟨s, spelled⟩ := exists_spelling py _ depth h
  have brace : s.text.head? = some 123 := by
    rw [spelled.text]
    rfl
  have cut : (dumped py (.obj fields)).take n ++ (dumped py (.obj fields)).drop n = s.text := by
    rw [List.take_append_drop, spelled.text]
  exact List.drop_eq_nil_iff.mp (cut_object_rejected brace cut read)

/-- If a column takes what was read back, and it is the same value, the value is well formed. -/
theorem wellFormed_of_loads_dumped {py : Interpreter} {v : Json} {depth : Nat}
    (h : Serialisable py depth v) (taken : storable v) (read : loads py (dumped py v) = .ok v) :
    wellFormed v := by
  obtain ⟨s, spelled⟩ := exists_spelling py v depth h
  rw [← spelled.text] at read
  have value := loads_text_of_fits (fits_of_loads_text read)
  rw [read] at value
  cases value
  exact spelled.joined taken

end AgenticOctopus.Foundation.Json
