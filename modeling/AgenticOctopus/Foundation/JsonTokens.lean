import AgenticOctopus.Foundation.JsonSpelling

/-!
# Reading tokens

The scanners of white space, string literals, numbers and words are sound and complete for
the spellings of these.
-/
namespace AgenticOctopus.Foundation.Json

/-! ## White space -/

theorem skip_blank (b : Blank) (t : Text) : skip (b.text ++ t) = skip t :=
  List.dropWhile_append_of_pos b.blank

theorem skip_of_head {c : Nat} {t : Text} (h : isBlank c = false) : skip (c :: t) = c :: t := by
  simp [skip, h]

theorem skip_sound (t : Text) : ∃ b : Blank, t = b.text ++ skip t :=
  ⟨⟨t.takeWhile isBlank, List.all_eq_true.mp List.all_takeWhile⟩,
    (List.takeWhile_append_dropWhile).symm⟩

/-! ## Strings -/

theorem scanString_complete (pieces : List Piece) (high : Option Nat) (rest : Text) :
    scanString high (Piece.texts pieces ++ 34 :: rest) = .ok (Piece.decode high pieces, rest) := by
  induction pieces generalizing high with
  | nil => simp [Piece.texts, Piece.decode, scanString, pure, Except.pure]
  | cons p ps ih =>
    simp only [Piece.texts, List.flatMap_cons, List.append_assoc] at ih ⊢
    cases p with
    | raw c plain =>
      have notShort : ¬ (c < 32 ∨ c = 92) := by omega
      simp only [Piece.text, List.cons_append, List.nil_append, Piece.decode]
      unfold scanString
      split <;> simp_all [bind, Except.bind, pure, Except.pure]
    | escaped c e names =>
      have notUnit : c ≠ 117 := by
        rintro rfl
        simp [escape?] at names
      simp only [Piece.text, List.cons_append, List.nil_append, Piece.decode]
      rw [scanString, names]
      · simp [ih, bind, Except.bind, pure, Except.pure]
      · simp [notUnit]
    | unit a b c d u names =>
      simp only [Piece.text, List.cons_append, List.nil_append, Piece.decode]
      rw [scanString, names]
      simp [ih, bind, Except.bind, pure, Except.pure]

theorem scanString_sound {high : Option Nat} {t s rest : Text}
    (h : scanString high t = .ok (s, rest)) :
    ∃ pieces, t = Piece.texts pieces ++ 34 :: rest ∧ s = Piece.decode high pieces := by
  fun_induction scanString high t generalizing s rest with
  | case1 => cases h
  | case2 high t =>
    cases h
    exact ⟨[], rfl, rfl⟩
  | case3 high a b c d t names => cases h
  | case4 high a b c d t u names ih =>
    cases read : scanString (escapedUnit high u).2 t with
    | error e =>
      rw [read] at h
      cases h
    | ok p =>
      rw [read] at h
      cases h
      obtain ⟨pieces, rfl, same⟩ := ih read
      exact ⟨.unit a b c d u names :: pieces, rfl, by rw [Piece.decode, same]⟩
  | case5 => cases h
  | case6 high c t notUnit e names ih =>
    cases read : scanString none t with
    | error e =>
      rw [read] at h
      cases h
    | ok p =>
      rw [read] at h
      cases h
      obtain ⟨pieces, rfl, same⟩ := ih read
      exact ⟨.escaped c e names :: pieces, rfl, by rw [Piece.decode, same]⟩
  | case7 => cases h
  | case8 high c t notQuote notUnit notEscape plain ih =>
    cases read : scanString none t with
    | error e =>
      rw [read] at h
      cases h
    | ok p =>
      rw [read] at h
      cases h
      obtain ⟨pieces, rfl, same⟩ := ih read
      have raw : 32 ≤ c ∧ c ≠ 34 ∧ c ≠ 92 := ⟨by omega, notQuote, by omega⟩
      exact ⟨.raw c raw :: pieces, rfl, by rw [Piece.decode, same]⟩

/-! ## Numbers -/

/-- Text that no number goes on with. -/
def Ends (rest : Text) : Prop := ∀ c ∈ rest.head?, isDigit c = false ∧ c ≠ 46 ∧ c ≠ 101 ∧ c ≠ 69

theorem ends_of_head {c : Nat} (rest : Text)
    (h : isDigit c = false ∧ c ≠ 46 ∧ c ≠ 101 ∧ c ≠ 69) : Ends (c :: rest) := by
  intro d hd
  cases hd
  exact h

theorem span_digits {ds : Text} (digits : ∀ c ∈ ds, isDigit c = true) {rest : Text}
    (stop : ∀ c ∈ rest.head?, isDigit c = false) : (ds ++ rest).span isDigit = (ds, rest) := by
  have none_left : rest.takeWhile isDigit = [] ∧ rest.dropWhile isDigit = rest := by
    cases rest with
    | nil => exact ⟨rfl, rfl⟩
    | cons c rest => simp [stop c rfl]
  rw [List.span_eq_takeWhile_dropWhile, List.takeWhile_append_of_pos digits,
    List.dropWhile_append_of_pos digits, none_left.1, none_left.2, List.append_nil]

theorem span_sound (t : Text) : (t.span isDigit).1 ++ (t.span isDigit).2 = t ∧
    ∀ c ∈ (t.span isDigit).1, isDigit c = true := by
  rw [List.span_eq_takeWhile_dropWhile]
  exact ⟨List.takeWhile_append_dropWhile, List.all_eq_true.mp List.all_takeWhile⟩

theorem Digits.exists_cons (ds : Digits) : ∃ d rest, ds.text = d :: rest ∧ isDigit d = true := by
  obtain ⟨d, rest, form⟩ := List.exists_cons_of_ne_nil ds.ne_nil
  exact ⟨d, rest, form, ds.digits d (by simp [form])⟩

theorem exponent_complete (n : Number) {rest : Text} (ends : Ends rest) :
    exponent (n.powerText ++ rest) = (n.power.map Power.value, rest) := by
  unfold Number.powerText
  cases n.power with
  | none =>
    cases rest with
    | nil => rfl
    | cons c rest =>
      have noLetter : ¬ (c = 101 ∨ c = 69) := by grind [ends c rfl]
      simp [exponent, noLetter]
  | some p =>
    obtain ⟨d, ds, form, digit⟩ := p.digits.exists_cons
    have spanned := span_digits p.digits.digits (fun c h => (ends c h).1)
    have noSign : d ≠ 45 ∧ d ≠ 43 := by constructor <;> rintro rfl <;> simp [isDigit] at digit
    rw [form] at spanned
    cases sign : p.sign <;>
      simp_all [exponent, Power.text, Power.value, Sign.text, p.isLetter]

theorem fraction_complete (n : Number) {rest : Text} (ends : Ends rest) :
    fraction (n.fractionText ++ (n.powerText ++ rest)) = (n.part, n.powerText ++ rest) := by
  have stop : ∀ c ∈ (n.powerText ++ rest).head?, isDigit c = false ∧ c ≠ 46 := by
    unfold Number.powerText
    cases n.power with
    | none => exact fun c h => ⟨(ends c h).1, (ends c h).2.1⟩
    | some p =>
      intro c h
      cases h
      rcases p.isLetter with letter | letter <;> simp [letter, isDigit]
  unfold Number.fractionText Number.part
  cases n.fraction with
  | none =>
    generalize n.powerText ++ rest = t at stop
    cases t with
    | nil => rfl
    | cons c t =>
      have noPoint := (stop c rfl).2
      simp [fraction, noPoint]
  | some ds =>
    obtain ⟨d, more, form, digit⟩ := ds.exists_cons
    have spanned := span_digits ds.digits (fun c h => (stop c h).1)
    rw [form] at spanned
    simpa [fraction, form, digit] using spanned

/-- The steps of `scanNumber`. -/
def leadingMinus : Text → Bool × Text
  | 45 :: t => (true, t)
  | t => (false, t)

def wholePart : Text → Except LoadError (Text × Text)
  | 48 :: t => .ok ([48], t)
  | t =>
    match t.span isDigit with
    | ([], _) => .error .decode
    | p => .ok p

def ofParts (negative : Bool) (whole part : Text) (power : Option Int) : Except LoadError Json :=
  if part = [] ∧ power = none then
    if whole.length > intMaxStrDigits then .error (.value whole.length)
    else .ok (.int (if negative then -(ofDigits whole : Int) else ofDigits whole))
  else .ok (ofDecimal negative (ofDigits (whole ++ part)) (power.getD 0 - part.length))

theorem scanNumber_eq (t : Text) :
    scanNumber t = (wholePart (leadingMinus t).2).bind fun p =>
      (ofParts (leadingMinus t).1 p.1 (fraction p.2).1 (exponent (fraction p.2).2).1).map
        fun v => (v, (exponent (fraction p.2).2).2) := by
  have finish : ∀ (negative : Bool) (whole part rest : Text) (power : Option Int),
      (if part = [] ∧ power = none then
        if whole.length > intMaxStrDigits then throw (.value whole.length)
        else return (.int (if negative then -(ofDigits whole : Int) else ofDigits whole), rest)
      else
        return (ofDecimal negative (ofDigits (whole ++ part)) (power.getD 0 - part.length), rest) :
        Except LoadError (Json × Text)) =
      (ofParts negative whole part power).map fun v => (v, rest) := by
    intro negative whole part rest power
    unfold ofParts
    split <;> [split; skip] <;> rfl
  unfold scanNumber
  simp only [finish]
  split
  next u zero =>
    have minus : (leadingMinus t).2 = 48 :: u := zero
    rw [minus]
    rfl
  next notZero =>
    change ∀ u, (leadingMinus t).2 = 48 :: u → False at notZero
    change (match (leadingMinus t).2.span isDigit with | ([], _) => _ | p => _) = _
    rw [wholePart]
    · generalize (leadingMinus t).2.span isDigit = spanned
      obtain ⟨_ | ⟨d, ds⟩, rest⟩ := spanned <;> rfl
    · exact notZero

theorem fractionText_stops (n : Number) {rest : Text} (ends : Ends rest) :
    ∀ c ∈ (n.fractionText ++ (n.powerText ++ rest)).head?, isDigit c = false := by
  unfold Number.fractionText Number.powerText
  cases n.fraction with
  | some ds =>
    intro c h
    cases h
    rfl
  | none =>
    cases n.power with
    | none => exact fun c h => (ends c h).1
    | some p =>
      intro c h
      cases h
      rcases p.isLetter with letter | letter <;> rw [letter] <;> rfl

theorem leadingMinus_text (n : Number) (rest : Text) :
    leadingMinus (n.text ++ rest) =
      (n.negative, n.whole.text ++ (n.fractionText ++ (n.powerText ++ rest))) := by
  obtain ⟨d, ds, form, digit⟩ := n.whole.exists_cons
  have noSign : d ≠ 45 := by
    rintro rfl
    simp [isDigit] at digit
  unfold Number.text Number.signText
  cases n.negative <;> simp [form, leadingMinus, noSign]

theorem wholePart_complete (n : Number) {rest : Text}
    (stop : ∀ c ∈ rest.head?, isDigit c = false) :
    wholePart (n.whole.text ++ rest) = .ok (n.whole.text, rest) := by
  obtain ⟨d, ds, form, digit⟩ := n.whole.exists_cons
  have spanned := span_digits n.whole.digits stop
  rcases n.noLeadingZero with zero | nonzero
  · rw [zero]
    rfl
  · rw [form] at spanned nonzero ⊢
    have notZero : d ≠ 48 := by simpa using nonzero
    rw [List.cons_append] at spanned ⊢
    rw [wholePart, spanned]
    simpa using notZero

theorem ofParts_complete (n : Number) :
    ofParts n.negative n.whole.text n.part (n.power.map Power.value) =
      if n.fits then .ok n.value else .error (.value n.whole.text.length) := by
  have part_nil : n.part = [] ↔ n.fraction = none := by
    unfold Number.part
    cases n.fraction with
    | none => simp
    | some ds => simp [ds.ne_nil]
  unfold ofParts Number.fits Number.value Number.isInt
  cases part : n.fraction <;> cases power : n.power <;> simp_all
  split <;> grind

theorem scanNumber_complete (n : Number) {rest : Text} (ends : Ends rest) :
    scanNumber (n.text ++ rest) =
      if n.fits then .ok (n.value, rest) else .error (.value n.whole.text.length) := by
  rw [scanNumber_eq, leadingMinus_text, wholePart_complete n (fractionText_stops n ends)]
  simp only [Except.bind, fraction_complete n ends, exponent_complete n ends, ofParts_complete]
  split <;> rfl

theorem leadingMinus_sound (t : Text) :
    t = (if (leadingMinus t).1 then [45] else []) ++ (leadingMinus t).2 := by
  fun_cases leadingMinus t <;> simp

theorem wholePart_sound {u w whole : Text} (h : wholePart u = .ok (whole, w)) :
    ∃ ds : Digits, ds.text = whole ∧ (whole = [48] ∨ whole.head? ≠ some 48) ∧
      u = whole ++ w := by
  unfold wholePart at h
  split at h
  next t =>
    cases h
    exact ⟨⟨[48], by simp [isDigit], by simp⟩, rfl, .inl rfl, rfl⟩
  next notZero =>
    obtain ⟨back, digits⟩ := span_sound u
    split at h
    next => cases h
    next some_read =>
      have spanned : u.span isDigit = (whole, w) := Except.ok.inj h
      rw [spanned] at back digits
      have ne_nil : whole ≠ [] := by
        rintro rfl
        exact some_read _ spanned
      refine ⟨⟨whole, digits, ne_nil⟩, rfl, .inr ?_, back.symm⟩
      intro zero
      obtain ⟨more, rfl⟩ := List.head?_eq_some_iff.mp zero
      exact notZero _ back.symm

theorem fraction_sound (w : Text) : ∃ ds : Option Digits,
    (fraction w).1 = ds.elim [] Digits.text ∧
      w = (ds.elim [] fun ds => 46 :: ds.text) ++ (fraction w).2 := by
  fun_cases fraction w with
  | case1 d rest digit =>
    obtain ⟨back, digits⟩ := span_sound (d :: rest)
    have ne_nil : ((d :: rest).span isDigit).1 ≠ [] := by
      rw [List.span_eq_takeWhile_dropWhile]
      simp [digit]
    exact ⟨some ⟨_, digits, ne_nil⟩, rfl, congrArg (46 :: ·) back.symm⟩
  | case2 d rest noDigit => exact ⟨none, rfl, rfl⟩
  | case3 noPoint => exact ⟨none, rfl, rfl⟩

/-- The sign of an exponent. -/
def exponentSign : Text → Bool × Text
  | 45 :: ds => (true, ds)
  | 43 :: ds => (false, ds)
  | ds => (false, ds)

theorem exponentSign_sound (t : Text) : ∃ sign : Sign,
    (exponentSign t).1 = decide (sign = .minus) ∧ t = sign.text ++ (exponentSign t).2 := by
  fun_cases exponentSign t with
  | case1 ds => exact ⟨.minus, rfl, rfl⟩
  | case2 ds => exact ⟨.plus, rfl, rfl⟩
  | case3 notMinus notPlus => exact ⟨.none, rfl, rfl⟩

theorem exponent_cons {e : Nat} (letter : e = 101 ∨ e = 69) (t : Text) :
    exponent (e :: t) =
      match (exponentSign t).2.span isDigit with
      | ([], _) => (none, e :: t)
      | (ds, rest) => (some (if (exponentSign t).1 then -(ofDigits ds : Int) else ofDigits ds),
          rest) := by
  unfold exponent
  exact if_pos letter

theorem exponent_sound (x : Text) : ∃ p : Option Power, (exponent x).1 = p.map Power.value ∧
    x = p.elim [] Power.text ++ (exponent x).2 := by
  cases x with
  | nil => exact ⟨none, rfl, rfl⟩
  | cons e t =>
    by_cases letter : e = 101 ∨ e = 69
    · obtain ⟨sign, minus, form⟩ := exponentSign_sound t
      obtain ⟨back, digits⟩ := span_sound (exponentSign t).2
      rw [exponent_cons letter]
      cases spanned : (exponentSign t).2.span isDigit with
      | mk ds rest =>
        rw [spanned] at back digits
        cases ds with
        | nil => exact ⟨none, rfl, rfl⟩
        | cons d ds =>
          refine ⟨some ⟨e, sign, ⟨d :: ds, digits, by simp⟩, letter⟩, ?_, ?_⟩
          · simp [Power.value, minus]
          · rw [← back] at form
            simp [Power.text, form]
    · exact ⟨none, by simp [exponent, letter], by simp [exponent, letter]⟩

theorem scanNumber_sound {t rest : Text} {v : Json} (h : scanNumber t = .ok (v, rest)) :
    ∃ n : Number, t = n.text ++ rest ∧ n.fits ∧ n.value = v := by
  rw [scanNumber_eq] at h
  cases whole : wholePart (leadingMinus t).2 with
  | error e =>
    rw [whole] at h
    cases h
  | ok p =>
    obtain ⟨w, u⟩ := p
    rw [whole] at h
    obtain ⟨ds, rfl, noLeadingZero, split_whole⟩ := wholePart_sound whole
    obtain ⟨part, part_text, split_part⟩ := fraction_sound u
    obtain ⟨power, power_value, split_power⟩ := exponent_sound (fraction u).2
    let n : Number := ⟨(leadingMinus t).1, ds, part, power, noLeadingZero⟩
    have parts : ofParts (leadingMinus t).1 ds.text (fraction u).1 (exponent (fraction u).2).1 =
        if n.fits then .ok n.value else .error (.value n.whole.text.length) := by
      rw [part_text, power_value]
      exact ofParts_complete n
    have text : t = n.text ++ (exponent (fraction u).2).2 := by
      have split_sign := leadingMinus_sound t
      rw [split_whole, split_part, split_power] at split_sign
      simpa [n, Number.text, Number.signText, Number.fractionText, Number.powerText]
        using split_sign
    simp only [Except.bind, parts] at h
    split at h
    next fits =>
      cases h
      exact ⟨n, text, fits, rfl⟩
    next => cases h

/-! ## Words -/

theorem length_ofString (w : String) : w.length = (Text.ofString w).length := by
  rw [Text.ofString, List.length_map, String.length_toList]

theorem word?_append (w : String) (rest : Text) :
    word? w (Text.ofString w ++ rest) = some rest := by
  have found : (Text.ofString w).isPrefixOf (Text.ofString w ++ rest) = true := by simp
  rw [word?, if_pos found, length_ofString, List.drop_left]

theorem word?_sound {w : String} {t rest : Text} (h : word? w t = some rest) :
    t = Text.ofString w ++ rest := by
  unfold word? at h
  split at h
  next found =>
    obtain ⟨more, rfl⟩ := List.isPrefixOf_iff_prefix.mp found
    rw [length_ofString, List.drop_left] at h
    cases h
    rfl
  next => cases h

theorem spelled : Text.ofString "null" = [110, 117, 108, 108] ∧
    Text.ofString "true" = [116, 114, 117, 101] ∧
    Text.ofString "false" = [102, 97, 108, 115, 101] ∧
    Text.ofString "NaN" = [78, 97, 78] ∧
    Text.ofString "Infinity" = [73, 110, 102, 105, 110, 105, 116, 121] ∧
    Text.ofString "-Infinity" = [45, 73, 110, 102, 105, 110, 105, 116, 121] :=
  ⟨rfl, rfl, rfl, rfl, rfl, rfl⟩

/-- The values that are a word. -/
inductive Word : Spelling → Prop where
  | null : Word .null
  | bool (b : Bool) : Word (.bool b)
  | nan : Word .nan
  | infinity (negative : Bool) : Word (.infinity negative)

theorem scanScalar_word {s : Spelling} (word : Word s) (rest : Text) :
    scanScalar (s.text ++ rest) = .ok (s.value, rest) := by
  cases word with
  | null => simp [scanScalar, Spelling.text, Spelling.value, word?_append]
  | bool b => cases b <;> simp [scanScalar, Spelling.text, Spelling.value, word?, spelled] <;> rfl
  | nan =>
    simp [scanScalar, Spelling.text, Spelling.value, word?, spelled]
    rfl
  | infinity negative =>
    cases negative <;> simp [scanScalar, Spelling.text, Spelling.value, word?, spelled] <;> rfl

theorem elim_orElse {α β : Type} (a b : Option α) (d : β) (f : α → β) :
    (a <|> b).elim d f = a.elim (b.elim d f) f := by
  cases a <;> rfl

theorem word_or_else {s : Spelling} (word : Word s) {w : String} (form : s.text = Text.ofString w)
    {t rest : Text} {v : Json} {d : Except LoadError (Json × Text)}
    (h : ((word? w t).map fun rest => (s.value, rest)).elim d Except.ok = .ok (v, rest)) :
    (∃ s, Word s ∧ t = s.text ++ rest ∧ s.value = v) ∨ d = .ok (v, rest) := by
  cases read : word? w t with
  | none =>
    rw [read] at h
    exact .inr h
  | some u =>
    rw [read] at h
    cases h
    exact .inl ⟨s, word, by rw [form, ← word?_sound read], rfl⟩

theorem scanScalar_sound {t rest : Text} {v : Json} (h : scanScalar t = .ok (v, rest)) :
    (∃ s, Word s ∧ t = s.text ++ rest ∧ s.value = v) ∨ scanNumber t = .ok (v, rest) := by
  unfold scanScalar at h
  simp only [elim_orElse] at h
  rcases word_or_else .null rfl h with word | h
  · exact .inl word
  rcases word_or_else (.bool true) rfl h with word | h
  · exact .inl word
  rcases word_or_else (.bool false) rfl h with word | h
  · exact .inl word
  rcases word_or_else .nan rfl h with word | h
  · exact .inl word
  rcases word_or_else (.infinity false) rfl h with word | h
  · exact .inl word
  exact word_or_else (.infinity true) rfl h

/-- No word starts with a digit, and none with a minus sign and a digit. -/
theorem scanScalar_of_digit {d : Nat} (digit : isDigit d = true) (t : Text) (minus : Bool) :
    scanScalar ((if minus then [45] else []) ++ d :: t) =
      scanNumber ((if minus then [45] else []) ++ d :: t) := by
  have small : 48 ≤ d ∧ d ≤ 57 := by simpa [isDigit] using digit
  have letter : 110 ≠ d ∧ 116 ≠ d ∧ 102 ≠ d ∧ 78 ≠ d ∧ 73 ≠ d ∧ 45 ≠ d := by omega
  cases minus <;> simp [scanScalar, word?, spelled, letter]

theorem scanScalar_number (n : Number) (rest : Text) :
    scanScalar (n.text ++ rest) = scanNumber (n.text ++ rest) := by
  obtain ⟨d, ds, form, digit⟩ := n.whole.exists_cons
  have read := scanScalar_of_digit digit (ds ++ (n.fractionText ++ (n.powerText ++ rest)))
      n.negative
  simpa [Number.text, Number.signText, form] using read

end AgenticOctopus.Foundation.Json
