import AgenticOctopus.Foundation.JsonReading

/-!
# Texts beyond the limits of the reader

`json.loads` tells a text that is no JSON from one that it does not take: an integer of too many
digits, or a value nested too deep. It comes upon these on its way, so what follows them may be
anything.
-/
namespace AgenticOctopus.Foundation.Json

/-- What is to be read: a value, or what is left of the items or of the members around it. -/
inductive Place where
  | value
  | items
  | members

/-- A number literal that starts here goes on no further than the digits before. -/
structure Stops (rest : Text) : Prop where
  digits : ∀ c ∈ rest.head?, isDigit c = false
  point : (fraction rest).1 = []
  power : (exponent rest).1 = none

/-- The text is JSON up to something that is beyond a limit. -/
inductive Exceeds : Place → (depth : Nat) → Text → Prop where
  | integer {depth : Nat} (n : Number) (rest : Text) (whole : n.isInt = true)
    (long : n.fits = false) (stops : Stops rest) : Exceeds .value depth (n.text ++ rest)
  | deepArray (rest : Text) : Exceeds .value 0 (91 :: rest)
  | deepObject (rest : Text) : Exceeds .value 0 (123 :: rest)
  | array {depth : Nat} {t : Text} (lead : Blank) (inner : Exceeds .items depth t) :
    Exceeds .value (depth + 1) (91 :: (lead.text ++ t))
  | object {depth : Nat} {t : Text} (lead : Blank) (inner : Exceeds .members depth t) :
    Exceeds .value (depth + 1) (123 :: (lead.text ++ t))
  | item {depth : Nat} {t : Text} (here : Exceeds .value depth t) : Exceeds .items depth t
  | nextItem {depth : Nat} {t : Text} (s : Spelling) (after lead : Blank)
    (fits : s.fits depth = true) (later : Exceeds .items depth t) :
    Exceeds .items depth (s.text ++ (after.text ++ 44 :: (lead.text ++ t)))
  | member {depth : Nat} {t : Text} (key : List Piece) (colon lead : Blank)
    (here : Exceeds .value depth t) :
    Exceeds .members depth
      (34 :: (Piece.texts key ++ 34 :: (colon.text ++ 58 :: (lead.text ++ t))))
  | nextMember {depth : Nat} {t : Text} (key : List Piece) (colon lead : Blank) (s : Spelling)
    (after next : Blank) (fits : s.fits depth = true) (later : Exceeds .members depth t) :
    Exceeds .members depth
      (34 :: (Piece.texts key ++ 34 :: (colon.text ++ 58 ::
        (lead.text ++ (s.text ++ (after.text ++ 44 :: (next.text ++ t)))))))

/-! ## Long integers -/

theorem Number.exists_cons (n : Number) (rest : Text) :
    ∃ c t, n.text ++ rest = c :: t ∧ (isDigit c = true ∨ c = 45) := by
  obtain ⟨d, ds, form, digit⟩ := n.whole.exists_cons
  rw [Number.text, Number.signText, form]
  cases n.negative
  · exact ⟨d, _, rfl, .inl digit⟩
  · exact ⟨45, _, rfl, .inr rfl⟩

theorem Stops.rest {rest : Text} (stops : Stops rest) :
    fraction rest = ([], rest) ∧ exponent rest = (none, rest) := by
  constructor
  · obtain ⟨ds, part, whole⟩ := fraction_sound rest
    cases ds with
    | none => exact Prod.ext stops.point (by simpa using whole.symm)
    | some ds => exact absurd (part.symm.trans stops.point) ds.ne_nil
  · obtain ⟨p, power, whole⟩ := exponent_sound rest
    cases p with
    | none => exact Prod.ext stops.power (by simpa using whole.symm)
    | some p =>
      exact absurd (power.symm.trans stops.power) (by simp)

theorem scanNumber_long (n : Number) {rest : Text} (whole : n.isInt = true)
    (long : n.fits = false) (stops : Stops rest) :
    scanNumber (n.text ++ rest) = .error (.value n.whole.text.length) := by
  obtain ⟨point, power⟩ := stops.rest
  have bare : n.fractionText ++ (n.powerText ++ rest) = rest := by
    unfold Number.isInt at whole
    unfold Number.fractionText Number.powerText
    cases fraction : n.fraction <;> cases power : n.power <;> simp_all
  have parts := ofParts_complete n
  rw [long] at parts
  unfold Number.isInt at whole
  have no_part : n.part = [] ∧ n.power.map Power.value = none := by
    unfold Number.part
    cases fraction : n.fraction <;> cases power : n.power <;> simp_all
  rw [no_part.1, no_part.2] at parts
  rw [scanNumber_eq, leadingMinus_text, bare, wholePart_complete n stops.digits]
  simp only [Except.bind, point, power, parts]
  rfl

theorem wholePart_stops {u w whole : Text} (h : wholePart u = .ok (whole, w)) :
    whole = [48] ∨ ∀ c ∈ w.head?, isDigit c = false := by
  unfold wholePart at h
  split at h
  next t =>
    cases h
    exact .inl rfl
  next =>
    split at h
    next => cases h
    next =>
      have spanned : u.span isDigit = (whole, w) := Except.ok.inj h
      rw [List.span_eq_takeWhile_dropWhile, Prod.mk.injEq] at spanned
      refine .inr fun c head => ?_
      rw [← spanned.2] at head
      exact Bool.eq_false_iff.mpr fun digit => by
        have stopped := List.head?_dropWhile_not isDigit u
        simp_all

/-- A number fails to be read where there is none, and where it is an integer too long. -/
theorem scanNumber_error {t : Text} {e : LoadError} (h : scanNumber t = .error e)
    (limited : e ≠ .decode) :
    ∃ (n : Number) (rest : Text), t = n.text ++ rest ∧ n.isInt = true ∧ n.fits = false ∧
      Stops rest := by
  rw [scanNumber_eq] at h
  cases whole : wholePart (leadingMinus t).2 with
  | error e' =>
    rw [whole] at h
    cases h
    unfold wholePart at whole
    split at whole
    · cases whole
    · split at whole <;> cases whole
      exact absurd rfl limited
  | ok p =>
    obtain ⟨w, u⟩ := p
    rw [whole] at h
    have stopped := wholePart_stops whole
    obtain ⟨ds, rfl, noLeadingZero, split_whole⟩ := wholePart_sound whole
    obtain ⟨part, part_text, split_part⟩ := fraction_sound u
    obtain ⟨power, power_value, split_power⟩ := exponent_sound (fraction u).2
    let n : Number := ⟨(leadingMinus t).1, ds, part, power, noLeadingZero⟩
    have parts : ofParts (leadingMinus t).1 ds.text (fraction u).1 (exponent (fraction u).2).1 =
        if n.fits then .ok n.value else .error (.value n.whole.text.length) := by
      rw [part_text, power_value]
      exact ofParts_complete n
    simp only [Except.bind, parts] at h
    have long : n.fits = false := by
      cases fits : n.fits with
      | false => rfl
      | true =>
        rw [fits] at h
        cases h
    obtain ⟨integer, digits⟩ : n.isInt = true ∧ intMaxStrDigits < ds.text.length := by
      simpa [Number.fits, n] using long
    obtain ⟨rfl, rfl⟩ : part = none ∧ power = none := by
      simpa [Number.isInt, n] using integer
    have same : (fraction u).2 = u := by simpa using split_part.symm
    refine ⟨n, u, ?_, integer, long, ?_, part_text, ?_⟩
    · have split_sign := leadingMinus_sound t
      rw [split_whole] at split_sign
      simpa [n, Number.text, Number.signText, Number.fractionText, Number.powerText]
        using split_sign
    · refine stopped.resolve_left fun zero => ?_
      rw [zero] at digits
      exact absurd digits (by decide)
    · rw [← same, power_value]
      rfl

/-! ## What exceeds a limit is given up -/

/-- The reader has come upon a limit. -/
def GivesUp {α : Type} (r : Except LoadError α) : Prop := ∃ e, r = .error e ∧ e ≠ .decode

theorem GivesUp.bind {α β : Type} {x : Except LoadError α} {f : α → Except LoadError β}
    (h : GivesUp x) : GivesUp (x >>= f) := by
  obtain ⟨e, rfl, limited⟩ := h
  exact ⟨e, rfl, limited⟩

/-- Behind a value that was read the reader goes on. -/
theorem Reads.givesUp {fits : Bool} {v : Json} {rest : Text} {β : Type}
    {r : Except LoadError (Json × Text)} {f : Json × Text → Except LoadError β}
    (first : Reads fits v rest r) (fit : fits = true) (next : GivesUp (f (v, rest))) :
    GivesUp (r >>= f) := by
  subst fit
  change r = _ at first
  rwa [first]

theorem Exceeds.exists_cons {place : Place} {depth : Nat} {t : Text} (h : Exceeds place depth t) :
    ∃ c u, t = c :: u ∧ isBlank c = false ∧ c ≠ 93 ∧ c ≠ 125 ∧ c < 128 := by
  induction h with
  | integer n rest =>
    obtain ⟨c, u, form, digit⟩ := n.exists_cons rest
    exact ⟨c, u, form, by grind [isBlank, isDigit]⟩
  | nextItem s after lead =>
    obtain ⟨c, u, form, others⟩ := s.exists_cons
    exact ⟨c, u ++ _, by rw [form]; rfl, others⟩
  | item here ih => exact ih
  | _ => exact ⟨_, _, rfl, by decide⟩

theorem Exceeds.skip_blank {place : Place} {depth : Nat} {t : Text} (h : Exceeds place depth t)
    (b : Blank) : skip (b.text ++ t) = t := by
  obtain ⟨c, u, rfl, notBlank, -⟩ := h.exists_cons
  exact skip_token b notBlank u

/-- What the reader does at a place. -/
def Place.GivesUp (depth : Nat) (t : Text) : Place → Prop
  | .value => ∀ fuel, 2 * t.length ≤ fuel → Json.GivesUp (scanValue fuel depth t)
  | .items => ∀ fuel read, 2 * t.length + 1 ≤ fuel → Json.GivesUp (scanItems fuel depth read t)
  | .members => ∀ fuel read, 2 * t.length + 1 ≤ fuel → Json.GivesUp (scanMembers fuel depth read t)

theorem Exceeds.givesUp {place : Place} {depth : Nat} {t : Text} (h : Exceeds place depth t) :
    place.GivesUp depth t := by
  induction h with
  | @integer depth n rest whole long stops =>
    intro fuel enough
    obtain ⟨c, u, form, digit⟩ := n.exists_cons rest
    obtain ⟨fuel, rfl⟩ : ∃ f, fuel = f + 1 := ⟨fuel - 1, by simp [form] at enough; omega⟩
    rw [form, scanValue_scalar fuel depth u (by grind [isDigit]), ← form, scanScalar_number,
      scanNumber_long n whole long stops]
    exact ⟨_, rfl, by simp⟩
  | deepArray rest =>
    intro fuel enough
    obtain ⟨fuel, rfl⟩ : ∃ f, fuel = f + 1 := ⟨fuel - 1, by simp at enough; omega⟩
    exact ⟨.recursion, rfl, by simp⟩
  | deepObject rest =>
    intro fuel enough
    obtain ⟨fuel, rfl⟩ : ∃ f, fuel = f + 1 := ⟨fuel - 1, by simp at enough; omega⟩
    exact ⟨.recursion, rfl, by simp⟩
  | @array depth t lead inner ih =>
    intro fuel enough
    simp only [List.length_cons, List.length_append] at enough
    obtain ⟨fuel, rfl⟩ : ∃ f, fuel = f + 1 := ⟨fuel - 1, by omega⟩
    obtain ⟨c, u, form, -, notClose, -⟩ := inner.exists_cons
    simp only [scanValue, inner.skip_blank lead]
    split
    next closed => exact (notClose (List.cons.inj form).1.symm).elim
    next => exact ih fuel [] (by omega)
  | @object depth t lead inner ih =>
    intro fuel enough
    simp only [List.length_cons, List.length_append] at enough
    obtain ⟨fuel, rfl⟩ : ∃ f, fuel = f + 1 := ⟨fuel - 1, by omega⟩
    obtain ⟨c, u, form, -, -, notClose, -⟩ := inner.exists_cons
    simp only [scanValue, inner.skip_blank lead]
    split
    next closed => exact (notClose (List.cons.inj form).1.symm).elim
    next => exact ih fuel [] (by omega)
  | item here ih =>
    intro fuel read enough
    obtain ⟨fuel, rfl⟩ : ∃ f, fuel = f + 1 := ⟨fuel - 1, by omega⟩
    rw [scanItems]
    exact (ih fuel (by omega)).bind
  | @nextItem depth t s after lead fits later ih =>
    intro fuel read enough
    simp only [List.length_cons, List.length_append] at enough
    obtain ⟨fuel, rfl⟩ : ∃ f, fuel = f + 1 := ⟨fuel - 1, by omega⟩
    have first := scanValue_complete s fuel depth (after.text ++ 44 :: (lead.text ++ t))
      (by omega) (.inl (ends_blank after (ends_of_head _ (by decide))))
    rw [scanItems]
    refine first.givesUp fits ?_
    simp only [skip_token after (show isBlank 44 = false from rfl), later.skip_blank lead]
    exact ih fuel _ (by omega)
  | @member depth t key colon lead here ih =>
    intro fuel read enough
    simp only [List.length_cons, List.length_append] at enough
    obtain ⟨fuel, rfl⟩ : ∃ f, fuel = f + 1 := ⟨fuel - 1, by omega⟩
    rw [scanMembers]
    simp only [scanString_complete, bind, Except.bind, skip_token colon
      (show isBlank 58 = false from rfl), here.skip_blank lead]
    exact (ih fuel (by omega)).bind
  | @nextMember depth t key colon lead s after next fits later ih =>
    intro fuel read enough
    simp only [List.length_cons, List.length_append] at enough
    obtain ⟨fuel, rfl⟩ : ∃ f, fuel = f + 1 := ⟨fuel - 1, by omega⟩
    have first := scanValue_complete s fuel depth (after.text ++ 44 :: (next.text ++ t))
      (by omega) (.inl (ends_blank after (ends_of_head _ (by decide))))
    rw [scanMembers]
    simp only [scanString_complete, bind, Except.bind, skip_token colon
      (show isBlank 58 = false from rfl), skip_spelling]
    refine first.givesUp fits ?_
    simp only [skip_token after (show isBlank 44 = false from rfl), later.skip_blank next]
    exact ih fuel _ (by omega)

/-! ## Only that is given up -/

theorem givesUp_bind {α β : Type} {x : Except LoadError α} {f : α → Except LoadError β}
    (h : GivesUp (x >>= f)) : GivesUp x ∨ ∃ a, x = .ok a ∧ GivesUp (f a) := by
  cases x with
  | error e =>
    obtain ⟨e', same, limited⟩ := h
    cases same
    exact .inl ⟨e, rfl, limited⟩
  | ok a => exact .inr ⟨a, rfl, h⟩

theorem not_givesUp_decode {α : Type} : ¬ GivesUp (.error .decode : Except LoadError α) := by
  rintro ⟨e, ⟨⟩, limited⟩
  exact limited rfl

theorem not_givesUp_ok {α : Type} (a : α) : ¬ GivesUp (.ok a : Except LoadError α) := by
  rintro ⟨e, ⟨⟩, -⟩

theorem scanString_quiet (high : Option Nat) (t : Text) : ¬ GivesUp (scanString high t) := by
  have more {α : Type} {x : Except LoadError α} {f : α → Except LoadError (Text × Text)}
      (quiet : ¬ GivesUp x) (ok : ∀ a, ∃ b, f a = .ok b) : ¬ GivesUp (x >>= f) := by
    intro h
    rcases givesUp_bind h with h | ⟨a, -, h⟩
    · exact quiet h
    · obtain ⟨b, is⟩ := ok a
      rw [is] at h
      exact not_givesUp_ok b h
  fun_induction scanString high t with
  | case1 | case3 | case5 | case7 => exact not_givesUp_decode
  | case2 => exact not_givesUp_ok _
  | case4 high a b c d rest u unit ih => exact more ih fun _ => ⟨_, rfl⟩
  | case6 high c rest _ e escaped ih => exact more ih fun _ => ⟨_, rfl⟩
  | case8 high c rest _ _ _ _ ih => exact more ih fun _ => ⟨_, rfl⟩

def GivenUp (fuel : Nat) : Place → Prop
  | .value => ∀ depth t, GivesUp (scanValue fuel depth t) → Exceeds .value depth t
  | .items => ∀ depth read t, GivesUp (scanItems fuel depth read t) → Exceeds .items depth t
  | .members => ∀ depth read t, GivesUp (scanMembers fuel depth read t) → Exceeds .members depth t

theorem scanScalar_error {t : Text} (h : GivesUp (scanScalar t)) : GivesUp (scanNumber t) := by
  unfold scanScalar at h
  rw [Option.elim.eq_def] at h
  split at h
  · exact (not_givesUp_ok _ h).elim
  · exact h

theorem scanValue_givenUp {fuel : Nat} (items : GivenUp fuel .items)
    (members : GivenUp fuel .members) : GivenUp (fuel + 1) .value := by
  intro depth t h
  unfold scanValue at h
  split at h
  next rest =>
    rcases givesUp_bind h with early | ⟨_, -, later⟩
    · exact (scanString_quiet _ _ early).elim
    · exact (not_givesUp_ok _ later).elim
  next rest => exact .deepObject rest
  next rest => exact .deepArray rest
  next rest depth =>
    obtain ⟨lead, gap⟩ := skip_sound rest
    split at h
    next => exact (not_givesUp_ok _ h).elim
    next =>
      rw [gap]
      exact .object lead (members depth _ _ h)
  next rest depth =>
    obtain ⟨lead, gap⟩ := skip_sound rest
    split at h
    next => exact (not_givesUp_ok _ h).elim
    next =>
      rw [gap]
      exact .array lead (items depth _ _ h)
  next =>
    obtain ⟨e, failed, limited⟩ := scanScalar_error h
    obtain ⟨n, rest, rfl, whole, long, stops⟩ := scanNumber_error failed limited
    exact .integer n rest whole long stops

theorem scanItems_givenUp {fuel : Nat} (values : GivenUp fuel .value)
    (items : GivenUp fuel .items) : GivenUp (fuel + 1) .items := by
  intro depth read t h
  unfold scanItems at h
  rcases givesUp_bind h with early | ⟨⟨v, u⟩, read_first, later⟩
  · exact .item (values depth t early)
  obtain ⟨s, rfl, -, fits⟩ := (reader_sound fuel).1 depth t v u read_first
  obtain ⟨after, gap⟩ := skip_sound u
  dsimp only at later
  split at later
  next => exact (not_givesUp_ok _ later).elim
  next w comma =>
    obtain ⟨lead, more⟩ := skip_sound w
    rw [gap, comma, more]
    exact .nextItem s after lead fits (items depth _ _ later)
  next => exact (not_givesUp_decode later).elim

theorem scanMembers_givenUp {fuel : Nat} (values : GivenUp fuel .value)
    (members : GivenUp fuel .members) : GivenUp (fuel + 1) .members := by
  intro depth read t h
  unfold scanMembers at h
  split at h
  next t =>
    rcases givesUp_bind h with early | ⟨⟨name, u⟩, read_name, later⟩
    · exact (scanString_quiet _ _ early).elim
    obtain ⟨key, rfl, -⟩ := scanString_sound read_name
    obtain ⟨colon, gap⟩ := skip_sound u
    dsimp only at later
    split at later
    next w point =>
      obtain ⟨lead, leading⟩ := skip_sound w
      rcases givesUp_bind later with here | ⟨⟨v, x⟩, read_first, behind⟩
      · rw [gap, point, leading]
        exact .member key colon lead (values depth _ here)
      obtain ⟨s, form, -, fits⟩ := (reader_sound fuel).1 depth _ v x read_first
      obtain ⟨after, trailing⟩ := skip_sound x
      dsimp only at behind
      split at behind
      next => exact (not_givesUp_ok _ behind).elim
      next y comma =>
        obtain ⟨next, more⟩ := skip_sound y
        rw [gap, point, leading, form, trailing, comma, more]
        exact .nextMember key colon lead s after next fits (members depth _ _ behind)
      next => exact (not_givesUp_decode behind).elim
    next => exact (not_givesUp_decode later).elim
  next => exact (not_givesUp_decode h).elim

theorem reader_givenUp (fuel : Nat) (place : Place) : GivenUp fuel place := by
  induction fuel generalizing place with
  | zero =>
    cases place
    · exact fun _ _ h => (not_givesUp_decode h).elim
    · exact fun _ _ _ h => (not_givesUp_decode h).elim
    · exact fun _ _ _ h => (not_givesUp_decode h).elim
  | succ fuel ih =>
    cases place with
    | value => exact scanValue_givenUp (ih .items) (ih .members)
    | items => exact scanItems_givenUp (ih .value) (ih .items)
    | members => exact scanMembers_givenUp (ih .value) (ih .members)

/-! ## loads -/

/-- The text, behind blanks, exceeds the limits of the interpreter. -/
def BeyondLimits (py : Interpreter) (t : Text) : Prop :=
  ∃ (lead : Blank) (rest : Text), t = lead.text ++ rest ∧ Exceeds .value py.nesting rest

/-- The text spells the value within the limits of the interpreter. -/
def Spells (py : Interpreter) (t : Text) (v : Json) : Prop :=
  ∃ (lead : Blank) (s : Spelling) (trail : Blank),
    t = lead.text ++ (s.text ++ trail.text) ∧ s.value = v ∧ s.fits py.nesting = true

theorem loads_ok_iff {py : Interpreter} {t : Text} {v : Json} :
    loads py t = .ok v ↔ Spells py t v := by
  refine ⟨loads_sound, ?_⟩
  rintro ⟨lead, s, trail, rfl, rfl, fits⟩
  have read := loads_complete py lead trail s
  rwa [if_pos fits] at read

/-- Other than with a syntax error `json.loads` fails on exactly these texts. -/
theorem loads_givesUp_iff {py : Interpreter} {t : Text} :
    GivesUp (loads py t) ↔ BeyondLimits py t := by
  unfold loads
  constructor
  · intro h
    split at h
    next => exact (not_givesUp_decode h).elim
    next =>
      obtain ⟨lead, leading⟩ := skip_sound t
      rcases givesUp_bind h with early | ⟨⟨v, rest⟩, -, later⟩
      · exact ⟨lead, _, leading, reader_givenUp _ .value _ _ early⟩
      · dsimp only at later
        split at later
        · exact (not_givesUp_ok _ later).elim
        · exact (not_givesUp_decode later).elim
  · rintro ⟨lead, rest, rfl, exceeds⟩
    have no_mark : (lead.text ++ rest).head? ≠ some 0xFEFF := by
      obtain ⟨c, u, rfl, -, -, -, small⟩ := exceeds.exists_cons
      cases form : lead.text with
      | nil => simp; omega
      | cons d w =>
        have blank := lead.blank d (by simp [form])
        simp
        grind [isBlank]
    rw [if_neg no_mark, exceeds.skip_blank lead]
    exact (exceeds.givesUp _ (by simp; omega)).bind

end AgenticOctopus.Foundation.Json
