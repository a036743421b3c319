import AgenticOctopus.Foundation.JsonTokens

/-!
# The reader accepts the spellings

`json.loads` is complete for the grammar: it reads a spelling that fits the limits of the
interpreter as its value, and fails on one that does not. It is sound too: what it accepts is
a spelling that fits, and the value is the one spelled.
-/
namespace AgenticOctopus.Foundation.Json

/-! ## Values -/

/-- Nothing that ends an array or an object or goes between tokens starts a value. -/
theorem Spelling.exists_cons (s : Spelling) : ∃ c t, s.text = c :: t ∧ isBlank c = false ∧
    c ≠ 93 ∧ c ≠ 125 ∧ c < 128 := by
  cases s with
  | number n =>
    obtain ⟨d, ds, form, digit⟩ := n.whole.exists_cons
    have small : 48 ≤ d ∧ d ≤ 57 := by simpa [isDigit] using digit
    rw [Spelling.text, Number.text, Number.signText, form]
    cases n.negative
    · exact ⟨d, _, rfl, by grind [isBlank], by omega, by omega, by omega⟩
    · exact ⟨45, _, rfl, rfl, by omega, by omega, by omega⟩
  | bool b => cases b <;> exact ⟨_, _, rfl, rfl, by decide, by decide, by decide⟩
  | infinity negative =>
    cases negative <;> exact ⟨_, _, rfl, rfl, by decide, by decide, by decide⟩
  | _ => exact ⟨_, _, rfl, rfl, by decide, by decide, by decide⟩

theorem skip_spelling (b : Blank) (s : Spelling) (rest : Text) :
    skip (b.text ++ (s.text ++ rest)) = s.text ++ rest := by
  obtain ⟨c, t, form, notBlank, -, -⟩ := s.exists_cons
  rw [skip_blank, form, List.cons_append, skip_of_head notBlank]

theorem Items.exists_cons (items : Items) (rest : Text) :
    ∃ c t, skip (items.text ++ rest) = c :: t ∧ c ≠ 93 := by
  have head (before : Blank) (v : Spelling) (more : Text) :
      ∃ c t, skip (before.text ++ (v.text ++ more)) = c :: t ∧ c ≠ 93 := by
    obtain ⟨c, t, form, -, notClose, -⟩ := v.exists_cons
    rw [skip_spelling, form]
    exact ⟨c, _, rfl, notClose⟩
  cases items with
  | last before v after => simpa [Items.text] using head before v _
  | next before v after items => simpa [Items.text] using head before v _

theorem Members.exists_cons (members : Members) (rest : Text) :
    ∃ t, skip (members.text ++ rest) = 34 :: t := by
  cases members with
  | last before key colon lead v after =>
    rw [Members.text, List.append_assoc, skip_blank, List.cons_append, skip_of_head rfl]
    exact ⟨_, rfl⟩
  | next before key colon lead v after members =>
    rw [Members.text, List.append_assoc, skip_blank, List.cons_append, skip_of_head rfl]
    exact ⟨_, rfl⟩

theorem skip_token (b : Blank) {c : Nat} (notBlank : isBlank c = false) (rest : Text) :
    skip (b.text ++ c :: rest) = c :: rest := by
  rw [skip_blank, skip_of_head notBlank]

theorem ends_blank (b : Blank) {rest : Text} (ends : Ends rest) : Ends (b.text ++ rest) := by
  cases form : b.text with
  | nil => exact ends
  | cons c t =>
    have blank := b.blank c (by simp [form])
    refine ends_of_head (t ++ rest) ?_
    grind [isBlank, isDigit]

theorem scanValue_scalar (fuel depth : Nat) {c : Nat} (t : Text)
    (h : c ≠ 34 ∧ c ≠ 123 ∧ c ≠ 91) :
    scanValue (fuel + 1) depth (c :: t) = scanScalar (c :: t) := by
  unfold scanValue
  split <;> simp_all

/-- The value and what is left of the text if it fits, and an error if not. -/
def Reads (fits : Bool) (v : Json) (rest : Text) (r : Except LoadError (Json × Text)) : Prop :=
  if fits then r = .ok (v, rest) else ∃ e, r = .error e

theorem Reads.ok {v : Json} {rest : Text} : Reads true v rest (.ok (v, rest)) := rfl

theorem Reads.error {v : Json} {rest : Text} (e : LoadError) : Reads false v rest (.error e) :=
  ⟨e, rfl⟩

theorem Reads.map {fits : Bool} {v w : Json} {rest u : Text}
    {r : Except LoadError (Json × Text)} {f : Json × Text → Except LoadError (Json × Text)}
    (first : Reads fits v rest r) (next : f (v, rest) = .ok (w, u)) :
    Reads fits w u (r >>= f) := by
  cases fits with
  | true =>
    change r = _ at first
    rw [first]
    exact next
  | false =>
    obtain ⟨e, rfl⟩ := first
    exact ⟨e, rfl⟩

/-- Reading on behind a value that was read. -/
theorem Reads.bind {fits more : Bool} {v w : Json} {rest u : Text}
    {r : Except LoadError (Json × Text)} {f : Json × Text → Except LoadError (Json × Text)}
    (first : Reads fits v rest r) (next : Reads more w u (f (v, rest))) :
    Reads (fits && more) w u (r >>= f) := by
  cases fits with
  | true =>
    change r = _ at first
    rwa [first]
  | false =>
    obtain ⟨e, rfl⟩ := first
    exact ⟨e, rfl⟩

theorem scanValue_word {s : Spelling} (word : Word s) (fuel depth : Nat) (rest : Text) :
    scanValue (fuel + 1) depth (s.text ++ rest) = .ok (s.value, rest) := by
  have head : ∃ c t, s.text ++ rest = c :: t ∧ c ≠ 34 ∧ c ≠ 123 ∧ c ≠ 91 := by
    cases word with
    | bool b => cases b <;> exact ⟨_, _, rfl, by decide⟩
    | infinity negative => cases negative <;> exact ⟨_, _, rfl, by decide⟩
    | _ => exact ⟨_, _, rfl, by decide⟩
  obtain ⟨c, t, form, notOpen⟩ := head
  rw [form, scanValue_scalar fuel depth t notOpen, ← form, scanScalar_word word]

theorem scanValue_number (n : Number) (fuel depth : Nat) {rest : Text} (ends : Ends rest) :
    Reads n.fits n.value rest (scanValue (fuel + 1) depth (n.text ++ rest)) := by
  obtain ⟨d, ds, form, digit⟩ := n.whole.exists_cons
  have small : 48 ≤ d ∧ d ≤ 57 := by simpa [isDigit] using digit
  have head : ∃ c t, n.text ++ rest = c :: t ∧ c ≠ 34 ∧ c ≠ 123 ∧ c ≠ 91 := by
    rw [Number.text, Number.signText, form]
    cases n.negative
    · exact ⟨d, _, rfl, by omega⟩
    · exact ⟨45, _, rfl, by omega⟩
  obtain ⟨c, t, open_text, notOpen⟩ := head
  rw [open_text, scanValue_scalar fuel depth t notOpen, ← open_text, scanScalar_number,
    scanNumber_complete n ends]
  cases n.fits
  · exact .error _
  · exact .ok

mutual

theorem scanValue_complete (s : Spelling) (fuel depth : Nat) (rest : Text)
    (enough : s.text.length ≤ fuel) (ends : Ends rest ∨ ∀ n, s ≠ .number n) :
    Reads (s.fits depth) s.value rest (scanValue fuel depth (s.text ++ rest)) := by
  obtain ⟨fuel, rfl⟩ : ∃ f, fuel = f + 1 := by
    obtain ⟨c, t, form, -⟩ := s.exists_cons
    rw [form, List.length_cons] at enough
    exact ⟨fuel - 1, by omega⟩
  match s with
  | .null => exact scanValue_word .null fuel depth rest
  | .bool b => exact scanValue_word (.bool b) fuel depth rest
  | .nan => exact scanValue_word .nan fuel depth rest
  | .infinity negative => exact scanValue_word (.infinity negative) fuel depth rest
  | .number n => exact scanValue_number n fuel depth (ends.resolve_right fun no => no n rfl)
  | .string pieces =>
    rw [Spelling.text, List.cons_append, List.append_assoc, scanValue]
    simp only [List.cons_append, List.nil_append, scanString_complete]
    exact .ok
  | .emptyArray gap =>
    cases depth with
    | zero => exact .error .recursion
    | succ depth =>
      simp only [Spelling.text, List.cons_append, List.append_assoc, scanValue, List.nil_append,
        skip_token gap (show isBlank 93 = false from rfl)]
      exact .ok
  | .array items =>
    cases depth with
    | zero => exact .error .recursion
    | succ depth =>
      rw [Spelling.text, List.length_cons] at enough
      obtain ⟨c, t, form, notClose⟩ := items.exists_cons rest
      simp only [Spelling.text, List.cons_append, scanValue, form]
      split
      next closed => exact (notClose (List.cons.inj closed).1).elim
      next =>
        rw [← form]
        exact scanItems_complete items [] fuel depth rest (by omega)
  | .emptyObject gap =>
    cases depth with
    | zero => exact .error .recursion
    | succ depth =>
      simp only [Spelling.text, List.cons_append, List.append_assoc, scanValue, List.nil_append,
        skip_token gap (show isBlank 125 = false from rfl)]
      exact .ok
  | .object members =>
    cases depth with
    | zero => exact .error .recursion
    | succ depth =>
      rw [Spelling.text, List.length_cons] at enough
      obtain ⟨t, form⟩ := members.exists_cons rest
      simp only [Spelling.text, List.cons_append, scanValue, form]
      rw [← form]
      exact scanMembers_complete members [] fuel depth rest (by omega)

theorem scanItems_complete (items : Items) (read : List Json) (fuel depth : Nat) (rest : Text)
    (enough : items.text.length ≤ fuel) :
    Reads (items.fits depth) (.arr (items.values read)) rest
      (scanItems fuel depth read (skip (items.text ++ rest))) := by
  match items with
  | .last before v after =>
    simp only [Items.text, List.length_append, List.length_singleton, List.append_assoc]
      at enough ⊢
    obtain ⟨fuel, rfl⟩ : ∃ f, fuel = f + 1 := ⟨fuel - 1, by omega⟩
    have first := scanValue_complete v fuel depth (after.text ++ 93 :: rest) (by omega)
      (.inl (ends_blank after (ends_of_head rest (by decide))))
    rw [skip_spelling, scanItems]
    refine first.map ?_
    simp only [skip_token after (show isBlank 93 = false from rfl)]
    rfl
  | .next before v after items =>
    simp only [Items.text, List.length_append, List.length_cons, List.append_assoc] at enough ⊢
    obtain ⟨fuel, rfl⟩ : ∃ f, fuel = f + 1 := ⟨fuel - 1, by omega⟩
    have first := scanValue_complete v fuel depth (after.text ++ 44 :: (items.text ++ rest))
      (by omega) (.inl (ends_blank after (ends_of_head _ (by decide))))
    rw [skip_spelling, scanItems]
    refine first.bind ?_
    simp only [skip_token after (show isBlank 44 = false from rfl)]
    exact scanItems_complete items (read ++ [v.value]) fuel depth rest (by omega)

theorem scanMembers_complete (members : Members) (read : Dict Text Json) (fuel depth : Nat)
    (rest : Text) (enough : members.text.length ≤ fuel) :
    Reads (members.fits depth) (.obj (members.fields read)) rest
      (scanMembers fuel depth read (skip (members.text ++ rest))) := by
  match members with
  | .last before key colon lead v after =>
    simp only [Members.text, List.length_append, List.length_cons, List.append_assoc,
      List.cons_append, List.nil_append] at enough ⊢
    obtain ⟨fuel, rfl⟩ : ∃ f, fuel = f + 1 := ⟨fuel - 1, by omega⟩
    have first := scanValue_complete v fuel depth (after.text ++ 125 :: rest) (by omega)
      (.inl (ends_blank after (ends_of_head rest (by decide))))
    rw [skip_token before rfl, scanMembers]
    simp only [scanString_complete, bind, Except.bind, skip_token colon
      (show isBlank 58 = false from rfl), skip_spelling]
    refine first.map ?_
    simp only [skip_token after (show isBlank 125 = false from rfl)]
    rfl
  | .next before key colon lead v after members =>
    simp only [Members.text, List.length_append, List.length_cons, List.append_assoc,
      List.cons_append] at enough ⊢
    obtain ⟨fuel, rfl⟩ : ∃ f, fuel = f + 1 := ⟨fuel - 1, by omega⟩
    have first := scanValue_complete v fuel depth (after.text ++ 44 :: (members.text ++ rest))
      (by omega) (.inl (ends_blank after (ends_of_head _ (by decide))))
    rw [skip_token before rfl, scanMembers]
    simp only [scanString_complete, bind, Except.bind, skip_token colon
      (show isBlank 58 = false from rfl), skip_spelling]
    refine first.bind ?_
    simp only [skip_token after (show isBlank 44 = false from rfl)]
    exact scanMembers_complete members _ fuel depth rest (by omega)

end

/-! ## Soundness -/

theorem bind_ok {α β : Type} {x : Except LoadError α} {f : α → Except LoadError β} {b : β}
    (h : x >>= f = .ok b) : ∃ a, x = .ok a ∧ f a = .ok b := by
  cases x with
  | error e => cases h
  | ok a => exact ⟨a, rfl, h⟩

/-- What the reader takes from the text is the text of a spelling that fits. -/
def ValuesSound (fuel : Nat) : Prop :=
  ∀ depth t v rest, scanValue fuel depth t = .ok (v, rest) →
    ∃ s : Spelling, t = s.text ++ rest ∧ s.value = v ∧ s.fits depth

def ItemsSound (fuel : Nat) : Prop :=
  ∀ depth read t v rest, scanItems fuel depth read t = .ok (v, rest) → ∀ before : Blank,
    ∃ items : Items, before.text ++ t = items.text ++ rest ∧ .arr (items.values read) = v ∧
      items.fits depth

def MembersSound (fuel : Nat) : Prop :=
  ∀ depth read t v rest, scanMembers fuel depth read t = .ok (v, rest) → ∀ before : Blank,
    ∃ members : Members, before.text ++ t = members.text ++ rest ∧
      .obj (members.fields read) = v ∧ members.fits depth

theorem scanScalar_spelled {depth : Nat} {t rest : Text} {v : Json}
    (h : scanScalar t = .ok (v, rest)) :
    ∃ s : Spelling, t = s.text ++ rest ∧ s.value = v ∧ s.fits depth := by
  rcases scanScalar_sound h with ⟨s, word, form, value⟩ | number
  · refine ⟨s, form, value, ?_⟩
    cases word <;> simp [Spelling.fits]
  · obtain ⟨n, form, fits, value⟩ := scanNumber_sound number
    exact ⟨.number n, form, value, by simpa [Spelling.fits] using fits⟩

theorem scanItems_sound {fuel : Nat} (values : ValuesSound fuel) (items : ItemsSound fuel) :
    ItemsSound (fuel + 1) := by
  intro depth read t v rest h before
  unfold scanItems at h
  obtain ⟨⟨first, u⟩, read_first, h⟩ := bind_ok h
  obtain ⟨s, rfl, rfl, fits⟩ := values depth t first u read_first
  obtain ⟨after, gap⟩ := skip_sound u
  dsimp only at h
  split at h
  next w closed =>
    cases h
    refine ⟨.last before s after, ?_, rfl, by simpa [Items.fits] using fits⟩
    rw [gap, closed]
    simp [Items.text]
  next w comma =>
    obtain ⟨lead, more⟩ := skip_sound w
    obtain ⟨others, form, value, others_fit⟩ := items depth _ _ v rest h lead
    refine ⟨.next before s after others, ?_, value, by simp [Items.fits, fits, others_fit]⟩
    rw [gap, comma, more, form]
    simp [Items.text]
  next => cases h

theorem scanMembers_sound {fuel : Nat} (values : ValuesSound fuel)
    (members : MembersSound fuel) : MembersSound (fuel + 1) := by
  intro depth read t v rest h before
  unfold scanMembers at h
  split at h
  next t =>
    obtain ⟨⟨name, u⟩, read_name, h⟩ := bind_ok h
    obtain ⟨key, rfl, rfl⟩ := scanString_sound read_name
    obtain ⟨colon, gap⟩ := skip_sound u
    dsimp only at h
    split at h
    next w point =>
      obtain ⟨lead, leading⟩ := skip_sound w
      obtain ⟨⟨first, x⟩, read_first, h⟩ := bind_ok h
      obtain ⟨s, form, rfl, fits⟩ := values depth _ first x read_first
      obtain ⟨after, trailing⟩ := skip_sound x
      dsimp only at h
      split at h
      next y closed =>
        cases h
        refine ⟨.last before key colon lead s after, ?_, rfl, by simpa [Members.fits] using fits⟩
        rw [gap, point, leading, form, trailing, closed]
        simp [Members.text]
      next y comma =>
        obtain ⟨next_lead, more⟩ := skip_sound y
        obtain ⟨others, others_form, value, others_fit⟩ := members depth _ _ v rest h next_lead
        refine ⟨.next before key colon lead s after others, ?_, value,
          by simp [Members.fits, fits, others_fit]⟩
        rw [gap, point, leading, form, trailing, comma, more, others_form]
        simp [Members.text]
      next => cases h
    next => cases h
  next => cases h

theorem scanValue_sound_succ {fuel : Nat} (items : ItemsSound fuel) (members : MembersSound fuel) :
    ValuesSound (fuel + 1) := by
  intro depth t v rest h
  unfold scanValue at h
  split at h
  next t depth =>
    obtain ⟨⟨s, u⟩, read, h⟩ := bind_ok h
    obtain ⟨pieces, rfl, rfl⟩ := scanString_sound read
    cases h
    exact ⟨.string pieces, by simp [Spelling.text], rfl, by simp [Spelling.fits]⟩
  next => cases h
  next => cases h
  next t depth =>
    obtain ⟨gap, split_gap⟩ := skip_sound t
    split at h
    next w closed =>
      cases h
      refine ⟨.emptyObject gap, ?_, rfl, by simp [Spelling.fits]⟩
      rw [split_gap, closed]
      simp [Spelling.text]
    next =>
      obtain ⟨ms, form, value, fits⟩ := members depth [] _ v rest h gap
      refine ⟨.object ms, ?_, value, by simpa [Spelling.fits] using fits⟩
      rw [split_gap, form, Spelling.text, List.cons_append]
  next t depth =>
    obtain ⟨gap, split_gap⟩ := skip_sound t
    split at h
    next w closed =>
      cases h
      refine ⟨.emptyArray gap, ?_, rfl, by simp [Spelling.fits]⟩
      rw [split_gap, closed]
      simp [Spelling.text]
    next =>
      obtain ⟨is, form, value, fits⟩ := items depth [] _ v rest h gap
      refine ⟨.array is, ?_, value, by simpa [Spelling.fits] using fits⟩
      rw [split_gap, form, Spelling.text, List.cons_append]
  next => exact scanScalar_spelled h

theorem reader_sound (fuel : Nat) : ValuesSound fuel ∧ ItemsSound fuel ∧ MembersSound fuel := by
  induction fuel with
  | zero =>
    refine ⟨?_, ?_, ?_⟩ <;> intro depth <;> intros <;> simp_all [scanValue, scanItems, scanMembers]
  | succ fuel ih =>
    obtain ⟨values, items, members⟩ := ih
    exact ⟨scanValue_sound_succ items members, scanItems_sound values items,
      scanMembers_sound values members⟩

/-! ## loads -/

theorem no_mark (lead : Blank) (s : Spelling) (t : Text) :
    (lead.text ++ (s.text ++ t)).head? ≠ some 0xFEFF := by
  cases form : lead.text with
  | nil =>
    obtain ⟨c, u, open_text, -, -, -, small⟩ := s.exists_cons
    rw [open_text]
    simp
    omega
  | cons c u =>
    have blank := lead.blank c (by simp [form])
    simp
    grind [isBlank]

/-- `json.loads` reads a spelling that fits as its value, and rejects one that does not. -/
theorem loads_complete (py : Interpreter) (lead trail : Blank) (s : Spelling) :
    if s.fits py.nesting then loads py (lead.text ++ (s.text ++ trail.text)) = .ok s.value
    else ∃ e, loads py (lead.text ++ (s.text ++ trail.text)) = .error e := by
  have ends : Ends trail.text := by
    have nothing : Ends [] := by
      intro c h
      cases h
    simpa using ends_blank trail nothing
  have read := scanValue_complete s (2 * (lead.text ++ (s.text ++ trail.text)).length + 2)
    py.nesting trail.text (by simp; omega) (.inl ends)
  have all_blank : skip trail.text = [] := by
    simpa [skip] using skip_blank trail []
  unfold loads
  rw [if_neg (no_mark lead s trail.text), skip_spelling]
  unfold Reads at read
  split at read
  next fits =>
    rw [if_pos fits, read]
    simp only [bind, Except.bind, all_blank]
    rfl
  next tooLarge =>
    obtain ⟨e, failed⟩ := read
    rw [if_neg tooLarge, failed]
    exact ⟨e, rfl⟩

def noBlank : Blank := ⟨[], by simp⟩

theorem loads_text_of_fits {py : Interpreter} {s : Spelling} (fits : s.fits py.nesting) :
    loads py s.text = .ok s.value := by
  have read := loads_complete py noBlank noBlank s
  rw [if_pos fits] at read
  simpa [noBlank] using read

theorem fits_of_loads_text {py : Interpreter} {s : Spelling} {v : Json}
    (h : loads py s.text = .ok v) : s.fits py.nesting := by
  have read := loads_complete py noBlank noBlank s
  split at read
  next fits => exact fits
  next =>
    obtain ⟨e, failed⟩ := read
    simp [noBlank, h] at failed

theorem loads_sound {py : Interpreter} {t : Text} {v : Json} (h : loads py t = .ok v) :
    ∃ (lead : Blank) (s : Spelling) (trail : Blank), t = lead.text ++ (s.text ++ trail.text) ∧
      s.value = v ∧ s.fits py.nesting := by
  unfold loads at h
  split at h
  next => cases h
  next =>
    obtain ⟨lead, leading⟩ := skip_sound t
    obtain ⟨⟨w, rest⟩, read, h⟩ := bind_ok h
    obtain ⟨s, form, rfl, fits⟩ := (reader_sound _).1 _ _ _ _ read
    obtain ⟨trail, trailing⟩ := skip_sound rest
    dsimp only at h
    split at h
    next closed =>
      cases h
      rw [closed, List.append_nil] at trailing
      exact ⟨lead, s, trail, by rw [leading, form, trailing], rfl, fits⟩
    next => cases h

theorem brace_of_object {s : Spelling} {fields : Dict Text Json} (value : s.value = .obj fields) :
    s.text.head? = some 123 := by
  cases s with
  | number n =>
    simp only [Spelling.value, Number.value, ofDecimal] at value
    split_ifs at value
    split at value <;> cases value
  | emptyObject gap => rfl
  | object members => rfl
  | _ => cases value

/-- An object ends with its last brace: cut short, it is no JSON. -/
theorem cut_object_rejected {py : Interpreter} {object : Spelling} {p more : Text} {v : Json}
    (brace : object.text.head? = some 123) (cut : p ++ more = object.text)
    (h : loads py p = .ok v) : more = [] := by
  obtain ⟨lead, s, trail, form, -, fits⟩ := loads_sound h
  have start : (lead.text ++ (s.text ++ (trail.text ++ more))).head? = some 123 := by
    rw [← brace, ← cut, form]
    simp
  have no_lead : lead.text = [] := by
    cases gap : lead.text with
    | nil => rfl
    | cons c u =>
      have blank := lead.blank c (by simp [gap])
      rw [gap] at start
      cases start
      cases blank
  have notNumber {t : Spelling} {u : Text} (opens : (t.text ++ u).head? = some 123) (n : Number) :
      t ≠ .number n := by
    rintro rfl
    obtain ⟨d, ds, digits, digit⟩ := n.whole.exists_cons
    rw [Spelling.text, Number.text, Number.signText, digits] at opens
    cases sign : n.negative <;> rw [sign] at opens <;> cases opens
    cases digit
  have same : s.text ++ (trail.text ++ more) = object.text ++ [] := by
    rw [List.append_nil, ← cut, form, no_lead]
    simp
  rw [no_lead, List.nil_append] at start
  have short := scanValue_complete s (s.text.length + object.text.length) py.nesting
    (trail.text ++ more) (by omega) (.inr (notNumber start))
  have whole := scanValue_complete object (s.text.length + object.text.length) py.nesting []
    (by omega) (.inr (notNumber (u := []) (by simpa using brace)))
  rw [same] at short
  unfold Reads at short whole
  rw [if_pos fits] at short
  split at whole
  next =>
    have rest := short.symm.trans whole
    simp at rest
    exact rest.2.2
  next =>
    obtain ⟨e, failed⟩ := whole
    rw [failed] at short
    cases short

end AgenticOctopus.Foundation.Json
