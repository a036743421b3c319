import AgenticOctopus.Foundation.JsonLimits
import AgenticOctopus.Foundation.Lines
import AgenticOctopus.Chat.ToolProtocol

/-!
# The protocol of a tool call

What a text says by the protocol, told by its lines and the grammar of JSON, and when
`parse_tool_call` reads it so. The code splits at more line breaks than the protocol, lets
`dict` make arguments of what is no object, and lets three exceptions pass.
-/
namespace AgenticOctopus.Chat
open Foundation Providers

/-- The lines of a text in which only `\n` and `\r` end a line. -/
def plainLines (text : Text) : List Text := text.splitOnP fun c => c == 10 || c == 13

/-- What follows the marker on the first of the lines that starts with it. -/
def markedPayload : List Text → Option Text
  | [] => none
  | line :: lines =>
    if line.strip.startswith toolMarker then
      some (Text.strip (line.strip.drop toolMarker.length))
    else markedPayload lines

/-- A key-value object as the dictionary that `dict` copies it to. -/
def PyDict.ofFields (fields : Dict Text Json) : PyDict := fields.map fun p => (.str p.1, p.2)

/-- The payload is an object in standard JSON, with a string `tool` and an object `args` or none. -/
def NamesCall (payload tool : Text) (args : PyDict) : Prop :=
  ∃ (s : Json.Spelling) (fields : Dict Text Json),
    payload = s.text ∧ s.standard ∧ s.value = .obj fields ∧
      fields.get? ↑"tool" = some (.str tool) ∧
      ((∃ given, fields.get? ↑"args" = some (.obj given) ∧ args = .ofFields given) ∨
        fields.get? ↑"args" = none ∧ args = [])

/-- What the protocol promises of a text. -/
def FollowsProtocol (py : Interpreter) (text : Text) : Prop :=
  match markedPayload (plainLines text) with
  | none => parseToolCall py text = .ok none
  | some payload =>
    (∀ tool args, NamesCall payload tool args → parseToolCall py text = .ok (some (tool, args))) ∧
      ((∀ tool args, ¬ NamesCall payload tool args) → ∃ call, parseToolCall py text = .ok call)

/-! ## When the code follows it -/

/-- Neither an integer too long nor a value nested too deep for the interpreter. -/
def WithinLimits (py : Interpreter) (payload : Text) : Prop :=
  ∀ s : Json.Spelling, payload = s.text → s.fits py.nesting

/-- An element of which `dict` takes a key and a value. -/
inductive Pair : Json → Json → Json → Prop where
  | array {k : Json} (v : Json) (h : hashable k = true) : Pair (.arr [k, v]) k v
  | text (k v : Nat) : Pair (.str [k, v]) (.str [k]) (.str [v])
  | object (k v : Text) (x y : Json) : Pair (.obj [(k, x), (v, y)]) (.str k) (.str v)

/-- A sequence, but not of two elements. -/
inductive Uneven : Json → Prop where
  | array {items : List Json} (h : items.length ≠ 2) : Uneven (.arr items)
  | text {s : Text} (h : s.length ≠ 2) : Uneven (.str s)
  | object {fields : Dict Text Json} (h : fields.length ≠ 2) : Uneven (.obj fields)

/-- The value is good for these arguments: it is an object, an array of pairs, or as good as none. -/
inductive Arguments : Json → PyDict → Prop where
  | nothing {v : Json} (h : v.truthy = false) : Arguments v []
  | object (fields : Dict Text Json) : Arguments (.obj fields) (.ofFields fields)
  | pairs {items : List Json} {pairs : List (Json × Json)}
    (each : List.Forall₂ (fun v p => Pair v p.1 p.2) items pairs) :
    Arguments (.arr items) (pairs.foldl (fun d p => PyDict.set d p.1 p.2) [])

/-- The value is a text, or an array with a sequence behind its pairs that is no pair. -/
inductive Pairless : Json → Prop where
  | text {s : Text} (h : s ≠ []) : Pairless (.str s)
  | array {pairs : List Json} {v : Json} (rest : List Json)
    (before : ∀ item ∈ pairs, ∃ k w, Pair item k w) (uneven : Uneven v) :
    Pairless (.arr (pairs ++ v :: rest))

/-- The payload spells an object, within the limits, with any `tool` and with such arguments. -/
def SpellsCall (py : Interpreter) (payload tool : Text) (args : PyDict) : Prop :=
  ∃ (fields : Dict Text Json) (name : Json), Json.Spells py payload (.obj fields) ∧
    fields.get? ↑"tool" = some name ∧ tool = name.toStr py ∧
    (fields.get? ↑"args" = none ∧ args = [] ∨
      ∃ given, fields.get? ↑"args" = some given ∧ Arguments given args)

/-- The payload is beyond the limits, or an object with a `tool` and `args` without pairs. -/
inductive Trips (py : Interpreter) (payload : Text) : Prop where
  | beyond (h : Json.BeyondLimits py payload)
  | pairless {fields : Dict Text Json} {name args : Json}
    (h : Json.Spells py payload (.obj fields)) (tool : fields.get? ↑"tool" = some name)
    (given : fields.get? ↑"args" = some args) (bad : Pairless args)

/-- The payload that the code reads is the whole deciding one, or that of an earlier line that
says the same. -/
def ReadRight (py : Interpreter) (text : Text) : Prop :=
  match markedPayload (plainLines text), markedPayload text.splitlines with
  | none, none => True
  | none, some read => ¬ Trips py read ∧ ∀ tool args, ¬ SpellsCall py read tool args
  | some payload, some read =>
    (∀ tool args, NamesCall payload tool args →
        read = payload ∧ WithinLimits py payload ∨
          ¬ read <+: payload ∧ SpellsCall py read tool args) ∧
      ((∀ tool args, ¬ NamesCall payload tool args) → ¬ Trips py read)
  | some _, none => False

/-! ## Reading the code's payload -/

theorem parseToolCall_eq (py : Interpreter) (text : Text) :
    parseToolCall py text =
      match markedPayload text.splitlines with
      | none => .ok none
      | some payload => readCall py payload := by
  unfold parseToolCall
  induction text.splitlines with
  | nil => rfl
  | cons line lines ih =>
    unfold parseLines markedPayload
    split
    · rfl
    · exact ih

theorem toolAndArgs_obj (py : Interpreter) (fields : Dict Text Json) :
    toolAndArgs py (.obj fields) =
      match fields.get? ↑"tool" with
      | none => .error (.keyError ↑"tool")
      | some name =>
        (dictOf (Json.orElse (fields.get? ↑"args") (.obj []))).map fun args =>
          (name.toStr py, args) := by
  have given : (if ((fields.get? ↑"args").getD .null).truthy
      then (fields.get? ↑"args").getD .null else .obj []) =
      Json.orElse (fields.get? ↑"args") (.obj []) := by
    cases fields.get? ↑"args" <;> rfl
  simp only [toolAndArgs, item, getField, ← given]
  cases fields.get? ↑"tool" with
  | none => rfl
  | some name =>
    simp only [bind, Except.bind, pure, Except.pure]
    cases dictOf _ <;> rfl

theorem toolAndArgs_other (py : Interpreter) {data : Json} (h : ∀ fields, data ≠ .obj fields) :
    toolAndArgs py data = .error .typeError := by
  cases data with
  | obj fields => exact (h fields rfl).elim
  | _ => rfl

/-! What `dict` makes of the arguments. -/

theorem pairOf_ok_iff {index : Nat} {v k w : Json} : pairOf index v = .ok (k, w) ↔ Pair v k w := by
  constructor
  · intro h
    unfold pairOf at h
    split at h
    next =>
      split at h <;> cases h
      exact .array _ ‹_›
    next => cases h; exact .text _ _
    next => cases h; exact .object _ _ _ _
    all_goals cases h
  · rintro (⟨v, hashes⟩ | _ | _)
    · rw [pairOf, if_pos hashes]
      rfl
    · rfl
    · rfl

theorem pairOf_bad_iff {index : Nat} {v : Json} :
    (∃ message, pairOf index v = .error (.valueError message)) ↔ Uneven v := by
  constructor
  · rintro ⟨message, h⟩
    unfold pairOf at h
    split at h
    next => split at h <;> cases h
    next => cases h
    next => cases h
    next items other =>
      refine .array fun two => ?_
      obtain ⟨k, w, rfl⟩ := List.length_eq_two.mp two
      exact other k w rfl
    next s other =>
      refine .text fun two => ?_
      obtain ⟨k, w, rfl⟩ := List.length_eq_two.mp two
      exact other k w rfl
    next fields other =>
      refine .object fun two => ?_
      obtain ⟨⟨k, x⟩, ⟨w, y⟩, rfl⟩ := List.length_eq_two.mp two
      exact other k x w y rfl
    next => cases h
  · rintro (@⟨items, uneven⟩ | @⟨s, uneven⟩ | @⟨fields, uneven⟩)
    · rcases items with _ | ⟨_, _ | ⟨_, _ | _⟩⟩
      all_goals first | exact ⟨_, rfl⟩ | exact absurd rfl uneven
    · rcases s with _ | ⟨_, _ | ⟨_, _ | _⟩⟩
      all_goals first | exact ⟨_, rfl⟩ | exact absurd rfl uneven
    · rcases fields with _ | ⟨_, _ | ⟨_, _ | _⟩⟩
      all_goals first | exact ⟨_, rfl⟩ | exact absurd rfl uneven

theorem pairOf_raises {index : Nat} {v : Json} {e : Raised} (h : pairOf index v = .error e) :
    e = .typeError ∨ ∃ message, e = .valueError message := by
  unfold pairOf at h
  split at h
  · split at h <;> cases h
    exact .inl rfl
  all_goals first
    | cases h; exact .inl rfl
    | cases h; exact .inr ⟨_, rfl⟩
    | cases h

theorem dictOfItems_ok_iff {index : Nat} {d r : PyDict} {items : List Json} :
    dictOfItems index d items = .ok r ↔
      ∃ pairs : List (Json × Json), List.Forall₂ (fun v p => Pair v p.1 p.2) items pairs ∧
        r = pairs.foldl (fun d p => PyDict.set d p.1 p.2) d := by
  induction items generalizing index d with
  | nil =>
    constructor
    · rintro ⟨⟩
      exact ⟨[], .nil, rfl⟩
    · rintro ⟨_, ⟨⟩, rfl⟩
      rfl
  | cons v vs ih =>
    rw [dictOfItems]
    constructor
    · intro h
      obtain ⟨⟨k, w⟩, pair, rest⟩ := Program.except_bind_eq_ok.mp h
      obtain ⟨pairs, each, rfl⟩ := ih.mp rest
      exact ⟨(k, w) :: pairs, .cons (pairOf_ok_iff.mp pair) each, rfl⟩
    · rintro ⟨_, _ | @⟨_, p, _, pairs, pair, each⟩, rfl⟩
      exact Program.except_bind_eq_ok.mpr ⟨p, pairOf_ok_iff.mpr pair, ih.mpr ⟨pairs, each, rfl⟩⟩

theorem dictOfItems_bad_iff {index : Nat} {d : PyDict} {items : List Json} :
    (∃ message, dictOfItems index d items = .error (.valueError message)) ↔
      ∃ pairs v rest, items = pairs ++ v :: rest ∧ (∀ item ∈ pairs, ∃ k w, Pair item k w) ∧
        Uneven v := by
  induction items generalizing index d with
  | nil =>
    constructor
    · rintro ⟨_, ⟨⟩⟩
    · rintro ⟨pairs, v, rest, none, -⟩
      simp at none
  | cons v vs ih =>
    rw [dictOfItems]
    constructor
    · rintro ⟨message, h⟩
      rcases Program.except_bind_eq_error.mp h with bad | ⟨⟨k, w⟩, pair, later⟩
      · exact ⟨[], v, vs, rfl, by simp, pairOf_bad_iff.mp ⟨message, bad⟩⟩
      · obtain ⟨pairs, u, rest, rfl, before, uneven⟩ := ih.mp ⟨message, later⟩
        exact ⟨v :: pairs, u, rest, rfl,
          List.forall_mem_cons.mpr ⟨⟨k, w, pairOf_ok_iff.mp pair⟩, before⟩, uneven⟩
    · rintro ⟨pairs, u, rest, form, before, uneven⟩
      cases pairs with
      | nil =>
        cases form
        obtain ⟨message, bad⟩ : ∃ message, pairOf index v = .error (.valueError message) :=
          pairOf_bad_iff.mpr uneven
        exact ⟨message, by rw [bad]; rfl⟩
      | cons first pairs =>
        cases form
        obtain ⟨⟨k, w, pair⟩, before⟩ := List.forall_mem_cons.mp before
        obtain ⟨message, bad⟩ : ∃ message,
            dictOfItems (index + 1) (d.set k w) (pairs ++ u :: rest) = .error (.valueError message) :=
          ih.mpr ⟨pairs, u, rest, rfl, before, uneven⟩
        exact ⟨message, Program.except_bind_eq_error.mpr (.inr ⟨(k, w), pairOf_ok_iff.mpr pair, bad⟩)⟩

theorem arguments_falsy {v : Json} {args : PyDict} (falsy : v.truthy = false) :
    Arguments v args ↔ args = [] := by
  refine ⟨fun h => ?_, by rintro rfl; exact .nothing falsy⟩
  cases h with
  | nothing => rfl
  | object fields =>
    cases fields with
    | nil => rfl
    | cons => cases falsy
  | pairs each =>
    cases each with
    | nil => rfl
    | cons => cases falsy

theorem dictOf_ok_iff {v : Json} {args : PyDict} (truthy : v.truthy = true) :
    dictOf v = .ok args ↔ Arguments v args := by
  constructor
  · intro h
    cases v with
    | obj fields =>
      cases h
      exact .object fields
    | arr items =>
      obtain ⟨pairs, each, rfl⟩ := dictOfItems_ok_iff.mp h
      exact .pairs each
    | str s =>
      cases s with
      | nil => cases truthy
      | cons c s => cases h
    | _ => cases h
  · rintro (falsy | fields | each)
    · rw [truthy] at falsy
      cases falsy
    · rfl
    · exact dictOfItems_ok_iff.mpr ⟨_, each, rfl⟩

theorem dictOf_bad_iff {v : Json} :
    (∃ message, dictOf v = .error (.valueError message)) ↔ Pairless v := by
  constructor
  · rintro ⟨message, h⟩
    cases v with
    | arr items =>
      obtain ⟨pairs, v, rest, rfl, before, uneven⟩ := dictOfItems_bad_iff.mp ⟨message, h⟩
      exact .array rest before uneven
    | str s =>
      cases s with
      | nil => cases h
      | cons c s => exact .text (by simp)
    | _ => cases h
  · rintro (@⟨s, ink⟩ | ⟨rest, before, uneven⟩)
    · cases s with
      | nil => exact absurd rfl ink
      | cons c s => exact ⟨_, rfl⟩
    · exact dictOfItems_bad_iff.mpr ⟨_, _, rest, rfl, before, uneven⟩

theorem Pairless.truthy {v : Json} (bad : Pairless v) : v.truthy = true := by
  cases bad with
  | text ink => simpa [Json.truthy] using ink
  | array => simp [Json.truthy]

/-- The arguments of an object that has these or none. -/
theorem givenArgs_iff {given : Option Json} {args : PyDict} :
    dictOf (Json.orElse given (.obj [])) = .ok args ↔
      (given = none ∧ args = [] ∨ ∃ v, given = some v ∧ Arguments v args) := by
  have empty : dictOf (.obj []) = .ok args ↔ args = [] :=
    ⟨by rintro ⟨⟩; rfl, by rintro rfl; rfl⟩
  cases given with
  | none => simpa [Json.orElse] using empty
  | some v =>
    rw [Json.orElse]
    cases truthy : v.truthy with
    | false => simpa [arguments_falsy truthy] using empty
    | true => simpa using dictOf_ok_iff truthy

theorem givenArgs_bad_iff {given : Option Json} :
    (∃ message, dictOf (Json.orElse given (.obj [])) = .error (.valueError message)) ↔
      ∃ v, given = some v ∧ Pairless v := by
  have empty : ¬ ∃ message, dictOf (.obj []) = .error (.valueError message) := by
    rintro ⟨message, ⟨⟩⟩
  cases given with
  | none => exact iff_of_false empty (by simp)
  | some v =>
    rw [Json.orElse]
    cases truthy : v.truthy with
    | false =>
      refine iff_of_false empty ?_
      rintro ⟨_, ⟨⟩, bad⟩
      rw [bad.truthy] at truthy
      cases truthy
    | true => simpa using dictOf_bad_iff

theorem dictOfItems_raises {index : Nat} {d : PyDict} {vs : List Json} {e : Raised}
    (h : dictOfItems index d vs = .error e) :
    e = .typeError ∨ ∃ message, e = .valueError message := by
  induction vs generalizing index d with
  | nil => cases h
  | cons v vs ih =>
    rcases Program.except_bind_eq_error.mp h with bad | ⟨_, -, later⟩
    · exact pairOf_raises bad
    · exact ih later

theorem dictOf_raises {v : Json} {e : Raised} (h : dictOf v = .error e) :
    e = .typeError ∨ ∃ message, e = .valueError message := by
  cases v with
  | arr items => exact dictOfItems_raises h
  | str s => exact dictOfItems_raises h
  | obj fields => cases h
  | _ =>
    cases h
    exact .inl rfl

theorem readCall_obj {py : Interpreter} {payload : Text} {fields : Dict Text Json}
    (read : Json.loads py payload = .ok (.obj fields)) :
    readCall py payload =
      match fields.get? ↑"tool" with
      | none => .ok none
      | some name =>
        match dictOf (Json.orElse (fields.get? ↑"args") (.obj [])) with
        | .ok args => .ok (some (name.toStr py, args))
        | .error .typeError => .ok none
        | .error e => .error e := by
  simp only [readCall, read, toolAndArgs_obj]
  cases fields.get? ↑"tool" with
  | none => rfl
  | some name =>
    cases made : dictOf (Json.orElse (fields.get? ↑"args") (.obj [])) with
    | ok args => rfl
    | error e => rcases dictOf_raises made with rfl | ⟨m, rfl⟩ <;> rfl

theorem readCall_other {py : Interpreter} {payload : Text} {data : Json}
    (read : Json.loads py payload = .ok data) (h : ∀ fields, data ≠ .obj fields) :
    readCall py payload = .ok none := by
  simp only [readCall, read, toolAndArgs_other py h]
  rfl

/-! The three ends of the reading: a call, an exception that passes, no call. -/

theorem readCall_of_spellsCall {py : Interpreter} {payload tool : Text} {args : PyDict}
    (h : SpellsCall py payload tool args) : readCall py payload = .ok (some (tool, args)) := by
  obtain ⟨fields, name, spells, tool_name, rfl, given⟩ := h
  rw [readCall_obj (Json.loads_ok_iff.mpr spells), tool_name]
  dsimp only
  rw [givenArgs_iff.mpr given]

theorem readCall_of_trips {py : Interpreter} {payload : Text} (h : Trips py payload) :
    ∃ e, readCall py payload = .error e := by
  cases h with
  | beyond beyond =>
    obtain ⟨e, failed, limited⟩ := Json.loads_givesUp_iff.mpr beyond
    rw [readCall, failed]
    cases e with
    | decode => exact absurd rfl limited
    | _ => exact ⟨_, rfl⟩
  | pairless spells tool given bad =>
    obtain ⟨message, raised⟩ := givenArgs_bad_iff.mpr ⟨_, given, bad⟩
    exact ⟨.valueError message, by
      rw [readCall_obj (Json.loads_ok_iff.mpr spells), tool]
      dsimp only
      rw [raised]⟩

theorem readCall_of_neither {py : Interpreter} {payload : Text} (quiet : ¬ Trips py payload)
    (no_call : ∀ tool args, ¬ SpellsCall py payload tool args) :
    readCall py payload = .ok none := by
  cases read : Json.loads py payload with
  | error e =>
    by_cases decode : e = .decode
    · rw [readCall, read, decode]
      rfl
    · exact (quiet (.beyond (Json.loads_givesUp_iff.mp ⟨e, read, decode⟩))).elim
  | ok data =>
    cases data with
    | obj fields =>
      have spells := Json.loads_ok_iff.mp read
      rw [readCall_obj read]
      cases tool : Dict.get? fields ↑"tool" with
      | none => rfl
      | some name =>
        cases made : dictOf (Json.orElse (Dict.get? fields ↑"args") (.obj [])) with
        | ok args =>
          exact (no_call _ args ⟨fields, name, spells, tool, rfl, givenArgs_iff.mp made⟩).elim
        | error e =>
          rcases dictOf_raises made with rfl | ⟨message, rfl⟩
          · rfl
          · obtain ⟨args, given, bad⟩ := givenArgs_bad_iff.mp ⟨message, made⟩
            exact (quiet (.pairless spells tool given bad)).elim
    | _ => exact readCall_other read (by simp)

theorem readCall_some_iff {py : Interpreter} {payload tool : Text} {args : PyDict} :
    readCall py payload = .ok (some (tool, args)) ↔ SpellsCall py payload tool args := by
  refine ⟨fun h => ?_, readCall_of_spellsCall⟩
  by_contra other
  have quiet : ¬ Trips py payload := by
    intro trips
    obtain ⟨e, raised⟩ := readCall_of_trips trips
    rw [raised] at h
    cases h
  have no_call : ∀ tool args, ¬ SpellsCall py payload tool args := by
    intro tool' args' loads
    rw [readCall_of_spellsCall loads] at h
    cases h
    exact other loads
  rw [readCall_of_neither quiet no_call] at h
  cases h

theorem readCall_error_iff {py : Interpreter} {payload : Text} :
    (∃ e, readCall py payload = .error e) ↔ Trips py payload := by
  refine ⟨fun ⟨e, h⟩ => ?_, readCall_of_trips⟩
  by_contra quiet
  have no_call : ∀ tool args, ¬ SpellsCall py payload tool args := by
    intro tool args loads
    rw [readCall_of_spellsCall loads] at h
    cases h
  rw [readCall_of_neither quiet no_call] at h
  cases h

/-! ## The deciding payload -/

theorem lstrip_cons (c : Nat) (t : Text) :
    Text.lstrip (c :: t) = if Text.isSpace c then Text.lstrip t else c :: t := by
  simp [Text.lstrip, List.dropWhile_cons]

theorem isPrefix_rstrip (t : Text) : t.rstrip <+: t := by
  have suffix := List.dropWhile_suffix Text.isSpace (l := t.reverse)
  simpa [Text.rstrip] using List.reverse_prefix.mpr suffix

theorem strip_startswith (line : Text) :
    line.strip.startswith toolMarker = line.lstrip.startswith toolMarker := by
  rw [Bool.eq_iff_iff, Text.startswith_iff, Text.startswith_iff, Text.strip]
  constructor
  · exact fun h => h.trans (isPrefix_rstrip _)
  · rintro ⟨rest, form⟩
    rw [← form, Text.rstrip, List.reverse_append, List.dropWhile_append]
    split
    · exact List.prefix_rfl
    · rw [List.reverse_append, List.reverse_reverse]
      exact List.prefix_append _ _

/-- Cutting a line further leaves a piece that starts with the marker if the line does. -/
theorem exists_marked_piece {line : Text} (marked : line.lstrip.startswith toolMarker = true) :
    ∃ piece ∈ line.splitOnP Text.isLineBreak,
      Text.startswith (Text.lstrip piece) toolMarker = true := by
  induction line with
  | nil => cases marked
  | cons c line ih =>
    obtain ⟨first, rest, pieces⟩ :=
      List.exists_cons_of_ne_nil (List.splitOnP_ne_nil Text.isLineBreak line)
    rw [List.splitOnP_cons_eq_if_modifyHead, pieces]
    rw [lstrip_cons] at marked
    by_cases space : Text.isSpace c = true
    · rw [if_pos space] at marked
      obtain ⟨piece, mem, piece_marked⟩ := ih marked
      rw [pieces] at mem
      by_cases breaks : Text.isLineBreak c = true
      · rw [if_pos breaks]
        exact ⟨piece, List.mem_cons_of_mem _ mem, piece_marked⟩
      · rw [if_neg breaks, List.modifyHead_cons]
        rcases List.mem_cons.mp mem with rfl | mem
        · exact ⟨c :: piece, List.mem_cons_self, by rwa [lstrip_cons, if_pos space]⟩
        · exact ⟨piece, List.mem_cons_of_mem _ mem, piece_marked⟩
    · -- the marker starts here, and it holds no line break
      rw [if_neg space, Text.startswith_iff] at marked
      obtain ⟨tail, form⟩ := marked
      obtain ⟨piece, more, tail_pieces⟩ :=
        List.exists_cons_of_ne_nil (List.splitOnP_ne_nil Text.isLineBreak tail)
      have whole : (c :: line).splitOnP Text.isLineBreak = (toolMarker ++ piece) :: more := by
        rw [← form, Text.splitOnP_append_of_inside (by decide), tail_pieces, List.modifyHead_cons]
      rw [List.splitOnP_cons_eq_if_modifyHead, pieces] at whole
      rw [whole]
      exact ⟨_, List.mem_cons_self, rfl⟩

theorem markedPayload_eq_none_iff {lines : List Text} :
    markedPayload lines = none ↔
      ∀ line ∈ lines, line.lstrip.startswith toolMarker = false := by
  induction lines with
  | nil => simp [markedPayload]
  | cons line lines ih =>
    unfold markedPayload
    rw [strip_startswith]
    cases starts : line.lstrip.startswith toolMarker <;> simp [ih, starts]

theorem read_of_deciding {text : Text} (none_read : markedPayload text.splitlines = none) :
    markedPayload (plainLines text) = none := by
  rw [markedPayload_eq_none_iff] at none_read ⊢
  intro line mem
  by_contra marked
  obtain ⟨piece, piece_mem, piece_marked⟩ := exists_marked_piece (by simpa using marked)
  have finer : ∀ c : Nat, (c == 10 || c == 13) = true → Text.isLineBreak c = true := by
    intro c h
    rcases Bool.or_eq_true _ _ |>.mp h with h | h <;> rw [eq_of_beq h] <;> rfl
  have found : piece ∈ text.splitOnP Text.isLineBreak := by
    rw [Text.splitOnP_finer finer]
    exact List.mem_flatMap.mpr ⟨line, mem, piece_mem⟩
  have ink : piece ≠ [] := by
    rintro rfl
    cases piece_marked
  rw [none_read piece ((Text.mem_splitlines_iff ink).mpr found)] at piece_marked
  cases piece_marked

/-! ## Legal calls -/

theorem spellsCall_of_namesCall {py : Interpreter} {payload tool : Text} {args : PyDict}
    (names : NamesCall payload tool args) (within : WithinLimits py payload) :
    SpellsCall py payload tool args := by
  obtain ⟨s, fields, rfl, -, value, tool_name, given⟩ := names
  have read := Json.loads_text_of_fits (within s rfl)
  rw [value] at read
  refine ⟨fields, .str tool, Json.loads_ok_iff.mp read, tool_name, rfl, ?_⟩
  rcases given with ⟨given, is, rfl⟩ | ⟨none_given, rfl⟩
  · exact .inr ⟨.obj given, is, .object given⟩
  · exact .inl ⟨none_given, rfl⟩

theorem withinLimits_of_spellsCall {py : Interpreter} {payload tool : Text} {args : PyDict}
    (h : SpellsCall py payload tool args) : WithinLimits py payload := by
  rintro s rfl
  obtain ⟨fields, name, spells, -⟩ := h
  exact Json.fits_of_loads_text (Json.loads_ok_iff.mpr spells)

/-- An object cut short is no call. -/
theorem whole_of_spellsCall {py : Interpreter} {payload read tool tool' : Text}
    {args args' : PyDict} (names : NamesCall payload tool args) (cut : read <+: payload)
    (call : SpellsCall py read tool' args') : read = payload := by
  obtain ⟨s, fields, rfl, -, value, -⟩ := names
  obtain ⟨more, form⟩ := cut
  obtain ⟨_, _, spells, -⟩ := call
  obtain rfl := Json.cut_object_rejected (Json.brace_of_object value) form
    (Json.loads_ok_iff.mpr spells)
  rw [← form, List.append_nil]

/-- The code follows the protocol on exactly the texts that it reads right. -/
theorem followsProtocol_iff (py : Interpreter) (text : Text) :
    FollowsProtocol py text ↔ ReadRight py text := by
  unfold FollowsProtocol ReadRight
  rw [parseToolCall_eq]
  cases decides : markedPayload (plainLines text) with
  | none =>
    cases reads : markedPayload text.splitlines with
    | none => simp
    | some read =>
      change readCall py read = .ok none ↔ _
      constructor
      · intro no_call
        refine ⟨fun trips => ?_, fun tool args call => ?_⟩
        · obtain ⟨e, raised⟩ := readCall_of_trips trips
          rw [no_call] at raised
          cases raised
        · rw [readCall_of_spellsCall call] at no_call
          cases no_call
      · exact fun ⟨quiet, no_call⟩ => readCall_of_neither quiet no_call
  | some payload =>
    cases reads : markedPayload text.splitlines with
    | none =>
      rw [read_of_deciding reads] at decides
      cases decides
    | some read =>
      refine and_congr (forall_congr' fun tool => forall_congr' fun args =>
        forall_congr' fun names => ?_) (imp_congr_right fun _ => ?_)
      · rw [readCall_some_iff]
        constructor
        · intro call
          by_cases cut : read <+: payload
          · obtain rfl := whole_of_spellsCall names cut call
            exact .inl ⟨rfl, withinLimits_of_spellsCall call⟩
          · exact .inr ⟨cut, call⟩
        · rintro (⟨rfl, within⟩ | ⟨-, call⟩)
          · exact spellsCall_of_namesCall names within
          · exact call
      · rw [← readCall_error_iff]
        change (∃ call, readCall py read = .ok call) ↔ _
        cases readCall py read <;> simp

def pairlessArgs : Text := ↑"TOOL_CALL \x7b\"tool\": \"web_search\", \"args\": [\"k8s\"]\x7d"

/-- `dict(["k8s"])` raises a `ValueError`, which ends the chat turn. -/
theorem pairlessArgs_abort : ¬ FollowsProtocol plainPython pairlessArgs := by
  have raises : (match parseToolCall plainPython pairlessArgs with
      | .error (.valueError _) => true
      | _ => false) = true := by decide +kernel
  have decides : (markedPayload (plainLines pairlessArgs)).isSome := by decide +kernel
  obtain ⟨payload, decides⟩ := Option.isSome_iff_exists.mp decides
  intro follows
  rw [FollowsProtocol, decides] at follows
  obtain ⟨legal, otherwise⟩ := follows
  have returns : ∃ call, parseToolCall plainPython pairlessArgs = .ok call := by
    by_cases names : ∃ tool args, NamesCall payload tool args
    · obtain ⟨tool, args, names⟩ := names
      exact ⟨_, legal tool args names⟩
    · push Not at names
      exact otherwise names
  obtain ⟨call, returned⟩ := returns
  rw [returned] at raises
  cases raises

end AgenticOctopus.Chat
