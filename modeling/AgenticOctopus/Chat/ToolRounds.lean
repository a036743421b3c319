import AgenticOctopus.Foundation.JsonNesting
import AgenticOctopus.Foundation.JsonPrintable
import AgenticOctopus.Chat.Service

/-!
# What a tool round leaves

A tool round that returns leaves one row with the call and the result and two messages for
the next request. The result is cut before it is decoded again, so whether the round returns
depends on how long its JSON is, on how deep the row nests it, and on what the columns take.
-/
namespace AgenticOctopus.Chat
open Foundation Providers

section ToolRound

variable (host : Host) (conversationId : ConversationId) (context : List ChatMessage)
  (assistantText tool : Text) (args : PyDict) (allowed : List Text)

/-- The result of the round: what the tool returns, or that it is not allowed. -/
def Results (ledger : Ledger) (result : Json) : Prop :=
  if tool ∈ allowed then host.runTool (ledger.toolCalls ++ [⟨tool, args⟩]) = .ok result
  else result = notEnabled tool

def callJson (py : Interpreter) : Json :=
  .obj [(↑"tool", .str tool), (↑"args", argsJson py args)]

/-- The round returns: one more row, which records the call and the result, and two more
messages. -/
def RecordsRound (ledger : Ledger) (result : Json) : Prop :=
  ∃ ledger' row,
    (executeToolRound host conversationId context assistantText tool args allowed).run ledger =
        .ok (context ++ [⟨↑"assistant", assistantText⟩,
          ⟨↑"user", toolResultMessage tool
            ((result.dumped host.upstream.py).take toolResultMaxChars)⟩]) ledger' ∧
      ledger'.messages.rows = ledger.messages.rows ++ [row] ∧
      row.conversationId = conversationId ∧ row.role = .tool ∧
      row.metadata = .obj [(↑"call", callJson tool args host.upstream.py), (↑"result", result)]

/-- The ledger when the result is there. -/
def afterCall (ledger : Ledger) : Ledger :=
  if tool ∈ allowed then { ledger with toolCalls := ledger.toolCalls ++ [⟨tool, args⟩] } else ledger

def roundContent (py : Interpreter) : Text :=
  tool ++ ↑"(" ++ ((argsJson py args).dumped py).take 500 ++ ↑")"

def roundFields (py : Interpreter) (result : Json) : Fields :=
  { metadata := .obj [(↑"call", callJson tool args py), (↑"result", result)] }

theorem dumps_ok {py : Interpreter} {v : Json} {t : Text} :
    dumps py v = .ok t ↔ v.nests py.nesting = true ∧ t = v.dumped py := by
  unfold dumps
  split_ifs with fits <;> simp [fits, pure, Except.pure, eq_comm]

theorem reloaded_ok {py : Interpreter} {t : Text} {v : Json} :
    reloaded py t = .ok v ↔ Json.loads py t = .ok v := by
  unfold reloaded
  cases Json.loads py t <;> simp [Except.mapError]

theorem jsonb_ok {py : Interpreter} {v w : Json} :
    jsonb py v = .ok w ↔ v.nests py.nesting = true ∧ w = v := by
  unfold jsonb
  simp only [Program.except_bind_eq_ok, dumps_ok]
  constructor
  · rintro ⟨_, ⟨fits, -⟩, same⟩
    cases same
    exact ⟨fits, rfl⟩
  · rintro ⟨fits, rfl⟩
    exact ⟨_, ⟨fits, rfl⟩, rfl⟩

/-- What is written is the result as it is read back, nested two levels below the row. -/
theorem audit_ok {py : Interpreter} {result : Json} {a : Audit} :
    audit py tool args result = .ok a ↔
      ∃ recorded depth, py.nesting = depth + 2 ∧ result.nests py.nesting = true ∧
        (argsJson py args).nests depth = true ∧ recorded.nests (depth + 1) = true ∧
        Json.loads py ((result.dumped py).take toolResultMaxChars) = .ok recorded ∧
        a = ⟨(result.dumped py).take toolResultMaxChars, roundContent tool args py,
          (roundFields tool args py recorded).metadata⟩ := by
  unfold audit
  simp only [Program.except_bind_eq_ok, dumps_ok, reloaded_ok, jsonb_ok]
  constructor
  · rintro ⟨_, ⟨written, rfl⟩, _, ⟨-, rfl⟩, recorded, read, _, ⟨nested, rfl⟩, is⟩
    cases is
    obtain ⟨d, limit, inner⟩ := Json.nests_obj_iff.mp nested
    simp only [Json.nestsFields, Bool.and_eq_true, Bool.and_true] at inner
    obtain ⟨depth, rfl, call⟩ := Json.nests_obj_iff.mp inner.1
    simp only [Json.nestsFields, Bool.and_eq_true, Bool.and_true] at call
    exact ⟨recorded, depth, limit, written, call.2, inner.2, read, rfl⟩
  · rintro ⟨recorded, depth, limit, written, given, kept, read, rfl⟩
    refine ⟨_, ⟨written, rfl⟩, _, ⟨Json.nests_mono _ (by omega) given, rfl⟩, recorded, read, _,
      ⟨?_, rfl⟩, rfl⟩
    simp [Json.nests, Json.nestsFields, limit, given, kept]

theorem run_executeToolRound {ledger : Ledger} {result : Json}
    (results : Results host tool args allowed ledger result) :
    (executeToolRound host conversationId context assistantText tool args allowed).run ledger =
      ((do
        let audit ← Program.raises (audit host.upstream.py tool args result)
        let _ ← append conversationId .tool audit.content { metadata := audit.metadata }
        return context ++ [⟨↑"assistant", assistantText⟩,
          ⟨↑"user", toolResultMessage tool audit.resultJson⟩]) :
        Program Raised Ledger (List ChatMessage)).run (afterCall tool args allowed ledger) := by
  unfold Results at results
  unfold executeToolRound afterCall
  split at results
  next some_tool =>
    rw [if_pos some_tool, if_pos some_tool]
    have called : (runTool host ⟨tool, args⟩).run ledger =
        .ok result { ledger with toolCalls := ledger.toolCalls ++ [⟨tool, args⟩] } := by
      unfold runTool
      rw [EStateM.run_bind, EStateM.run_modify]
      simp only
      rw [EStateM.run_bind, EStateM.run_get]
      simp only [results, Program.run_raises_ok]
    rw [Program.run_bind_ok called]
  next no_tool =>
    subst results
    rw [if_neg no_tool, if_neg no_tool]
    rfl

theorem storable_roundContent {py : Interpreter} (floats : Json.PrintableFloats py) :
    Text.storable (roundContent tool args py) = Text.storable tool := by
  have written : Text.storable (((argsJson py args).dumped py).take 500) = true := by
    refine Json.Printable.storable fun c mem => ?_
    exact Json.printable_dumped floats (argsJson py args) c (List.mem_of_mem_take mem)
  have brackets : Text.storable ↑"(" = true ∧ Text.storable ↑")" = true := by decide
  unfold roundContent
  rw [Json.storable_append, Json.storable_append, Json.storable_append, written, brackets.1,
    brackets.2]
  simp

theorem storable_roundFields {py : Interpreter} (floats : Json.PrintableFloats py)
    (result : Json) :
    Fields.storable (roundFields tool args py result) (roundContent tool args py) = true ↔
      Text.storable tool = true ∧ Json.storable (argsJson py args) = true ∧
        Json.storable result = true := by
  have names : Json.paired false ↑"call" = true ∧ Json.paired false ↑"result" = true ∧
      Json.paired false ↑"tool" = true ∧ Json.paired false ↑"args" = true := by decide
  have tool_pairs := Json.paired_of_storable (t := tool)
  simp only [Fields.storable, storable_roundContent tool args floats, roundFields, callJson,
    Json.storable, Json.storableFields, names]
  grind

/-- The round returns if and only if the JSON of its result is not cut, the row does not nest the
arguments and the result too deep, and the columns take it. -/
theorem recordsRound_iff (floats : Json.PrintableFloats host.upstream.py) {ledger : Ledger}
    (there : ledger.conversations.contains conversationId) {fields : Dict Text Json}
    (results : Results host tool args allowed ledger (.obj fields))
    (serialisable : Json.Serialisable host.upstream.py host.upstream.py.nesting (.obj fields)) :
    RecordsRound host conversationId context assistantText tool args allowed ledger (.obj fields) ↔
      (Json.dumped host.upstream.py (.obj fields)).length ≤ toolResultMaxChars ∧
        (∃ depth, host.upstream.py.nesting = depth + 2 ∧
          (argsJson host.upstream.py args).nests depth ∧ (Json.obj fields).nests (depth + 1)) ∧
        Json.wellFormed (.obj fields) ∧ Json.storable (.obj fields) ∧
        Text.storable tool ∧ Json.storable (argsJson host.upstream.py args) := by
  have there_still :
      (afterCall tool args allowed ledger).conversations.contains conversationId = true := by
    unfold afterCall
    split <;> exact there
  have rows_still : (afterCall tool args allowed ledger).messages = ledger.messages := by
    unfold afterCall
    split <;> rfl
  unfold RecordsRound
  rw [run_executeToolRound host conversationId context assistantText tool args allowed results]
  constructor
  · rintro ⟨ledger', row, ran, rows, -, -, metadata⟩
    obtain ⟨a, _, decoded, ran⟩ := Program.bind_eq_ok.mp ran
    obtain ⟨written, rfl⟩ := Program.raises_eq_ok.mp decoded
    obtain ⟨recorded, depth, limit, -, given, kept, read, rfl⟩ := (audit_ok _ _).mp written
    obtain ⟨message, _, stored, ran⟩ := Program.bind_eq_ok.mp ran
    rw [run_append] at stored
    split at stored
    next taken =>
      cases stored
      cases ran
      rw [Ledger.rows_appended, rows_still] at rows
      obtain rfl := List.singleton_inj.mp (List.append_cancel_left rows)
      obtain rfl : recorded = .obj fields := by
        simpa [newMessage, roundFields] using metadata
      rw [Bool.and_eq_true] at taken
      obtain ⟨tool_taken, args_taken, result_taken⟩ :=
        (storable_roundFields tool args floats (.obj fields)).mp taken.2
      have short := Json.loads_cut_dumped serialisable read
      rw [List.take_of_length_le short] at read
      exact ⟨short, ⟨depth, limit, given, kept⟩,
        Json.wellFormed_of_loads_dumped serialisable result_taken read, result_taken, tool_taken,
        args_taken⟩
    next => cases stored
  · rintro ⟨short, ⟨depth, limit, given, kept⟩, clean, result_taken, tool_taken, args_taken⟩
    have taken := (storable_roundFields tool args floats (.obj fields)).mpr
      ⟨tool_taken, args_taken, result_taken⟩
    let content := roundContent tool args host.upstream.py
    let columns := roundFields tool args host.upstream.py (.obj fields)
    have read : Json.loads host.upstream.py ((Json.dumped host.upstream.py (.obj fields)).take
        toolResultMaxChars) = .ok (.obj fields) := by
      rw [List.take_of_length_le short, Json.loads_dumped serialisable clean]
    have written := (audit_ok tool args).mpr ⟨.obj fields, depth, limit,
      Json.nests_of_serialisable _ serialisable, given, kept, read, rfl⟩
    refine ⟨(afterCall tool args allowed ledger).appended conversationId .tool content columns,
      newMessage conversationId .tool content columns ledger.messages.next, ?_, ?_, rfl, rfl, rfl⟩
    · rw [written, Program.raises_ok_bind,
        Program.run_bind_ok (t := (afterCall tool args allowed ledger).appended conversationId .tool
          content columns) (by rw [run_append, there_still]; exact if_pos taken)]
      rfl
    · rw [Ledger.rows_appended, rows_still]

end ToolRound

/-! ## A short page and a long one -/

section Page

def pageHost (text : Text) : Host where
  settings := {}
  registry := []
  upstream := {
    py := plainPython
    installedTags := []
    respond := fun _ => .error .httpError
    openStream := fun _ => .error .httpError }
  columns := plainColumns
  runTool _ := .ok (.obj [(↑"text", .str text)])
  durationMs := 0

def pageLedger : Ledger := .started { id := ↑"c" }

theorem shortPage_recorded :
    RecordsRound (pageHost ↑"short") ↑"c" [] ↑"TOOL_CALL" ↑"fetch_page" [] [↑"fetch_page"]
      pageLedger (.obj [(↑"text", .str ↑"short")]) := by
  have floats := printableFloats_plainPython
  have results : Results (pageHost ↑"short") ↑"fetch_page" [] [↑"fetch_page"] pageLedger
      (.obj [(↑"text", .str ↑"short")]) := by
    rw [Results, if_pos (by decide)]
    rfl
  have serialisable : Json.Serialisable plainPython plainPython.nesting
      (.obj [(↑"text", .str ↑"short")]) :=
    ⟨by decide, by decide, (by decide : ∀ c ∈ Text.ofString "short", c < 0x110000), trivial⟩
  exact (recordsRound_iff (pageHost ↑"short") ↑"c" [] ↑"TOOL_CALL" ↑"fetch_page" []
    [↑"fetch_page"] floats (by decide) results serialisable).mpr
      ⟨by decide, ⟨898, rfl, rfl, rfl⟩, by decide⟩

/-- A page of 4000 characters: its JSON is cut, and what is left is no JSON. -/
theorem longPage_raises :
    ¬ RecordsRound (pageHost (List.replicate 4000 97)) ↑"c" [] ↑"TOOL_CALL" ↑"fetch_page" []
      [↑"fetch_page"] pageLedger (.obj [(↑"text", .str (List.replicate 4000 97))]) := by
  have raised : (match (executeToolRound (pageHost (List.replicate 4000 97)) ↑"c" [] ↑"TOOL_CALL"
      ↑"fetch_page" [] [↑"fetch_page"]).run pageLedger with
      | .error .jsonDecodeError _ => true
      | _ => false) = true := by decide +kernel
  rintro ⟨ledger, row, ran, -⟩
  rw [ran] at raised
  cases raised

end Page

end AgenticOctopus.Chat
