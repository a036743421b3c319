import AgenticOctopus.Foundation.Encoding
import AgenticOctopus.Foundation.Framing
import AgenticOctopus.Foundation.Lines

/-!
# Server-sent events that carry JSON

A frame is a line `data: …` and a blank line; the payload is a JSON text, or `[DONE]` at the
end. JSON texts are printable ASCII, so neither a line break nor white space at the ends of a
payload is mistaken for the framing.
-/
namespace AgenticOctopus.Foundation

inductive Frame where
  | data (v : Json)
  | done

namespace Frame

def doneText : Text := ↑"[DONE]"

def payload (py : Interpreter) : Frame → Text
  | .data v => v.dumped py
  | .done => doneText

/-- The line of a frame, without its end. -/
def line (py : Interpreter) (f : Frame) : Text := ↑"data: " ++ f.payload py

/-- `f"data: {json.dumps(chunk)}\n\n"` -/
def text (py : Interpreter) (f : Frame) : Text := f.line py ++ ↑"\n\n"

/-- The frames as bytes, each encoded by itself. -/
def wire (py : Interpreter) : List Frame → Option Bytes
  | [] => some []
  | f :: fs => do return (← Bytes.encode (f.text py)) ++ (← wire py fs)

variable {py : Interpreter}

theorem printable_payload (floats : Json.PrintableFloats py) (f : Frame) :
    Json.Printable (f.payload py) := by
  cases f with
  | data v => exact Json.printable_dumped floats v
  | done => exact (by decide : Json.Printable doneText)

theorem printable_line (floats : Json.PrintableFloats py) (f : Frame) :
    Json.Printable (f.line py) :=
  Json.Printable.append (by decide : Json.Printable ↑"data: ") (printable_payload floats f)

theorem ascii_text (floats : Json.PrintableFloats py) (f : Frame) : Bytes.Ascii (f.text py) :=
  (Bytes.ascii_of_printable (printable_line floats f)).append
    (by decide : Bytes.Ascii ↑"\n\n")

theorem ascii_texts (floats : Json.PrintableFloats py) (fs : List Frame) :
    Bytes.Ascii (fs.flatMap (text py)) := by
  intro c mem
  obtain ⟨f, -, mem⟩ := List.mem_flatMap.mp mem
  exact ascii_text floats f c mem

theorem wire_eq (floats : Json.PrintableFloats py) (fs : List Frame) :
    wire py fs = some (Bytes.ofText (fs.flatMap (text py))) := by
  induction fs with
  | nil => rfl
  | cons f fs ih =>
    rw [wire, Bytes.encode_ascii (ascii_text floats f), ih, List.flatMap_cons,
      Bytes.ofText_append]
    rfl

/-! ## Framing -/

/-- A line feed, as a byte. -/
def feed : UInt8 := 10

theorem feed_not_mem {t : Text} (printable : Json.Printable t) : feed ∉ Bytes.ofText t := by
  intro mem
  obtain ⟨c, char, code⟩ := List.mem_map.mp mem
  have range := printable c char
  have small := congrArg UInt8.toNat code
  rw [Bytes.toNat_toUInt8 (by omega)] at small
  have ten : feed.toNat = 10 := rfl
  omega

/-- On the wire, every frame is a block that ends at a blank line. -/
theorem ofText_texts (py : Interpreter) (fs : List Frame) :
    Bytes.ofText (fs.flatMap (text py)) =
      (fs.map fun f => Bytes.ofText (f.line py)).flatMap fun block => block ++ [feed, feed] := by
  induction fs with
  | nil => rfl
  | cons f fs ih =>
    rw [List.flatMap_cons, Bytes.ofText_append, ih, List.map_cons, List.flatMap_cons, text,
      Bytes.ofText_append]
    rfl

theorem feed_not_mem_lines (floats : Json.PrintableFloats py) {fs : List Frame} :
    ∀ block ∈ fs.map fun f => Bytes.ofText (f.line py), feed ∉ block := by
  intro block mem
  obtain ⟨f, -, rfl⟩ := List.mem_map.mp mem
  exact feed_not_mem (printable_line floats f)

theorem splitOn_line {line : Bytes} (inside : feed ∉ line) : line.splitOn feed = [line] := by
  refine List.splitOnP_eq_singleton fun b mem => ?_
  rw [beq_eq_false_iff_ne]
  rintro rfl
  exact inside mem

/-- As text, every frame is its line and an empty one. -/
theorem splitlines_texts (floats : Json.PrintableFloats py) (fs : List Frame) :
    Text.splitlines (fs.flatMap (text py)) = fs.flatMap fun f => [f.line py, []] := by
  induction fs with
  | nil => rfl
  | cons f fs ih =>
    have inside : ∀ c ∈ f.line py, Text.isLineBreak c = false := by
      intro c mem
      have range := printable_line floats f c mem
      simp [Text.isLineBreak]
      omega
    have shape : (f :: fs).flatMap (text py) =
        f.line py ++ 10 :: ([] ++ 10 :: fs.flatMap (text py)) := by
      rw [List.flatMap_cons, text, List.append_assoc]
      rfl
    rw [shape, Text.splitlines_line inside, Text.splitlines_line (by simp), ih]
    rfl

/-! ## Payloads -/

/-- An object's text is one that stripping leaves alone. -/
theorem exists_braces (py : Interpreter) (fields : List (Text × Json)) :
    ∃ t, Json.dumped py (.obj fields) = 123 :: t ++ [125] :=
  ⟨_, by rw [Json.dumped]; rfl⟩

theorem strip_object (py : Interpreter) (fields : List (Text × Json)) :
    Text.strip (Json.dumped py (.obj fields)) = Json.dumped py (.obj fields) := by
  obtain ⟨t, braces⟩ := exists_braces py fields
  rw [braces]
  exact Text.trim_eq_self t (by decide) (by decide)

theorem strip_object_bytes (py : Interpreter) (fields : List (Text × Json)) :
    Bytes.strip (Bytes.ofText (Json.dumped py (.obj fields))) =
      Bytes.ofText (Json.dumped py (.obj fields)) := by
  obtain ⟨t, braces⟩ := exists_braces py fields
  rw [braces, Bytes.ofText_append]
  exact Text.trim_eq_self (Bytes.ofText t) (by decide) (by decide)

theorem object_ne_doneText (py : Interpreter) (fields : List (Text × Json)) :
    Json.dumped py (.obj fields) ≠ doneText := by
  obtain ⟨t, braces⟩ := exists_braces py fields
  rw [braces]
  intro same
  cases same

end Frame

end AgenticOctopus.Foundation
