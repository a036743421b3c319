import AgenticOctopus.Foundation.JsonRounding

/-!
# How deep a value is nested

`json.dumps` takes a value that is nested no deeper than the interpreter allows. What `json.loads`
returned is such a value, and so is what is made of it by putting texts in the place of members.
-/
namespace AgenticOctopus.Foundation.Json

theorem nests_obj_iff {depth : Nat} {fields : Dict Text Json} :
    (Json.obj fields).nests depth = true ↔ ∃ d, depth = d + 1 ∧ nestsFields d fields = true := by
  cases depth <;> simp [nests]

theorem nests_arr_iff {depth : Nat} {items : List Json} :
    (Json.arr items).nests depth = true ↔ ∃ d, depth = d + 1 ∧ nestsItems d items = true := by
  cases depth <;> simp [nests]

mutual

theorem nests_mono (v : Json) {m n : Nat} (le : m ≤ n) (h : v.nests m = true) :
    v.nests n = true := by
  match v with
  | .arr items =>
    obtain ⟨d, rfl, inner⟩ := nests_arr_iff.mp h
    obtain ⟨k, rfl⟩ : ∃ k, n = k + 1 := ⟨n - 1, by omega⟩
    exact nestsItems_mono items (by omega) inner
  | .obj fields =>
    obtain ⟨d, rfl, inner⟩ := nests_obj_iff.mp h
    obtain ⟨k, rfl⟩ : ∃ k, n = k + 1 := ⟨n - 1, by omega⟩
    exact nestsFields_mono fields (by omega) inner
  | .null | .bool _ | .int _ | .float _ _ _ | .nan | .infinity _ | .str _ => rfl

theorem nestsItems_mono (items : List Json) {m n : Nat} (le : m ≤ n)
    (h : nestsItems m items = true) : nestsItems n items = true := by
  match items with
  | [] => rfl
  | v :: vs =>
    rw [nestsItems, Bool.and_eq_true] at h ⊢
    exact ⟨nests_mono v le h.1, nestsItems_mono vs le h.2⟩

theorem nestsFields_mono (fields : List (Text × Json)) {m n : Nat} (le : m ≤ n)
    (h : nestsFields m fields = true) : nestsFields n fields = true := by
  match fields with
  | [] => rfl
  | (_, v) :: fields =>
    rw [nestsFields, Bool.and_eq_true] at h ⊢
    exact ⟨nests_mono v le h.1, nestsFields_mono fields le h.2⟩

end

/-! ## Values that are nested within the limit -/

mutual

theorem nests_of_serialisable {py : Interpreter} (v : Json) {depth : Nat}
    (h : Serialisable py depth v) : v.nests depth = true := by
  match v, depth with
  | .arr items, depth + 1 => exact nestsItems_of_serialisable items h
  | .obj fields, depth + 1 => exact nestsFields_of_serialisable fields h.2
  | .arr _, 0 | .obj _, 0 => exact (h : False).elim
  | .null, _ | .bool _, _ | .int _, _ | .float _ _ _, _ | .nan, _ | .infinity _, _ | .str _, _ => rfl

theorem nestsItems_of_serialisable {py : Interpreter} (items : List Json) {depth : Nat}
    (h : SerialisableItems py depth items) : nestsItems depth items = true := by
  match items with
  | [] => rfl
  | v :: vs =>
    rw [nestsItems, Bool.and_eq_true]
    exact ⟨nests_of_serialisable v h.1, nestsItems_of_serialisable vs h.2⟩

theorem nestsFields_of_serialisable {py : Interpreter} (fields : List (Text × Json)) {depth : Nat}
    (h : SerialisableFields py depth fields) : nestsFields depth fields = true := by
  match fields with
  | [] => rfl
  | (_, v) :: fields =>
    rw [nestsFields, Bool.and_eq_true]
    exact ⟨nests_of_serialisable v h.2.1, nestsFields_of_serialisable fields h.2.2⟩

end

mutual

theorem nests_of_loaded (v : Json) {depth : Nat} (h : Loaded depth v) : v.nests depth = true := by
  match v, depth with
  | .arr items, depth + 1 => exact nestsItems_of_loaded items h
  | .obj fields, depth + 1 => exact nestsFields_of_loaded fields h.2
  | .arr _, 0 | .obj _, 0 => exact (h : False).elim
  | .null, _ | .bool _, _ | .int _, _ | .float _ _ _, _ | .nan, _ | .infinity _, _ | .str _, _ => rfl

theorem nestsItems_of_loaded (items : List Json) {depth : Nat} (h : LoadedItems depth items) :
    nestsItems depth items = true := by
  match items with
  | [] => rfl
  | v :: vs =>
    rw [nestsItems, Bool.and_eq_true]
    exact ⟨nests_of_loaded v h.1, nestsItems_of_loaded vs h.2⟩

theorem nestsFields_of_loaded (fields : List (Text × Json)) {depth : Nat}
    (h : LoadedFields depth fields) : nestsFields depth fields = true := by
  match fields with
  | [] => rfl
  | (_, v) :: fields =>
    rw [nestsFields, Bool.and_eq_true]
    exact ⟨nests_of_loaded v h.2.1, nestsFields_of_loaded fields h.2.2⟩

end

/-! ## Members of an object -/

theorem nests_of_get? {depth : Nat} {fields : Dict Text Json} {key : Text} {v : Json}
    (inner : nestsFields depth fields = true) (found : Dict.get? fields key = some v) :
    v.nests depth = true := by
  induction fields with
  | nil => cases found
  | cons p fields ih =>
    obtain ⟨k, w⟩ := p
    rw [nestsFields, Bool.and_eq_true] at inner
    rw [Dict.get?_cons] at found
    split_ifs at found
    · cases found
      exact inner.1
    · exact ih inner.2 found

theorem nestsFields_set {depth : Nat} {fields : Dict Text Json} {v : Json}
    (inner : nestsFields depth fields = true) (here : v.nests depth = true) (key : Text) :
    nestsFields depth (Dict.set fields key v) = true := by
  induction fields with
  | nil => simp [Dict.set, nestsFields, here]
  | cons p fields ih =>
    obtain ⟨k, w⟩ := p
    rw [nestsFields, Bool.and_eq_true] at inner
    rw [Dict.set]
    split_ifs
    · simp [nestsFields, here, inner.2]
    · simp [nestsFields, inner.1, ih inner.2]

end AgenticOctopus.Foundation.Json
