import AgenticOctopus.Chat.Context

/-!
# The tags of a message

`merge_tags` cuts keys and values, so tags may fall on one key. A short key is apart from
that: what it has does not change what the others have.
-/
namespace AgenticOctopus.Chat
open Foundation Providers

/-- Keys are cut to 64 characters and values to 200. -/
def cutTag (py : Interpreter) (d : Dict Text Json) (p : Text × Json) : Dict Text Json :=
  d.set (p.1.take 64) (.str ((p.2.toStr py).take 200))

theorem nodup_foldl_cutTag (py : Interpreter) (tags : Dict Text Json) {d : Dict Text Json}
    (distinct : (Dict.keys d).Nodup) : (Dict.keys (tags.foldl (cutTag py) d)).Nodup := by
  induction tags generalizing d with
  | nil => exact distinct
  | cons p tags ih => exact ih (Dict.nodup_set distinct _ _)

def isNull : Json → Bool
  | .null => true
  | _ => false

theorem mergeTags_eq (py : Interpreter) (auto : Dict Text Json)
    (manual : Option (Dict Text Json)) :
    mergeTags py auto manual =
      ((auto.update (manual.getD [])).filter fun p => !isNull p.2).foldl (cutTag py) [] := by
  have kept : ∀ tags : Dict Text Json, (tags.filter fun p => match p.2 with
      | .null => false
      | _ => true) = tags.filter fun p => !isNull p.2 := by
    intro tags
    refine List.filter_congr fun p _ => ?_
    cases p.2 <;> rfl
  exact congrArg (List.foldl (cutTag py) []) (kept _)

theorem storableFields_iff {d : Dict Text Json} :
    Json.storableFields d = true ↔
      ∀ p ∈ d, Json.paired false p.1 = true ∧ Json.storable p.2 = true := by
  induction d with
  | nil => simp [Json.storableFields]
  | cons p d ih => simp [Json.storableFields, ih]

theorem storableFields_apart {d : Dict Text Json} (distinct : (Dict.keys d).Nodup) (s : Text) :
    Json.storableFields d = true ↔ Json.storableFields (Dict.erase d s) = true ∧
      ∀ v, Dict.get? d s = some v → Json.paired false s = true ∧ Json.storable v = true := by
  rw [storableFields_iff, storableFields_iff]
  constructor
  · intro all
    exact ⟨fun p mem => all p (List.mem_filter.mp mem).1,
      fun v there => all (s, v) ((Dict.mem_iff_get? distinct).mpr there)⟩
  · rintro ⟨others, here⟩ ⟨k, v⟩ mem
    by_cases same : k = s
    · subst same
      exact here v ((Dict.mem_iff_get? distinct).mp mem)
    · exact others (k, v) (List.mem_filter.mpr ⟨mem, by simpa using same⟩)

section ShortKey

variable {s : Text} (short : s.length < 64)

include short

theorem take_eq_short {k : Text} : k.take 64 = s ↔ k = s := by
  constructor
  · rintro rfl
    rw [List.length_take] at short
    exact (List.take_of_length_le (by omega)).symm
  · rintro rfl
    exact List.take_of_length_le (by omega)

theorem erase_foldl_cutTag (py : Interpreter) (tags d : Dict Text Json) :
    Dict.erase (tags.foldl (cutTag py) d) s =
      (Dict.erase tags s).foldl (cutTag py) (Dict.erase d s) := by
  induction tags generalizing d with
  | nil => rfl
  | cons p tags ih =>
    rw [List.foldl_cons, ih, cutTag, Dict.erase_set]
    by_cases same : p.1 = s <;> simp [take_eq_short short, same, Dict.erase, cutTag]

theorem get?_foldl_cutTag (py : Interpreter) {tags : Dict Text Json}
    (distinct : (Dict.keys tags).Nodup) (d : Dict Text Json) :
    Dict.get? (tags.foldl (cutTag py) d) s =
      match Dict.get? tags s with
      | some v => some (.str ((v.toStr py).take 200))
      | none => Dict.get? d s := by
  induction tags generalizing d with
  | nil => rfl
  | cons p tags ih =>
    obtain ⟨i, w⟩ := p
    have rest := ih (List.Nodup.of_cons distinct) (cutTag py d (i, w))
    have absent := Dict.get?_eq_none_iff (d := tags) (k := i)
    unfold Dict.keys at distinct absent
    rw [List.foldl_cons, rest, Dict.get?_cons]
    by_cases same : i = s
    · grind [cutTag, Dict.get?_set, take_eq_short]
    · grind [cutTag, Dict.get?_set, take_eq_short]

/-- A tag that the stream sets does not change whether the column takes the tags. -/
theorem storable_mergeTags (py : Interpreter) {auto : Dict Text Json}
    (distinct : (Dict.keys auto).Nodup) (new : s ∉ Dict.keys auto) {value : Json}
    (some_value : isNull value = false)
    (fine : Json.paired false s = true ∧
      Json.storable (.str ((value.toStr py).take 200)) = true)
    (manual : Option (Dict Text Json)) :
    Json.storable (.obj (mergeTags py (auto.set s value) manual)) =
      Json.storable (.obj (mergeTags py auto manual)) := by
  have apart : ∀ {d : Dict Text Json}, (Dict.keys d).Nodup →
      (Json.storableFields (mergeTags py d manual) = true ↔
        Json.storableFields (mergeTags py (Dict.erase d s) (some (Dict.erase (manual.getD []) s))) =
            true ∧
          ∀ v, (Dict.get? (d.update (manual.getD [])) s).filter (!isNull ·) = some v →
            Json.paired false s = true ∧ Json.storable (.str ((v.toStr py).take 200)) = true) := by
    intro d distinct
    have updated := Dict.nodup_update distinct (manual.getD [])
    have filtered := Dict.nodup_filter updated fun p => !isNull p.2
    have erased : Dict.erase ((d.update (manual.getD [])).filter fun p => !isNull p.2) s =
        ((Dict.erase d s).update (Dict.erase (manual.getD []) s)).filter fun p => !isNull p.2 := by
      rw [← Dict.erase_update]
      unfold Dict.erase
      rw [List.filter_filter, List.filter_filter]
      simp [Bool.and_comm]
    rw [mergeTags_eq, mergeTags_eq,
      storableFields_apart (nodup_foldl_cutTag py _ (by simp [Dict.keys])) s,
      erase_foldl_cutTag short,
      get?_foldl_cutTag short py filtered,
      Dict.get?_filter updated (!isNull ·), erased]
    refine and_congr_right fun _ => ?_
    cases (Dict.get? (d.update (manual.getD [])) s).filter (!isNull ·) <;> simp
  have same_rest : Dict.erase (auto.set s value) s = Dict.erase auto s := by
    rw [Dict.erase_set, if_pos rfl]
  rw [Bool.eq_iff_iff]
  unfold Json.storable
  rw [apart (Dict.nodup_set distinct s value), apart distinct, same_rest]
  refine and_congr_right fun _ => ?_
  by_cases given : Dict.get? (manual.getD []) s = none
  · have absent : Dict.get? auto s = none := Dict.get?_eq_none_iff.mpr new
    rw [Dict.get?_update_of_none _ _ given, Dict.get?_update_of_none _ _ given,
      Dict.get?_set_self, absent]
    simp [some_value, fine]
  · rw [Dict.get?_update_of_some given _ auto]

end ShortKey

end AgenticOctopus.Chat
