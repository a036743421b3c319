import Mathlib.Tactic

/-!
# Dictionaries in insertion order

A dictionary is the list of its items. Assigning an existing key keeps its place, a new key
goes to the end, and `update` is `{**d, **e}`: the later items win.
-/
namespace AgenticOctopus.Foundation

abbrev Dict (κ α : Type) := List (κ × α)

namespace Dict

variable {κ α : Type} [DecidableEq κ]

def get? : Dict κ α → κ → Option α
  | [], _ => none
  | (k', v) :: d, k => if k' = k then some v else get? d k

def set : Dict κ α → κ → α → Dict κ α
  | [], k, v => [(k, v)]
  | (k', w) :: d, k, v => if k' = k then (k, v) :: d else (k', w) :: set d k v

/-- `d.pop(k, None)`, as far as the dictionary is concerned. -/
def erase (d : Dict κ α) (k : κ) : Dict κ α := d.filter fun p => p.1 ≠ k

def update (d e : Dict κ α) : Dict κ α := e.foldl (fun d p => set d p.1 p.2) d

omit [DecidableEq κ] in
@[simp] theorem get?_nil [DecidableEq κ] (k : κ) : get? ([] : Dict κ α) k = none := rfl

theorem get?_cons (k' : κ) (v : α) (d : Dict κ α) (k : κ) :
    get? ((k', v) :: d) k = if k' = k then some v else get? d k := rfl

theorem get?_set (d : Dict κ α) (k k' : κ) (v : α) :
    get? (set d k v) k' = if k = k' then some v else get? d k' := by
  induction d with
  | nil => simp [set, get?_cons]
  | cons p d ih =>
    obtain ⟨j, w⟩ := p
    by_cases hj : j = k
    · subst hj
      by_cases hk : j = k' <;> simp [set, get?_cons, hk]
    · by_cases hk : j = k'
      · subst hk
        simp [set, get?_cons, hj, Ne.symm hj]
      · simp [set, get?_cons, hj, hk, ih]

@[simp] theorem get?_set_self (d : Dict κ α) (k : κ) (v : α) : get? (set d k v) k = some v := by
  simp [get?_set]

theorem get?_set_of_ne (d : Dict κ α) {k k' : κ} (v : α) (h : k ≠ k') :
    get? (set d k v) k' = get? d k' := by simp [get?_set, h]

theorem get?_erase (d : Dict κ α) (k k' : κ) :
    get? (erase d k) k' = if k = k' then none else get? d k' := by
  induction d with
  | nil => simp [erase]
  | cons p d ih =>
    obtain ⟨j, w⟩ := p
    unfold erase at ih ⊢
    by_cases hj : j = k
    · subst hj
      rw [List.filter_cons_of_neg (by simp), ih]
      by_cases hk : j = k' <;> simp [get?_cons, hk]
    · rw [List.filter_cons_of_pos (by simpa using hj), get?_cons, get?_cons, ih]
      by_cases hk : j = k'
      · subst hk
        simp [Ne.symm hj]
      · simp [hk]

theorem get?_foldl_erase (d : Dict κ α) {keys : List κ} {k : κ} (h : k ∉ keys) :
    get? (keys.foldl erase d) k = get? d k := by
  induction keys generalizing d with
  | nil => rfl
  | cons j keys ih =>
    have ne : j ≠ k := fun same => h (same ▸ List.mem_cons_self)
    have rest : k ∉ keys := fun mem => h (List.mem_cons_of_mem j mem)
    rw [List.foldl_cons, ih (erase d j) rest, get?_erase, if_neg ne]

/-- Merging leaves a key alone that the later items do not have. -/
theorem get?_update_of_none (d e : Dict κ α) {k : κ} (h : get? e k = none) :
    get? (update d e) k = get? d k := by
  induction e generalizing d with
  | nil => rfl
  | cons p e ih =>
    obtain ⟨j, v⟩ := p
    by_cases hj : j = k
    · simp [get?_cons, hj] at h
    · rw [get?_cons, if_neg hj] at h
      calc get? (update d ((j, v) :: e)) k = get? (update (set d j v) e) k := rfl
        _ = get? (set d j v) k := ih (set d j v) h
        _ = get? d k := get?_set_of_ne d v hj

/-! ## A key apart -/

theorem erase_set (d : Dict κ α) (k j : κ) (v : α) :
    erase (set d k v) j = if k = j then erase d j else set (erase d j) k v := by
  induction d with
  | nil => by_cases same : k = j <;> simp [set, erase, same]
  | cons p d ih =>
    obtain ⟨i, w⟩ := p
    unfold erase at ih ⊢
    by_cases here : i = k <;> by_cases gone : i = j <;> grind [set]

theorem erase_update (d e : Dict κ α) (j : κ) :
    erase (update d e) j = update (erase d j) (erase e j) := by
  induction e generalizing d with
  | nil => rfl
  | cons p e ih =>
    have step := ih (set d p.1 p.2)
    rw [erase_set] at step
    by_cases gone : p.1 = j
    · rw [if_pos gone] at step
      simpa [update, erase, gone] using step
    · rw [if_neg gone] at step
      simpa [update, erase, gone] using step

def keys (d : Dict κ α) : List κ := d.map Prod.fst

theorem mem_keys_set {d : Dict κ α} {k j : κ} {v : α} :
    j ∈ keys (set d k v) ↔ j = k ∨ j ∈ keys d := by
  induction d with
  | nil => simp [set, keys]
  | cons p d ih =>
    obtain ⟨i, w⟩ := p
    unfold keys at ih ⊢
    by_cases here : i = k <;> grind [set]

theorem nodup_set {d : Dict κ α} (distinct : (keys d).Nodup) (k : κ) (v : α) :
    (keys (set d k v)).Nodup := by
  induction d with
  | nil => simp [set, keys]
  | cons p d ih =>
    obtain ⟨i, w⟩ := p
    have others := mem_keys_set (d := d) (k := k) (v := v) (j := i)
    unfold keys at ih distinct others ⊢
    by_cases here : i = k <;> grind [set]

theorem nodup_update {d : Dict κ α} (distinct : (keys d).Nodup) (e : Dict κ α) :
    (keys (update d e)).Nodup := by
  induction e generalizing d with
  | nil => exact distinct
  | cons p e ih => exact ih (nodup_set distinct p.1 p.2)

omit [DecidableEq κ] in
theorem nodup_filter {d : Dict κ α} (distinct : (keys d).Nodup) (ok : κ × α → Bool) :
    (keys (d.filter ok)).Nodup :=
  distinct.sublist (List.filter_sublist.map Prod.fst)

theorem get?_eq_none_iff {d : Dict κ α} {k : κ} : get? d k = none ↔ k ∉ keys d := by
  induction d with
  | nil => simp [keys]
  | cons p d ih =>
    obtain ⟨i, w⟩ := p
    unfold keys at ih ⊢
    grind [get?]

theorem mem_iff_get? {d : Dict κ α} (distinct : (keys d).Nodup) {k : κ} {v : α} :
    (k, v) ∈ d ↔ get? d k = some v := by
  induction d with
  | nil => simp
  | cons p d ih =>
    obtain ⟨i, w⟩ := p
    have absent := get?_eq_none_iff (d := d) (k := i)
    unfold keys at ih distinct absent
    grind [get?]

theorem get?_filter {d : Dict κ α} (distinct : (keys d).Nodup) (ok : α → Bool) (k : κ) :
    get? (d.filter fun p => ok p.2) k = (get? d k).filter ok := by
  induction d with
  | nil => rfl
  | cons p d ih =>
    obtain ⟨i, w⟩ := p
    have absent := get?_eq_none_iff (d := d) (k := i)
    unfold keys at ih distinct absent
    grind [get?]

/-- Items that name the key decide what it has, whatever was there before. -/
theorem get?_update_of_some {e : Dict κ α} {k : κ} (h : get? e k ≠ none) (d d' : Dict κ α) :
    get? (update d e) k = get? (update d' e) k := by
  induction e generalizing d d' with
  | nil => exact (h rfl).elim
  | cons p e ih =>
    obtain ⟨i, w⟩ := p
    change get? (update (set d i w) e) k = get? (update (set d' i w) e) k
    by_cases later : get? e k = none
    · rw [get?_update_of_none _ _ later, get?_update_of_none _ _ later]
      grind [get?, get?_set]
    · exact ih later _ _

theorem set_of_not_mem {d : Dict κ α} {k : κ} (new : k ∉ keys d) (v : α) :
    set d k v = d ++ [(k, v)] := by
  induction d with
  | nil => rfl
  | cons p d ih =>
    obtain ⟨i, w⟩ := p
    unfold keys at ih new
    grind [set]

/-- Items whose keys are all new are added in order. -/
theorem update_of_disjoint {d e : Dict κ α} (distinct : (keys e).Nodup)
    (new : List.Disjoint (keys d) (keys e)) : update d e = d ++ e := by
  induction e generalizing d with
  | nil => simp [update]
  | cons p e ih =>
    obtain ⟨i, w⟩ := p
    unfold keys at ih distinct new
    rw [List.map_cons, List.disjoint_cons_right] at new
    rw [List.map_cons, List.nodup_cons] at distinct
    have rest := ih (d := d ++ [(i, w)]) distinct.2 (by
      rw [List.map_append, List.disjoint_append_left]
      exact ⟨new.2, by simpa using distinct.1⟩)
    change update (set d i w) e = _
    rw [set_of_not_mem new.1, rest, List.append_assoc]
    rfl

end Dict

end AgenticOctopus.Foundation
