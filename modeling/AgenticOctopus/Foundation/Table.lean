import Mathlib.Tactic

/-!
# Tables with a primary key

A table is a list of rows in insertion order whose keys are distinct; the distinctness is a
field, so a table with two rows of one key cannot be built. `find?` reads a row by its key,
`insert` asks for a key that is free, and `update` is `UPDATE … SET … WHERE …`: it rewrites
the rows that match and never the key. A serial table draws its keys from a sequence, so
reading it in key order is reading it in insertion order.
-/
namespace AgenticOctopus.Foundation

structure Table (κ α : Type*) (key : α → κ) where
  rows : List α
  distinct : (rows.map key).Nodup

namespace Table

variable {κ α : Type*} {key : α → κ}

/-- A `SET` clause: it changes columns of a row, never the primary key. -/
structure Assignment (key : α → κ) where
  apply : α → α
  keeps_key : ∀ a, key (apply a) = key a := by intro _; rfl

theorem ext_rows {t u : Table κ α key} (same : t.rows = u.rows) : t = u := by
  cases t
  cases u
  cases same
  rfl

def empty : Table κ α key := ⟨[], List.nodup_nil⟩

instance : Membership α (Table κ α key) := ⟨fun t a => a ∈ t.rows⟩

theorem mem_def {t : Table κ α key} {a : α} : a ∈ t ↔ a ∈ t.rows := Iff.rfl

variable [DecidableEq κ]

def find? (t : Table κ α key) (k : κ) : Option α := t.rows.find? fun a => key a = k

theorem find?_eq_some {t : Table κ α key} {k : κ} {a : α} :
    t.find? k = some a ↔ a ∈ t ∧ key a = k := by
  constructor
  · intro h
    exact ⟨List.mem_of_find?_eq_some h, by simpa using List.find?_some h⟩
  · rintro ⟨ha, rfl⟩
    have some_row : (t.find? (key a)).isSome := by
      simp only [find?, List.find?_isSome, decide_eq_true_eq]
      exact ⟨a, ha, rfl⟩
    obtain ⟨b, hb⟩ := Option.isSome_iff_exists.mp some_row
    have same_key : key b = key a := by simpa using List.find?_some hb
    rw [hb, List.inj_on_of_nodup_map t.distinct (List.mem_of_find?_eq_some hb) ha same_key]

theorem find?_of_mem {t : Table κ α key} {a : α} (h : a ∈ t) : t.find? (key a) = some a :=
  find?_eq_some.mpr ⟨h, rfl⟩

theorem mem_of_find? {t : Table κ α key} {k : κ} {a : α} (h : t.find? k = some a) : a ∈ t :=
  (find?_eq_some.mp h).1

theorem key_of_find? {t : Table κ α key} {k : κ} {a : α} (h : t.find? k = some a) : key a = k :=
  (find?_eq_some.mp h).2

theorem find?_eq_none {t : Table κ α key} {k : κ} : t.find? k = none ↔ ∀ a ∈ t, key a ≠ k := by
  simp [find?, List.find?_eq_none, mem_def]

def contains (t : Table κ α key) (k : κ) : Bool := (t.find? k).isSome

/-! ## INSERT -/

def insert (t : Table κ α key) (a : α) (fresh : t.find? (key a) = none) : Table κ α key where
  rows := t.rows ++ [a]
  distinct := by
    rw [List.map_append, List.nodup_append]
    refine ⟨t.distinct, List.nodup_singleton _, ?_⟩
    intro k hk k' hk'
    obtain ⟨b, hb, rfl⟩ := List.mem_map.mp hk
    simp only [List.map_cons, List.map_nil, List.mem_singleton] at hk'
    subst hk'
    exact find?_eq_none.mp fresh b hb

@[simp] theorem mem_insert {t : Table κ α key} {a b : α} {fresh : t.find? (key a) = none} :
    b ∈ t.insert a fresh ↔ b ∈ t ∨ b = a := by
  simp [mem_def, insert]

theorem find?_insert (t : Table κ α key) (a : α) (fresh : t.find? (key a) = none) (k : κ) :
    (t.insert a fresh).find? k = if key a = k then some a else t.find? k := by
  by_cases hk : key a = k
  · rw [if_pos hk]
    exact find?_eq_some.mpr ⟨mem_insert.mpr (.inr rfl), hk⟩
  · simp [find?, insert, hk]

/-! ## UPDATE -/

def update (t : Table κ α key) (p : α → Bool) (f : Assignment key) : Table κ α key where
  rows := t.rows.map fun a => if p a then f.apply a else a
  distinct := by
    have same : (key ∘ fun a => if p a then f.apply a else a) = key := by
      funext a
      by_cases h : p a <;> simp [h, f.keeps_key]
    rw [List.map_map, same]
    exact t.distinct

/-- The number of rows an `UPDATE … WHERE p` touches. -/
def rowcount (t : Table κ α key) (p : α → Bool) : Nat := t.rows.countP p

theorem find?_update (t : Table κ α key) (p : α → Bool) (f : Assignment key) (k : κ) :
    (t.update p f).find? k = (t.find? k).map fun a => if p a then f.apply a else a := by
  have same : ((fun a => decide (key a = k)) ∘ fun a => if p a then f.apply a else a) =
      fun a => decide (key a = k) := by
    funext a
    by_cases h : p a <;> simp [h, f.keeps_key]
  rw [find?, update, List.find?_map, same]
  rfl

/-- `UPDATE … WHERE key = k` rewrites the row of that key. -/
theorem find?_update_key (t : Table κ α key) (k : κ) (f : Assignment key) (j : κ) :
    (t.update (fun a => decide (key a = k)) f).find? j =
      if j = k then (t.find? j).map f.apply else t.find? j := by
  rw [find?_update]
  cases there : t.find? j with
  | none => simp
  | some a =>
    have same : key a = j := key_of_find? there
    by_cases h : j = k <;> simp [same, h]

omit [DecidableEq κ] in
theorem mem_update {t : Table κ α key} {p : α → Bool} {f : Assignment key} {b : α} :
    b ∈ t.update p f ↔ ∃ a ∈ t, (if p a then f.apply a else a) = b := by
  simp [mem_def, update]

omit [DecidableEq κ] in
theorem update_of_none {t : Table κ α key} {p : α → Bool} {f : Assignment key}
    (none : ∀ a ∈ t, p a = false) : t.update p f = t := by
  have rows : (t.rows.map fun a => if p a then f.apply a else a) = t.rows := by
    refine (List.map_congr_left fun a mem => ?_).trans (List.map_id t.rows)
    simp [none a mem]
  cases t
  simpa [update] using rows

omit [DecidableEq κ] in
theorem rowcount_eq_zero {t : Table κ α key} {p : α → Bool} :
    t.rowcount p = 0 ↔ ∀ a ∈ t, p a = false := by
  simp [rowcount, mem_def]

/-- A condition on the primary key matches one row when that row satisfies the rest of it,
and none otherwise. -/
theorem rowcount_key (t : Table κ α key) (k : κ) (q : α → Bool) :
    t.rowcount (fun a => decide (key a = k) && q a) =
      if (t.find? k).any q then 1 else 0 := by
  have sub : ∀ l : List α, (l.map key).Nodup →
      l.countP (fun a => decide (key a = k) && q a) =
        if (l.find? fun a => key a = k).any q then 1 else 0 := by
    intro l
    induction l with
    | nil => simp
    | cons a l ih =>
      intro nd
      obtain ⟨absent, nd⟩ := List.nodup_cons.mp nd
      by_cases hk : key a = k
      · have none_left : l.countP (fun a => decide (key a = k) && q a) = 0 := by
          rw [List.countP_eq_zero]
          intro b hb
          have : key b ≠ k := fun h => absent (List.mem_map.mpr ⟨b, hb, h.trans hk.symm⟩)
          simp [this]
        rw [List.countP_cons, none_left]
        simp [hk]
      · rw [List.countP_cons, ih nd]
        simp [hk]
  exact sub t.rows t.distinct

/-! ## DELETE -/

def delete (t : Table κ α key) (p : α → Bool) : Table κ α key where
  rows := t.rows.filter fun a => !p a
  distinct := t.distinct.sublist (List.filter_sublist.map key)

/-- `DELETE … WHERE key = k` removes the row of that key. -/
theorem find?_delete_key (t : Table κ α key) (k j : κ) :
    (t.delete fun a => decide (key a = k)).find? j = if j = k then none else t.find? j := by
  by_cases own : j = k
  · rw [if_pos own, find?_eq_none]
    rintro a mem rfl
    simp only [mem_def, delete, List.mem_filter, own, decide_true, Bool.not_true] at mem
    exact absurd mem.2 (by decide)
  · rw [if_neg own, find?, delete, List.find?_filter]
    congr 1
    funext a
    by_cases same : key a = j <;> simp [same, own]

/-! ## Fewer columns -/

section Map

variable {β : Type*} {key' : β → κ}

def map (t : Table κ α key) (f : α → β) (keyed : ∀ a, key' (f a) = key a) : Table κ β key' where
  rows := t.rows.map f
  distinct := by
    have same : key' ∘ f = key := funext keyed
    rw [List.map_map, same]
    exact t.distinct

theorem find?_map (t : Table κ α key) (f : α → β) (keyed : ∀ a, key' (f a) = key a) (k : κ) :
    (t.map f keyed).find? k = (t.find? k).map f := by
  have same : ((fun b => decide (key' b = k)) ∘ f) = fun a => decide (key a = k) := by
    funext a
    simp [keyed]
  rw [find?, map, List.find?_map, same]
  rfl

omit [DecidableEq κ] in
theorem map_update (t : Table κ α key) (f : α → β) (keyed : ∀ a, key' (f a) = key a)
    {p : α → Bool} {q : β → Bool} {u : Assignment key} {v : Assignment key'}
    (matches_ : ∀ a, q (f a) = p a) (sets : ∀ a, f (u.apply a) = v.apply (f a)) :
    (t.update p u).map f keyed = (t.map f keyed).update q v := by
  apply ext_rows
  simp only [map, update, List.map_map]
  refine List.map_congr_left fun a _ => ?_
  by_cases matched : p a <;> simp [matches_, sets, matched]

end Map

end Table

/-! ## Serial tables -/

/-- An append-only table whose key comes from a sequence. Keys grow along the rows; a key
that was drawn and rolled back leaves a gap. -/
structure SerialTable (α : Type*) (key : α → Nat) where
  rows : List α
  next : Nat
  increasing : rows.Pairwise fun a b => key a < key b
  below : ∀ a ∈ rows, key a < next

namespace SerialTable

variable {α : Type*} {key : α → Nat}

theorem ext_rows {t u : SerialTable α key} (same : t.rows = u.rows) (next : t.next = u.next) :
    t = u := by
  cases t
  cases u
  cases same
  cases next
  rfl

def empty : SerialTable α key := ⟨[], 1, .nil, by simp⟩

/-- Draw the next key for the row that `a` builds from it. -/
def append (t : SerialTable α key) (a : Nat → α) (keyed : ∀ n, key (a n) = n := by intro _; rfl) :
    SerialTable α key where
  rows := t.rows ++ [a t.next]
  next := t.next + 1
  increasing := by
    rw [List.pairwise_append]
    refine ⟨t.increasing, List.pairwise_singleton _ _, ?_⟩
    intro b hb c hc
    rw [List.mem_singleton.mp hc, keyed]
    exact t.below b hb
  below := by
    intro b hb
    rcases List.mem_append.mp hb with hb | hb
    · exact (t.below b hb).trans (Nat.lt_succ_self _)
    · rw [List.mem_singleton.mp hb, keyed]
      exact Nat.lt_succ_self _

/-- `SELECT … WHERE p ORDER BY key` -/
def select (t : SerialTable α key) (p : α → Bool) : List α :=
  (t.rows.filter p).mergeSort fun a b => key a ≤ key b

/-- The rows already stand in the order of their keys. -/
theorem select_eq (t : SerialTable α key) (p : α → Bool) : t.select p = t.rows.filter p :=
  List.mergeSort_of_pairwise ((t.increasing.filter p).imp fun h => by simpa using h.le)

theorem select_append (t : SerialTable α key) (a : Nat → α) (keyed : ∀ n, key (a n) = n)
    (p : α → Bool) :
    (t.append a keyed).select p = t.select p ++ if p (a t.next) then [a t.next] else [] := by
  rw [select_eq, select_eq, append, List.filter_append]
  by_cases h : p (a t.next) <;> simp [h]

/-- The sequence goes on where it was. -/
def delete (t : SerialTable α key) (p : α → Bool) : SerialTable α key where
  rows := t.rows.filter fun a => !p a
  next := t.next
  increasing := t.increasing.filter _
  below a mem := t.below a (List.mem_filter.mp mem).1

theorem select_delete (t : SerialTable α key) (p q : α → Bool) :
    (t.delete p).select q = (t.select q).filter fun a => !p a := by
  rw [select_eq, select_eq, delete, List.filter_filter, List.filter_filter]
  simp only [Bool.and_comm]

section Map

variable {β : Type*} {key' : β → Nat}

def map (t : SerialTable α key) (f : α → β) (keyed : ∀ a, key' (f a) = key a) :
    SerialTable β key' where
  rows := t.rows.map f
  next := t.next
  increasing := by
    rw [List.pairwise_map]
    simpa only [keyed] using t.increasing
  below b mem := by
    obtain ⟨a, there, rfl⟩ := List.mem_map.mp mem
    rw [keyed]
    exact t.below a there

theorem map_append (t : SerialTable α key) (a : Nat → α) (keyed_a : ∀ n, key (a n) = n) (f : α → β)
    (keyed : ∀ a, key' (f a) = key a) (keyed_f : ∀ n, key' (f (a n)) = n) :
    (t.append a keyed_a).map f keyed = (t.map f keyed).append (fun n => f (a n)) keyed_f :=
  ext_rows (by simp [map, append]) rfl

end Map

end SerialTable

end AgenticOctopus.Foundation
