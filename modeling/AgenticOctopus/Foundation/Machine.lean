import Mathlib.Tactic

/-!
# Labelled machines, executions, and induction rules

A machine is a start predicate and a labelled step relation. All nondeterminism of a
system (schedules, clocks, fresh names, the outcome of outside calls) sits in its labels.
An execution is an indexed finite run, so a temporal statement is a statement about
indices. The rules below are the only inductions over runs that the development uses:
invariants, persistence, the step at which a predicate starts to hold, and a counting
bound from a potential.
-/
namespace AgenticOctopus.Foundation

structure Machine (State Label : Type*) where
  start : State → Prop
  step : State → Label → State → Prop

namespace Machine

variable {State Label : Type*} {M : Machine State Label}

/-- The machine of a partial step function. -/
def ofStep (start : State → Prop) (f : State → Label → Option State) : Machine State Label where
  start := start
  step s l t := f s l = some t

inductive Reachable (M : Machine State Label) : State → Prop where
  | start {s} : M.start s → Reachable M s
  | step {s l t} : Reachable M s → M.step s l t → Reachable M t

/-- A step may use that its source is reachable, so invariants can be proved one at a time. -/
theorem Reachable.invariant {P : State → Prop} (start : ∀ s, M.start s → P s)
    (step : ∀ s l t, M.Reachable s → P s → M.step s l t → P t) {s : State}
    (h : M.Reachable s) : P s := by
  induction h with
  | start hs => exact start _ hs
  | step hr hs ih => exact step _ _ _ hr ih hs

structure Execution (M : Machine State Label) where
  length : Nat
  state : Nat → State
  label : Nat → Label
  start : M.start (state 0)
  next : ∀ i, i < length → M.step (state i) (label i) (state (i + 1))

namespace Execution

variable (e : M.Execution)

theorem reachable {i : Nat} (hi : i ≤ e.length) : M.Reachable (e.state i) := by
  induction i with
  | zero => exact .start e.start
  | succ i ih => exact .step (ih (by omega)) (e.next i (by omega))

/-- A predicate kept by every step of a segment holds at its end. -/
theorem persists {P : State → Prop} {i j : Nat} (hij : i ≤ j)
    (step : ∀ k, i ≤ k → k < j → P (e.state k) → P (e.state (k + 1)))
    (h : P (e.state i)) : P (e.state j) := by
  induction j, hij using Nat.le_induction with
  | base => exact h
  | succ j hij ih =>
    exact step j hij (by omega) (ih fun k hk hkj => step k hk (by omega))

/-- A predicate that is false first and true later starts to hold at some step between. -/
theorem exists_change {P : State → Prop} {i j : Nat} (hij : i ≤ j)
    (before : ¬ P (e.state i)) (after : P (e.state j)) :
    ∃ k, i ≤ k ∧ k < j ∧ ¬ P (e.state k) ∧ P (e.state (k + 1)) := by
  by_contra none
  push Not at none
  exact e.persists (P := fun s => ¬ P s) hij (fun k hk hkj hn => none k hk hkj hn) before after

/-- If no step lowers a potential and every counted step raises it, then the potential
bounds the number of counted steps. -/
theorem count_le_potential (potential : State → Int) (Q : Nat → Prop) [DecidablePred Q]
    (step : ∀ i, i < e.length →
      potential (e.state i) + (if Q i then 1 else 0) ≤ potential (e.state (i + 1)))
    {n : Nat} (hn : n ≤ e.length) :
    potential (e.state 0) + Nat.count Q n ≤ potential (e.state n) := by
  induction n with
  | zero => simp
  | succ n ih =>
    have bound := ih (by omega)
    have gain := step n (by omega)
    rw [Nat.count_succ]
    push_cast
    split_ifs at gain ⊢ <;> omega

/-! ### Counting steps -/

open Classical in
/-- The number of steps from `i` to `j` at which `Q` holds. -/
noncomputable def steps (Q : Nat → Prop) (i j : Nat) : Nat := ((Finset.Ico i j).filter Q).card

theorem steps_self (Q : Nat → Prop) (i : Nat) : steps Q i i = 0 := by simp [steps]

open Classical in
theorem steps_succ (Q : Nat → Prop) {i j : Nat} (hij : i ≤ j) :
    steps Q i (j + 1) = steps Q i j + if Q j then 1 else 0 := by
  have last : j ∉ (Finset.Ico i j).filter Q := by simp
  rw [steps, Nat.Ico_succ_right_eq_insert_Ico hij, Finset.filter_insert]
  split_ifs with holds
  · rw [Finset.card_insert_of_notMem last, steps]
  · rw [steps, add_zero]

/-- A potential that some steps raise by one and others lower by one. -/
theorem potential_eq_counts (potential : State → Int) (up down : Nat → Prop) {i j : Nat}
    (hij : i ≤ j)
    (step : ∀ k, i ≤ k → k < j →
      (up k → potential (e.state (k + 1)) = potential (e.state k) + 1 ∧ ¬ down k) ∧
      (down k → potential (e.state (k + 1)) = potential (e.state k) - 1) ∧
      (¬ up k → ¬ down k → potential (e.state (k + 1)) = potential (e.state k))) :
    potential (e.state j) = potential (e.state i) + steps up i j - steps down i j := by
  classical
  induction j, hij using Nat.le_induction with
  | base => simp [steps_self]
  | succ j hij ih =>
    have before := ih fun k hk hkj => step k hk (by omega)
    obtain ⟨raises, lowers, keeps⟩ := step j hij (by omega)
    rw [steps_succ up hij, steps_succ down hij]
    split_ifs <;> grind

/-- Steps that each fall to one of finitely many owners. -/
theorem steps_le_sum {Owner : Type*} (owners : Finset Owner) {Q : Nat → Prop}
    (P : Owner → Nat → Prop) {i j : Nat}
    (owned : ∀ k, i ≤ k → k < j → Q k → ∃ a ∈ owners, P a k) :
    steps Q i j ≤ ∑ a ∈ owners, steps (P a) i j := by
  classical
  calc steps Q i j ≤ (owners.biUnion fun a => (Finset.Ico i j).filter (P a)).card := by
        apply Finset.card_le_card
        intro k mem
        simp only [Finset.mem_filter, Finset.mem_Ico] at mem
        obtain ⟨a, ha, holds⟩ := owned k mem.1.1 mem.1.2 mem.2
        simp only [Finset.mem_biUnion, Finset.mem_filter, Finset.mem_Ico]
        exact ⟨a, ha, mem.1, holds⟩
    _ ≤ ∑ a ∈ owners, steps (P a) i j := Finset.card_biUnion_le

/-- A register holds what the last step that wrote it left there. -/
theorem last_write {α : Type*} (register : State → α) (writes : Nat → Prop) {n : Nat}
    (keeps : ∀ k, k < n → ¬ writes k → register (e.state (k + 1)) = register (e.state k)) :
    ((∀ k, k < n → ¬ writes k) ∧ register (e.state n) = register (e.state 0)) ∨
      ∃ i, i < n ∧ writes i ∧ (∀ k, i < k → k < n → ¬ writes k) ∧
        register (e.state n) = register (e.state (i + 1)) := by
  induction n with
  | zero => exact .inl ⟨fun k hk => absurd hk (Nat.not_lt_zero k), rfl⟩
  | succ n ih =>
    by_cases last : writes n
    · exact .inr ⟨n, by omega, last, fun k _ _ => by omega, rfl⟩
    have kept := keeps n (by omega) last
    obtain ⟨unwritten, same⟩ | ⟨i, hi, writer, unwritten, same⟩ :=
      ih fun k hk => keeps k (by omega)
    · refine .inl ⟨fun k hk => ?_, kept.trans same⟩
      obtain earlier | rfl : k < n ∨ k = n := by omega
      · exact unwritten k earlier
      · exact last
    · refine .inr ⟨i, by omega, writer, fun k hik hk => ?_, kept.trans same⟩
      obtain earlier | rfl : k < n ∨ k = n := by omega
      · exact unwritten k hik earlier
      · exact last

/-- A log that no step rewrites only grows. -/
theorem log_grows {α : Type*} (log : State → List α)
    (step : ∀ k, k < e.length → log (e.state k) <+: log (e.state (k + 1))) {i j : Nat}
    (hij : i ≤ j) (hj : j ≤ e.length) : log (e.state i) <+: log (e.state j) :=
  e.persists (P := fun s => log (e.state i) <+: log s) hij
    (fun k _ hkj before => before.trans (step k (by omega))) (List.prefix_refl _)

/-- Cutting an execution after its first `n` steps. -/
def take (n : Nat) (hn : n ≤ e.length) : M.Execution where
  length := n
  state := e.state
  label := e.label
  start := e.start
  next i hi := e.next i (by omega)

end Execution

/-! ## Runs of a partial step function -/

def run (f : State → Label → Option State) : State → List Label → Option State
  | s, [] => some s
  | s, l :: ls => (f s l).bind fun t => run f t ls

theorem run_append (f : State → Label → Option State) (s : State) (ls ms : List Label) :
    run f s (ls ++ ms) = (run f s ls).bind fun t => run f t ms := by
  induction ls generalizing s with
  | nil => rfl
  | cons l ls ih =>
    simp only [List.cons_append, run, Option.bind_assoc]
    exact Option.bind_congr fun t _ => ih t

theorem run_take_succ (f : State → Label → Option State) (s : State) (ls : List Label) {i : Nat}
    (hi : i < ls.length) :
    run f s (ls.take (i + 1)) = (run f s (ls.take i)).bind fun t => f t ls[i] := by
  rw [List.take_add_one, run_append, List.getElem?_eq_getElem hi]
  exact Option.bind_congr fun t _ => by simp [run]

/-- The execution that replays a list of labels. -/
def replay {start : State → Prop} (f : State → Label → Option State) (s : State) (hs : start s)
    (ls : List Label) (idle : Label) (ok : (run f s ls).isSome = true) :
    (ofStep start f).Execution where
  length := ls.length
  state i := (run f s (ls.take i)).getD s
  label i := ls.getD i idle
  start := hs
  next i hi := by
    have whole : run f s (ls.take (i + 1) ++ ls.drop (i + 1)) = run f s ls := by
      rw [List.take_append_drop]
    rw [run_append, run_take_succ f s ls hi] at whole
    rw [← whole] at ok
    rw [run_take_succ f s ls hi]
    cases hu : run f s (ls.take i) with
    | none => simp [hu] at ok
    | some u =>
      cases hv : f u ls[i] with
      | none => simp [hu, hv] at ok
      | some v => simp [ofStep, List.getD_eq_getElem?_getD, List.getElem?_eq_getElem hi, hv]

/-! ## Refinement -/

/-- Every step of the concrete machine, from a reachable state, is a step of the abstract one
or leaves the abstraction unchanged. -/
structure Refinement {Abstract Action : Type*} (M : Machine State Label)
    (N : Machine Abstract Action) where
  abstraction : State → Abstract
  start : ∀ s, M.start s → N.start (abstraction s)
  step : ∀ s l t, M.Reachable s → M.step s l t →
    abstraction t = abstraction s ∨ ∃ a, N.step (abstraction s) a (abstraction t)

theorem Refinement.reachable {Abstract Action : Type*} {N : Machine Abstract Action}
    (r : Refinement M N) {s : State} (h : M.Reachable s) : N.Reachable (r.abstraction s) := by
  induction h with
  | start hs => exact .start (r.start _ hs)
  | step hr hs ih =>
    rcases r.step _ _ _ hr hs with same | ⟨a, ha⟩
    · rwa [same]
    · exact .step ih ha

end Machine

end AgenticOctopus.Foundation
