import Mathlib.Tactic

/-!
# Transactions over a store

A transaction body reads and writes the store and may raise. Raising discards its writes:
`commit` installs the new store exactly when the body returns. The inversion rules take a
successful run of a body apart, one statement at a time.
-/
namespace AgenticOctopus.Foundation

/-- The body of one transaction over a store `σ` that may raise an exception `ε`. -/
abbrev Txn (σ ε α : Type) := StateT σ (Except ε) α

namespace Txn

variable {σ ε α β : Type}

/-- Run the body; keep its writes if it returns, roll them back if it raises. -/
def commit (t : Txn σ ε α) (s : σ) : Except ε α × σ :=
  match t.run s with
  | .ok (a, s') => (.ok a, s')
  | .error e => (.error e, s)

theorem commit_ok {t : Txn σ ε α} {s s' : σ} {a : α} (h : t.run s = .ok (a, s')) :
    t.commit s = (.ok a, s') := by simp [commit, h]

theorem commit_error {t : Txn σ ε α} {s : σ} {e : ε} (h : t.run s = .error e) :
    t.commit s = (.error e, s) := by simp [commit, h]

/-- The store after a transaction: the body's writes or the store it found. -/
def after (t : Txn σ ε α) (s : σ) : σ := (t.commit s).2

/-- A transaction either raises and leaves no trace, or returns with its writes installed. -/
theorem commit_cases (t : Txn σ ε α) (s : σ) :
    (∃ e, t.run s = .error e ∧ t.commit s = (.error e, s)) ∨
      ∃ a s', t.run s = .ok (a, s') ∧ t.commit s = (.ok a, s') := by
  cases h : t.run s with
  | error e => exact .inl ⟨e, rfl, commit_error h⟩
  | ok p => exact .inr ⟨p.1, p.2, rfl, commit_ok h⟩

theorem after_cases (t : Txn σ ε α) (s : σ) :
    t.after s = s ∨ ∃ a, t.run s = .ok (a, t.after s) := by
  rcases t.commit_cases s with ⟨e, -, h⟩ | ⟨a, s', hr, h⟩
  · exact .inl (by simp [after, h])
  · exact .inr ⟨a, by simp [after, h, hr]⟩

/-! ## Inversion -/

theorem bind_ok {x : Txn σ ε α} {f : α → Txn σ ε β} {s t : σ} {b : β} :
    (x >>= f).run s = .ok (b, t) ↔ ∃ a u, x.run s = .ok (a, u) ∧ (f a).run u = .ok (b, t) := by
  rw [StateT.run_bind]
  cases h : x.run s with
  | error e => simp [bind, Except.bind]
  | ok p =>
    obtain ⟨a, u⟩ := p
    simp [bind, Except.bind]

theorem pure_ok {a b : α} {s t : σ} :
    (pure a : Txn σ ε α).run s = .ok (b, t) ↔ a = b ∧ s = t := by
  rw [StateT.run_pure]
  simp [pure, Except.pure]

theorem throw_ok {e : ε} {s t : σ} {a : α} :
    (throw e : Txn σ ε α).run s = .ok (a, t) ↔ False :=
  ⟨fun h => (nomatch h), False.elim⟩

theorem get_ok {s t u : σ} :
    (get : Txn σ ε σ).run s = .ok (u, t) ↔ s = u ∧ s = t := by
  rw [StateT.run_get]
  simp [pure, Except.pure]

theorem set_ok {s t u : σ} {x : PUnit} :
    (set u : Txn σ ε PUnit).run s = .ok (x, t) ↔ u = t := by
  rw [StateT.run_set]
  simp [pure, Except.pure]

/-- A guard that raises when its condition holds. -/
theorem guard_ok {p : Prop} [Decidable p] {e : ε} {s t : σ} {x : PUnit} :
    (if p then throw e else pure x : Txn σ ε PUnit).run s = .ok (x, t) ↔ ¬ p ∧ s = t := by
  split_ifs with h
  · simp only [throw_ok, h, not_true, false_and]
  · simp only [pure_ok, h, not_false_eq_true, true_and]

/-- The rest of a body runs in the store that its first statement left. -/
theorem run_bind_of_ok {x : Txn σ ε α} {f : α → Txn σ ε β} {s u : σ} {a : α}
    (h : x.run s = .ok (a, u)) : (x >>= f).run s = (f a).run u := by
  rw [StateT.run_bind, h]
  rfl

theorem bind_error {x : Txn σ ε α} {f : α → Txn σ ε β} {s : σ} {e : ε} :
    (x >>= f).run s = .error e ↔
      x.run s = .error e ∨ ∃ a u, x.run s = .ok (a, u) ∧ (f a).run u = .error e := by
  rw [StateT.run_bind]
  cases h : x.run s with
  | error e => simp [bind, Except.bind]
  | ok p =>
    obtain ⟨a, u⟩ := p
    simp [bind, Except.bind]

/-- A body that drops its result. -/
theorem discard_ok {x : Txn σ ε α} {s t : σ} :
    (do let _ ← x : Txn σ ε Unit).run s = .ok ((), t) ↔ ∃ a, x.run s = .ok (a, t) := by
  rw [bind_ok]
  refine exists_congr fun a => ⟨?_, fun ran => ⟨t, ran, rfl⟩⟩
  rintro ⟨u, ran, ended⟩
  obtain ⟨-, rfl⟩ := pure_ok.mp ended
  exact ran

/-! ## Frames -/

/-- What `view` sees of the store is the same after the body, when it returns. -/
def Leaves {γ : Type} (view : σ → γ) (t : Txn σ ε α) : Prop :=
  ∀ s a s', t.run s = .ok (a, s') → view s' = view s

section Frames

variable {γ : Type} {view : σ → γ}

theorem leaves_pure (a : α) : Leaves view (pure a : Txn σ ε α) := by
  intro s b s' h
  rw [(pure_ok.mp h).2]

theorem leaves_throw (e : ε) : Leaves view (throw e : Txn σ ε α) :=
  fun _ _ _ h => (throw_ok.mp h).elim

theorem leaves_get : Leaves view (get : Txn σ ε σ) := by
  intro s u s' h
  rw [(get_ok.mp h).2]

theorem leaves_bind {x : Txn σ ε α} {f : α → Txn σ ε β} (first : Leaves view x)
    (rest : ∀ a, Leaves view (f a)) : Leaves view (x >>= f) := by
  intro s b s' h
  obtain ⟨a, u, ran, h⟩ := bind_ok.mp h
  rw [rest a _ _ _ h, first _ _ _ ran]

theorem leaves_ite {p : Prop} [Decidable p] {x y : Txn σ ε α} (positive : Leaves view x)
    (negative : Leaves view y) : Leaves view (if p then x else y) := by
  split_ifs
  · exact positive
  · exact negative

theorem Leaves.after {t : Txn σ ε α} (h : Leaves view t) (s : σ) : view (t.after s) = view s := by
  rcases t.after_cases s with same | ⟨a, ran⟩
  · rw [same]
  · exact h _ _ _ ran

end Frames

theorem run_throw {e : ε} {s : σ} : (throw e : Txn σ ε α).run s = .error e := rfl

end Txn

end AgenticOctopus.Foundation
