import Mathlib.Tactic

/-!
# Programs that raise and keep what they wrote

A program over a state `σ` that may raise an exception `ε`, whose writes survive the raise:
each of its writes was committed by itself. The rules below run a program that works on a
part of the state, one that only may raise, and `try … finally`.
-/
namespace AgenticOctopus.Foundation

abbrev Program (ε σ α : Type) := EStateM ε σ α

namespace Program

variable {ε σ τ α β : Type}

/-- A computation that only may raise. -/
def raises (x : Except ε α) : Program ε σ α :=
  match x with
  | .ok a => pure a
  | .error e => throw e

@[simp] theorem run_throw (e : ε) (s : σ) :
    (throw e : Program ε σ α).run s = .error e s := rfl

@[simp] theorem run_raises_ok (a : α) (s : σ) :
    (raises (.ok a) : Program ε σ α).run s = .ok a s := rfl

@[simp] theorem run_raises_error (e : ε) (s : σ) :
    (raises (.error e) : Program ε σ α).run s = .error e s := rfl

@[simp] theorem raises_ok_bind (a : α) (f : α → Program ε σ β) : raises (.ok a) >>= f = f a := rfl

/-- Run a program and look at how it ended. -/
def attempt (p : Program ε σ α) : Program ε σ (Except ε α) := fun s =>
  match p.run s with
  | .ok a t => .ok (.ok a) t
  | .error e t => .ok (.error e) t

theorem run_attempt (p : Program ε σ α) (s : σ) :
    (attempt p).run s =
      match p.run s with
      | .ok a t => .ok (.ok a) t
      | .error e t => .ok (.error e) t := rfl

/-- A part of the state. -/
structure Lens (τ σ : Type) where
  get : τ → σ
  set : τ → σ → τ

/-- Run a program on a part of the state. -/
def zoom (l : Lens τ σ) (p : Program ε σ α) : Program ε τ α := fun t =>
  match p.run (l.get t) with
  | .ok a s => .ok a (l.set t s)
  | .error e s => .error e (l.set t s)

theorem run_zoom (l : Lens τ σ) (p : Program ε σ α) (t : τ) :
    (zoom l p).run t =
      match p.run (l.get t) with
      | .ok a s => .ok a (l.set t s)
      | .error e s => .error e (l.set t s) := rfl

theorem run_zoom_ok {l : Lens τ σ} {p : Program ε σ α} {t : τ} {a : α} {s : σ}
    (h : p.run (l.get t) = .ok a s) : (zoom l p).run t = .ok a (l.set t s) := by
  rw [run_zoom, h]

theorem run_zoom_error {l : Lens τ σ} {p : Program ε σ α} {t : τ} {e : ε} {s : σ}
    (h : p.run (l.get t) = .error e s) : (zoom l p).run t = .error e (l.set t s) := by
  rw [run_zoom, h]

theorem run_bind_ok {p : Program ε σ α} {f : α → Program ε σ β} {s t : σ} {a : α}
    (h : p.run s = .ok a t) : (p >>= f).run s = (f a).run t := by
  rw [EStateM.run_bind, h]

theorem run_bind_error {p : Program ε σ α} {f : α → Program ε σ β} {s t : σ} {e : ε}
    (h : p.run s = .error e t) : (p >>= f).run s = .error e t := by
  rw [EStateM.run_bind, h]

theorem bind_eq_ok {p : Program ε σ α} {f : α → Program ε σ β} {s u : σ} {b : β} :
    (p >>= f).run s = .ok b u ↔ ∃ a t, p.run s = .ok a t ∧ (f a).run t = .ok b u := by
  rw [EStateM.run_bind]
  cases p.run s <;> simp

theorem raises_eq_ok {x : Except ε α} {s t : σ} {a : α} :
    (raises x : Program ε σ α).run s = .ok a t ↔ x = .ok a ∧ s = t := by
  cases x <;> simp

theorem except_bind_eq_ok {x : Except ε α} {f : α → Except ε β} {b : β} :
    x >>= f = .ok b ↔ ∃ a, x = .ok a ∧ f a = .ok b := by
  cases x <;> simp [bind, Except.bind]

theorem except_bind_eq_error {x : Except ε α} {f : α → Except ε β} {e : ε} :
    x >>= f = .error e ↔ x = .error e ∨ ∃ a, x = .ok a ∧ f a = .error e := by
  cases x <;> simp [bind, Except.bind]

theorem run_tryFinally_ok {p : Program ε σ α} {q : Program ε σ β} {s t : σ} {a : α}
    (h : p.run s = .ok a t) :
    (tryFinally p q).run s =
      match q.run t with
      | .ok _ u => .ok a u
      | .error e u => .error e u := by
  change p s = _ at h
  simp only [tryFinally, tryFinally', Functor.map, EStateM.map, EStateM.run, h]
  cases q t <;> rfl

theorem run_tryFinally_error {p : Program ε σ α} {q : Program ε σ β} {s t : σ} {e : ε}
    (h : p.run s = .error e t) :
    (tryFinally p q).run s =
      match q.run t with
      | .ok _ u => .error e u
      | .error e' u => .error e' u := by
  change p s = _ at h
  simp only [tryFinally, tryFinally', Functor.map, EStateM.map, EStateM.run, h]
  cases q t <;> rfl

/-! ## What every run leaves -/

/-- The state that a run leaves, whether it returned or raised. -/
def state : EStateM.Result ε σ α → σ
  | .ok _ s => s
  | .error _ s => s

/-- How a run ended. -/
def outcome : EStateM.Result ε σ α → Except ε α
  | .ok a _ => .ok a
  | .error e _ => .error e

/-- Whatever happens, the program keeps this. -/
def Keeps (I : σ → Prop) (p : Program ε σ α) : Prop := ∀ s, I s → I (state (p.run s))

variable {I : σ → Prop}

theorem keeps_pure (a : α) : Keeps I (pure a : Program ε σ α) := fun _ h => h

theorem keeps_throw (e : ε) : Keeps I (throw e : Program ε σ α) := fun _ h => h

theorem keeps_get : Keeps I (get : Program ε σ σ) := fun _ h => h

theorem keeps_raises (x : Except ε α) : Keeps I (raises x : Program ε σ α) := by
  intro s h
  cases x <;> exact h

theorem keeps_modify {f : σ → σ} (step : ∀ s, I s → I (f s)) :
    Keeps I (modify f : Program ε σ PUnit) := fun s h => step s h

theorem state_bind {p : Program ε σ α} {f : α → Program ε σ β} {s : σ} (first : I (state (p.run s)))
    (rest : ∀ a, Keeps I (f a)) : I (state ((p >>= f).run s)) := by
  rw [EStateM.run_bind]
  cases run : p.run s with
  | ok a t =>
    rw [run] at first
    exact rest a t first
  | error e t =>
    rw [run] at first
    exact first

theorem keeps_bind {p : Program ε σ α} {f : α → Program ε σ β} (first : Keeps I p)
    (rest : ∀ a, Keeps I (f a)) : Keeps I (p >>= f) := fun s h => state_bind (first s h) rest

theorem keeps_attempt {p : Program ε σ α} (kept : Keeps I p) : Keeps I (attempt p) := by
  intro s h
  have after := kept s h
  rw [run_attempt]
  cases run : p.run s <;> rwa [run] at after

theorem state_zoom (l : Lens τ σ) (p : Program ε σ α) (t : τ) :
    state ((zoom l p).run t) = l.set t (state (p.run (l.get t))) := by
  rw [run_zoom]
  cases p.run (l.get t) <;> rfl

theorem keeps_zoom {l : Lens τ σ} {J : τ → Prop} {p : Program ε σ α}
    (step : ∀ t, J t → J (l.set t (state (p.run (l.get t))))) : Keeps J (zoom l p) := by
  intro t h
  rw [state_zoom]
  exact step t h

theorem state_tryFinally (p : Program ε σ α) (q : Program ε σ β) (s : σ) :
    state ((tryFinally p q).run s) = state (q.run (state (p.run s))) := by
  cases run : p.run s with
  | ok a t =>
    rw [run_tryFinally_ok run]
    change state _ = state (q.run t)
    cases q.run t <;> rfl
  | error e t =>
    rw [run_tryFinally_error run]
    change state _ = state (q.run t)
    cases q.run t <;> rfl

/-- It returns exactly if both programs do. -/
theorem isOk_tryFinally (p : Program ε σ α) (q : Program ε σ β) (s : σ) :
    (outcome ((tryFinally p q).run s)).isOk =
      ((outcome (p.run s)).isOk && (outcome (q.run (state (p.run s)))).isOk) := by
  cases run : p.run s with
  | ok a t =>
    rw [run_tryFinally_ok run]
    change Except.isOk _ = (true && Except.isOk (outcome (q.run t)))
    cases q.run t <;> rfl
  | error e t =>
    rw [run_tryFinally_error run]
    change Except.isOk _ = (false && _)
    cases q.run t <;> rfl

theorem keeps_tryFinally {p : Program ε σ α} {q : Program ε σ β} (first : Keeps I p)
    (last : Keeps I q) : Keeps I (tryFinally p q) := by
  intro s h
  rw [state_tryFinally]
  exact last _ (first s h)

/-! ## Programs that only append -/

section Appending

variable {ω : Type}

/-- The result of a run before which `seen` was written. -/
def onto (seen : List ω) : EStateM.Result ε (List ω) α → EStateM.Result ε (List ω) α
  | .ok a out => .ok a (seen ++ out)
  | .error e out => .error e (seen ++ out)

/-- The program does not look at what was written before it. -/
def Appends (p : Program ε (List ω) α) : Prop := ∀ seen, p.run seen = onto seen (p.run [])

theorem appends_pure (a : α) : Appends (pure a : Program ε (List ω) α) := by
  intro seen
  rw [EStateM.run_pure, EStateM.run_pure, onto, List.append_nil]

theorem appends_throw (e : ε) : Appends (throw e : Program ε (List ω) α) := by
  intro seen
  rw [run_throw, run_throw, onto, List.append_nil]

theorem appends_raises (x : Except ε α) : Appends (raises x : Program ε (List ω) α) := by
  cases x with
  | ok a => exact appends_pure a
  | error e => exact appends_throw e

theorem appends_modify (out : List ω) :
    Appends (modify (· ++ out) : Program ε (List ω) PUnit) := by
  intro seen
  rw [EStateM.run_modify, EStateM.run_modify, onto, List.nil_append]

theorem appends_bind {p : Program ε (List ω) α} {f : α → Program ε (List ω) β}
    (first : Appends p) (rest : ∀ a, Appends (f a)) : Appends (p >>= f) := by
  intro seen
  have start := first seen
  cases run : p.run [] with
  | ok a out =>
    rw [run, onto] at start
    rw [run_bind_ok start, run_bind_ok run, rest a (seen ++ out), rest a out]
    cases (f a).run [] <;> simp [onto]
  | error e out =>
    rw [run, onto] at start
    rw [run_bind_error start, run_bind_error run, onto]

theorem appends_forM (items : List β) {f : β → Program ε (List ω) PUnit}
    (each : ∀ b, Appends (f b)) : Appends (forM items f) := by
  induction items with
  | nil => exact appends_pure _
  | cons b items ih =>
    rw [List.forM_cons]
    exact appends_bind (each b) fun _ => ih

end Appending

end Program

end AgenticOctopus.Foundation
