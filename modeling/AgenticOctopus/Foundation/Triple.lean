import AgenticOctopus.Foundation.Program

/-!
# Triples with two ways out

What holds when a program returns and what holds when it raises, given what held before. The
rules follow the program: one for each way of putting programs together.
-/
namespace AgenticOctopus.Foundation.Program

variable {ε σ τ α β : Type}

/-- `Q` holds of a run that returned and `E` of one that raised. -/
def Ends (Q : α → σ → Prop) (E : ε → σ → Prop) : EStateM.Result ε σ α → Prop
  | .ok a s => Q a s
  | .error e s => E e s

def Triple (P : σ → Prop) (p : Program ε σ α) (Q : α → σ → Prop) (E : ε → σ → Prop) : Prop :=
  ∀ s, P s → Ends Q E (p.run s)

variable {P P' : σ → Prop} {Q Q' : α → σ → Prop} {R : β → σ → Prop} {E E' : ε → σ → Prop}

theorem Ends.mono {r : EStateM.Result ε σ α} (h : Ends Q E r) (returned : ∀ a s, Q a s → Q' a s)
    (raised : ∀ e s, E e s → E' e s) : Ends Q' E' r := by
  cases r with
  | ok a s => exact returned a s h
  | error e s => exact raised e s h

theorem Ends.holds {I : σ → Prop} {r : EStateM.Result ε σ α}
    (h : Ends (fun _ => I) (fun _ => I) r) :
    I (state r) := by
  cases r <;> exact h

theorem Triple.mono {p : Program ε σ α} (h : Triple P p Q E) (before : ∀ s, P' s → P s)
    (returned : ∀ a s, Q a s → Q' a s) (raised : ∀ e s, E e s → E' e s) : Triple P' p Q' E' :=
  fun s holds => (h s (before s holds)).mono returned raised

theorem Triple.pre {p : Program ε σ α} (h : Triple P p Q E) (before : ∀ s, P' s → P s) :
    Triple P' p Q E := fun s holds => h s (before s holds)

theorem Triple.post {p : Program ε σ α} (h : Triple P p Q E) (returned : ∀ a s, Q a s → Q' a s) :
    Triple P p Q' E := fun s holds => (h s holds).mono returned fun _ _ raised => raised

theorem triple_pure {a : α} (holds : ∀ s, P s → Q a s) :
    Triple P (pure a : Program ε σ α) Q E := holds

theorem triple_throw {e : ε} (holds : ∀ s, P s → E e s) :
    Triple P (throw e : Program ε σ α) Q E := holds

theorem triple_modify {f : σ → σ} {Q : PUnit → σ → Prop} (holds : ∀ s, P s → Q ⟨⟩ (f s)) :
    Triple P (modify f : Program ε σ PUnit) Q E := holds

theorem triple_raises_error {x : Except ε α} (holds : ∀ a s, x = .ok a → P s → Q a s)
    (raised : ∀ e s, x = .error e → P s → E e s) : Triple P (raises x : Program ε σ α) Q E := by
  intro s h
  cases x with
  | ok a => exact holds a s rfl h
  | error e => exact raised e s rfl h

theorem triple_raises {x : Except ε α} (holds : ∀ a s, x = .ok a → P s → Q a s)
    (raised : ∀ e s, P s → E e s) : Triple P (raises x : Program ε σ α) Q E :=
  triple_raises_error holds fun e s _ => raised e s

theorem triple_bind {p : Program ε σ α} {f : α → Program ε σ β} (first : Triple P p Q E)
    (rest : ∀ a, Triple (Q a) (f a) R E) : Triple P (p >>= f) R E := by
  intro s h
  have here := first s h
  rw [EStateM.run_bind]
  cases run : p.run s with
  | ok a t =>
    rw [run] at here
    exact rest a t here
  | error e t =>
    rw [run] at here
    exact here

theorem triple_get_bind {f : σ → Program ε σ β} (rest : ∀ s, P s → Ends R E ((f s).run s)) :
    Triple P (get >>= f) R E := rest

theorem triple_ite {c : Prop} [Decidable c] {p q : Program ε σ α}
    (positive : c → Triple P p Q E) (negative : ¬c → Triple P q Q E) :
    Triple P (if c then p else q) Q E := by
  split
  next h => exact positive h
  next h => exact negative h

/-- What the state has after every run holds in both outcomes. -/
theorem triple_of_state {I : σ → Prop} {p : Program ε σ α}
    (holds : ∀ s, P s → I (state (p.run s))) : Triple P p (fun _ => I) (fun _ => I) := by
  intro s h
  have after := holds s h
  cases run : p.run s <;> rwa [run] at after

theorem Keeps.triple {I : σ → Prop} {p : Program ε σ α} (kept : Keeps I p) :
    Triple I p (fun _ => I) (fun _ => I) := triple_of_state kept

theorem keeps_of_triple {I : σ → Prop} {p : Program ε σ α}
    (kept : Triple I p (fun _ => I) (fun _ => I)) : Keeps I p := fun s holds => (kept s holds).holds

/-- A program that works on a part leaves the rest. -/
theorem triple_zoom_at {l : Lens τ σ} {p : Program ε σ α} {t : τ}
    (part : Triple (· = l.get t) p Q E) :
    Triple (· = t) (zoom l p) (fun a u => ∃ s, u = l.set t s ∧ Q a s)
      (fun e u => ∃ s, u = l.set t s ∧ E e s) := by
  intro u same
  have after := part (l.get t) rfl
  rw [same, run_zoom]
  cases run : p.run (l.get t) with
  | ok a s =>
    rw [run] at after
    exact ⟨s, rfl, after⟩
  | error e s =>
    rw [run] at after
    exact ⟨s, rfl, after⟩

theorem triple_zoom {l : Lens τ σ} {J : τ → Prop} {p : Program ε σ α}
    (step : ∀ t, J t → J (l.set t (state (p.run (l.get t))))) :
    Triple J (zoom l p) (fun _ => J) (fun _ => J) := (keeps_zoom step).triple

end AgenticOctopus.Foundation.Program
