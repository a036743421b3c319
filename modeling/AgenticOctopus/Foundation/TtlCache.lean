import AgenticOctopus.Foundation.Machine

/-!
# A value kept for a while

Callers of one process share a value that is fetched from outside. A caller is given the kept
value while it is usable and younger than a lifetime; otherwise the caller asks outside, and
others go on while it waits. An answer may leave a value to keep, and the caller who asked is
given what it makes of it.
-/
namespace AgenticOctopus.Foundation

structure TtlCache (Time Answer Value : Type*) where
  lifetime : Time
  usable : Value → Bool
  keep : Answer → Option Value
  give : Answer → Value

namespace TtlCache

structure State (Time Value Caller : Type*) where
  now : Time
  /-- The kept value, and when it was kept. -/
  kept : Time × Value
  /-- Those who have asked and have no answer yet. -/
  waiting : List Caller

inductive Action (Time Answer Caller : Type*) where
  | pass (elapsed : Time)
  | call (caller : Caller)
  | answer (caller : Caller) (answer : Answer)
  /-- The caller is cancelled while it waits. -/
  | leave (caller : Caller)

variable {Time Answer Value Caller : Type*} [AddCommGroup Time] [LinearOrder Time]
  [DecidableEq Caller]

section Step

variable (cache : TtlCache Time Answer Value) (s : State Time Value Caller)

def fresh : Bool := cache.usable s.kept.2 && s.now - s.kept.1 < cache.lifetime

def keeping (answer : Answer) : Time × Value :=
  match cache.keep answer with
  | some value => (s.now, value)
  | none => s.kept

def step : Action Time Answer Caller → Option (State Time Value Caller)
  | .pass elapsed => if 0 ≤ elapsed then some { s with now := s.now + elapsed } else none
  | .call caller =>
    if cache.fresh s then some s else some { s with waiting := caller :: s.waiting }
  | .answer caller answer =>
    if caller ∈ s.waiting then
      some { s with kept := cache.keeping s answer, waiting := s.waiting.erase caller }
    else none
  | .leave caller =>
    if caller ∈ s.waiting then some { s with waiting := s.waiting.erase caller } else none

/-- What a caller is given by the step. -/
def given : Action Time Answer Caller → Option Value
  | .call _ => if cache.fresh s then some s.kept.2 else none
  | .answer _ answer => some (cache.give answer)
  | _ => none

/-- The step asks outside. -/
def Asks (action : Action Time Answer Caller) : Prop :=
  ∃ caller, action = .call caller ∧ cache.fresh s = false

/-- The step keeps the value. -/
def Keeps (action : Action Time Answer Caller) (value : Value) : Prop :=
  ∃ caller answer, action = .answer caller answer ∧ cache.keep answer = some value

end Step

/-- Nothing usable is kept at first, and nobody waits. -/
def machine (cache : TtlCache Time Answer Value) :
    Machine (State Time Value Caller) (Action Time Answer Caller) :=
  .ofStep (fun s => cache.usable s.kept.2 = false ∧ s.waiting = []) cache.step

variable {cache : TtlCache Time Answer Value} {s t : State Time Value Caller}
  {action : Action Time Answer Caller}

/-! ## One step -/

omit [AddCommGroup Time] [LinearOrder Time] [DecidableEq Caller] in
theorem Keeps.unique {value value' : Value} (h : Keeps cache action value)
    (h' : Keeps cache action value') : value = value' := by
  obtain ⟨_, _, rfl, some⟩ := h
  obtain ⟨_, _, is, some'⟩ := h'
  cases is
  rw [some] at some'
  exact Option.some.inj some'

theorem step_kept (h : cache.step s action = some t) :
    (∃ value, Keeps cache action value ∧ t.kept = (s.now, value) ∧ t.now = s.now) ∨
      (∀ value, ¬ Keeps cache action value) ∧ t.kept = s.kept := by
  cases action with
  | answer caller answer =>
    simp only [step] at h
    split_ifs at h
    cases h
    cases kept : cache.keep answer with
    | some value => exact .inl ⟨value, ⟨caller, answer, rfl, kept⟩, by simp [keeping, kept], rfl⟩
    | none =>
      refine .inr ⟨?_, by simp [keeping, kept]⟩
      rintro value ⟨_, _, ⟨⟩, some⟩
      rw [kept] at some
      cases some
  | pass elapsed =>
    refine .inr ⟨by rintro _ ⟨_, _, ⟨⟩, _⟩, ?_⟩
    simp only [step] at h
    split_ifs at h
    cases h
    rfl
  | call caller =>
    refine .inr ⟨by rintro _ ⟨_, _, ⟨⟩, _⟩, ?_⟩
    simp only [step] at h
    split_ifs at h <;> cases h <;> rfl
  | leave caller =>
    refine .inr ⟨by rintro _ ⟨_, _, ⟨⟩, _⟩, ?_⟩
    simp only [step] at h
    split_ifs at h
    cases h
    rfl

theorem next (e : (cache.machine : Machine (State Time Value Caller) _).Execution) {k : Nat}
    (hk : k < e.length) : cache.step (e.state k) (e.label k) = some (e.state (k + 1)) :=
  e.next k hk

/-! ## Whole runs -/

section Run

variable (e : (cache.machine : Machine (State Time Value Caller) _).Execution)

/-- The value was kept at step `i`, and no other since. -/
structure LastKept (n i : Nat) (value : Value) : Prop where
  before : i < n
  keeps : Keeps cache (e.label i) value
  since : ∀ k, i < k → k < n → ∀ other, ¬ Keeps cache (e.label k) other

variable {e} in
theorem LastKept.unique {n i j : Nat} {value value' : Value} (h : LastKept e n i value)
    (h' : LastKept e n j value') : i = j ∧ value = value' := by
  obtain earlier | rfl | later := Nat.lt_trichotomy i j
  · exact absurd h'.keeps (h.since j earlier h'.before value')
  · exact ⟨rfl, h.keeps.unique h'.keeps⟩
  · exact absurd h.keeps (h'.since i later h.before value)

/-- What is kept is what the last step that kept something kept, with its time. -/
theorem kept_cases {n : Nat} (hn : n ≤ e.length) :
    cache.usable (e.state n).kept.2 = false ∧
        (∀ k, k < n → ∀ value, ¬ Keeps cache (e.label k) value) ∨
      ∃ i value, LastKept e n i value ∧ (e.state n).kept = ((e.state i).now, value) := by
  have step := fun k (hk : k < n) => step_kept (next e (by omega : k < e.length))
  obtain ⟨none, same⟩ | ⟨i, hi, ⟨value, keeps⟩, none, same⟩ :=
    e.last_write (n := n) State.kept (fun k => ∃ value, Keeps cache (e.label k) value)
      fun k hk none => by
        obtain ⟨value, keeps, -⟩ | ⟨-, same⟩ := step k hk
        · exact absurd ⟨value, keeps⟩ none
        · exact same
  · refine .inl ⟨?_, fun k hk value keeps => none k hk ⟨value, keeps⟩⟩
    rw [same]
    exact e.start.1
  · refine .inr ⟨i, value, ⟨hi, keeps, fun k hik hk other keeps => none k hik hk ⟨other, keeps⟩⟩, ?_⟩
    obtain ⟨value', keeps', kept, -⟩ | ⟨none, -⟩ := step i hi
    · rw [same, kept, keeps.unique keeps']
    · exact absurd keeps (none value)

end Run

/-! ## The age of what is kept -/

variable [IsOrderedAddMonoid Time]

theorem step_now (h : cache.step s action = some t) : s.now ≤ t.now := by
  unfold step at h
  split at h <;> split_ifs at h with cond <;> cases h
  · exact le_add_of_nonneg_right cond
  all_goals exact le_rfl

omit [DecidableEq Caller] in
theorem fresh_iff :
    cache.fresh s = true ↔ cache.usable s.kept.2 = true ∧ s.now < s.kept.1 + cache.lifetime := by
  simp [fresh, sub_lt_iff_lt_add']

omit [DecidableEq Caller] in
theorem given_call {caller : Caller} {value : Value} :
    cache.given s (.call caller : Action Time Answer Caller) = some value ↔
      s.kept.2 = value ∧ cache.usable value = true ∧ s.now < s.kept.1 + cache.lifetime := by
  unfold given
  split_ifs with hit
  · obtain ⟨usable, young⟩ := fresh_iff.mp hit
    constructor
    · intro same
      cases same
      exact ⟨rfl, usable, young⟩
    · rintro ⟨rfl, -, -⟩
      rfl
  · simp only [false_iff]
    rintro ⟨rfl, usable, young⟩
    exact hit (fresh_iff.mpr ⟨usable, young⟩)

section Run

variable (e : (cache.machine : Machine (State Time Value Caller) _).Execution)

theorem now_mono {i j : Nat} (hij : i ≤ j) (hj : j ≤ e.length) :
    (e.state i).now ≤ (e.state j).now :=
  e.persists (P := fun s => (e.state i).now ≤ s.now) hij
    (fun k _ hkj before => before.trans (step_now (next e (by omega)))) le_rfl

/-- A caller is given a value at once if and only if it was the last that was kept, is usable
and is younger than the lifetime. -/
theorem given_call_iff {k : Nat} (hk : k ≤ e.length) {caller : Caller} {value : Value} :
    cache.given (e.state k) (.call caller : Action Time Answer Caller) = some value ↔
      ∃ i, LastKept e k i value ∧ cache.usable value = true ∧
        (e.state k).now < (e.state i).now + cache.lifetime := by
  rw [given_call]
  obtain ⟨unusable, none⟩ | ⟨i, last, kept, is⟩ := kept_cases e hk
  · constructor
    · rintro ⟨rfl, usable, -⟩
      rw [unusable] at usable
      cases usable
    · rintro ⟨i, last, -⟩
      exact absurd last.keeps (none i last.before value)
  · rw [is]
    constructor
    · rintro ⟨rfl, usable, young⟩
      exact ⟨i, kept, usable, young⟩
    · rintro ⟨j, last, usable, young⟩
      obtain ⟨rfl, rfl⟩ := kept.unique last
      exact ⟨rfl, usable, young⟩

/-- Who asks outside finds nothing usable that was kept within the lifetime. -/
theorem asks_iff {k : Nat} (hk : k ≤ e.length) {caller : Caller} :
    Asks cache (e.state k) (.call caller : Action Time Answer Caller) ↔
      ∀ i value, LastKept e k i value → cache.usable value = true →
        (e.state i).now + cache.lifetime ≤ (e.state k).now := by
  have misses : Asks cache (e.state k) (.call caller : Action Time Answer Caller) ↔
      ∀ value, cache.given (e.state k) (.call caller : Action Time Answer Caller) ≠ some value := by
    unfold Asks given
    cases cache.fresh (e.state k) <;> simp
  rw [misses]
  constructor
  · intro none i value last usable
    by_contra young
    exact none value ((given_call_iff e hk).mpr ⟨i, last, usable, not_le.mp young⟩)
  · intro old value given
    obtain ⟨i, last, usable, young⟩ := (given_call_iff e hk).mp given
    exact absurd (old i value last usable) (not_le.mpr young)

/-- Where all that is kept is usable, nobody asks outside before the lifetime of every value that
was kept is over. -/
theorem asks_after_lifetime
    (usable : ∀ answer value, cache.keep answer = some value → cache.usable value = true)
    {i k : Nat} (hik : i < k) (hk : k ≤ e.length) (asks : Asks cache (e.state k) (e.label k))
    {value : Value} (keeps : Keeps cache (e.label i) value) :
    (e.state i).now + cache.lifetime ≤ (e.state k).now := by
  obtain ⟨caller, is, -⟩ := id asks
  rw [is] at asks
  obtain ⟨-, none⟩ | ⟨j, last, kept, -⟩ := kept_cases e hk
  · exact absurd keeps (none i hik value)
  · have hij : i ≤ j := not_lt.mp fun later => kept.since i later hik value keeps
    obtain ⟨_, answer, -, some⟩ := kept.keeps
    have old := (asks_iff e hk).mp asks j last kept (usable answer last some)
    have jk := kept.before
    exact (add_le_add_left (now_mono e hij (by omega)) _).trans old

end Run

end TtlCache

end AgenticOctopus.Foundation
