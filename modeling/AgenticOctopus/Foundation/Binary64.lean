import Mathlib.Tactic

/-!
# Rounding to doubles

A finite double is `mantissa * 2 ^ exponent` with a mantissa of at most 53 bits and an exponent of
its last place from `-1074` to `971`. A fraction is rounded to the nearest double, half way to the
one with an even mantissa; from half a place beyond the largest double on, there is none.
-/
namespace AgenticOctopus.Foundation.Binary64

/-- `num / den` as the nearest natural number, half way the even one. -/
def roundDiv (num den : Nat) : Nat :=
  if 2 * (num % den) < den ∨ 2 * (num % den) = den ∧ num / den % 2 = 0 then num / den
  else num / den + 1

/-- Numerator and denominator of `num / den / 2 ^ e`. -/
def scaled (num den : Nat) (e : Int) : Nat × Nat := (num * 2 ^ (-e).toNat, den * 2 ^ e.toNat)

/-- The exponent of the last place of the doubles around `num / den`. -/
def lastPlace (num den : Nat) : Int :=
  -- the first bit of the fraction is worth `2 ^ e` or half of it
  let e : Int := Nat.log2 num - Nat.log2 den
  let first := if (scaled num den e).1 < (scaled num den e).2 then e - 1 else e
  max (first - 52) (-1074)

/-- The double nearest to `num / den`. -/
def nearest (num den : Nat) : Option (Nat × Int) :=
  let e := lastPlace num den
  let mantissa := roundDiv (scaled num den e).1 (scaled num den e).2
  let double := if mantissa = 2 ^ 53 then (2 ^ 52, e + 1) else (mantissa, e)
  if double.2 ≤ 971 then some double else none

/-! ## The rounding -/

/-- No integer is nearer to the fraction. -/
theorem roundDiv_near (num : Nat) {den : Nat} (pos : 0 < den) (z : Int) :
    |(num / den : ℚ) - roundDiv num den| ≤ |(num / den : ℚ) - z| := by
  have width : (0 : ℚ) < den := by exact_mod_cast pos
  have split : (num / den : ℚ) = ((num / den : Nat) : ℚ) + ((num % den : Nat) : ℚ) / den := by
    rw [div_eq_iff width.ne', add_mul, div_mul_cancel₀ _ width.ne', mul_comm]
    exact_mod_cast (Nat.div_add_mod num den).symm
  have below : ((num % den : Nat) : ℚ) / den < 1 := by
    rw [div_lt_one width]
    exact_mod_cast Nat.mod_lt num pos
  have nonneg : (0 : ℚ) ≤ ((num % den : Nat) : ℚ) / den := by positivity
  have half : ((roundDiv num den : Nat) : ℚ) = (num / den : Nat) ∧
        2 * (((num % den : Nat) : ℚ) / den) ≤ 1 ∨
      ((roundDiv num den : Nat) : ℚ) = (num / den : Nat) + 1 ∧
        1 ≤ 2 * (((num % den : Nat) : ℚ) / den) := by
    rw [← mul_div_assoc, div_le_one width, one_le_div width]
    unfold roundDiv
    split_ifs with down
    · exact .inl ⟨rfl, by exact_mod_cast down.elim Nat.le_of_lt fun tie => tie.1.le⟩
    · exact .inr ⟨by push_cast; rfl, by exact_mod_cast not_lt.mp fun less => down (.inl less)⟩
  rw [split]
  generalize ((num % den : Nat) : ℚ) / den = f at *
  generalize num / den = q at *
  have sides : (z : ℚ) ≤ q ∨ (q : ℚ) + 1 ≤ z := by
    rcases le_or_gt z (q : ℤ) with low | high
    · exact .inl (by exact_mod_cast low)
    · exact .inr (by exact_mod_cast high)
  rcases half with ⟨round, le⟩ | ⟨round, le⟩ <;> rw [round]
  · rw [add_sub_cancel_left, abs_of_nonneg nonneg]
    rcases sides with low | high
    · exact le_trans (by linarith) (le_abs_self _)
    · exact le_trans (by linarith) (neg_le_abs _)
  · rw [add_sub_add_left_eq_sub, abs_sub_comm, abs_of_pos (by linarith)]
    rcases sides with low | high
    · exact le_trans (by linarith) (le_abs_self _)
    · exact le_trans (by linarith) (neg_le_abs _)

theorem scaled_div (num den : Nat) (e : Int) :
    ((scaled num den e).1 : ℚ) / (scaled num den e).2 = num / den / 2 ^ e := by
  have powers : (2 : ℚ) ^ e * 2 ^ (-e).toNat = 2 ^ e.toNat := by
    rw [← zpow_natCast, ← zpow_natCast, ← zpow_add₀ two_ne_zero]
    congr 1
    omega
  have one : (2 : ℚ) ^ (-e).toNat ≠ 0 := by positivity
  have two : (2 : ℚ) ^ e ≠ 0 := by positivity
  rw [scaled]
  push_cast
  rw [← powers, div_div, ← mul_assoc, mul_div_mul_right _ _ one]

/-- The fraction has a first bit, which is worth `2 ^ e` or half of it. -/
theorem between {num den : Nat} (ink : 0 < num) (pos : 0 < den) :
    (2 : ℚ) ^ ((Nat.log2 num : ℤ) - Nat.log2 den - 1) < num / den ∧
      (num / den : ℚ) < 2 ^ ((Nat.log2 num : ℤ) - Nat.log2 den + 1) := by
  have width : (0 : ℚ) < den := by exact_mod_cast pos
  have num_low : (2 : ℚ) ^ Nat.log2 num ≤ num := by exact_mod_cast Nat.log2_self_le ink.ne'
  have num_high : (num : ℚ) < 2 ^ (Nat.log2 num + 1) := by exact_mod_cast Nat.lt_log2_self
  have den_low : (2 : ℚ) ^ Nat.log2 den ≤ den := by exact_mod_cast Nat.log2_self_le pos.ne'
  have den_high : (den : ℚ) < 2 ^ (Nat.log2 den + 1) := by exact_mod_cast Nat.lt_log2_self
  constructor
  · rw [lt_div_iff₀ width, sub_sub, zpow_sub₀ two_ne_zero, zpow_natCast, div_mul_eq_mul_div,
      div_lt_iff₀ (by positivity)]
    have power : (2 : ℚ) ^ ((Nat.log2 den : ℤ) + 1) = 2 ^ (Nat.log2 den + 1) := by
      exact_mod_cast rfl
    rw [power]
    exact mul_lt_mul' num_low den_high width.le (by exact_mod_cast ink)
  · rw [div_lt_iff₀ width, sub_add_eq_add_sub, zpow_sub₀ two_ne_zero, div_mul_eq_mul_div,
      lt_div_iff₀ (by positivity), zpow_natCast]
    have power : (2 : ℚ) ^ ((Nat.log2 num : ℤ) + 1) = 2 ^ (Nat.log2 num + 1) := by
      exact_mod_cast rfl
    rw [power]
    exact mul_lt_mul num_high den_low (by positivity) (by positivity)

/-- The last place is that of the subnormals, or the fraction fills 53 bits from there. -/
theorem lastPlace_spec {num den : Nat} (ink : 0 < num) (pos : 0 < den) :
    (lastPlace num den = -1074 ∨ (2 : ℚ) ^ (lastPlace num den + 52) ≤ num / den) ∧
      -1074 ≤ lastPlace num den ∧ (num / den : ℚ) < 2 ^ (lastPlace num den + 53) := by
  obtain ⟨low, high⟩ := between ink pos
  unfold lastPlace
  generalize (Nat.log2 num : ℤ) - Nat.log2 den = e at *
  have scale : ((scaled num den e).1 < (scaled num den e).2) ↔ (num / den : ℚ) < 2 ^ e := by
    have width : (0 : ℚ) < (scaled num den e).2 := by
      have whole : 0 < (scaled num den e).2 := Nat.mul_pos pos (by positivity)
      exact_mod_cast whole
    rw [← div_lt_one (by positivity : (0 : ℚ) < 2 ^ e), ← scaled_div, div_lt_one width]
    exact Nat.cast_lt.symm
  dsimp only
  obtain ⟨first, is, low, high⟩ : ∃ first : ℤ,
      (if (scaled num den e).1 < (scaled num den e).2 then e - 1 else e) = first ∧
        (2 : ℚ) ^ first ≤ num / den ∧ (num / den : ℚ) < 2 ^ (first + 1) := by
    split_ifs with less
    · exact ⟨e - 1, rfl, low.le, by rw [sub_add_cancel]; exact scale.mp less⟩
    · exact ⟨e, rfl, not_lt.mp fun small => less (scale.mpr small), high⟩
  rw [is]
  refine ⟨?_, le_max_right _ _, high.trans_le ?_⟩
  · rcases le_total (first - 52) (-1074) with tiny | full
    · exact .inl (max_eq_right tiny)
    · rw [max_eq_left full, sub_add_cancel]
      exact .inr low
  · exact zpow_le_zpow_right₀ one_le_two (by omega)

/-- The mantissa before it is normalised. -/
theorem places (num : Nat) {den : Nat} (pos : 0 < den) (z : Int) :
    let e := lastPlace num den
    |(num / den : ℚ) - roundDiv (scaled num den e).1 (scaled num den e).2 * 2 ^ e| ≤
      |(num / den : ℚ) - z * 2 ^ e| := by
  intro e
  have whole : 0 < (scaled num den e).2 := Nat.mul_pos pos (by positivity)
  have unit : (0 : ℚ) < 2 ^ e := by positivity
  have near := roundDiv_near (scaled num den e).1 whole z
  rw [scaled_div] at near
  have place (a : ℚ) : |(num / den : ℚ) - a * 2 ^ e| = |(num / den : ℚ) / 2 ^ e - a| * 2 ^ e := by
    rw [← abs_of_pos unit, ← abs_mul, abs_of_pos unit, sub_mul, div_mul_cancel₀ _ unit.ne']
  rw [place, place]
  exact mul_le_mul_of_nonneg_right near unit.le

theorem nearest_eq_some {num den m : Nat} {e : Int} (h : nearest num den = some (m, e)) :
    let place := lastPlace num den
    let q := roundDiv (scaled num den place).1 (scaled num den place).2
    (m : ℚ) * 2 ^ e = q * 2 ^ place ∧ place ≤ e ∧ e ≤ 971 ∧ (q ≤ 2 ^ 53 → m < 2 ^ 53) := by
  unfold nearest at h
  dsimp only at h ⊢
  generalize roundDiv _ _ = q at *
  split_ifs at h with full fits fits
  · cases h
    refine ⟨?_, by omega, fits, fun _ => by decide⟩
    rw [full, zpow_add₀ two_ne_zero]
    norm_num
    ring
  · cases h
    exact ⟨rfl, le_rfl, fits, fun le => lt_of_le_of_ne le full⟩

theorem roundDiv_zero (den : Nat) (e : Int) :
    roundDiv (scaled 0 den e).1 (scaled 0 den e).2 = 0 := by
  simp [roundDiv, scaled]

/-- What is nearest is a double, and no double is nearer. -/
theorem nearest_spec {num den : Nat} (pos : 0 < den) {m : Nat} {e : Int}
    (h : nearest num den = some (m, e)) :
    (m < 2 ^ 53 ∧ -1074 ≤ e ∧ e ≤ 971) ∧
      ∀ (m' : Nat) (e' : Int), m' < 2 ^ 53 → -1074 ≤ e' →
        |(num / den : ℚ) - m * 2 ^ e| ≤ |(num / den : ℚ) - m' * 2 ^ e'| := by
  obtain ⟨value, place_le, fits, bits⟩ := nearest_eq_some h
  have near := places num pos
  rw [value]
  rcases Nat.eq_zero_or_pos num with rfl | ink
  · have zero : roundDiv (scaled 0 den (lastPlace 0 den)).1 (scaled 0 den (lastPlace 0 den)).2 =
        0 := by
      simp [roundDiv, scaled]
    rw [zero] at value bits ⊢
    refine ⟨⟨bits (by positivity), (le_max_right _ _).trans place_le, fits⟩, fun m' e' _ _ => ?_⟩
    rw [Nat.cast_zero, zero_div, zero_mul, sub_zero, abs_zero]
    exact abs_nonneg _
  obtain ⟨filled, least, below⟩ := lastPlace_spec ink pos
  dsimp only at near bits ⊢
  generalize lastPlace num den = place at *
  generalize roundDiv _ _ = q at *
  have unit : (0 : ℚ) < 2 ^ place := by positivity
  have whole (k : Nat) : ((2 ^ k : ℤ) : ℚ) * 2 ^ place = 2 ^ (place + k) := by
    rw [zpow_add₀ two_ne_zero, zpow_natCast, mul_comm]
    push_cast
    rfl
  refine ⟨⟨bits ?_, least.trans place_le, fits⟩, fun m' e' small low => ?_⟩
  · have top := near (2 ^ 53)
    rw [whole 53, Nat.cast_ofNat, abs_sub_comm _ (2 ^ (place + 53) : ℚ),
      abs_of_pos (sub_pos.mpr below)] at top
    have bound := (neg_le_abs _).trans top
    have units : (q : ℚ) * 2 ^ place ≤ ((2 ^ 53 : ℤ) : ℚ) * 2 ^ place := by
      rw [whole 53, Nat.cast_ofNat]
      linarith
    exact_mod_cast le_of_mul_le_mul_right units unit
  rcases le_or_gt place e' with higher | lower
  · obtain ⟨k, rfl⟩ : ∃ k : Nat, e' = place + k := ⟨(e' - place).toNat, by omega⟩
    have same : ((m' * 2 ^ k : ℤ) : ℚ) * 2 ^ place = m' * 2 ^ (place + (k : ℤ)) := by
      rw [zpow_add₀ two_ne_zero, zpow_natCast]
      push_cast
      ring
    exact same ▸ near (m' * 2 ^ k)
  · have full := filled.resolve_left (by omega)
    have under : (m' : ℚ) * 2 ^ e' ≤ 2 ^ (place + 52) := by
      calc (m' : ℚ) * 2 ^ e' ≤ 2 ^ 53 * 2 ^ (place - 1) :=
            mul_le_mul (by exact_mod_cast small.le) (zpow_le_zpow_right₀ one_le_two (by omega))
              (by positivity) (by positivity)
        _ = 2 ^ (place + 52) := by
            rw [← zpow_natCast, ← zpow_add₀ two_ne_zero]
            congr 1
            push_cast
            ring
    refine (near (2 ^ 52)).trans ?_
    rw [whole 52, Nat.cast_ofNat, abs_of_nonneg (by linarith)]
    exact le_trans (by linarith) (le_abs_self _)

/-- Only from half a place beyond the largest double on there is none. -/
theorem nearest_eq_none {num den : Nat} (pos : 0 < den) (h : nearest num den = none) :
    ((2 ^ 53 - 1 / 2) * 2 ^ (971 : ℤ) : ℚ) ≤ num / den := by
  have ink : 0 < num := by
    refine Nat.pos_of_ne_zero ?_
    rintro rfl
    have low : lastPlace 0 den ≤ 971 := by
      unfold lastPlace
      dsimp only
      split_ifs <;> simp only [Nat.log2_zero] <;> omega
    simp [nearest, roundDiv_zero, low] at h
  have near := places num pos (2 ^ 53 - 1)
  obtain ⟨filled, -, -⟩ := lastPlace_spec ink pos
  unfold nearest at h
  dsimp only at h near
  generalize lastPlace num den = place at *
  generalize roundDiv _ _ = q at *
  obtain far | ⟨rfl, rfl⟩ : 972 ≤ place ∨ place = 971 ∧ q = 2 ^ 53 := by
    split_ifs at h with full fits fits
    · exact (lt_or_eq_of_le (by omega : 971 ≤ place)).imp id fun same => ⟨same.symm, full⟩
    · exact .inl (by omega)
  · have full := filled.resolve_left (by omega)
    refine le_trans ?_ full
    calc ((2 ^ 53 - 1 / 2) * 2 ^ (971 : ℤ) : ℚ) ≤ 2 ^ 53 * 2 ^ (971 : ℤ) := by
          gcongr
          norm_num
      _ = 2 ^ (1024 : ℤ) := by
          rw [← zpow_natCast, ← zpow_add₀ two_ne_zero]
          rfl
      _ ≤ 2 ^ (place + 52) := zpow_le_zpow_right₀ one_le_two (by omega)
  · have unit : (0 : ℚ) < 2 ^ (971 : ℤ) := by positivity
    generalize (2 : ℚ) ^ (971 : ℤ) = u at *
    have far := (neg_le_abs _).trans near
    push_cast at far
    rcases le_abs'.mp far with under | beyond <;> linarith

end AgenticOctopus.Foundation.Binary64
