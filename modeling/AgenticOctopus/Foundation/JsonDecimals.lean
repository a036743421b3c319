import AgenticOctopus.Foundation.JsonText

/-!
# Decimals

A decimal is read as the double nearest to it. The reader looks at the number of digits first, and
where that leaves no doubt it does not raise the power of ten.
-/
namespace AgenticOctopus.Foundation.Json

theorem decimal_div (digits : Nat) (exponent : Int) :
    ((digits * 10 ^ exponent.toNat : Nat) : ℚ) / (10 ^ (-exponent).toNat : Nat) =
      digits * 10 ^ exponent := by
  have powers : (10 : ℚ) ^ exponent * 10 ^ (-exponent).toNat = 10 ^ exponent.toNat := by
    rw [← zpow_natCast, ← zpow_natCast, ← zpow_add₀ (by norm_num)]
    congr 1
    omega
  push_cast
  rw [div_eq_iff (by positivity), mul_assoc, powers]

theorem decimal_lt (digits : Nat) (exponent : Int) :
    (digits * 10 ^ exponent : ℚ) < 10 ^ ((Nat.toDigits 10 digits).length + exponent) := by
  have small : digits < 10 ^ (Nat.toDigits 10 digits).length :=
    (Nat.length_toDigits_le_iff (by decide) Nat.length_toDigits_pos).mp le_rfl
  rw [zpow_add₀ (by norm_num), zpow_natCast]
  have unit : (0 : ℚ) < 10 ^ exponent := by positivity
  exact mul_lt_mul_of_pos_right (by exact_mod_cast small) unit

theorem le_decimal {digits : Nat} (ink : digits ≠ 0) (exponent : Int) :
    (10 ^ ((Nat.toDigits 10 digits).length - 1 + exponent) : ℚ) ≤ digits * 10 ^ exponent := by
  obtain ⟨k, len⟩ : ∃ k, (Nat.toDigits 10 digits).length = k + 1 :=
    ⟨_, (Nat.sub_add_cancel Nat.length_toDigits_pos).symm⟩
  have large : 10 ^ k ≤ digits := by
    cases k with
    | zero => exact Nat.pos_of_ne_zero ink
    | succ k =>
      by_contra small
      have short := (Nat.length_toDigits_le_iff (by decide) (Nat.succ_pos k)).mpr
        (not_le.mp small)
      omega
  have unit : (0 : ℚ) < 10 ^ exponent := by positivity
  rw [len, zpow_add₀ (by norm_num), Nat.cast_succ, add_sub_cancel_right, zpow_natCast]
  exact mul_le_mul_of_nonneg_right (by exact_mod_cast large) unit.le

/-- Below half of the least double only zero is nearest. -/
theorem near_zero {v : ℚ} (nonneg : 0 ≤ v) (tiny : v ≤ 2 ^ (-1075 : ℤ)) {m : Nat} {e : Int}
    (low : -1074 ≤ e) : v ≤ |v - m * 2 ^ e| := by
  rcases Nat.eq_zero_or_pos m with rfl | ink
  · simp [abs_of_nonneg nonneg]
  · have least : (2 : ℚ) ^ (-1075 : ℤ) * 2 ≤ m * 2 ^ e := by
      calc (2 : ℚ) ^ (-1075 : ℤ) * 2 = 1 * 2 ^ (-1074 : ℤ) := by
            rw [one_mul, ← zpow_add_one₀ two_ne_zero]
            rfl
        _ ≤ m * 2 ^ e := by
            gcongr
            · exact_mod_cast ink
            · exact one_le_two
    exact le_trans (by linarith) (neg_le_abs _)

/-- A decimal is read as a double, and no double is nearer to it. -/
theorem ofDecimal_float {negative sign : Bool} {digits mantissa : Nat} {exponent place : Int}
    (h : ofDecimal negative digits exponent = .float sign mantissa place) :
    sign = negative ∧ (mantissa < 2 ^ 53 ∧ -1074 ≤ place ∧ place ≤ 971) ∧
      ∀ (m : Nat) (e : Int), m < 2 ^ 53 → -1074 ≤ e →
        |(digits * 10 ^ exponent : ℚ) - mantissa * 2 ^ place| ≤
          |(digits * 10 ^ exponent : ℚ) - m * 2 ^ e| := by
  unfold ofDecimal at h
  split_ifs at h with tiny huge
  · cases h
    refine ⟨rfl, by decide, fun m e _ low => ?_⟩
    have small : (digits * 10 ^ exponent : ℚ) ≤ 2 ^ (-1075 : ℤ) := by
      rcases tiny with rfl | below
      · rw [Nat.cast_zero, zero_mul]
        positivity
      · calc (digits * 10 ^ exponent : ℚ) ≤ 10 ^ ((Nat.toDigits 10 digits).length + exponent) :=
              (decimal_lt digits exponent).le
          _ ≤ 10 ^ (-331 : ℤ) := zpow_le_zpow_right₀ (by norm_num) (by omega)
          _ ≤ 2 ^ (-1075 : ℤ) := by
              have powers : (2 : ℚ) ^ 1075 ≤ 10 ^ 331 := by
                exact_mod_cast (by decide +kernel : 2 ^ 1075 ≤ 10 ^ 331)
              rw [zpow_neg, zpow_neg]
              exact inv_anti₀ (by positivity) (by exact_mod_cast powers)
    have nonneg : (0 : ℚ) ≤ digits * 10 ^ exponent := by positivity
    rw [Nat.cast_zero, zero_mul, sub_zero, abs_of_nonneg nonneg]
    exact near_zero nonneg small low
  · split at h
    next m e near =>
      cases h
      have spec := Binary64.nearest_spec (by positivity) near
      rw [decimal_div] at spec
      exact ⟨rfl, spec⟩
    next => cases h

/-- A decimal is read as an infinity only from half a place beyond the largest double on. -/
theorem ofDecimal_infinity {negative sign : Bool} {digits : Nat} {exponent : Int}
    (h : ofDecimal negative digits exponent = .infinity sign) :
    ((2 ^ 53 - 1 / 2) * 2 ^ (971 : ℤ) : ℚ) ≤ digits * 10 ^ exponent := by
  unfold ofDecimal at h
  split_ifs at h with tiny huge
  · have powers : (2 : ℚ) ^ 1024 ≤ 10 ^ 310 := by
      exact_mod_cast (by decide +kernel : 2 ^ 1024 ≤ 10 ^ 310)
    calc ((2 ^ 53 - 1 / 2) * 2 ^ (971 : ℤ) : ℚ) ≤ 2 ^ 53 * 2 ^ 971 := by
          gcongr
          · norm_num
          · exact le_rfl
      _ = 2 ^ 1024 := (pow_add 2 53 971).symm
      _ ≤ 10 ^ (310 : ℤ) := powers
      _ ≤ 10 ^ ((Nat.toDigits 10 digits).length - 1 + exponent) :=
          zpow_le_zpow_right₀ (by norm_num) (by omega)
      _ ≤ digits * 10 ^ exponent := le_decimal (fun none => tiny (.inl none)) exponent
  · split at h
    next => cases h
    next none_near =>
      have far := Binary64.nearest_eq_none (by positivity) none_near
      rwa [decimal_div] at far

end AgenticOctopus.Foundation.Json
