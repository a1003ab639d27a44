import ContextServer.Proofs.Binary64.Rounding

/-!
Fifteen digits survive. Two decimals of the last of fifteen places are further apart than anything
that rounds to one number, so of a value with no more digits the search for the shortest decimal
finds that value itself and no other (`value_shortest`).
-/

namespace ContextServer.Binary64

/-- The number that a decimal stands for. -/
def Decimal.value (d : Decimal) : ℚ := d.digits * 10 ^ d.power

theorem zpow_ten_pos (k : ℤ) : (0 : ℚ) < 10 ^ k := zpow_pos (by norm_num) k

theorem zpow_ten_add (k l : ℤ) : (10 : ℚ) ^ (k + l) = 10 ^ k * 10 ^ l :=
  zpow_add₀ (by norm_num) k l

@[simp] theorem cast_tenTo (k : Nat) : (tenTo k : ℚ) = 10 ^ k := by
  rw [tenTo, Nat.pow_eq, Nat.cast_pow, Nat.cast_ofNat]

theorem tenTo_pos (k : Nat) : 0 < tenTo k := Nat.pow_pos (by decide)

/-! ### The leading digit -/

theorem digitCount_pos (n : Nat) : 0 < digitCount n := by
  rw [digitCount_eq]
  exact Nat.length_toDigits_pos

theorem lt_tenTo_digitCount (n : Nat) : n < 10 ^ digitCount n := by
  refine (Nat.length_toDigits_le_iff (by decide) (digitCount_pos n)).mp ?_
  rw [digitCount_eq]
  exact le_rfl

theorem tenTo_digitCount_le {n : Nat} (h : 0 < n) : 10 ^ (digitCount n - 1) ≤ n := by
  rcases Nat.eq_zero_or_pos (digitCount n - 1) with h0 | hpos
  · rw [h0]
    exact h
  · by_contra hlt
    have hle := (Nat.length_toDigits_le_iff (by decide) hpos).mpr (Nat.lt_of_not_le hlt)
    have hlen : (Nat.toDigits 10 n).length = digitCount n := (digitCount_eq n).symm
    omega

theorem leadingPower_of_le {num den : Nat} (hd : 0 < den) (h : den ≤ num) :
    (10 : ℚ) ^ leadingPower num den ≤ num / den ∧
      (num : ℚ) / den < 10 ^ (leadingPower num den + 1) := by
  have hD : (0 : ℚ) < den := Nat.cast_pos.mpr hd
  have hlow := tenTo_digitCount_le (Nat.div_pos h hd)
  have hhigh := lt_tenTo_digitCount (num / den)
  have hc := digitCount_pos (num / den)
  rw [leadingPower, if_pos h]
  generalize digitCount (num / den) = c at hlow hhigh hc
  have e1 : (c : ℤ) - 1 = (c - 1 : Nat) := by omega
  have e2 : (c : ℤ) - 1 + 1 = (c : Nat) := by omega
  rw [e2, e1, zpow_natCast, zpow_natCast, le_div_iff₀ hD, div_lt_iff₀ hD]
  constructor
  · exact_mod_cast (Nat.le_div_iff_mul_le hd).mp hlow
  · exact_mod_cast (Nat.div_lt_iff_lt_mul hd).mp hhigh

/-- The quotient upside down, rounded up. -/
theorem exists_ceil {num den : Nat} (hn : 0 < num) (h : num < den) :
    ∃ c, 0 < c ∧ (den + num - 1) / num = c + 1 ∧ num * c < den ∧ den ≤ num * (c + 1) := by
  have hle : (den + num - 1) / num * num ≤ den + num - 1 := Nat.div_mul_le_self _ _
  have hlt : den + num - 1 < num * ((den + num - 1) / num + 1) := Nat.lt_mul_div_succ _ hn
  have htwo : 2 ≤ (den + num - 1) / num := (Nat.le_div_iff_mul_le hn).mpr (by omega)
  obtain ⟨c, hc⟩ := Nat.exists_eq_add_of_le' (Nat.le_of_succ_le htwo)
  rw [hc, Nat.succ_mul, Nat.mul_comm] at hle
  rw [hc, Nat.mul_succ] at hlt
  exact ⟨c, by omega, hc, by omega, by omega⟩

theorem leadingPower_of_lt {num den : Nat} (hn : 0 < num) (h : num < den) :
    (10 : ℚ) ^ leadingPower num den ≤ num / den ∧
      (num : ℚ) / den < 10 ^ (leadingPower num den + 1) := by
  have hD : (0 : ℚ) < den := Nat.cast_pos.mpr (hn.trans h)
  obtain ⟨c, hpos, hc, hbelow, habove⟩ := exists_ceil hn h
  rw [leadingPower, if_neg (Nat.not_le.mpr h), hc, Nat.add_sub_cancel]
  have hlow := tenTo_digitCount_le hpos
  have hhigh := lt_tenTo_digitCount c
  have hl := digitCount_pos c
  generalize digitCount c = l at hlow hhigh hl
  have e1 : -(l : ℤ) + 1 = -((l - 1 : Nat) : ℤ) := by omega
  rw [e1, zpow_neg, zpow_neg, zpow_natCast, zpow_natCast, inv_eq_one_div, inv_eq_one_div,
    div_le_div_iff₀ (by positivity) hD, div_lt_div_iff₀ hD (by positivity)]
  constructor
  · have hnat : 1 * den ≤ num * 10 ^ l := by
      calc 1 * den
        _ ≤ num * (c + 1) := by omega
        _ ≤ num * 10 ^ l := Nat.mul_le_mul_left _ hhigh
    exact_mod_cast hnat
  · have hnat : num * 10 ^ (l - 1) < 1 * den := by
      calc num * 10 ^ (l - 1)
        _ ≤ num * c := Nat.mul_le_mul_left _ hlow
        _ < 1 * den := by omega
    exact_mod_cast hnat

theorem leadingPower_spec {num den : Nat} (hn : 0 < num) (hd : 0 < den) :
    (10 : ℚ) ^ leadingPower num den ≤ num / den ∧
      (num : ℚ) / den < 10 ^ (leadingPower num den + 1) := by
  by_cases h : den ≤ num
  · exact leadingPower_of_le hd h
  · exact leadingPower_of_lt hn (Nat.lt_of_not_le h)

/-- The leading digit of a magnitude. -/
theorem leadingPower_magnitude {x : Binary64} (hx : 0 < x.mantissa) :
    (10 : ℚ) ^ leadingPower x.numerator x.denominator ≤ x.magnitude ∧
      x.magnitude < 10 ^ (leadingPower x.numerator x.denominator + 1) := by
  have hpos : 0 < x.magnitude := mul_pos (by exact_mod_cast hx) x.ulp_pos
  rw [← numerator_div_denominator]
  exact leadingPower_spec (numerator_pos hpos) x.denominator_pos

/-! ### The multiples that round to a number -/

section Multiples

variable {x : Binary64} {k : ℤ} {m : Nat}

/-- The naturals by which quarters of the last place and multiples of `10 ^ k` are compared are
both of them in one proportion. -/
theorem exists_proportion (x : Binary64) (k : ℤ) :
    ∃ c : ℚ, 0 < c ∧
      (∀ q : Nat, ((q * (tenTo (-k).toNat <<< x.exponent.toNat) : Nat) : ℚ) =
        q / 4 * x.ulp * c) ∧
      ∀ m : Nat, ((m * (4 * x.denominator * tenTo k.toNat) : Nat) : ℚ) = m * 10 ^ k * c := by
  have hu : (0 : ℚ) < 2 ^ (-x.exponent).toNat := pow_pos two_pos _
  have hk : (0 : ℚ) < 10 ^ (-k).toNat := by positivity
  refine ⟨4 * 2 ^ (-x.exponent).toNat * 10 ^ (-k).toNat, by positivity, fun q => ?_, fun m => ?_⟩
  · rw [ulp, zpow_eq_div two_ne_zero, Nat.shiftLeft_eq]
    push_cast
    rw [cast_tenTo]
    field_simp
  · rw [zpow_eq_div (by norm_num : (10 : ℚ) ≠ 0), denominator, Nat.one_shiftLeft]
    push_cast
    rw [cast_tenTo]
    field_simp

/-- The ends are the first and the last multiple that round to the number. -/
theorem mem_multiples :
    (multiples x k).1 ≤ m ∧ m ≤ (multiples x k).2 ↔ x.Covers (m * 10 ^ k) := by
  have hunit : 0 < 4 * x.denominator * tenTo k.toNat :=
    Nat.mul_pos (Nat.mul_pos (by decide) x.denominator_pos) (tenTo_pos _)
  have hhigh : 0 < x.quarters.2 * (tenTo (-k).toNat <<< x.exponent.toNat) := by
    rw [Nat.shiftLeft_eq]
    exact Nat.mul_pos (Nat.succ_pos _) (Nat.mul_pos (tenTo_pos _) (Nat.two_pow_pos _))
  obtain ⟨c, hc, hq, hm⟩ := exists_proportion x k
  unfold multiples Covers
  simp only
  generalize 4 * x.denominator * tenTo k.toNat = unit at hunit hm ⊢
  generalize tenTo (-k).toNat <<< x.exponent.toNat = scale at hhigh hq ⊢
  have hle (q : Nat) : (q : ℚ) / 4 * x.ulp ≤ m * 10 ^ k ↔ q * scale ≤ m * unit := by
    rw [← mul_le_mul_iff_left₀ hc, ← hq, ← hm, Nat.cast_le]
  have hge (q : Nat) : (m : ℚ) * 10 ^ k ≤ q / 4 * x.ulp ↔ m * unit ≤ q * scale := by
    rw [← mul_le_mul_iff_left₀ hc, ← hq, ← hm, Nat.cast_le]
  split
  · rw [Nat.div_le_iff_le_mul_add_pred hunit, Nat.le_div_iff_mul_le hunit, hle, hge,
      Nat.mul_comm unit m]
    omega
  · rw [← not_le, ← not_le, hle, hge, not_le, not_le, Nat.succ_le_iff,
      Nat.div_lt_iff_lt_mul hunit]
    have hone : 1 ≤ (x.quarters.2 * scale + unit - 1) / unit :=
      (Nat.le_div_iff_mul_le hunit).mpr (by omega)
    have hlast : m ≤ (x.quarters.2 * scale + unit - 1) / unit - 1 ↔
        m * unit < x.quarters.2 * scale := by
      rw [Nat.le_sub_iff_add_le hone, Nat.le_div_iff_mul_le hunit, Nat.succ_mul]
      omega
    rw [hlast]

theorem quarters_pos (hx : 0 < x.mantissa) : 0 < x.quarters.1 := by
  rw [quarters]
  simp only
  split <;> omega

/-- Nothing that rounds to a number other than zero is zero. -/
theorem Covers.pos {v : ℚ} (hx : 0 < x.mantissa) (h : x.Covers v) : 0 < v := by
  have hlow : (0 : ℚ) < x.quarters.1 / 4 * x.ulp :=
    mul_pos (div_pos (by exact_mod_cast quarters_pos hx) (by norm_num)) x.ulp_pos
  unfold Covers at h
  simp only at h
  split at h
  · exact hlow.trans_le h.1
  · exact hlow.trans h.1

theorem digits_pos_of_mem_multiples (hx : 0 < x.mantissa)
    (h : (multiples x k).1 ≤ m ∧ m ≤ (multiples x k).2) : 0 < m := by
  have hpos := (mem_multiples.mp h).pos hx
  refine Nat.pos_of_ne_zero ?_
  rintro rfl
  simp at hpos

end Multiples

/-! ### Fifteen digits -/

section Fifteen

variable {x : Binary64} {L : ℤ}

theorem ulp_le (hx : 4503599627370496 ≤ x.mantissa) :
    4503599627370496 * x.ulp ≤ x.magnitude := by
  have hu := x.ulp_pos
  have hx' : (4503599627370496 : ℚ) ≤ x.mantissa := by exact_mod_cast hx
  rw [magnitude]
  gcongr

/-- A place is less than a quarter of the last of fifteen digits. -/
theorem ulp_lt (hx : 4503599627370496 ≤ x.mantissa) (hL : x.magnitude < 10 ^ (L + 1)) :
    x.ulp < 10 ^ (L - 14) / 4 := by
  have hmu := ulp_le hx
  have hten : (10 : ℚ) ^ (L + 1) = 10 ^ (L - 14) * 1000000000000000 := by
    have h15 : L + 1 = L - 14 + 15 := by omega
    rw [h15, zpow_ten_add]
    norm_num
  have hpos := zpow_ten_pos (L - 14)
  rw [hten] at hL
  linarith

/-- Two decimals of the fifteenth place that round to one number are the same. -/
theorem eq_of_covers {a b : Nat} (hx : 4503599627370496 ≤ x.mantissa)
    (hL : x.magnitude < 10 ^ (L + 1)) (ha : x.Covers (a * 10 ^ (L - 14)))
    (hb : x.Covers (b * 10 ^ (L - 14))) : a = b := by
  have hu := ulp_lt hx hL
  have hpos := zpow_ten_pos (L - 14)
  have hup := x.ulp_pos
  obtain ⟨ha1, ha2⟩ := ha.bounds
  obtain ⟨hb1, hb2⟩ := hb.bounds
  have hab : (a : ℚ) < b + 1 := lt_of_mul_lt_mul_right (by linarith) hpos.le
  have hba : (b : ℚ) < a + 1 := lt_of_mul_lt_mul_right (by linarith) hpos.le
  have hab' : a < b + 1 := by exact_mod_cast hab
  have hba' : b < a + 1 := by exact_mod_cast hba
  omega

/-- A decimal of fifteen digits does not go beyond the fifteenth place. -/
theorem power_ge_of_covers {d : Decimal} (hx : 4503599627370496 ≤ x.mantissa)
    (hL : (10 : ℚ) ^ L ≤ x.magnitude) (hd : d.digits < 1000000000000000)
    (h : x.Covers d.value) : L - 14 ≤ d.power := by
  by_contra hlt
  have hle : (10 : ℚ) ^ d.power ≤ 10 ^ (L - 15) :=
    zpow_le_zpow_right₀ (by norm_num) (by omega)
  have hten : (10 : ℚ) ^ L = 10 ^ (L - 15) * 1000000000000000 := by
    have h15 : L = L - 15 + 15 := by omega
    rw [h15, zpow_ten_add, Int.add_sub_cancel]
    norm_num
  have hmu := ulp_le hx
  have hd' : (d.digits : ℚ) + 1 ≤ 1000000000000000 := by exact_mod_cast hd
  have hpos := zpow_ten_pos (L - 15)
  have hv : d.value ≤ d.digits * 10 ^ (L - 15) := by
    rw [Decimal.value]
    gcongr
  have hdp : (d.digits + 1 : ℚ) * 10 ^ (L - 15) ≤ 1000000000000000 * 10 ^ (L - 15) := by gcongr
  have hl := h.bounds.1
  rw [hten] at hL
  linarith

/-- So it is a multiple of the fifteenth place. -/
theorem exists_multiple {d : Decimal} (h : L - 14 ≤ d.power) :
    ∃ a : Nat, d.value = a * 10 ^ (L - 14) := by
  refine ⟨d.digits * 10 ^ (d.power - (L - 14)).toNat, ?_⟩
  push_cast
  rw [Decimal.value, mul_assoc, ← zpow_natCast, ← zpow_ten_add]
  congr 2
  omega

end Fifteen

/-! ### The search -/

section Search

variable {x : Binary64} {k : ℤ} {d c : Decimal} {j : Nat}

theorem below_spec (x : Binary64) (k : ℤ) :
    (below x k).digits * (10 : ℚ) ^ k ≤ x.magnitude ∧
      x.magnitude < ((below x k).digits + 1) * (10 : ℚ) ^ k := by
  have hd : 0 < x.denominator * tenTo k.toNat := Nat.mul_pos x.denominator_pos (tenTo_pos _)
  have hD : (0 : ℚ) < x.denominator := Nat.cast_pos.mpr x.denominator_pos
  have hk : (0 : ℚ) < 10 ^ (-k).toNat := by positivity
  have hpos := zpow_ten_pos k
  have hle : (below x k).digits * (x.denominator * tenTo k.toNat) ≤
      x.numerator * tenTo (-k).toNat := Nat.div_mul_le_self _ _
  have hlt : x.numerator * tenTo (-k).toNat <
      ((below x k).digits + 1) * (x.denominator * tenTo k.toNat) := by
    rw [Nat.mul_comm _ (x.denominator * tenTo k.toNat)]
    exact Nat.lt_mul_div_succ _ hd
  rw [← Nat.cast_le (α := ℚ)] at hle
  rw [← Nat.cast_lt (α := ℚ)] at hlt
  push_cast at hle hlt
  rw [cast_tenTo, cast_tenTo] at hle hlt
  rw [← numerator_div_denominator, zpow_eq_div (by norm_num : (10 : ℚ) ≠ 0), ← mul_div_assoc,
    ← mul_div_assoc, div_le_div_iff₀ hk hD, div_lt_div_iff₀ hD hk]
  constructor <;> linarith

/-- A coarser power of ten has its multiple below `x` from the digits that are left. -/
theorem below_div_spec (x : Binary64) (k : ℤ) (j : Nat) :
    ((below x k).digits / tenTo j : Nat) * (10 : ℚ) ^ (k + j) ≤ x.magnitude ∧
      x.magnitude < ((below x k).digits / tenTo j + 1 : Nat) * (10 : ℚ) ^ (k + j) := by
  obtain ⟨hl, hh⟩ := below_spec x k
  have hpos := zpow_ten_pos k
  generalize (below x k).digits = D at hl hh
  have hle : D / tenTo j * tenTo j ≤ D := Nat.div_mul_le_self _ _
  have hlt : D + 1 ≤ (D / tenTo j + 1) * tenTo j := by
    rw [Nat.mul_comm]
    exact Nat.lt_mul_div_succ _ (tenTo_pos j)
  generalize D / tenTo j = n at hle hlt ⊢
  have hle' : (n * 10 ^ j : ℚ) ≤ D := by
    rw [← cast_tenTo]
    exact_mod_cast hle
  have hlt' : (D + 1 : ℚ) ≤ (n + 1) * 10 ^ j := by
    rw [← cast_tenTo]
    exact_mod_cast hlt
  rw [zpow_ten_add, zpow_natCast]
  push_cast
  constructor
  · calc (n : ℚ) * (10 ^ k * 10 ^ j)
      _ = n * 10 ^ j * 10 ^ k := by ring
      _ ≤ D * 10 ^ k := by gcongr
      _ ≤ x.magnitude := hl
  · calc x.magnitude
      _ < (D + 1) * 10 ^ k := hh
      _ ≤ (n + 1) * 10 ^ j * 10 ^ k := by gcongr
      _ = (n + 1) * (10 ^ k * 10 ^ j) := by ring

/-- A neighbour that is taken is one that rounds to `x`. -/
theorem neighbour?_eq_some {bounds : Nat × Nat} (h : neighbour? x bounds d j = some c) :
    c.power = d.power + j ∧ bounds.1 ≤ c.digits * tenTo j ∧ c.digits * tenTo j ≤ bounds.2 := by
  unfold neighbour? at h
  simp only at h
  split at h
  · rename_i hl hu
    rw [Bool.and_eq_true, decide_eq_true_eq, decide_eq_true_eq] at hl hu
    split at h <;> cases h
    · exact ⟨rfl, hl⟩
    · exact ⟨rfl, hu⟩
  · rename_i hl _
    rw [Bool.and_eq_true, decide_eq_true_eq, decide_eq_true_eq] at hl
    cases h
    exact ⟨rfl, hl⟩
  · rename_i _ hu
    rw [Bool.and_eq_true, decide_eq_true_eq, decide_eq_true_eq] at hu
    cases h
    exact ⟨rfl, hu⟩
  · cases h

/-- If one of the two neighbours rounds to `x`, one is taken. -/
theorem neighbour?_isSome {bounds : Nat × Nat} {n : Nat}
    (hn : n = d.digits / tenTo j ∨ n = d.digits / tenTo j + 1)
    (h : bounds.1 ≤ n * tenTo j ∧ n * tenTo j ≤ bounds.2) :
    (neighbour? x bounds d j).isSome = true := by
  have hr : (decide (bounds.1 ≤ n * tenTo j) && decide (n * tenTo j ≤ bounds.2)) = true := by
    simpa using h
  unfold neighbour?
  simp only
  rcases hn with rfl | rfl
  · rw [hr]
    split <;> simp_all
  · rw [hr]
    split <;> simp_all

/-- The neighbours of `x` round to it as the multiples of the finer power do. -/
theorem covers_of_neighbour? (h : neighbour? x (multiples x k) (below x k) j = some c) :
    c.power = k + j ∧ x.Covers c.value := by
  obtain ⟨hp, hm⟩ := neighbour?_eq_some h
  have hp' : c.power = k + j := hp
  have hc := mem_multiples.mp hm
  rw [Nat.cast_mul, cast_tenTo, mul_assoc, mul_comm (10 ^ j : ℚ), ← zpow_natCast,
    ← zpow_ten_add, ← hp'] at hc
  exact ⟨hp', hc⟩

theorem digits_search_pos (hx : 0 < x.mantissa) (hd : 0 < (below x k).digits) (j : Nat) :
    0 < (search x (multiples x k) (below x k) j).digits := by
  induction j with
  | zero => exact hd
  | succ j ih =>
    rw [search]
    cases hc : neighbour? x (multiples x k) (below x k) j with
    | none => exact ih
    | some c =>
      have hpos := digits_pos_of_mem_multiples hx (neighbour?_eq_some hc).2
      exact Nat.pos_of_mul_pos_right hpos

theorem value_trim (fuel : Nat) (d : Decimal) : (d.trim fuel).value = d.value := by
  induction fuel generalizing d with
  | zero => rfl
  | succ fuel ih =>
    rw [Decimal.trim]
    split
    · rename_i h
      have hdigits : (d.digits : ℚ) = (d.digits / 10 : Nat) * 10 := by
        exact_mod_cast (Nat.div_mul_cancel (Nat.dvd_of_mod_eq_zero h.2)).symm
      rw [ih, Decimal.value, Decimal.value, zpow_ten_add, hdigits]
      ring
    · rfl

theorem digits_trim_pos {fuel : Nat} (h : 0 < d.digits) : 0 < (d.trim fuel).digits := by
  induction fuel generalizing d with
  | zero => exact h
  | succ fuel ih =>
    rw [Decimal.trim]
    split
    · rename_i hz
      exact ih (Nat.div_pos (by omega) (by decide))
    · exact h

/-- A decimal of the fifteenth place that rounds to `x` is a neighbour of `x` there. -/
theorem neighbours_of_covers {L : ℤ} {a : Nat} (hx : 4503599627370496 ≤ x.mantissa)
    (hL : x.magnitude < 10 ^ (L + 1)) (ha : x.Covers (a * 10 ^ (L - 14))) :
    a = (below x (L - 16)).digits / tenTo 2 ∨ a = (below x (L - 16)).digits / tenTo 2 + 1 := by
  have hk : L - 16 + (2 : Nat) = L - 14 := by omega
  have hspec := below_div_spec x (L - 16) 2
  have hu := ulp_lt hx hL
  have hup := x.ulp_pos
  have hpos := zpow_ten_pos (L - 14)
  obtain ⟨hl, hh⟩ := ha.bounds
  rw [hk] at hspec
  generalize (below x (L - 16)).digits / tenTo 2 = n at hspec ⊢
  have hlow : (n : ℚ) < a + 1 := lt_of_mul_lt_mul_right (by linarith [hspec.1]) hpos.le
  have hhigh : (a : ℚ) < (n + 1 : Nat) + 1 :=
    lt_of_mul_lt_mul_right (by linarith [hspec.2]) hpos.le
  have hlow' : n < a + 1 := by exact_mod_cast hlow
  have hhigh' : a < n + 1 + 1 := by exact_mod_cast hhigh
  omega

/-- The search ends, at the latest, at the fifteenth place, and with the decimal that is there. -/
theorem value_search {L : ℤ} {a : Nat} (hx : 4503599627370496 ≤ x.mantissa)
    (hL : x.magnitude < 10 ^ (L + 1)) (ha : x.Covers (a * 10 ^ (L - 14))) (hj : 3 ≤ j) :
    (search x (multiples x (L - 16)) (below x (L - 16)) j).value = a * 10 ^ (L - 14) := by
  -- whatever is taken on the way is a decimal of the fifteenth place as well
  have taken {i : Nat} {c : Decimal} (hi : 2 ≤ i)
      (hc : neighbour? x (multiples x (L - 16)) (below x (L - 16)) i = some c) :
      c.value = a * 10 ^ (L - 14) := by
    obtain ⟨hp, hcov⟩ := covers_of_neighbour? hc
    obtain ⟨b, hb⟩ := exists_multiple (d := c) (L := L) (by omega)
    rw [hb] at hcov ⊢
    rw [eq_of_covers hx hL hcov ha]
  induction j, hj using Nat.le_induction with
  | base =>
    have hk : L - 16 + (2 : Nat) = L - 14 := by omega
    have hmem : (multiples x (L - 16)).1 ≤ a * tenTo 2 ∧
        a * tenTo 2 ≤ (multiples x (L - 16)).2 := by
      refine mem_multiples.mpr ?_
      rw [Nat.cast_mul, cast_tenTo, mul_assoc, mul_comm ((10 : ℚ) ^ 2), ← zpow_natCast,
        ← zpow_ten_add, hk]
      exact ha
    have hn := neighbours_of_covers hx hL ha
    rw [search]
    obtain ⟨c, hc⟩ := Option.isSome_iff_exists.mp (neighbour?_isSome hn hmem)
    rw [hc, Option.getD_some]
    exact taken le_rfl hc
  | succ j hj ih =>
    rw [search]
    cases hc : neighbour? x (multiples x (L - 16)) (below x (L - 16)) j with
    | none => exact ih
    | some c => exact taken (by omega) hc

end Search

/-- The shortest decimal of a number that is not zero is not zero. -/
theorem digits_shortest_pos {x : Binary64} (hx : 0 < x.mantissa) : 0 < (shortest x).digits := by
  obtain ⟨hl, -⟩ := leadingPower_magnitude hx
  rw [shortest, if_neg hx.ne']
  simp only
  generalize leadingPower x.numerator x.denominator = L at hl
  refine digits_trim_pos (digits_search_pos hx ?_ 17)
  -- seventeen digits are there from the start
  refine Nat.pos_of_ne_zero fun h0 => ?_
  have hh := (below_spec x (L - 16)).2
  have hle : (10 : ℚ) ^ (L - 16) ≤ 10 ^ L := zpow_le_zpow_right₀ (by norm_num) (by omega)
  rw [h0] at hh
  push_cast at hh
  linarith

theorem shortest_zero {x : Binary64} (hx : x.mantissa = 0) : shortest x = ⟨0, 0⟩ := by
  rw [shortest, if_pos hx]

/-- A value of at most fifteen digits is the shortest decimal of the number that it rounds to. -/
theorem value_shortest {x : Binary64} {d : Decimal} (hx : 4503599627370496 ≤ x.mantissa)
    (hd : d.digits < 1000000000000000) (h : x.Covers d.value) :
    (shortest x).value = d.value := by
  obtain ⟨hl, hh⟩ := leadingPower_magnitude (x := x) (by omega)
  rw [shortest, if_neg (by omega)]
  simp only
  generalize leadingPower x.numerator x.denominator = L at hl hh
  obtain ⟨a, ha⟩ := exists_multiple (power_ge_of_covers hx hl hd h)
  rw [value_trim, ha]
  rw [ha] at h
  exact value_search hx hh h (by decide)

end ContextServer.Binary64
