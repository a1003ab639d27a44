import Mathlib.Algebra.Order.Field.Power
import Mathlib.Tactic.FieldSimp
import Mathlib.Tactic.Linarith
import Mathlib.Tactic.Positivity
import Mathlib.Tactic.Ring
import ContextServer.Binary64.Shortest

/-!
What a binary64 number is taken for. Rounding a quotient gives a number whose interval the quotient
lies in (`Covers`), an end of the interval included when the mantissa is even. A value that has the
form of a binary64 number itself is hit exactly, so one rounding step is all that a short decimal
of a small power goes through (`exists_ofDecimal?`).
-/

namespace ContextServer.Binary64

/-- An integral power as a quotient of two natural powers, one of which is one. -/
theorem zpow_eq_div {b : ℚ} (hb : b ≠ 0) (e : ℤ) : b ^ e = b ^ e.toNat / b ^ (-e).toNat := by
  rw [← zpow_natCast, ← zpow_natCast, ← zpow_sub₀ hb]
  congr 1
  omega

/-- The distance to the next number with the same exponent. -/
def ulp (x : Binary64) : ℚ := 2 ^ x.exponent

def magnitude (x : Binary64) : ℚ := x.mantissa * x.ulp

theorem ulp_pos (x : Binary64) : 0 < x.ulp := zpow_pos (by norm_num) _

theorem denominator_pos (x : Binary64) : 0 < x.denominator := by
  rw [denominator, Nat.one_shiftLeft]
  exact Nat.two_pow_pos _

theorem numerator_div_denominator (x : Binary64) :
    (x.numerator : ℚ) / x.denominator = x.magnitude := by
  rw [magnitude, ulp, zpow_eq_div two_ne_zero, numerator, denominator, Nat.shiftLeft_eq,
    Nat.one_shiftLeft]
  push_cast
  exact mul_div_assoc _ _ _

/-- The values that round to the magnitude of `x`. -/
def Covers (x : Binary64) (v : ℚ) : Prop :=
  let low : ℚ := x.quarters.1 / 4 * x.ulp
  let high : ℚ := x.quarters.2 / 4 * x.ulp
  if x.mantissa % 2 = 0 then low ≤ v ∧ v ≤ high else low < v ∧ v < high

/-! ### Rounding a quotient -/

/-- A natural is nearest to a quotient, and one of two nearest only if it is even. -/
structure Nearest (m : Nat) (v : ℚ) : Prop where
  low : m - 1 / 2 ≤ v
  high : v ≤ m + 1 / 2
  odd : m % 2 ≠ 0 → m - 1 / 2 < v ∧ v < m + 1 / 2

namespace Nearest

variable {m k : Nat} {v : ℚ}

theorem le (h : Nearest m v) (hk : k ≤ v) : k ≤ m := by
  by_contra hlt
  have hsucc : (m : ℚ) + 1 ≤ k := by exact_mod_cast Nat.lt_of_not_le hlt
  linarith [h.high]

theorem ge (h : Nearest m v) (hk : v ≤ k) : m ≤ k := by
  by_contra hlt
  have hsucc : (k : ℚ) + 1 ≤ m := by exact_mod_cast Nat.lt_of_not_le hlt
  linarith [h.low]

end Nearest

theorem nearest_roundDiv (num : Nat) {den : Nat} (h : 0 < den) :
    Nearest (roundDiv num den) (num / den) := by
  have hd : (0 : ℚ) < den := Nat.cast_pos.mpr h
  have hsum : (num : ℚ) / den = (num / den : Nat) + ((num % den : Nat) : ℚ) / den := by
    rw [div_eq_iff hd.ne', add_mul, div_mul_cancel₀ _ hd.ne']
    exact_mod_cast (Nat.div_add_mod' num den).symm
  have hr : ((num % den : Nat) : ℚ) / den < 1 :=
    (div_lt_one hd).mpr (Nat.cast_lt.mpr (Nat.mod_lt num h))
  have hpos : 0 ≤ ((num % den : Nat) : ℚ) / den := by positivity
  have hsucc : ((num / den + 1 : Nat) : ℚ) = (num / den : Nat) + 1 := Nat.cast_succ _
  have half {a b : Nat} (hlt : 2 * a < b) (hb : (0 : ℚ) < b) : (a : ℚ) / b < 1 / 2 := by
    rw [div_lt_div_iff₀ hb two_pos]
    exact_mod_cast (by omega : a * 2 < 1 * b)
  unfold roundDiv
  simp only
  rw [hsum]
  split
  · rename_i hlt
    have := half hlt hd
    exact ⟨by linarith, by linarith, fun _ => ⟨by linarith, by linarith⟩⟩
  · split
    · rename_i hlt
      have : 1 / 2 < ((num % den : Nat) : ℚ) / den := by
        rw [div_lt_div_iff₀ two_pos hd]
        exact_mod_cast (by omega : 1 * den < num % den * 2)
      exact ⟨by linarith, by linarith, fun _ => ⟨by linarith, by linarith⟩⟩
    · have htie : ((num % den : Nat) : ℚ) / den = 1 / 2 := by
        rw [div_eq_div_iff hd.ne' two_ne_zero]
        exact_mod_cast (by omega : num % den * 2 = 1 * den)
      rw [htie]
      rcases Nat.mod_two_eq_zero_or_one (num / den) with hq | hq
      · rw [hq, Nat.add_zero]
        exact ⟨by linarith, le_rfl, fun ho => absurd hq ho⟩
      · rw [hq]
        exact ⟨by linarith, by linarith, fun ho => absurd (by omega) ho⟩

theorem nearest_roundAt (num : Nat) {den : Nat} (h : 0 < den) (e : ℤ) :
    Nearest (roundAt num den e) (num / den / 2 ^ e) := by
  have hden : 0 < den <<< e.toNat := by
    rw [Nat.shiftLeft_eq]
    exact Nat.mul_pos h (Nat.two_pow_pos _)
  have hv : (num : ℚ) / den / 2 ^ e = (num <<< (-e).toNat : Nat) / (den <<< e.toNat : Nat) := by
    rw [zpow_eq_div two_ne_zero, Nat.shiftLeft_eq, Nat.shiftLeft_eq]
    push_cast
    field_simp
  rw [hv]
  exact nearest_roundDiv _ hden

theorem mul_zpow_53 (e : ℤ) : (9007199254740992 : ℚ) * 2 ^ e = 2 ^ (e + 53) := by
  rw [zpow_add₀ two_ne_zero, mul_comm]
  norm_num

theorem mul_zpow_52 (e : ℤ) : (4503599627370496 : ℚ) * 2 ^ e = 2 ^ (e + 52) := by
  rw [zpow_add₀ two_ne_zero, mul_comm]
  norm_num

/-- At this exponent a value has a mantissa of at most 53 bits, and of no fewer unless the
exponent is the least. -/
structure IsExponent (e : ℤ) (v : ℚ) : Prop where
  least : -1074 ≤ e
  high : v < 9007199254740992 * 2 ^ e
  low : e = -1074 ∨ 4503599627370496 * 2 ^ e ≤ v

/-- The logarithms give the exponent up to one. -/
theorem log2_bounds {num den : Nat} (hn : 0 < num) (hd : 0 < den) {e : ℤ}
    (he : e = num.log2 - den.log2 - 53) :
    4503599627370496 * 2 ^ e ≤ (num : ℚ) / den ∧ (num : ℚ) / den < 18014398509481984 * 2 ^ e := by
  have hD : (0 : ℚ) < den := Nat.cast_pos.mpr hd
  have hlow : (2 : ℚ) ^ num.log2 ≤ num := by exact_mod_cast Nat.log2_self_le hn.ne'
  have hhigh : (num : ℚ) < 2 ^ (num.log2 + 1) := by exact_mod_cast Nat.lt_log2_self
  have hlow' : (2 : ℚ) ^ den.log2 ≤ den := by exact_mod_cast Nat.log2_self_le hd.ne'
  have hhigh' : (den : ℚ) < 2 ^ (den.log2 + 1) := by exact_mod_cast Nat.lt_log2_self
  have hu : 9007199254740992 * (2 : ℚ) ^ e * 2 ^ den.log2 = 2 ^ num.log2 := by
    rw [mul_zpow_53, ← zpow_natCast, ← zpow_natCast, ← zpow_add₀ two_ne_zero, he]
    congr 1
    omega
  have hpos : (0 : ℚ) < 2 ^ e := zpow_pos two_pos e
  rw [pow_succ] at hhigh hhigh'
  rw [le_div_iff₀ hD, div_lt_iff₀ hD]
  constructor
  · calc 4503599627370496 * 2 ^ e * (den : ℚ)
      _ ≤ 4503599627370496 * 2 ^ e * (2 ^ den.log2 * 2) := by gcongr
      _ = 2 ^ num.log2 := by rw [← hu]; ring
      _ ≤ num := hlow
  · calc (num : ℚ)
      _ < 2 ^ num.log2 * 2 := hhigh
      _ = 18014398509481984 * 2 ^ e * 2 ^ den.log2 := by rw [← hu]; ring
      _ ≤ 18014398509481984 * 2 ^ e * den := by gcongr

theorem isExponent_exponentOf {num den : Nat} (hn : 0 < num) (hd : 0 < den) :
    IsExponent (exponentOf num den) (num / den) := by
  have hD : (0 : ℚ) < den := Nat.cast_pos.mpr hd
  unfold exponentOf
  rw [if_neg hn.ne']
  generalize he : (num.log2 : ℤ) - den.log2 - 53 = e
  obtain ⟨hlow, hhigh⟩ := log2_bounds hn hd he.symm
  have hwide : den <<< (53 + e.toNat) ≤ num <<< (-e).toNat ↔
      9007199254740992 * 2 ^ e ≤ (num : ℚ) / den := by
    have hcast : den <<< (53 + e.toNat) ≤ num <<< (-e).toNat ↔
        (den : ℚ) * (2 ^ 53 * 2 ^ e.toNat) ≤ num * 2 ^ (-e).toNat := by
      rw [Nat.shiftLeft_eq, Nat.shiftLeft_eq, pow_add]
      exact_mod_cast Iff.rfl
    rw [hcast, zpow_eq_div two_ne_zero, le_div_iff₀ hD, ← mul_div_assoc, div_mul_eq_mul_div,
      div_le_iff₀ (pow_pos two_pos _)]
    constructor <;> intro h <;> linarith
  -- raised to the least exponent, the bound above holds all the more
  have raise {f : ℤ} (hf : (num : ℚ) / den < 9007199254740992 * 2 ^ f)
      (hl : 4503599627370496 * 2 ^ f ≤ (num : ℚ) / den) :
      IsExponent (max (-1074) f) (num / den) := by
    refine ⟨le_max_left _ _, ?_, ?_⟩
    · have : (2 : ℚ) ^ f ≤ 2 ^ max (-1074) f := zpow_le_zpow_right₀ one_le_two (le_max_right _ _)
      linarith
    · rcases max_choice (-1074) f with h | h
      · exact .inl h
      · exact .inr (by rwa [h])
  split
  · rename_i h
    have hnext : (2 : ℚ) ^ (e + 1) = 2 ^ e * 2 := zpow_add_one₀ two_ne_zero e
    refine raise ?_ ?_
    · linarith
    · have := hwide.mp h
      linarith
  · rename_i h
    exact raise (not_le.mp fun hle => h (hwide.mpr hle)) hlow

/-! ### The number that a quotient rounds to -/

/-- A number whose mantissa is nearest to the value in its own last place. Below a power of two
the value has to be nearer. -/
theorem covers_of_nearest {x : Binary64} {v : ℚ} (hv : 0 ≤ v)
    (h : Nearest x.mantissa (v / x.ulp))
    (hlow : x.mantissa = 4503599627370496 → x.exponent ≠ -1074 →
      (x.mantissa - 1 / 4) * x.ulp ≤ v) : x.Covers v := by
  have hu := x.ulp_pos
  have hhigh : v ≤ (4 * x.mantissa + 2 : Nat) / 4 * x.ulp := by
    have := (div_le_iff₀ hu).mp h.high
    push_cast
    linarith
  rw [Covers, quarters]
  by_cases hb : x.mantissa = 4503599627370496 ∧ x.exponent ≠ -1074
  · have hl := hlow hb.1 hb.2
    have heven : x.mantissa % 2 = 0 := by rw [hb.1]
    simp only [if_pos hb, if_pos heven]
    refine ⟨?_, hhigh⟩
    rw [Nat.cast_sub (by omega)]
    push_cast
    linarith
  · simp only [if_neg hb]
    by_cases he : x.mantissa % 2 = 0
    · rw [if_pos he]
      refine ⟨?_, hhigh⟩
      rcases Nat.eq_zero_or_pos x.mantissa with h0 | hpos
      · simpa [h0] using hv
      · have := (le_div_iff₀ hu).mp h.low
        rw [Nat.cast_sub (by omega)]
        push_cast
        linarith
    · obtain ⟨hl, hh⟩ := h.odd he
      rw [lt_div_iff₀ hu] at hl
      rw [div_lt_iff₀ hu] at hh
      rw [if_neg he, Nat.cast_sub (by omega)]
      push_cast
      constructor <;> linarith

theorem make?_eq_some {negative : Bool} {m : Nat} {e : ℤ} (hm : m < 9007199254740992)
    (hge : -1074 ≤ e) (hle : e ≤ 971) (hn : 4503599627370496 ≤ m ∨ e = -1074) :
    make? negative m e = some ⟨negative, m, e, hm, hge, hle, hn⟩ := by
  rw [make?, dif_pos ⟨hm, hge, hle, hn⟩]

/-- A value that is not too small has all bits at its exponent. -/
theorem IsExponent.normal {e : ℤ} {v : ℚ} (h : IsExponent e v) (hv : (2 : ℚ) ^ (-1000 : ℤ) ≤ v) :
    4503599627370496 * 2 ^ e ≤ v := by
  refine h.low.resolve_left ?_
  rintro rfl
  have hhigh := h.high
  rw [mul_zpow_53] at hhigh
  have hle : (2 : ℚ) ^ (-1074 + 53 : ℤ) ≤ 2 ^ (-1000 : ℤ) :=
    zpow_le_zpow_right₀ one_le_two (by decide)
  linarith

theorem exponent_le_of_lt {e : ℤ} {v : ℚ} (hlow : 4503599627370496 * 2 ^ e ≤ v)
    (hv : v < (2 : ℚ) ^ (1000 : ℤ)) : e ≤ 970 := by
  rw [mul_zpow_52] at hlow
  have := (zpow_lt_zpow_iff_right₀ one_lt_two).mp (hlow.trans_lt hv)
  omega

/-- A mantissa that has grown by one bit is halved. The value lies at most a quarter of the next
place below the power of two. -/
theorem nearest_carry {e : ℤ} {v : ℚ} (h : Nearest 9007199254740992 (v / 2 ^ e))
    (hhigh : v < 9007199254740992 * 2 ^ e) :
    Nearest 4503599627370496 (v / 2 ^ (e + 1)) ∧
      (4503599627370496 - 1 / 4) * (2 : ℚ) ^ (e + 1) ≤ v := by
  have hu : (0 : ℚ) < 2 ^ e := zpow_pos two_pos e
  have hu' : (0 : ℚ) < 2 ^ (e + 1) := zpow_pos two_pos _
  have hnext : (2 : ℚ) ^ (e + 1) = 2 ^ e * 2 := zpow_add_one₀ two_ne_zero e
  have hlow := h.low
  rw [le_div_iff₀ hu] at hlow
  push_cast at hlow
  have hquarter : (4503599627370496 - 1 / 4) * (2 : ℚ) ^ (e + 1) ≤ v := by
    rw [hnext]
    linarith
  refine ⟨⟨?_, ?_, fun ho => absurd rfl ho⟩, hquarter⟩
  · rw [le_div_iff₀ hu']
    push_cast
    linarith
  · rw [div_le_iff₀ hu']
    push_cast
    linarith

/-- A quotient that is neither too small nor too great rounds to a number with all its bits. -/
theorem exists_ofRatio? (negative : Bool) {num den : Nat} (hn : 0 < num) (hd : 0 < den)
    (hlow : (2 : ℚ) ^ (-1000 : ℤ) ≤ (num : ℚ) / den)
    (hhigh : (num : ℚ) / den < (2 : ℚ) ^ (1000 : ℤ)) :
    ∃ x, ofRatio? negative num den = some x ∧ x.negative = negative ∧ x.Covers (num / den) ∧
      4503599627370496 ≤ x.mantissa := by
  have hexp := isExponent_exponentOf hn hd
  have hnear := nearest_roundAt num hd (exponentOf num den)
  unfold ofRatio?
  generalize exponentOf num den = e at hexp hnear ⊢
  simp only
  generalize roundAt num den e = m at hnear ⊢
  generalize (num : ℚ) / den = v at *
  have hu : (0 : ℚ) < 2 ^ e := zpow_pos two_pos e
  have hnormal := hexp.normal hlow
  have hle := exponent_le_of_lt hnormal hhigh
  have hleast := hexp.least
  have hvpos : 0 ≤ v := le_trans (by positivity) hnormal
  have hml : 4503599627370496 ≤ m := hnear.le ((le_div_iff₀ hu).mpr (by exact_mod_cast hnormal))
  have hmh : m ≤ 9007199254740992 :=
    hnear.ge ((div_le_iff₀ hu).mpr (by exact_mod_cast hexp.high.le))
  split
  · rename_i hm
    obtain ⟨hcarry, hquarter⟩ := nearest_carry (hm ▸ hnear) hexp.high
    refine ⟨_, make?_eq_some (by decide) (by omega) (by omega) (.inl le_rfl), rfl, ?_, le_rfl⟩
    exact covers_of_nearest hvpos hcarry fun _ _ => by exact_mod_cast hquarter
  · rename_i hm
    refine ⟨_, make?_eq_some (by omega) hleast (by omega) (.inl hml), rfl, ?_, hml⟩
    refine covers_of_nearest hvpos hnear fun h52 _ => ?_
    have hcast : (m : ℚ) = 4503599627370496 := by exact_mod_cast h52
    show ((m : ℚ) - 1 / 4) * 2 ^ e ≤ v
    rw [hcast]
    linarith

/-! ### Values that are hit -/

section Hit

variable {x : Binary64} {v : ℚ}

/-- What rounds to a number is at most half a place away from it. -/
theorem Covers.bounds (h : x.Covers v) :
    x.magnitude - x.ulp / 2 ≤ v ∧ v ≤ x.magnitude + x.ulp / 2 := by
  have hu := x.ulp_pos
  have hlow : x.magnitude - x.ulp / 2 ≤ (x.quarters.1 : ℚ) / 4 * x.ulp := by
    have hq : 4 * x.mantissa ≤ x.quarters.1 + 2 := by
      rw [quarters]
      simp only
      split <;> omega
    have hc : (4 : ℚ) * x.mantissa ≤ x.quarters.1 + 2 := by exact_mod_cast hq
    have hm : (4 * x.mantissa : ℚ) * x.ulp ≤ (x.quarters.1 + 2) * x.ulp := by gcongr
    rw [magnitude]
    linarith
  have hhigh : (x.quarters.2 : ℚ) / 4 * x.ulp = x.magnitude + x.ulp / 2 := by
    rw [quarters, magnitude]
    push_cast
    ring
  unfold Covers at h
  simp only at h
  split at h
  · exact ⟨hlow.trans h.1, h.2.trans_eq hhigh⟩
  · exact ⟨hlow.trans h.1.le, h.2.le.trans_eq hhigh⟩

/-- Below a power of two the numbers are nearer. -/
theorem Covers.low_of_power (h : x.Covers v) (hm : x.mantissa = 4503599627370496)
    (he : x.exponent ≠ -1074) : x.magnitude - x.ulp / 4 ≤ v := by
  unfold Covers at h
  simp only at h
  rw [if_pos (by rw [hm]), quarters, if_pos ⟨hm, he⟩, Nat.cast_sub (by omega)] at h
  have hl := h.1
  push_cast at hl
  rw [magnitude]
  linarith

/-- A value of 53 bits lies on the grid of the number that it rounds to. -/
theorem exponent_le_of_covers {n : Nat} {f : ℤ} (hn : n < 9007199254740992) (hf : -1074 ≤ f)
    (hx : 4503599627370496 ≤ x.mantissa) (h : x.Covers (n * 2 ^ f)) : x.exponent ≤ f := by
  by_contra hgt
  have ht : (0 : ℚ) < 2 ^ f := zpow_pos two_pos f
  have hu : 2 * (2 : ℚ) ^ f ≤ x.ulp := by
    rw [ulp, mul_comm, ← zpow_add_one₀ two_ne_zero]
    exact zpow_le_zpow_right₀ one_le_two (by omega)
  have hn' : (n : ℚ) + 1 ≤ 9007199254740992 := by exact_mod_cast hn
  have hnt : (n + 1 : ℚ) * 2 ^ f ≤ 9007199254740992 * 2 ^ f := by gcongr
  rcases hx.eq_or_lt with hm | hm
  · have hl := h.low_of_power hm.symm (by omega)
    rw [magnitude, ← hm] at hl
    push_cast at hl
    linarith
  · have hl := h.bounds.1
    have hm' : (4503599627370496 : ℚ) + 1 ≤ x.mantissa := by exact_mod_cast hm
    have hmu : (4503599627370496 + 1 : ℚ) * x.ulp ≤ x.mantissa * x.ulp := by
      have := x.ulp_pos
      gcongr
    rw [magnitude] at hl
    linarith

theorem magnitude_eq_of_covers {n : Nat} {f : ℤ} (hn : n < 9007199254740992) (hf : -1074 ≤ f)
    (hx : 4503599627370496 ≤ x.mantissa) (h : x.Covers (n * 2 ^ f)) :
    x.magnitude = n * 2 ^ f := by
  have hle := exponent_le_of_covers hn hf hx h
  have hgrid : (n : ℚ) * 2 ^ f = (n * 2 ^ (f - x.exponent).toNat : Nat) * x.ulp := by
    push_cast
    rw [ulp, mul_assoc, ← zpow_natCast, ← zpow_add₀ two_ne_zero]
    congr 2
    omega
  have hu := x.ulp_pos
  obtain ⟨hl, hh⟩ := h.bounds
  rw [hgrid, magnitude] at hl hh ⊢
  generalize n * 2 ^ (f - x.exponent).toNat = k at hl hh ⊢
  have hl' : (2 * x.mantissa : ℚ) ≤ 2 * k + 1 := le_of_mul_le_mul_right (by linarith) hu
  have hh' : (2 * k : ℚ) ≤ 2 * x.mantissa + 1 := le_of_mul_le_mul_right (by linarith) hu
  have hk : x.mantissa = k := by
    have h1 : 2 * x.mantissa ≤ 2 * k + 1 := by exact_mod_cast hl'
    have h2 : 2 * k ≤ 2 * x.mantissa + 1 := by exact_mod_cast hh'
    omega
  rw [hk]

end Hit

/-- A natural that is one of 53 bits times a power of two is read exactly. -/
theorem exists_ofNat? {n m f : Nat} (hm : 0 < m) (hlt : m < 9007199254740992) (hf : f ≤ 900)
    (hn : n = m * 2 ^ f) : ∃ x, ofNat? n = some x ∧ x.negative = false ∧ x.magnitude = n := by
  have hpos : 0 < n := hn ▸ Nat.mul_pos hm (Nat.two_pow_pos f)
  have hv : (n : ℚ) / (1 : Nat) = m * 2 ^ (f : ℤ) := by
    rw [hn, zpow_natCast]
    push_cast
    rw [div_one]
  have hlow : (2 : ℚ) ^ (-1000 : ℤ) ≤ (n : ℚ) / (1 : Nat) := by
    have : (2 : ℚ) ^ (-1000 : ℤ) ≤ 1 := zpow_le_one_of_nonpos₀ one_le_two (by decide)
    rw [Nat.cast_one, div_one]
    exact this.trans (by exact_mod_cast hpos)
  have hhigh : (n : ℚ) / (1 : Nat) < 2 ^ (1000 : ℤ) := by
    have hf' : (2 : ℚ) ^ (f : ℤ) ≤ 2 ^ (900 : ℤ) := zpow_le_zpow_right₀ one_le_two (by omega)
    have hm' : (m : ℚ) < 9007199254740992 := by exact_mod_cast hlt
    rw [hv]
    calc (m : ℚ) * 2 ^ (f : ℤ)
      _ < 9007199254740992 * 2 ^ (f : ℤ) := by gcongr
      _ ≤ 9007199254740992 * 2 ^ (900 : ℤ) := by gcongr
      _ = 2 ^ (900 + 53 : ℤ) := mul_zpow_53 900
      _ ≤ 2 ^ (1000 : ℤ) := zpow_le_zpow_right₀ one_le_two (by decide)
  obtain ⟨x, hx, hneg, hc, hmant⟩ := exists_ofRatio? false hpos Nat.one_pos hlow hhigh
  rw [hv] at hc
  refine ⟨x, hx, hneg, ?_⟩
  rw [magnitude_eq_of_covers hlt (by omega) hmant hc, ← hv, Nat.cast_one, div_one]

theorem exists_powerOfTen? {k : Nat} (hk : k ≤ 22) :
    ∃ p, powerOfTen? k = some p ∧ p.negative = false ∧ p.magnitude = 10 ^ k := by
  have h5 : 5 ^ k < 9007199254740992 :=
    (Nat.pow_le_pow_right (by decide) hk).trans_lt (by decide)
  have h10 : tenTo k = 5 ^ k * 2 ^ k := by
    rw [tenTo, ← Nat.mul_pow]
    rfl
  obtain ⟨p, hp, hneg, hmag⟩ := exists_ofNat? (Nat.pow_pos (by decide)) h5 (by omega) h10
  refine ⟨p, hp, hneg, ?_⟩
  rw [hmag, tenTo, Nat.pow_eq, Nat.cast_pow, Nat.cast_ofNat]

theorem numerator_pos {x : Binary64} (h : 0 < x.magnitude) : 0 < x.numerator := by
  rw [← numerator_div_denominator] at h
  exact_mod_cast (div_pos_iff_of_pos_right (Nat.cast_pos.mpr x.denominator_pos)).mp h

theorem mul_pow_ten_bounds {n : Nat} {e : ℤ} (hpos : 0 < n) (hn : n < 9007199254740992)
    (he : e.natAbs ≤ 22) :
    (2 : ℚ) ^ (-1000 : ℤ) ≤ n * 10 ^ e ∧ (n : ℚ) * 10 ^ e < 2 ^ (1000 : ℤ) := by
  have h10 : (1 : ℚ) ≤ 10 := by norm_num
  have hlow : (10 : ℚ) ^ (-22 : ℤ) ≤ 10 ^ e := zpow_le_zpow_right₀ h10 (by omega)
  have hhigh : (10 : ℚ) ^ e ≤ 10 ^ (22 : ℤ) := zpow_le_zpow_right₀ h10 (by omega)
  have hn1 : (1 : ℚ) ≤ n := by exact_mod_cast hpos
  have hn2 : (n : ℚ) < 9007199254740992 := by exact_mod_cast hn
  constructor
  · calc (2 : ℚ) ^ (-1000 : ℤ)
      _ ≤ 2 ^ (-100 : ℤ) := zpow_le_zpow_right₀ one_le_two (by decide)
      _ ≤ 1 * 10 ^ (-22 : ℤ) := by norm_num
      _ ≤ n * 10 ^ e := by gcongr
  · calc (n : ℚ) * 10 ^ e
      _ ≤ n * 10 ^ (22 : ℤ) := by gcongr
      _ < 9007199254740992 * 10 ^ (22 : ℤ) := by gcongr
      _ ≤ 2 ^ (200 : ℤ) := by norm_num
      _ ≤ 2 ^ (1000 : ℤ) := zpow_le_zpow_right₀ one_le_two (by decide)

/-- A small power of ten scales in one rounded step. -/
theorem exists_scale? {x : Binary64} {n : Nat} {e : ℤ} (hpos : 0 < n)
    (hn : n < 9007199254740992) (hx : x.magnitude = n) (hneg : x.negative = false)
    (he : e.natAbs ≤ 22) :
    ∃ y, scale? 4 x e = some y ∧ y.negative = false ∧ y.Covers (n * 10 ^ e) ∧
      4503599627370496 ≤ y.mantissa := by
  obtain ⟨p, hp, hpneg, hpmag⟩ := exists_powerOfTen? he
  have hxn := numerator_pos (x := x) (by rw [hx]; exact_mod_cast hpos)
  have hpn := numerator_pos (x := p) (by rw [hpmag]; positivity)
  have hxd := x.denominator_pos
  have hpd := p.denominator_pos
  obtain ⟨hlow, hhigh⟩ := mul_pow_ten_bounds hpos hn he
  rw [scale?, if_pos (he.trans (by decide)), hp]
  simp only [Option.bind_eq_bind, Option.bind_some]
  split
  · rename_i h0
    have hv : ((x.numerator * p.numerator : Nat) : ℚ) / (x.denominator * p.denominator : Nat) =
        n * 10 ^ e := by
      push_cast
      rw [mul_div_mul_comm, numerator_div_denominator, numerator_div_denominator, hx, hpmag,
        ← zpow_natCast]
      congr 2
      omega
    obtain ⟨y, hy, hyneg, hc, hm⟩ := exists_ofRatio? (x.negative != p.negative)
      (Nat.mul_pos hxn hpn) (Nat.mul_pos hxd hpd) (hv ▸ hlow) (hv ▸ hhigh)
    exact ⟨y, hy, by rw [hyneg, hneg, hpneg]; rfl, hv ▸ hc, hm⟩
  · rename_i h0
    have hv : ((x.numerator * p.denominator : Nat) : ℚ) / (x.denominator * p.numerator : Nat) =
        n * 10 ^ e := by
      push_cast
      rw [mul_div_mul_comm, ← inv_div (p.numerator : ℚ), numerator_div_denominator,
        numerator_div_denominator, hx, hpmag, ← zpow_natCast, ← zpow_neg]
      congr 2
      omega
    obtain ⟨y, hy, hyneg, hc, hm⟩ := exists_ofRatio? (x.negative != p.negative)
      (Nat.mul_pos hxn hpd) (Nat.mul_pos hxd hpn) (hv ▸ hlow) (hv ▸ hhigh)
    exact ⟨y, hy, by rw [hyneg, hneg, hpneg]; rfl, hv ▸ hc, hm⟩

/-- A decimal of 53 bits and of a small power rounds once. -/
theorem exists_ofDecimal? (negative : Bool) {n : Nat} {e : ℤ} (hpos : 0 < n)
    (hn : n < 9007199254740992) (he : e.natAbs ≤ 22) :
    ∃ x, ofDecimal? negative n e = some x ∧ x.negative = negative ∧ x.Covers (n * 10 ^ e) ∧
      4503599627370496 ≤ x.mantissa := by
  obtain ⟨x, hx, hxneg, hmag⟩ := exists_ofNat? hpos hn (Nat.zero_le _) (n := n) (by simp)
  obtain ⟨y, hy, hyneg, hc, hm⟩ := exists_scale? hpos hn hmag hxneg he
  rw [ofDecimal?, hx]
  simp only [Option.bind_eq_bind, Option.bind_some, hy, Option.pure_def, Option.some.injEq,
    exists_eq_left']
  cases negative with
  | false => exact ⟨hyneg, hc, hm⟩
  | true => exact ⟨by simp [neg, hyneg], hc, hm⟩

theorem ofRatio?_zero (negative : Bool) (den : Nat) :
    ofRatio? negative 0 den = some { zero with negative } := by
  have hm : roundAt 0 den (-1074) = 0 := by simp [roundAt, roundDiv]
  rw [ofRatio?]
  simp only [exponentOf, if_true, hm]
  rfl

/-- A zero stays a zero. -/
theorem ofDecimal?_zero (negative : Bool) {e : ℤ} (he : e.natAbs ≤ 22) :
    ofDecimal? negative 0 e = some { zero with negative } := by
  obtain ⟨p, hp, hpneg, -⟩ := exists_powerOfTen? he
  have hx : ofNat? 0 = some zero := ofRatio?_zero false 1
  have hy : scale? 4 zero e = some zero := by
    have hnum : zero.numerator = 0 := Nat.zero_shiftLeft _
    rw [scale?, if_pos (he.trans (by decide)), hp]
    simp only [Option.bind_eq_bind, Option.bind_some, mul?, div?, hpneg, hnum, Nat.zero_mul,
      ofRatio?_zero, ite_self]
    rfl
  rw [ofDecimal?, hx]
  simp only [Option.bind_eq_bind, Option.bind_some, hy]
  cases negative <;> rfl

end ContextServer.Binary64
