import ContextServer.Proofs.Json.Numeral

/-!
Numerals that survive being read and printed (`IsKept`). An integer that fits 64 bits is printed
as it was spelled. A numeral of at most fifteen digits and a small power is printed with the value
that it had, though its spelling may change: it becomes the nearest binary64 number, and of the
decimals that round to that number it is the shortest.
-/

namespace ContextServer

open Json.Parser

/-- The value that a number has when it is printed; of a float this is its shortest decimal. -/
def Number.shown : Number → ℚ
  | .int n _ => n
  | .float f => signed f.negative f.shortest.value

namespace Json.Numeral

variable {x : Numeral}

/-! ### Integers -/

theorem digitChar_digitValue {c : Char} (h : Text.isDigit c = true) :
    Text.digitValue c < 10 ∧ (Text.digitValue c).digitChar = c := by
  obtain ⟨hge, hle⟩ := Text.toNat_of_isDigit h
  obtain ⟨k, hk⟩ := Nat.exists_eq_add_of_le hge
  have hv : Text.digitValue c = k := by
    show c.toNat - 48 = k
    omega
  have hc : c = Char.ofNat (48 + k) := by rw [← hk, Char.ofNat_toNat]
  have hlt : k < 10 := by omega
  rw [hv, hc]
  refine ⟨hlt, ?_⟩
  interval_cases k <;> rfl

theorem digitsValue_concat (cs : List Char) (c : Char) :
    Text.digitsValue (cs ++ [c]) = 10 * Text.digitsValue cs + Text.digitValue c := by
  rw [Text.digitsValue, Nat.ofDigitChars_append, Text.ofDigitChars_cons]
  rfl

/-- Digits without a leading zero are those that their value is written with. -/
theorem decimal_digitsValue {cs : List Char} (hd : ∀ c ∈ cs, Text.isDigit c = true)
    (h : wholeFits cs = true) : Text.decimal (Text.digitsValue cs) = cs := by
  induction cs using List.reverseRecOn with
  | nil => cases h
  | append_singleton cs c ih =>
    obtain ⟨hlt, hchar⟩ := digitChar_digitValue (hd c (by simp))
    have hlast : Text.decimal (Text.digitValue c) = [c] :=
      (Nat.toDigits_of_lt_base hlt).trans (congrArg ([·]) hchar)
    rw [digitsValue_concat]
    by_cases hcs : cs = []
    · subst hcs
      have hzero : Text.digitsValue [] = 0 := rfl
      rw [hzero, Nat.mul_zero, Nat.zero_add, hlast]
      rfl
    · have hhead : cs.head? ≠ some '0' := by
        intro h0
        have hlen : (cs ++ [c]).length ≠ 1 := by simpa using hcs
        simp [wholeFits, h0, hcs] at h
      have hdec := ih (fun d hmem => hd d (by simp [hmem])) (wholeFits_of_head hcs hhead)
      have hpos : 0 < Text.digitsValue cs := by
        refine Nat.pos_of_ne_zero fun h0 => hhead ?_
        rw [← hdec, h0]
        rfl
      have happ := Nat.toDigits_append_toDigits (b := 10) (by decide) hpos hlt
      rw [Text.decimal, ← happ]
      exact congrArg₂ (· ++ ·) hdec hlast

/-- A numeral without fraction and exponent whose value fits 64 bits; minus zero is none. -/
structure IsWord (x : Numeral) : Prop where
  fraction : x.fraction = none
  exponent : x.exponent = none
  digits : if x.negative then 0 < x.digits ∧ x.digits ≤ 9223372036854775808
    else x.digits < 18446744073709551616

/-- The integer that the sign and the digits make up. -/
def int (x : Numeral) : Int := if x.negative then -x.digits else x.digits

/-- What the sign makes of the bound on the digits. -/
theorem IsWord.int_cases (h : x.IsWord) :
    (x.negative = true ∧ x.int = -x.digits ∧ 0 < x.digits ∧ x.digits ≤ 9223372036854775808) ∨
      (x.negative = false ∧ x.int = x.digits ∧ x.digits < 18446744073709551616) := by
  have hd := h.digits
  cases hn : x.negative with
  | true =>
    rw [hn] at hd
    exact .inl ⟨rfl, by simp [int, hn], hd⟩
  | false =>
    rw [hn] at hd
    exact .inr ⟨rfl, by simp [int, hn], hd⟩

theorem IsWord.fits (h : x.IsWord) :
    -9223372036854775808 ≤ x.int ∧ x.int < 18446744073709551616 := by
  rcases h.int_cases with ⟨-, hint, hd⟩ | ⟨-, hint, hd⟩ <;> omega

theorem IsWord.digits_eq (h : x.IsWord) : x.digits = Text.digitsValue x.whole.chars := by
  rw [Numeral.digits, places, h.fraction, Option.map_none, Option.getD_none, List.append_nil]

/-- Such a numeral is written as the integer that it denotes. -/
theorem IsWord.ofInt_int (h : x.IsWord) : ofInt x.int = x := by
  have habs : x.int.natAbs = x.digits := by
    rcases h.int_cases with ⟨-, hint, -⟩ | ⟨-, hint, -⟩ <;> omega
  have hneg : decide (x.int < 0) = x.negative := by
    rcases h.int_cases with ⟨hn, hint, hd⟩ | ⟨hn, hint, -⟩
    · rw [hn, decide_eq_true_eq]
      omega
    · rw [hn, decide_eq_false_iff_not]
      omega
  refine Numeral.ext hneg (Digits.ext ?_) h.fraction.symm h.exponent.symm
  show Text.decimal x.int.natAbs = x.whole.chars
  rw [habs, h.digits_eq, decimal_digitsValue x.whole.isDigit x.fits]

theorem IsWord.read?_eq (h : x.IsWord) : x.read? = some (.int x.int h.fits) := by
  have hlt : x.digits < Text.wordBound := by
    unfold Text.wordBound
    rcases h.int_cases with ⟨-, -, hd⟩ | ⟨-, -, hd⟩ <;> omega
  have hword : Text.digitsWord? x.whole.chars = some x.digits := by
    rw [Text.digitsWord?_eq, ← h.digits_eq, if_pos hlt]
  have hread : x.read? = Number.whole? x.negative x.whole.chars := by
    rw [read?, h.fraction, h.exponent]
    rfl
  rw [hread]
  rcases h.int_cases with ⟨hn, hint, hd⟩ | ⟨hn, hint, hd⟩
  · rw [hn, whole?_negative hword hd]
    simp only [hint]
  · rw [hn, whole?_positive hword hd]
    simp only [hint]

theorem IsWord.print_eq (h : x.IsWord) {n : Number} (hn : x.read? = some n) : n.print = x.text := by
  rw [h.read?_eq] at hn
  cases hn
  exact (text_ofInt x.int).symm.trans (congrArg text h.ofInt_int)

/-! ### What is printed -/

/-- What is printed of a float is a numeral for its shortest decimal. -/
theorem exists_float (f : Binary64) :
    ∃ y : Numeral, y.text = f.text floatStyle ∧ y.value = signed f.negative f.shortest.value := by
  have hd : 0 < f.shortest.digits ∨ f.shortest = ⟨0, 0⟩ := by
    rcases Nat.eq_zero_or_pos f.mantissa with h0 | hpos
    · exact .inr (Binary64.shortest_zero h0)
    · exact .inl (Binary64.digits_shortest_pos hpos)
  obtain ⟨y, hy, ht, hv⟩ := exists_write floatStyle f.negative hd
  refine ⟨y, ?_, hv⟩
  rw [text, ht, hy, Binary64.text]
  cases f.negative <;> rfl

/-- Every number is printed as a numeral. -/
theorem exists_print (n : Number) : ∃ y : Numeral, y.text = n.print ∧ y.value = n.shown := by
  cases n with
  | int n fits => exact ⟨ofInt n, text_ofInt n, value_ofInt n⟩
  | float f => exact exists_float f

/-- A numeral that is kept: the parser makes a number of it, and this is printed with the same
value. -/
def IsKept (x : Numeral) : Prop := ∃ n, x.read? = some n ∧ n.shown = x.value

theorem IsWord.isKept (h : x.IsWord) : x.IsKept := by
  refine ⟨_, h.read?_eq, ?_⟩
  show (x.int : ℚ) = x.value
  rw [← value_ofInt, h.ofInt_int]

/-! ### Short numerals -/

/-- A number of at most fifteen digits, with few places before or behind them. -/
structure IsShort (x : Numeral) : Prop where
  digits : x.digits < 1000000000000000
  power : x.power.natAbs ≤ 22
  scale : x.scale.natAbs ≤ exponentBound

/-- All digits of a short numeral are read before its exponent counts. -/
theorem IsShort.float?_eq (h : x.IsShort) :
    Number.float? x.negative x.whole.chars x.places x.scale =
      (Binary64.ofDecimal? x.negative x.digits x.power).map .float := by
  have hd : Nat.ofDigitChars 10 x.places (Text.digitsValue x.whole.chars) = x.digits := by
    rw [Numeral.digits, Text.digitsValue, Text.digitsValue, Nat.ofDigitChars_append]
  have hlt : x.digits < Text.wordBound := h.digits.trans (by decide)
  have hwhole : Text.takeWord 0 x.whole.chars = (Text.digitsValue x.whole.chars, []) := by
    refine Text.takeWord_of_lt (lt_of_le_of_lt ?_ hlt)
    rw [← hd]
    exact Text.le_ofDigitChars _ _
  have hplaces : Text.takeWord (Text.digitsValue x.whole.chars) x.places = (x.digits, []) := by
    rw [Text.takeWord_of_lt (hd ▸ hlt), hd]
  rw [Number.float?, hwhole]
  simp only [hplaces, List.length_nil, Nat.cast_zero, add_zero, sub_zero]
  rw [Numeral.power]
  cases Binary64.ofDecimal? x.negative x.digits (x.scale - x.places.length) <;> rfl

/-- What a short numeral is read as, when it is not an integer. -/
theorem IsShort.exists_rounded (h : x.IsShort) :
    ∃ f, Binary64.ofDecimal? x.negative x.digits x.power = some f ∧
      (Number.float f).shown = x.value := by
  rcases Nat.eq_zero_or_pos x.digits with h0 | hpos
  · rw [h0, Binary64.ofDecimal?_zero x.negative h.power]
    refine ⟨_, rfl, ?_⟩
    rw [Number.shown, Binary64.shortest_zero rfl, value, h0, Binary64.Decimal.value]
    simp
  · obtain ⟨f, hf, hneg, hc, hm⟩ := Binary64.exists_ofDecimal? x.negative hpos
      (h.digits.trans (by decide)) h.power
    refine ⟨f, hf, ?_⟩
    rw [Number.shown, hneg, value,
      Binary64.value_shortest (d := ⟨x.digits, x.power⟩) hm h.digits hc]
    rfl

/-- A short numeral that is not kept as an integer is read as a float; of those without fraction
and exponent this is only minus zero. -/
theorem IsShort.read?_eq (h : x.IsShort) (hw : ¬ x.IsWord) :
    x.read? = Number.float? x.negative x.whole.chars x.places x.scale := by
  have hscale : (x.exponent.map Exponent.capped).getD 0 = x.scale := by
    have hs := h.scale
    rw [Numeral.scale] at hs ⊢
    cases he : x.exponent with
    | none => rfl
    | some e =>
      rw [he] at hs
      exact Exponent.capped_eq_value hs
  rw [read?, places, ← hscale]
  cases hf : x.fraction with
  | some ds => rfl
  | none =>
    cases he : x.exponent with
    | some e => rfl
    | none =>
      have hd := h.digits
      have hneg : x.negative = true ∧ x.digits = 0 := by
        by_contra hne
        refine hw ⟨hf, he, ?_⟩
        cases hn : x.negative with
        | false => exact hd.trans (by decide)
        | true =>
          rw [hn] at hne
          simp only [true_and] at hne
          exact ⟨by omega, by omega⟩
      have hword : Text.digitsWord? x.whole.chars = some 0 := by
        have hv : Text.digitsValue x.whole.chars = 0 := by
          rw [← hneg.2, Numeral.digits, places, hf, Option.map_none, Option.getD_none,
            List.append_nil]
        rw [Text.digitsWord?_eq, hv]
        rfl
      rw [hneg.1]
      show Number.whole? true x.whole.chars = _
      simp only [Number.whole?, hword]
      rfl

theorem IsShort.isKept (h : x.IsShort) : x.IsKept := by
  by_cases hw : x.IsWord
  · exact hw.isKept
  · obtain ⟨f, hf, hv⟩ := h.exists_rounded
    refine ⟨.float f, ?_, hv⟩
    rw [h.read?_eq hw, h.float?_eq, hf]
    rfl

end Json.Numeral

end ContextServer
