import ContextServer.Proofs.Binary64.Shortest
import ContextServer.Proofs.Json.Prefix

/-!
Numbers as they are spelled. A numeral is a sign, whole digits, a fraction and an exponent, and it
denotes a rational number, whatever its size. No two numerals have one text, and the parser reads
of each what its parts make up (`number?_text`). What is printed of a number is a numeral again:
an integer denotes itself, and a float the decimal that is written for it.
-/

namespace ContextServer

/-- The magnitude `v` with a sign. -/
def signed (negative : Bool) (v : ℚ) : ℚ := if negative then -v else v

open Json.Parser

namespace Json

/-- One digit or more. -/
@[ext] structure Digits where
  chars : List Char
  isDigit : ∀ c ∈ chars, Text.isDigit c = true
  ne_nil : chars ≠ []

namespace Digits

/-- The digits of a natural. -/
def ofNat (n : Nat) : Digits :=
  ⟨Text.decimal n, fun _ hc => Text.isDigit_of_mem_decimal hc, Text.decimal_ne_nil n⟩

theorem splitDigits_append (ds : Digits) {r : List Char}
    (h : ∀ c ∈ r.head?, Text.isDigit c = false) : splitDigits (ds.chars ++ r) = (ds.chars, r) := by
  rw [splitDigits, List.takeWhile_append_of_pos ds.isDigit, List.dropWhile_append_of_pos ds.isDigit]
  cases r with
  | nil => simp
  | cons c r =>
    have hc := h c (by simp)
    simp [hc]

theorem eq_of_append {d e : Digits} {r s : List Char}
    (hr : ∀ c ∈ r.head?, Text.isDigit c = false) (hs : ∀ c ∈ s.head?, Text.isDigit c = false)
    (h : d.chars ++ r = e.chars ++ s) : d = e ∧ r = s := by
  have hsplit := congrArg splitDigits h
  rw [d.splitDigits_append hr, e.splitDigits_append hs] at hsplit
  obtain ⟨hde, hrs⟩ := Prod.mk.inj hsplit
  exact ⟨Digits.ext hde, hrs⟩

theorem exists_cons (ds : Digits) : ∃ c cs, ds.chars = c :: cs ∧ Text.isDigit c = true := by
  cases h : ds.chars with
  | nil => exact absurd h ds.ne_nil
  | cons c cs => exact ⟨c, cs, rfl, ds.isDigit c (by simp [h])⟩

end Digits

/-- The exponent of a numeral: a letter, a sign or none, and digits. -/
@[ext] structure Exponent where
  capital : Bool
  sign : Option Bool
  digits : Digits

/-- A sign, which is a minus if it is `true`. -/
def signText : Option Bool → List Char
  | none => []
  | some false => ['+']
  | some true => ['-']

namespace Exponent

def text (e : Exponent) : List Char :=
  (if e.capital then 'E' else 'e') :: (signText e.sign ++ e.digits.chars)

def isMinus (e : Exponent) : Bool := e.sign == some true

def value (e : Exponent) : Int :=
  if e.isMinus then -(Text.digitsValue e.digits.chars : Int) else Text.digitsValue e.digits.chars

/-- The exponent as far as the parser reads it. -/
def capped (e : Exponent) : Int :=
  if e.isMinus then -(Text.cappedValue exponentBound e.digits.chars : Int)
  else Text.cappedValue exponentBound e.digits.chars

theorem capped_eq_value {e : Exponent} (h : e.value.natAbs ≤ exponentBound) :
    e.capped = e.value := by
  have hb : Text.cappedValue exponentBound e.digits.chars = Text.digitsValue e.digits.chars := by
    rw [Text.cappedValue_eq]
    unfold value at h
    split at h <;> omega
  rw [capped, value, hb]

end Exponent

/-- A number in the grammar of RFC 8259. -/
@[ext] structure Numeral where
  negative : Bool
  whole : Digits
  fits : wholeFits whole.chars = true
  fraction : Option Digits
  exponent : Option Exponent

namespace Numeral

variable {x y : Numeral} {r s : List Char}

/-- The digits behind the point. -/
def places (x : Numeral) : List Char := (x.fraction.map Digits.chars).getD []

/-- All digits before the exponent as one number. -/
def digits (x : Numeral) : Nat := Text.digitsValue (x.whole.chars ++ x.places)

def scale (x : Numeral) : Int := (x.exponent.map Exponent.value).getD 0

/-- The power of ten of the last digit. -/
def power (x : Numeral) : Int := x.scale - x.places.length

/-- The number that a numeral denotes. -/
def value (x : Numeral) : ℚ := signed x.negative (x.digits * 10 ^ x.power)

def ending (x : Numeral) : List Char := (x.exponent.map Exponent.text).getD []

/-- What comes behind the whole digits. -/
def tail (x : Numeral) : List Char :=
  match x.fraction with
  | none => x.ending
  | some ds => '.' :: (ds.chars ++ x.ending)

def text (x : Numeral) : List Char :=
  (if x.negative then ['-'] else []) ++ (x.whole.chars ++ x.tail)

/-- The number that the parser makes of a numeral; there is none beyond the greatest float. -/
def read? (x : Numeral) : Option Number :=
  numberOf? x.negative x.whole.chars (x.fraction.map Digits.chars)
    (x.exponent.map Exponent.capped)

/-! ### Reading -/

theorem head_ending (x : Numeral) (hr : EndsNumber r) {c : Char}
    (h : c ∈ (x.ending ++ r).head?) : Text.isDigit c = false ∧ c ≠ '.' := by
  unfold ending at h
  cases he : x.exponent with
  | none =>
    rw [he] at h
    obtain ⟨hd, hp, -⟩ := hr c h
    exact ⟨hd, hp⟩
  | some e =>
    rw [he] at h
    obtain rfl : (if e.capital then 'E' else 'e') = c := by simpa [Exponent.text] using h
    cases e.capital <;> decide

theorem head_tail (x : Numeral) (hr : EndsNumber r) {c : Char}
    (h : c ∈ (x.tail ++ r).head?) : Text.isDigit c = false := by
  unfold tail at h
  cases hf : x.fraction with
  | none =>
    rw [hf] at h
    exact (x.head_ending hr h).1
  | some ds =>
    rw [hf] at h
    obtain rfl : '.' = c := by simpa using h
    rfl

theorem power?_digits (f : Option (List Char)) (negative : Bool) (ds : Digits)
    (hr : EndsNumber r) :
    power? f negative (ds.chars ++ r) =
      some (f, some (if negative then -(Text.cappedValue exponentBound ds.chars : Int)
        else Text.cappedValue exponentBound ds.chars), r) := by
  have hne : ds.chars.isEmpty = false := List.isEmpty_eq_false_iff.mpr ds.ne_nil
  rw [power?, ds.splitDigits_append fun c hc => (hr c hc).1]
  simp only [hne, Bool.false_eq_true, if_false]

theorem exponent?_ending (x : Numeral) (f : Option (List Char)) (hr : EndsNumber r) :
    exponent? f (x.ending ++ r) = some (f, x.exponent.map Exponent.capped, r) := by
  unfold ending
  cases he : x.exponent with
  | none =>
    cases r with
    | nil => rfl
    | cons c r =>
      obtain ⟨-, -, he, hE⟩ := hr c (by simp)
      simp [exponent?, he, hE]
  | some e =>
    obtain ⟨capital, sign, ds⟩ := e
    obtain ⟨c, cs, hcs, hc⟩ := ds.exists_cons
    have hletter : ((if capital then 'E' else 'e') == 'e' ||
        (if capital then 'E' else 'e') == 'E') = true := by cases capital <;> rfl
    simp only [Option.map_some, Option.getD_some, Exponent.text, List.cons_append, exponent?,
      hletter, if_true]
    cases sign with
    | none =>
      -- a digit is no sign
      have hminus : c ≠ '-' := by
        rintro rfl
        cases hc
      have hplus : c ≠ '+' := by
        rintro rfl
        cases hc
      have hp := power?_digits f false ds hr
      simp only [signText, List.nil_append]
      rw [hcs, List.cons_append] at hp ⊢
      split
      · rename_i heq
        exact absurd (List.cons.inj heq).1 hminus
      · rename_i heq
        exact absurd (List.cons.inj heq).1 hplus
      · rw [hp, ← hcs]
        rfl
    | some minus =>
      cases minus with
      | false => exact power?_digits f false ds hr
      | true => exact power?_digits f true ds hr

theorem tail?_tail (x : Numeral) (hr : EndsNumber r) :
    tail? (x.tail ++ r) =
      some (x.fraction.map Digits.chars, x.exponent.map Exponent.capped, r) := by
  unfold tail
  cases hf : x.fraction with
  | none =>
    simp only
    rw [tail?_other]
    · exact x.exponent?_ending none hr
    · intro t ht
      exact (x.head_ending hr (by rw [ht]; rfl)).2 rfl
  | some ds =>
    have hne : ds.chars.isEmpty = false := List.isEmpty_eq_false_iff.mpr ds.ne_nil
    simp only
    rw [List.cons_append, List.append_assoc, tail?_point,
      ds.splitDigits_append fun c hc => (x.head_ending hr hc).1]
    simp only [hne, Bool.false_eq_true, if_false]
    exact x.exponent?_ending (some ds.chars) hr

theorem unsigned?_whole (x : Numeral) (hr : EndsNumber r) :
    unsigned? x.negative (x.whole.chars ++ (x.tail ++ r)) = x.read?.map (·, r) := by
  ext ⟨n, t⟩
  rw [unsigned?_eq_some,
    x.whole.splitDigits_append fun c hc => x.head_tail hr hc, x.tail?_tail hr]
  simp only [x.fits, true_and, Option.map_eq_some_iff, Prod.mk.injEq, Option.some.injEq]
  constructor
  · rintro ⟨f, e, ⟨rfl, rfl, rfl⟩, hn⟩
    exact ⟨n, hn, rfl, rfl⟩
  · rintro ⟨m, hm, rfl, rfl⟩
    exact ⟨_, _, ⟨rfl, rfl, rfl⟩, hm⟩

/-- A numeral is read whole, up to what ends it. -/
theorem number?_text (x : Numeral) (hr : EndsNumber r) :
    number? (x.text ++ r) = x.read?.map (·, r) := by
  have hu := x.unsigned?_whole hr
  unfold text
  cases hn : x.negative with
  | true =>
    rw [hn] at hu
    simp only [if_true, List.append_assoc]
    exact hu
  | false =>
    obtain ⟨c, cs, hcs, hc⟩ := x.whole.exists_cons
    rw [hn, hcs, List.cons_append] at hu
    simp only [Bool.false_eq_true, if_false, List.nil_append]
    rw [hcs, List.cons_append, List.cons_append, number?_digit hc, List.append_assoc]
    exact hu

/-! ### One text, one numeral -/

/-- A sign is no digit, so it stands before the same digits. -/
theorem eq_of_sign_append {a b : Option Bool} {d e : Digits} (hr : EndsNumber r)
    (hs : EndsNumber s) (h : signText a ++ (d.chars ++ r) = signText b ++ (e.chars ++ s)) :
    a = b ∧ d = e ∧ r = s := by
  obtain ⟨c, cs, hc, hd⟩ := d.exists_cons
  obtain ⟨c', cs', hc', hd'⟩ := e.exists_cons
  have hsign {u : Char} (hu : Text.isDigit u = true) : u ≠ '-' ∧ u ≠ '+' := by
    constructor <;> rintro rfl <;> cases hu
  have hab : a = b := by
    rw [hc, hc'] at h
    match a, b with
    | none, none | some false, some false | some true, some true => rfl
    | none, some false => exact absurd (List.cons.inj h).1 (hsign hd).2
    | none, some true => exact absurd (List.cons.inj h).1 (hsign hd).1
    | some false, none => exact absurd (List.cons.inj h).1.symm (hsign hd').2
    | some true, none => exact absurd (List.cons.inj h).1.symm (hsign hd').1
    | some false, some true | some true, some false =>
      exact absurd (List.cons.inj h).1 (by decide)
  subst hab
  obtain ⟨hde, hrs⟩ := Digits.eq_of_append (fun c hc => (hr c hc).1) (fun c hc => (hs c hc).1)
    (List.append_cancel_left h)
  exact ⟨rfl, hde, hrs⟩

theorem eq_of_ending_append (hr : EndsNumber r) (hs : EndsNumber s)
    (h : x.ending ++ r = y.ending ++ s) : x.exponent = y.exponent ∧ r = s := by
  have letter {d : Exponent} {t u : List Char} (ht : EndsNumber t) (he : t = d.text ++ u) :
      False := by
    subst he
    obtain ⟨-, -, he, hE⟩ := ht _ (by rw [Exponent.text]; rfl)
    cases hc : d.capital <;> simp [hc] at he hE
  unfold ending at h
  cases hd : x.exponent with
  | none =>
    cases he : y.exponent with
    | none =>
      rw [hd, he] at h
      exact ⟨rfl, h⟩
    | some e =>
      rw [hd, he] at h
      exact (letter hr h).elim
  | some d =>
    cases he : y.exponent with
    | none =>
      rw [hd, he] at h
      exact (letter hs h.symm).elim
    | some e =>
      rw [hd, he] at h
      have hl := (List.cons.inj h).1
      have ht : signText d.sign ++ d.digits.chars ++ r = signText e.sign ++ e.digits.chars ++ s :=
        (List.cons.inj h).2
      rw [List.append_assoc, List.append_assoc] at ht
      obtain ⟨hsign, hdigits, hrs⟩ := eq_of_sign_append hr hs ht
      have hcap : d.capital = e.capital := by
        revert hl
        cases d.capital <;> cases e.capital <;> decide
      exact ⟨congrArg some (Exponent.ext hcap hsign hdigits), hrs⟩

theorem eq_of_tail_append (hr : EndsNumber r) (hs : EndsNumber s)
    (h : x.tail ++ r = y.tail ++ s) :
    x.fraction = y.fraction ∧ x.exponent = y.exponent ∧ r = s := by
  unfold tail at h
  cases hf : x.fraction with
  | none =>
    cases hg : y.fraction with
    | none =>
      rw [hf, hg] at h
      exact ⟨rfl, eq_of_ending_append hr hs h⟩
    | some e =>
      rw [hf, hg] at h
      exact absurd rfl (x.head_ending hr (by rw [h]; rfl)).2
  | some d =>
    cases hg : y.fraction with
    | none =>
      rw [hf, hg] at h
      exact absurd rfl (y.head_ending hs (by rw [← h]; rfl)).2
    | some e =>
      rw [hf, hg] at h
      have ht : d.chars ++ x.ending ++ r = e.chars ++ y.ending ++ s := (List.cons.inj h).2
      rw [List.append_assoc, List.append_assoc] at ht
      obtain ⟨hde, hend⟩ := Digits.eq_of_append (fun c hc => (x.head_ending hr hc).1)
        (fun c hc => (y.head_ending hs hc).1) ht
      exact ⟨congrArg some hde, eq_of_ending_append hr hs hend⟩

theorem eq_of_text_append (hr : EndsNumber r) (hs : EndsNumber s)
    (h : x.text ++ r = y.text ++ s) : x = y ∧ r = s := by
  have unsigned {u v : List Char} {d : Digits} (hu : '-' :: u = d.chars ++ v) : False := by
    obtain ⟨c, cs, hcs, hc⟩ := d.exists_cons
    rw [hcs] at hu
    rw [← (List.cons.inj hu).1] at hc
    cases hc
  have hneg : x.negative = y.negative := by
    unfold text at h
    cases hx : x.negative <;> cases hy : y.negative
    · rfl
    · rw [hx, hy] at h
      simp only [List.append_assoc] at h
      exact (unsigned h.symm).elim
    · rw [hx, hy] at h
      simp only [List.append_assoc] at h
      exact (unsigned h).elim
    · rfl
  unfold text at h
  rw [hneg, List.append_assoc, List.append_assoc, List.append_assoc, List.append_assoc] at h
  obtain ⟨hwhole, htail⟩ := Digits.eq_of_append (fun c hc => x.head_tail hr hc)
    (fun c hc => y.head_tail hs hc) (List.append_cancel_left h)
  obtain ⟨hf, he, hrs⟩ := eq_of_tail_append hr hs htail
  exact ⟨Numeral.ext hneg hwhole hf he, hrs⟩

/-! ### Printing -/

theorem wholeFits_of_head {cs : List Char} (hne : cs ≠ []) (h : cs.head? ≠ some '0') :
    wholeFits cs = true := by
  simp [wholeFits, hne, h]

theorem wholeFits_decimal (n : Nat) : wholeFits (Text.decimal n) = true := by
  rcases Nat.eq_zero_or_pos n with rfl | hn
  · rfl
  · exact wholeFits_of_head (Text.decimal_ne_nil n) (head_decimal hn)

/-- An integer as it is printed. -/
def ofInt (n : Int) : Numeral :=
  ⟨decide (n < 0), .ofNat n.natAbs, wholeFits_decimal _, none, none⟩

theorem text_ofInt (n : Int) : (ofInt n).text = Text.decimalInt n := by
  have ht : (ofInt n).whole.chars ++ (ofInt n).tail = Text.decimal n.natAbs := List.append_nil _
  rw [text, ht, Text.decimalInt]
  by_cases hn : n < 0 <;> simp [ofInt, hn]

theorem value_ofInt (n : Int) : (ofInt n).value = n := by
  have hd : (ofInt n).digits = n.natAbs := by
    rw [digits, places]
    exact (congrArg Text.digitsValue (List.append_nil _)).trans (Text.digitsValue_decimal _)
  have hp : (ofInt n).power = 0 := rfl
  rw [value, hd, hp, zpow_zero, mul_one, signed]
  by_cases hn : n < 0
  · have habs : ((n.natAbs : Int) : ℚ) = ((-n : Int) : ℚ) := congrArg _ (by omega)
    simp only [ofInt, hn, decide_true, if_true]
    rw [← Int.cast_natCast, habs, Int.cast_neg, neg_neg]
  · have habs : ((n.natAbs : Int) : ℚ) = (n : ℚ) := congrArg _ (by omega)
    simp only [ofInt, hn, decide_false, Bool.false_eq_true, if_false]
    rw [← Int.cast_natCast, habs]

section Write

variable {d : Binary64.Decimal}

/-- The places behind the last digit that counts are zeros. -/
theorem value_of_digits (k : Nat) (hd : x.digits = d.digits * 10 ^ k)
    (hp : x.power = d.power - k) : x.value = signed x.negative d.value := by
  have h10 : (10 : ℚ) ≠ 0 := by norm_num
  rw [value, hd, hp, Binary64.Decimal.value, zpow_sub₀ h10, zpow_natCast]
  congr 1
  push_cast
  field_simp

theorem digitsValue_append_zeros (n k : Nat) :
    Text.digitsValue (Text.decimal n ++ List.replicate k '0') = n * 10 ^ k := by
  rw [Text.digitsValue, Nat.ofDigitChars_append, Nat.ofDigitChars_replicate_zero]
  exact (congrArg (10 ^ k * ·) (Text.digitsValue_decimal n)).trans (Nat.mul_comm _ _)

theorem digitsValue_zeros_append (k : Nat) (cs : List Char) :
    Text.digitsValue (List.replicate k '0' ++ cs) = Text.digitsValue cs := by
  rw [Text.digitsValue, Nat.ofDigitChars_append, Nat.ofDigitChars_replicate_zero, Nat.mul_zero]
  rfl

theorem isDigit_of_mem_replicate {k : Nat} {c : Char} (h : c ∈ List.replicate k '0') :
    Text.isDigit c = true := by
  rw [List.eq_of_mem_replicate h]
  rfl

/-- A whole number, with a zero behind the point. -/
theorem exists_whole (negative : Bool) (h : 0 < d.digits ∨ d = ⟨0, 0⟩) (hp : 0 ≤ d.power) :
    ∃ x : Numeral, x.negative = negative ∧ x.whole.chars ++ x.tail =
        Text.decimal d.digits ++ List.replicate d.power.toNat '0' ++ ['.', '0'] ∧
      x.value = signed negative d.value := by
  have hne : Text.decimal d.digits ++ List.replicate d.power.toNat '0' ≠ [] :=
    List.append_ne_nil_of_left_ne_nil (Text.decimal_ne_nil _) _
  have hfits : wholeFits (Text.decimal d.digits ++ List.replicate d.power.toNat '0') = true := by
    rcases h with hd | rfl
    · refine wholeFits_of_head hne ?_
      rw [List.head?_append_of_ne_nil _ (Text.decimal_ne_nil _)]
      exact head_decimal hd
    · rfl
  have hdigit : ∀ c ∈ Text.decimal d.digits ++ List.replicate d.power.toNat '0',
      Text.isDigit c = true := fun c hc =>
    (List.mem_append.mp hc).elim Text.isDigit_of_mem_decimal isDigit_of_mem_replicate
  refine ⟨⟨negative, ⟨_, hdigit, hne⟩, hfits, some (.ofNat 0), none⟩, rfl, ?_, ?_⟩
  · simp [tail, ending, Digits.ofNat, Text.decimal]
  · refine value_of_digits (d.power.toNat + 1) ?_ ?_
    · rw [← digitsValue_append_zeros, List.replicate_succ', ← List.append_assoc]
      rfl
    · simp only [power, scale, places, Digits.ofNat, Text.decimal, Option.map_none,
        Option.getD_none, Option.map_some, Option.getD_some, Nat.toDigits_zero,
        List.length_singleton]
      omega

/-- The point stands within the digits, behind the first `n` of them. -/
theorem exists_split (negative : Bool) (h : 0 < d.digits) {n : Nat} (hn : 0 < n)
    (hlt : n < (Text.decimal d.digits).length) (e : Option Exponent)
    (he : (e.map Exponent.value).getD 0 - ((Text.decimal d.digits).length - n : Int) = d.power) :
    ∃ x : Numeral, x.negative = negative ∧ x.whole.chars ++ x.tail =
        (Text.decimal d.digits).take n ++
          '.' :: ((Text.decimal d.digits).drop n ++ (e.map Exponent.text).getD []) ∧
      x.value = signed negative d.value := by
  have hfits : wholeFits ((Text.decimal d.digits).take n) = true := by
    refine wholeFits_of_head (by simp [Text.decimal_ne_nil]; omega) ?_
    rw [List.head?_take, if_neg (by omega)]
    exact head_decimal h
  refine ⟨⟨negative, ⟨_, fun c hc => Text.isDigit_of_mem_decimal (List.mem_of_mem_take hc),
      by simp [Text.decimal_ne_nil]; omega⟩, hfits,
    some ⟨_, fun c hc => Text.isDigit_of_mem_decimal (List.mem_of_mem_drop hc),
      by simpa using hlt⟩, e⟩, rfl, rfl, ?_⟩
  refine value_of_digits 0 ?_ ?_
  · rw [pow_zero, mul_one]
    refine Eq.trans ?_ (Text.digitsValue_decimal d.digits)
    exact congrArg Text.digitsValue (List.take_append_drop n _)
  · simp only [power, scale, places, Option.map_some, Option.getD_some, List.length_drop]
    omega

/-- Below one the digits stand behind the point and behind zeros. -/
theorem exists_small (negative : Bool) (k : Nat)
    (hk : (k : Int) + (Text.decimal d.digits).length = -d.power) :
    ∃ x : Numeral, x.negative = negative ∧ x.whole.chars ++ x.tail =
        '0' :: '.' :: (List.replicate k '0' ++ Text.decimal d.digits) ∧
      x.value = signed negative d.value := by
  have hdigit : ∀ c ∈ List.replicate k '0' ++ Text.decimal d.digits, Text.isDigit c = true :=
    fun c hc => (List.mem_append.mp hc).elim isDigit_of_mem_replicate Text.isDigit_of_mem_decimal
  have hne : List.replicate k '0' ++ Text.decimal d.digits ≠ [] :=
    List.append_ne_nil_of_right_ne_nil _ (Text.decimal_ne_nil _)
  refine ⟨⟨negative, .ofNat 0, rfl, some ⟨_, hdigit, hne⟩, none⟩, rfl, ?_, ?_⟩
  · simp [tail, ending, Digits.ofNat, Text.decimal]
  · refine value_of_digits 0 ?_ ?_
    · rw [pow_zero, mul_one]
      refine Eq.trans ?_ (Text.digitsValue_decimal d.digits)
      exact digitsValue_zeros_append (k + 1) _
    · simp only [power, scale, places, Option.map_none, Option.getD_none, Option.map_some,
        Option.getD_some, List.length_append, List.length_replicate]
      omega

/-- Without a point the exponent is the power of the last digit. -/
theorem exists_pointless (negative : Bool) (e : Exponent) (he : e.value = d.power) :
    ∃ x : Numeral, x.negative = negative ∧
        x.whole.chars ++ x.tail = Text.decimal d.digits ++ e.text ∧
      x.value = signed negative d.value := by
  refine ⟨⟨negative, .ofNat d.digits, wholeFits_decimal _, none, some e⟩, rfl, rfl, ?_⟩
  refine value_of_digits 0 ?_ ?_
  · rw [pow_zero, mul_one]
    refine Eq.trans ?_ (Text.digitsValue_decimal d.digits)
    exact congrArg Text.digitsValue (List.append_nil _)
  · rw [power, scale]
    simpa [places] using he

/-- The exponent of the scientific notation always has a sign. -/
def signedExponent (n : Int) : Exponent := ⟨false, some (decide (n < 0)), .ofNat n.natAbs⟩

theorem value_signedExponent (n : Int) : (signedExponent n).value = n := by
  have hd : Text.digitsValue (signedExponent n).digits.chars = n.natAbs :=
    Text.digitsValue_decimal _
  rw [Exponent.value, Exponent.isMinus, hd]
  by_cases hn : n < 0
  · rw [if_pos (by simp [signedExponent, hn])]
    omega
  · rw [if_neg (by simp [signedExponent, hn])]
    omega

theorem text_signedExponent (n : Int) :
    (signedExponent n).text =
      'e' :: (if 0 ≤ n then '+' :: Text.decimalInt n else Text.decimalInt n) := by
  by_cases hn : n < 0
  · simp [signedExponent, Exponent.text, signText, Digits.ofNat, Text.decimalInt, hn]
  · simp [signedExponent, Exponent.text, signText, Digits.ofNat, Text.decimalInt, hn,
      Int.not_lt.mp hn]

/-- What is written of a decimal is a numeral with its value. -/
theorem exists_write (style : Binary64.Style) (negative : Bool)
    (h : 0 < d.digits ∨ d = ⟨0, 0⟩) :
    ∃ x : Numeral, x.negative = negative ∧ x.whole.chars ++ x.tail = style.write d ∧
      x.value = signed negative d.value := by
  have hlen : 0 < (Text.decimal d.digits).length := List.length_pos_iff.mpr (Text.decimal_ne_nil _)
  -- a zero has one digit and no power
  have hpos (hd : d.power < 0 ∨ 1 < (Text.decimal d.digits).length) : 0 < d.digits := by
    rcases h with h | rfl
    · exact h
    · revert hd
      decide
  unfold Binary64.Style.write
  simp only
  split
  · split
    · exact exists_whole negative h ‹_›
    · split
      · obtain ⟨x, hx, ht, hv⟩ := exists_split (d := d) negative (hpos (.inl (by omega)))
          (n := (d.power + (Text.decimal d.digits).length - 1).toNat + 1) (Nat.succ_pos _)
          (by omega) none (by simp; omega)
        refine ⟨x, hx, ht.trans ?_, hv⟩
        simp
      · exact exists_small negative _ (by omega)
  · have he := value_signedExponent (d.power + (Text.decimal d.digits).length - 1)
    rw [← text_signedExponent]
    by_cases h1 : (Text.decimal d.digits).length = 1
    · obtain ⟨c, hc⟩ := List.length_eq_one_iff.mp h1
      obtain ⟨x, hx, ht, hv⟩ := exists_pointless (d := d) negative
        (signedExponent (d.power + (Text.decimal d.digits).length - 1)) (by omega)
      refine ⟨x, hx, ht.trans ?_, hv⟩
      simp [hc]
    · obtain ⟨x, hx, ht, hv⟩ := exists_split (d := d) negative (hpos (.inr (by omega))) Nat.one_pos
        (by omega) (some (signedExponent (d.power + (Text.decimal d.digits).length - 1)))
        (by rw [Option.map_some, Option.getD_some]; omega)
      refine ⟨x, hx, ht.trans ?_, hv⟩
      cases hr : (Text.decimal d.digits).drop 1 with
      | nil =>
        have := congrArg List.length hr
        rw [List.length_drop, List.length_nil] at this
        omega
      | cons c r => simp

end Write

end Numeral

end Json

end ContextServer
