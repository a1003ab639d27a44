import ContextServer.Binary64.Basic
import ContextServer.Text.Numeral

/-!
The shortest decimal that reads back as a given binary64 number, and its text. Of the decimals
with the fewest digits that round to the number, `shortest` takes the nearest one.
-/

namespace ContextServer.Binary64

/-- A decimal `digits · 10 ^ power`. -/
structure Decimal where
  digits : Nat
  power : Int
  deriving DecidableEq, Repr

/-- Lowers the digits while they end in zero, at most `fuel` times. -/
def Decimal.trim : Nat → Decimal → Decimal
  | 0, d => d
  | fuel + 1, d =>
    if d.digits ≠ 0 ∧ d.digits % 10 = 0 then trim fuel ⟨d.digits / 10, d.power + 1⟩ else d

/-- Both ends of the interval that rounds to `x`, in quarters of its last place. Below a power of
two the numbers lie twice as dense. -/
def quarters (x : Binary64) : Nat × Nat :=
  let m := 4 * x.mantissa
  (if x.mantissa = 4503599627370496 ∧ x.exponent ≠ -1074 then m - 1 else m - 2, m + 2)

/-- The multiples of `10 ^ k` that round to the magnitude of `x` are those from the first to the
second of these. The ends of the interval belong to it when the mantissa is even, since a tie goes
there. -/
def multiples (x : Binary64) (k : Int) : Nat × Nat :=
  let (low, high) := quarters x
  let scale := tenTo (-k).toNat <<< x.exponent.toNat
  let unit := 4 * x.denominator * tenTo k.toNat
  let low := low * scale
  let high := high * scale
  if x.mantissa % 2 = 0 then ((low + unit - 1) / unit, high / unit)
  else (low / unit + 1, (high + unit - 1) / unit - 1)

/-- How many digits a number has. Since `10 ^ 16` is below `2 ^ 54`, all but a few of them can be
set aside at once. -/
def digitCount (n : Nat) : Nat :=
  let k := 16 * (n.log2 / 54)
  (Text.decimal (n / tenTo k)).length + k

theorem tenTo_setAside_le {n : Nat} (h : n ≠ 0) : tenTo (16 * (n.log2 / 54)) ≤ n :=
  calc 10 ^ (16 * (n.log2 / 54))
    _ = (10 ^ 16) ^ (n.log2 / 54) := Nat.pow_mul ..
    _ ≤ (2 ^ 54) ^ (n.log2 / 54) := Nat.pow_le_pow_left (by decide) _
    _ = 2 ^ (54 * (n.log2 / 54)) := (Nat.pow_mul ..).symm
    _ ≤ 2 ^ n.log2 := Nat.pow_le_pow_right (by decide) (Nat.mul_div_le ..)
    _ ≤ n := Nat.log2_self_le h

theorem digitCount_eq (n : Nat) : digitCount n = (Text.decimal n).length := by
  rcases Nat.eq_zero_or_pos n with rfl | h
  · rfl
  · have hk := tenTo_setAside_le (Nat.ne_of_gt h)
    simp only [digitCount, Text.decimal]
    generalize 16 * (n.log2 / 54) = k at hk ⊢
    simp only [tenTo, Nat.pow_eq] at hk ⊢
    have hp : 0 < (10 : Nat) ^ k := Nat.pow_pos (by decide)
    have length_le {a m : Nat} (hm : 0 < m) : (Nat.toDigits 10 a).length ≤ m ↔ a < 10 ^ m :=
      Nat.length_toDigits_le_iff (by decide) hm
    apply Nat.le_antisymm
    · have hn := (length_le Nat.length_toDigits_pos).mp (Nat.le_refl (Nat.toDigits 10 n).length)
      have hkm := (Nat.pow_lt_pow_iff_right (by decide)).mp (Nat.lt_of_le_of_lt hk hn)
      have := (length_le (Nat.sub_pos_of_lt hkm)).mpr <| (Nat.div_lt_iff_lt_mul hp).mpr <| by
        rwa [← Nat.pow_add, Nat.sub_add_cancel (Nat.le_of_lt hkm)]
      omega
    · have hq := (length_le Nat.length_toDigits_pos).mp
        (Nat.le_refl (Nat.toDigits 10 (n / 10 ^ k)).length)
      refine (length_le (Nat.add_pos_left Nat.length_toDigits_pos _)).mpr ?_
      rwa [Nat.pow_add, ← Nat.div_lt_iff_lt_mul hp]

/-- The power of ten of the leading digit of `num / den`. -/
def leadingPower (num den : Nat) : Int :=
  if den ≤ num then (digitCount (num / den) : Int) - 1
  else -(digitCount ((den + num - 1) / num - 1) : Int)

/-- The greatest multiple of `10 ^ k` that does not exceed the magnitude of `x`. -/
def below (x : Binary64) (k : Int) : Decimal :=
  ⟨x.numerator * tenTo (-k).toNat / (x.denominator * tenTo k.toNat), k⟩

/-- Whether the magnitude of `x` lies nearer to `d` than to the next decimal of that power; at
equal distance, whether `d` is even. -/
def prefersBelow (x : Binary64) (d : Decimal) : Bool :=
  let twice := 2 * x.numerator * tenTo (-d.power).toNat
  let middle := (2 * d.digits + 1) * x.denominator * tenTo d.power.toNat
  twice < middle || (twice == middle && d.digits % 2 == 0)

/-- The better of the two neighbours of `x` among the multiples of `10 ^ j` times the decimal
`d` below `x`, if one of them rounds to `x`. -/
def neighbour? (x : Binary64) (bounds : Nat × Nat) (d : Decimal) (j : Nat) : Option Decimal :=
  let n := d.digits / tenTo j
  let rounds (m : Nat) : Bool := bounds.1 ≤ m * tenTo j && m * tenTo j ≤ bounds.2
  let lower : Decimal := ⟨n, d.power + j⟩
  let upper : Decimal := ⟨n + 1, d.power + j⟩
  match rounds n, rounds (n + 1) with
  | true, true => some (if prefersBelow x lower then lower else upper)
  | true, false => some lower
  | false, true => some upper
  | false, false => none

/-- Tries ever finer powers of ten, down to the one of `d`; seventeen digits always suffice. -/
def search (x : Binary64) (bounds : Nat × Nat) (d : Decimal) : Nat → Decimal
  | 0 => d
  | j + 1 => (neighbour? x bounds d j).getD (search x bounds d j)

def shortest (x : Binary64) : Decimal :=
  if x.mantissa = 0 then ⟨0, 0⟩
  else
    let k := leadingPower x.numerator x.denominator - 16
    (search x (multiples x k) (below x k) 17).trim 20

/-- Where a text format changes from positional to scientific notation: the least and the greatest
power of the leading digit that it writes out. -/
structure Style where
  least : Int
  greatest : Int
  deriving DecidableEq, Repr

/-- Positional with at least one digit on each side of the point, or scientific with a sign in
the exponent. -/
def Style.write (style : Style) (d : Decimal) : List Char :=
  let ds := Text.decimal d.digits
  let lead : Int := d.power + ds.length - 1
  if style.least ≤ lead ∧ lead ≤ style.greatest then
    if 0 ≤ d.power then ds ++ List.replicate d.power.toNat '0' ++ ['.', '0']
    else if 0 ≤ lead then ds.take (lead.toNat + 1) ++ '.' :: ds.drop (lead.toNat + 1)
    else '0' :: '.' :: (List.replicate (-lead - 1).toNat '0' ++ ds)
  else
    let fraction := match ds.drop 1 with
      | [] => []
      | r => '.' :: r
    let exponent := if 0 ≤ lead then '+' :: Text.decimalInt lead else Text.decimalInt lead
    ds.take 1 ++ fraction ++ 'e' :: exponent

def text (style : Style) (x : Binary64) : List Char :=
  let body := style.write (shortest x)
  if x.negative then '-' :: body else body

end ContextServer.Binary64
