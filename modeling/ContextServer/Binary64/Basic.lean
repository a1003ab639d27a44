/-!
Finite binary64 numbers as sign, mantissa and exponent, in the one form that each of them has.
`ofRatio?` rounds a quotient of naturals to the nearest such number (a tie goes to the even
mantissa) and fails where the nearest would be beyond the greatest.
-/

namespace ContextServer

/-- The mantissa has 53 bits, and the highest of them is set unless the exponent is the least. -/
structure Binary64 where
  negative : Bool
  mantissa : Nat
  exponent : Int
  mantissa_lt : mantissa < 9007199254740992
  exponent_ge : -1074 ≤ exponent
  exponent_le : exponent ≤ 971
  normal : 4503599627370496 ≤ mantissa ∨ exponent = -1074
  deriving DecidableEq, Repr

namespace Binary64

def zero : Binary64 := ⟨false, 0, -1074, by decide, by decide, by decide, .inr rfl⟩

instance : Inhabited Binary64 := ⟨zero⟩

def neg (x : Binary64) : Binary64 := { x with negative := !x.negative }

/-- Numerator of the magnitude, over `denominator`. -/
def numerator (x : Binary64) : Nat := x.mantissa <<< x.exponent.toNat

def denominator (x : Binary64) : Nat := 1 <<< (-x.exponent).toNat

def make? (negative : Bool) (m : Nat) (e : Int) : Option Binary64 :=
  if h : m < 9007199254740992 ∧ -1074 ≤ e ∧ e ≤ 971 ∧ (4503599627370496 ≤ m ∨ e = -1074) then
    some ⟨negative, m, e, h.1, h.2.1, h.2.2.1, h.2.2.2⟩
  else none

/-- The natural nearest to a quotient; of two equally near, the even one. -/
def roundDiv (num den : Nat) : Nat :=
  let q := num / den
  let r := num % den
  if 2 * r < den then q else if den < 2 * r then q + 1 else q + q % 2

/-- The natural nearest to `num / den / 2 ^ e`. -/
def roundAt (num den : Nat) (e : Int) : Nat :=
  roundDiv (num <<< (-e).toNat) (den <<< e.toNat)

/-- The exponent at which `num / den` has a mantissa of 53 bits, or the least one. -/
def exponentOf (num den : Nat) : Int :=
  let e : Int := (num.log2 : Int) - (den.log2 : Int) - 53
  let wide := den <<< (53 + e.toNat) ≤ num <<< (-e).toNat
  if num = 0 then -1074 else max (-1074) (if wide then e + 1 else e)

def ofRatio? (negative : Bool) (num den : Nat) : Option Binary64 :=
  let e := exponentOf num den
  let m := roundAt num den e
  if m = 9007199254740992 then make? negative 4503599627370496 (e + 1) else make? negative m e

def ofNat? (n : Nat) : Option Binary64 := ofRatio? false n 1

def mul? (x y : Binary64) : Option Binary64 :=
  ofRatio? (x.negative != y.negative) (x.numerator * y.numerator) (x.denominator * y.denominator)

def div? (x y : Binary64) : Option Binary64 :=
  ofRatio? (x.negative != y.negative) (x.numerator * y.denominator) (x.denominator * y.numerator)

/-- The greatest power of ten that a number of this kind can hold. -/
def greatestPower : Nat := 308

def tenTo (k : Nat) : Nat := Nat.pow 10 k

def powerOfTen? (k : Nat) : Option Binary64 := ofNat? (tenTo k)

/-- Scales by a power of ten in at most `turns` rounded steps. One step covers a power that a
number of this kind can hold; a lower power takes a step for each 308 places. -/
def scale? : Nat → Binary64 → Int → Option Binary64
  | 0, x, _ => some x
  | turns + 1, x, e =>
    if e.natAbs ≤ greatestPower then do
      let p ← powerOfTen? e.natAbs
      if 0 ≤ e then x.mul? p else x.div? p
    else if x.mantissa = 0 then some x
    else if 0 ≤ e then none
    else do
      let p ← powerOfTen? greatestPower
      let y ← x.div? p
      scale? turns y (e + greatestPower)

/-- The number `n · 10 ^ e`, rounded as a natural first and then at every step of its scaling.
Two steps bring any 64-bit natural down to zero, so four never fall short. -/
def ofDecimal? (negative : Bool) (n : Nat) (e : Int) : Option Binary64 := do
  let x ← ofNat? n
  let y ← scale? 4 x e
  pure (if negative then y.neg else y)

end Binary64

end ContextServer
