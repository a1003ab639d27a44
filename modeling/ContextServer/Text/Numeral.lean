/-!
Decimal numerals. A word numeral is a digit string, with at most one plus sign before it, whose
value fits 64 bits.
-/

namespace ContextServer.Text

def isDigit (c : Char) : Bool := '0' ≤ c && c ≤ '9'

def digitValue (c : Char) : Nat := c.toNat - '0'.toNat

/-- The value of a digit string, read from its first digit on. -/
def digitsValue (cs : List Char) : Nat := Nat.ofDigitChars 10 cs 0

/-- The digits of a number, without leading zeros. -/
def decimal (n : Nat) : List Char := Nat.toDigits 10 n

def decimalInt (n : Int) : List Char :=
  if n < 0 then '-' :: decimal n.natAbs else decimal n.natAbs

/-- The value of a digit string, or `bound` if that is less. -/
def cappedValue (bound : Nat) (cs : List Char) : Nat :=
  cs.foldl (fun n c => min bound (10 * n + digitValue c)) 0

/-- Two to the power of 64. -/
def wordBound : Nat := 18446744073709551616

/-- Reads digits on from `n` for as long as the value fits a word. -/
def takeWord (n : Nat) : List Char → Nat × List Char
  | [] => (n, [])
  | c :: r =>
    let m := 10 * n + digitValue c
    if m < wordBound then takeWord m r else (n, c :: r)

/-- The value of a digit string that fits a word. -/
def digitsWord? (cs : List Char) : Option Nat :=
  match takeWord 0 cs with
  | (n, []) => some n
  | _ => none

def word? (cs : List Char) : Option Nat :=
  let digits := match cs with
    | '+' :: r => r
    | _ => cs
  if digits.isEmpty || !digits.all isDigit then none else digitsWord? digits

/-- The digits of a number to the base sixteen, in small letters. -/
def hexadecimal (n : Nat) : List Char := Nat.toDigits 16 n

theorem decimal_ne_nil (n : Nat) : decimal n ≠ [] := Nat.toDigits_ne_nil

@[simp] theorem digitsValue_decimal (n : Nat) : digitsValue (decimal n) = n :=
  Nat.ofDigitChars_toDigits (by decide) (by decide)

theorem ofDigitChars_cons (c : Char) (cs : List Char) (n : Nat) :
    Nat.ofDigitChars 10 (c :: cs) n = Nat.ofDigitChars 10 cs (10 * n + digitValue c) := by
  rw [Nat.ofDigitChars_cons, digitValue]

theorem le_ofDigitChars (cs : List Char) (n : Nat) : n ≤ Nat.ofDigitChars 10 cs n := by
  induction cs generalizing n with
  | nil => exact Nat.le_refl n
  | cons c cs ih =>
    rw [ofDigitChars_cons]
    exact Nat.le_trans (by omega) (ih _)

/-- A step with a capped value is as good as one with the value itself. -/
theorem cappedValue_eq (bound : Nat) (cs : List Char) :
    cappedValue bound cs = min bound (digitsValue cs) := by
  have step (cs : List Char) (n m : Nat) (h : n = min bound m) :
      cs.foldl (fun n c => min bound (10 * n + digitValue c)) n
        = min bound (Nat.ofDigitChars 10 cs m) := by
    induction cs generalizing n m with
    | nil => exact h
    | cons c cs ih =>
      rw [List.foldl_cons, ofDigitChars_cons]
      exact ih _ _ (by omega)
  exact step cs 0 0 (by simp)

theorem takeWord_of_lt {cs : List Char} {n : Nat} (h : Nat.ofDigitChars 10 cs n < wordBound) :
    takeWord n cs = (Nat.ofDigitChars 10 cs n, []) := by
  induction cs generalizing n with
  | nil => rfl
  | cons c cs ih =>
    rw [ofDigitChars_cons] at h ⊢
    have hm := Nat.lt_of_le_of_lt (le_ofDigitChars cs _) h
    simp only [takeWord, hm, if_true]
    exact ih h

theorem takeWord_lt {cs : List Char} {n : Nat} (h : n < wordBound) :
    (takeWord n cs).1 < wordBound := by
  fun_induction takeWord n cs with
  | case1 => exact h
  | case2 n c r m hm ih => exact ih hm
  | case3 => exact h

/-- What has been read and what is left make up the digits. -/
theorem ofDigitChars_takeWord (cs : List Char) (n : Nat) :
    Nat.ofDigitChars 10 (takeWord n cs).2 (takeWord n cs).1 = Nat.ofDigitChars 10 cs n := by
  fun_induction takeWord n cs with
  | case1 => rfl
  | case2 n c r m hm ih => exact ih
  | case3 => rfl

theorem digitsWord?_eq (cs : List Char) :
    digitsWord? cs = if digitsValue cs < wordBound then some (digitsValue cs) else none := by
  unfold digitsWord? digitsValue
  split
  · rename_i n hs
    have he := ofDigitChars_takeWord cs 0
    have hn : (takeWord 0 cs).1 < wordBound := takeWord_lt (by decide)
    rw [hs] at he hn
    rw [← he]
    exact (if_pos hn).symm
  · rename_i hs
    exact (if_neg fun h => hs _ (takeWord_of_lt h)).symm

end ContextServer.Text
