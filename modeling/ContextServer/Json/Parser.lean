import ContextServer.Json.Basic
import ContextServer.Text.Numeral
import ContextServer.Text.Utf8

/-!
The JSON grammar of RFC 8259, read strictly: no byte order mark, no raw control character and no
lone surrogate in a string, nothing but blanks after the value. Arrays and objects nest to a
limited depth. An integer that fits 64 bits stays one; every other number is a binary64 number.
-/

namespace ContextServer

namespace Number

/-- A float from the digits before and after its point and from its exponent. Whole digits that do
not fit a word count as zeros, and those of the fraction are left out. -/
def float? (negative : Bool) (whole fraction : List Char) (exponent : Int) : Option Number := do
  let (n, dropped) := Text.takeWord 0 whole
  let (m, unread) := Text.takeWord n fraction
  let places : Int := (fraction.length : Int) - unread.length
  let x ← Binary64.ofDecimal? negative m (exponent + dropped.length - places)
  pure (.float x)

/-- A whole number is an integer if it fits; minus zero is a float. -/
def whole? (negative : Bool) (digits : List Char) : Option Number :=
  let n := (Text.digitsWord? digits).getD Text.wordBound
  if negative then
    if h : 0 < n ∧ n ≤ 9223372036854775808 then some (.int (-n) (by omega))
    else float? true digits [] 0
  else
    if h : n < 18446744073709551616 then some (.int n (by omega))
    else float? false digits [] 0

end Number

namespace Json.Parser

def isBlank (c : Char) : Bool := c == ' ' || c == '\t' || c == '\n' || c == '\r'

def skip (s : List Char) : List Char := s.dropWhile isBlank

def splitDigits (s : List Char) : List Char × List Char :=
  (s.takeWhile Text.isDigit, s.dropWhile Text.isDigit)

/-- No exponent beyond this one takes a number any further. -/
def exponentBound : Nat := 2147483648

/-- The part of a number after its whole digits: the fraction and the exponent, if there. -/
def tail? (s : List Char) : Option (Option (List Char) × Option Int × List Char) := do
  let (fraction, s) ← match s with
    | '.' :: r =>
      let (ds, r) := splitDigits r
      if ds.isEmpty then none else some (some ds, r)
    | _ => some (none, s)
  match s with
  | [] => some (fraction, none, [])
  | c :: r =>
    if c == 'e' || c == 'E' then
      let (negative, r) := match r with
        | '-' :: r => (true, r)
        | '+' :: r => (false, r)
        | _ => (false, r)
      let (ds, r) := splitDigits r
      if ds.isEmpty then none
      else
        let n : Int := Text.cappedValue exponentBound ds
        some (fraction, some (if negative then -n else n), r)
    else some (fraction, none, c :: r)

def unsigned? (negative : Bool) (s : List Char) : Option (Number × List Char) := do
  let (whole, s) := splitDigits s
  let leadingZero := whole.head? == some '0' && whole.length != 1
  if whole.isEmpty || leadingZero then none
  else
    let (fraction, exponent, r) ← tail? s
    let n ← match fraction, exponent with
      | none, none => Number.whole? negative whole
      | _, _ => Number.float? negative whole (fraction.getD []) (exponent.getD 0)
    pure (n, r)

def number? : List Char → Option (Number × List Char)
  | '-' :: r => unsigned? true r
  | s => unsigned? false s

def hexDigit? (c : Char) : Option Nat :=
  if Text.isDigit c then some (Text.digitValue c)
  else if 'a' ≤ c && c ≤ 'f' then some (c.toNat - 'a'.toNat + 10)
  else if 'A' ≤ c && c ≤ 'F' then some (c.toNat - 'A'.toNat + 10)
  else none

def unit? (a b c d : Char) : Option Nat := do
  let a ← hexDigit? a
  let b ← hexDigit? b
  let c ← hexDigit? c
  let d ← hexDigit? d
  pure (((a * 16 + b) * 16 + c) * 16 + d)

def shortEscape? : Char → Option Char
  | '"' => some '"'
  | '\\' => some '\\'
  | '/' => some '/'
  | 'b' => some (Char.ofNat 8)
  | 'f' => some (Char.ofNat 12)
  | 'n' => some '\n'
  | 'r' => some '\r'
  | 't' => some '\t'
  | _ => none

def isHighSurrogate (n : Nat) : Bool := 0xD800 ≤ n && n < 0xDC00

def isLowSurrogate (n : Nat) : Bool := 0xDC00 ≤ n && n < 0xE000

def joinSurrogates (high low : Nat) : Char :=
  Char.ofNat (0x10000 + (high - 0xD800) * 0x400 + (low - 0xDC00))

/-- Reads a string on from its opening quote, or from the characters read so far, latest first. -/
def string? (acc : List Char) : List Char → Option (String × List Char)
  | [] => none
  | '"' :: r => some (String.ofList acc.reverse, r)
  | '\\' :: 'u' :: a :: b :: c :: d :: r =>
    match unit? a b c d with
    | none => none
    | some n =>
      if isHighSurrogate n then
        match r with
        | '\\' :: 'u' :: a :: b :: c :: d :: r =>
          match unit? a b c d with
          | none => none
          | some m =>
            if isLowSurrogate m then string? (joinSurrogates n m :: acc) r else none
        | _ => none
      else if isLowSurrogate n then none
      else string? (Char.ofNat n :: acc) r
  | '\\' :: e :: r =>
    match shortEscape? e with
    | none => none
    | some c => string? (c :: acc) r
  | c :: r => if c.toNat < 0x20 then none else string? (c :: acc) r

mutual
/-- Reads one value and returns it with the rest of the text. Each call spends one unit of fuel,
and each array or object one level of depth. -/
def value? : Nat → Nat → List Char → Option (Json × List Char)
  | 0, _, _ => none
  | fuel + 1, depth, s =>
    match skip s with
    | [] => none
    | 'n' :: 'u' :: 'l' :: 'l' :: r => some (.null, r)
    | 't' :: 'r' :: 'u' :: 'e' :: r => some (.bool true, r)
    | 'f' :: 'a' :: 'l' :: 's' :: 'e' :: r => some (.bool false, r)
    | '"' :: r =>
      match string? [] r with
      | none => none
      | some (t, r) => some (.str t, r)
    | '[' :: r =>
      match depth with
      | 0 => none
      | depth + 1 =>
        match skip r with
        | ']' :: r => some (.arr [], r)
        | r => items? fuel depth [] r
    | '{' :: r =>
      match depth with
      | 0 => none
      | depth + 1 =>
        match skip r with
        | '}' :: r => some (.obj [], r)
        | r => members? fuel depth [] r
    | s =>
      match number? s with
      | none => none
      | some (n, r) => some (.num n, r)
/-- Reads the items of an array that are still to come, at least one, and its closing bracket. -/
def items? : Nat → Nat → List Json → List Char → Option (Json × List Char)
  | 0, _, _, _ => none
  | fuel + 1, depth, acc, s =>
    match value? fuel depth s with
    | none => none
    | some (x, r) =>
      match skip r with
      | ',' :: r => items? fuel depth (x :: acc) r
      | ']' :: r => some (.arr (x :: acc).reverse, r)
      | _ => none
def members? : Nat → Nat → List (String × Json) → List Char → Option (Json × List Char)
  | 0, _, _, _ => none
  | fuel + 1, depth, acc, s =>
    match skip s with
    | '"' :: r =>
      match string? [] r with
      | none => none
      | some (k, r) =>
        match skip r with
        | ':' :: r =>
          match value? fuel depth r with
          | none => none
          | some (x, r) =>
            match skip r with
            | ',' :: r => members? fuel depth ((k, x) :: acc) r
            | '}' :: r => some (.object ((k, x) :: acc).reverse, r)
            | _ => none
        | _ => none
    | _ => none
end

end Parser

/-- How deep arrays and objects may nest. -/
def maxDepth : Nat := 127

/-- A value and nothing but blanks around it. A text needs at most two units of fuel for each of
its characters. -/
def parse? (s : List Char) : Option Json :=
  match Parser.value? (2 * s.length + 2) maxDepth s with
  | some (j, r) => if r.all Parser.isBlank then some j else none
  | none => none

def ofBytes? (bs : List UInt8) : Option Json := (Text.Utf8.decode? bs).bind parse?

end Json

end ContextServer
