/-!
UTF-8 as an automaton that reads one byte at a time. `decode?` accepts well-formed text only;
`decodeLossy` puts one U+FFFD in the place of each maximal ill-formed run.
-/

namespace ContextServer.Text.Utf8

/-- The continuation byte that carries the low six bits of `n`. -/
def continuation (n : Nat) : UInt8 := UInt8.ofNat (0x80 + n % 64)

def encodeChar (c : Char) : List UInt8 :=
  let n := c.toNat
  if n < 0x80 then [UInt8.ofNat n]
  else if n < 0x800 then [UInt8.ofNat (0xC0 + n / 64), continuation n]
  else if n < 0x10000 then
    [UInt8.ofNat (0xE0 + n / 4096), continuation (n / 64), continuation n]
  else
    [UInt8.ofNat (0xF0 + n / 262144), continuation (n / 4096), continuation (n / 64),
      continuation n]

def encode (cs : List Char) : List UInt8 := cs.flatMap encodeChar

/-- A character whose first bytes have been read: `further` bytes are missing after the next one,
which has to lie between `low` and `high`. -/
structure Unfinished where
  further : Nat
  low : Nat
  high : Nat
  value : Nat
  deriving DecidableEq, Repr

inductive Scan
  | char (c : Char)
  | unfinished (u : Unfinished)
  | broken
  deriving DecidableEq, Repr

/-- Reads a first byte. The bounds on the byte after it exclude overlong forms, surrogates and
values above U+10FFFF. -/
def scanFirst (b : Nat) : Scan :=
  if b < 0x80 then .char (Char.ofNat b)
  else if b < 0xC2 then .broken
  else if b < 0xE0 then .unfinished ⟨0, 0x80, 0xBF, b - 0xC0⟩
  else if b = 0xE0 then .unfinished ⟨1, 0xA0, 0xBF, 0⟩
  else if b = 0xED then .unfinished ⟨1, 0x80, 0x9F, 13⟩
  else if b < 0xF0 then .unfinished ⟨1, 0x80, 0xBF, b - 0xE0⟩
  else if b = 0xF0 then .unfinished ⟨2, 0x90, 0xBF, 0⟩
  else if b < 0xF4 then .unfinished ⟨2, 0x80, 0xBF, b - 0xF0⟩
  else if b = 0xF4 then .unfinished ⟨2, 0x80, 0x8F, 4⟩
  else .broken

def Unfinished.scan (u : Unfinished) (b : Nat) : Scan :=
  if u.low ≤ b ∧ b ≤ u.high then
    let value := u.value * 64 + (b - 0x80)
    match u.further with
    | 0 => .char (Char.ofNat value)
    | n + 1 => .unfinished ⟨n, 0x80, 0xBF, value⟩
  else .broken

/-- Reads on from the characters read so far, latest first. -/
def decodeFrom (acc : List Char) : Option Unfinished → List UInt8 → Option (List Char)
  | none, [] => some acc.reverse
  | some _, [] => none
  | state, b :: bs =>
    match (state.elim scanFirst Unfinished.scan) b.toNat with
    | .char c => decodeFrom (c :: acc) none bs
    | .unfinished u => decodeFrom acc (some u) bs
    | .broken => none

def decode? (bs : List UInt8) : Option (List Char) := decodeFrom [] none bs

def replacement : Char := Char.ofNat 0xFFFD

def decodeLossyFrom (acc : List Char) : Option Unfinished → List UInt8 → List Char
  | none, [] => acc.reverse
  | some _, [] => (replacement :: acc).reverse
  | none, b :: bs =>
    match scanFirst b.toNat with
    | .char c => decodeLossyFrom (c :: acc) none bs
    | .unfinished u => decodeLossyFrom acc (some u) bs
    | .broken => decodeLossyFrom (replacement :: acc) none bs
  | some u, b :: bs =>
    match u.scan b.toNat with
    | .char c => decodeLossyFrom (c :: acc) none bs
    | .unfinished u' => decodeLossyFrom acc (some u') bs
    | .broken =>
      -- the byte that does not fit may begin a character of its own
      match scanFirst b.toNat with
      | .char c => decodeLossyFrom (c :: replacement :: acc) none bs
      | .unfinished u' => decodeLossyFrom (replacement :: acc) (some u') bs
      | .broken => decodeLossyFrom (replacement :: replacement :: acc) none bs

def decodeLossy (bs : List UInt8) : List Char := decodeLossyFrom [] none bs

@[simp] theorem encode_nil : encode [] = [] := rfl

@[simp] theorem encode_cons (c : Char) (cs : List Char) :
    encode (c :: cs) = encodeChar c ++ encode cs := rfl

@[simp] theorem encode_append (cs ds : List Char) : encode (cs ++ ds) = encode cs ++ encode ds :=
  List.flatMap_append

end ContextServer.Text.Utf8
