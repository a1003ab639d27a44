import Mathlib.Tactic.IntervalCases
import ContextServer.Json.Parser
import ContextServer.Json.Printer
import ContextServer.Proofs.Text.Numeral

/-!
Strings and integers are read back as they are printed, whatever comes behind the closing quote
of the one and whatever but a digit, a point or an exponent comes behind the other.
-/

namespace ContextServer.Json.Parser

/-! ### Strings -/

theorem hexDigit?_digitChar {m : Nat} (h : m < 16) : hexDigit? m.digitChar = some m := by
  interval_cases m <;> rfl

/-- A character below the space is written with four digits. -/
theorem unit?_control {n : Nat} (h : n < 32) :
    unit? '0' '0' (n / 16).digitChar (n % 16).digitChar = some n := by
  have h0 : hexDigit? '0' = some 0 := rfl
  rw [unit?, h0, hexDigit?_digitChar (by omega), hexDigit?_digitChar (by omega)]
  simp only [Option.bind_eq_bind, Option.bind_some, Option.pure_def, Option.some.injEq]
  omega

theorem hexadecimal_control {n : Nat} (h : n < 32) :
    (if n < 16 then '0' :: Text.hexadecimal n else Text.hexadecimal n) =
      [(n / 16).digitChar, (n % 16).digitChar] := by
  unfold Text.hexadecimal
  by_cases hn : n < 16
  · rw [if_pos hn, Nat.toDigits_of_lt_base hn, Nat.div_eq_of_lt hn, Nat.mod_eq_of_lt hn]
    rfl
  · rw [if_neg hn, Nat.toDigits_of_base_le (by decide) (by omega),
      Nat.toDigits_of_lt_base (by omega)]
    rfl

theorem string?_unit {a b c d : Char} {n : Nat} (h : unit? a b c d = some n) (hn : n < 0xD800)
    (acc r : List Char) :
    string? acc ('\\' :: 'u' :: a :: b :: c :: d :: r) = string? (Char.ofNat n :: acc) r := by
  have hh : isHighSurrogate n = false := by
    simp only [isHighSurrogate, Bool.and_eq_false_iff, decide_eq_false_iff_not]
    omega
  have hl : isLowSurrogate n = false := by
    simp only [isLowSurrogate, Bool.and_eq_false_iff, decide_eq_false_iff_not]
    omega
  rw [string?]
  simp only [h, hh, hl, Bool.false_eq_true, if_false]

theorem string?_plain {c : Char} (hq : c ≠ '"') (hb : c ≠ '\\') (hc : 32 ≤ c.toNat)
    (acc r : List Char) : string? acc (c :: r) = string? (c :: acc) r := by
  rw [string?.eq_def]
  split <;> simp_all

theorem string?_escape {c e : Char} (hu : e ≠ 'u') (hs : shortEscape? e = some c)
    (acc r : List Char) : string? acc ('\\' :: e :: r) = string? (c :: acc) r := by
  rw [string?]
  · simp only [hs]
  · exact fun _ _ _ _ _ he _ => absurd he hu

/-- The escapes of a character, one case for each form of it. -/
theorem escapeChar_cases (c : Char) :
    (∃ e, escapeChar c = ['\\', e] ∧ e ≠ 'u' ∧ shortEscape? e = some c) ∨
      (c.toNat < 32 ∧ escapeChar c =
        ['\\', 'u', '0', '0', (c.toNat / 16).digitChar, (c.toNat % 16).digitChar]) ∨
      (c ≠ '"' ∧ c ≠ '\\' ∧ 32 ≤ c.toNat ∧ escapeChar c = [c]) := by
  unfold escapeChar
  split
  · exact .inl ⟨_, rfl, by decide, rfl⟩
  · exact .inl ⟨_, rfl, by decide, rfl⟩
  · exact .inl ⟨_, rfl, by decide, rfl⟩
  · exact .inl ⟨_, rfl, by decide, rfl⟩
  · exact .inl ⟨_, rfl, by decide, rfl⟩
  · rename_i hq hb _ _ _
    have hof := Char.ofNat_toNat c
    split
    · rename_i h
      rw [h] at hof
      exact .inl ⟨_, rfl, by decide, congrArg some hof⟩
    · split
      · rename_i h
        rw [h] at hof
        exact .inl ⟨_, rfl, by decide, congrArg some hof⟩
      · split
        · rename_i h
          have := hexadecimal_control (n := c.toNat) (by omega)
          rw [if_pos h] at this
          rw [this]
          exact .inr (.inl ⟨by omega, rfl⟩)
        · split
          · rename_i h
            have := hexadecimal_control h
            rw [if_neg (by assumption)] at this
            rw [this]
            exact .inr (.inl ⟨h, rfl⟩)
          · exact .inr (.inr ⟨hq, hb, by omega, rfl⟩)

theorem string?_escapeChar (c : Char) (acc r : List Char) :
    string? acc (escapeChar c ++ r) = string? (c :: acc) r := by
  rcases escapeChar_cases c with ⟨e, he, hu, hs⟩ | ⟨hc, he⟩ | ⟨hq, hb, hc, he⟩
  · rw [he]
    exact string?_escape hu hs acc r
  · rw [he]
    have := string?_unit (unit?_control hc) (by omega) acc r
    rw [Char.ofNat_toNat] at this
    exact this
  · rw [he]
    exact string?_plain hq hb hc acc r

theorem string?_print (s r : List Char) :
    string? [] (s.flatMap escapeChar ++ '"' :: r) = some (String.ofList s, r) := by
  have from_acc (acc : List Char) :
      string? acc (s.flatMap escapeChar ++ '"' :: r) =
        some (String.ofList (acc.reverse ++ s), r) := by
    induction s generalizing acc with
    | nil => simp [string?]
    | cons c s ih =>
      rw [List.flatMap_cons, List.append_assoc, string?_escapeChar, ih]
      simp
  exact from_acc []

/-! ### Integers -/

/-- Whether a number that is read up to here is over. -/
def EndsNumber (r : List Char) : Prop :=
  ∀ c ∈ r.head?, Text.isDigit c = false ∧ c ≠ '.' ∧ c ≠ 'e' ∧ c ≠ 'E'

theorem head_decimal {n : Nat} (h : 0 < n) : (Text.decimal n).head? ≠ some '0' := by
  induction n using Nat.strong_induction_on with
  | h n ih =>
    unfold Text.decimal at ih ⊢
    by_cases hn : n < 10
    · rw [Nat.toDigits_of_lt_base hn]
      interval_cases n <;> decide
    · have hne : Nat.toDigits 10 (n / 10) ≠ [] := Nat.toDigits_ne_nil
      rw [Nat.toDigits_of_base_le (by decide) (by omega), List.head?_append,
        List.head?_eq_some_head hne, Option.some_or, ← List.head?_eq_some_head hne]
      exact ih (n / 10) (by omega) (by omega)

theorem splitDigits_decimal (n : Nat) {r : List Char} (h : EndsNumber r) :
    splitDigits (Text.decimal n ++ r) = (Text.decimal n, r) := by
  have hall : ∀ c ∈ Text.decimal n, Text.isDigit c = true :=
    fun c hc => Text.isDigit_of_mem_decimal hc
  rw [splitDigits, List.takeWhile_append_of_pos hall, List.dropWhile_append_of_pos hall]
  cases r with
  | nil => simp
  | cons c r =>
    have hc := (h c (by simp)).1
    simp [hc]

theorem tail?_of_endsNumber {r : List Char} (h : EndsNumber r) :
    tail? r = some (none, none, r) := by
  cases r with
  | nil => rfl
  | cons c r =>
    obtain ⟨-, hp, he, hE⟩ := h c (by simp)
    rw [tail?]
    · simp [he, hE]
    · exact fun _ heq => hp (List.cons.inj heq).1

theorem unsigned?_decimal (negative : Bool) (n : Nat) {r : List Char} (h : EndsNumber r) :
    unsigned? negative (Text.decimal n ++ r) =
      (Number.whole? negative (Text.decimal n)).map fun x => (x, r) := by
  have hz : ((Text.decimal n).head? == some '0' && (Text.decimal n).length != 1) = false := by
    by_cases hn : 0 < n
    · have := head_decimal hn
      simp [this]
    · have : n = 0 := by omega
      subst this
      rfl
  have he : (Text.decimal n).isEmpty = false := by
    rw [List.isEmpty_eq_false_iff]
    exact Nat.toDigits_ne_nil
  rw [unsigned?]
  simp only [splitDigits_decimal n h, hz, he, Bool.or_self, Bool.false_eq_true, if_false,
    tail?_of_endsNumber h]
  cases Number.whole? negative (Text.decimal n) <;> rfl

theorem digitsWord?_decimal {n : Nat} (h : n < Text.wordBound) :
    Text.digitsWord? (Text.decimal n) = some n := by
  rw [Text.digitsWord?_eq, Text.digitsValue_decimal]
  exact if_pos h

theorem whole?_negative {cs : List Char} {n : Nat} (h : Text.digitsWord? cs = some n)
    (hn : 0 < n ∧ n ≤ 9223372036854775808) :
    Number.whole? true cs = some (.int (-n) (by omega)) := by
  simp only [Number.whole?, h, Option.getD_some, if_true, dif_pos hn]

theorem whole?_positive {cs : List Char} {n : Nat} (h : Text.digitsWord? cs = some n)
    (hn : n < 18446744073709551616) :
    Number.whole? false cs = some (.int n (by omega)) := by
  simp only [Number.whole?, h, Option.getD_some, Bool.false_eq_true, if_false, dif_pos hn]

theorem number?_digit {c : Char} (h : Text.isDigit c = true) (s : List Char) :
    number? (c :: s) = unsigned? false (c :: s) := by
  rw [number?]
  rintro _ heq
  rw [(List.cons.inj heq).1] at h
  cases h

/-- An integer is read back, be it negative or not. -/
theorem number?_print {n : Int}
    (fits : -9223372036854775808 ≤ n ∧ n < 18446744073709551616) {r : List Char}
    (h : EndsNumber r) : number? (Text.decimalInt n ++ r) = some (.int n fits, r) := by
  have hword : n.natAbs < Text.wordBound := by
    unfold Text.wordBound
    omega
  unfold Text.decimalInt
  by_cases hn : n < 0
  · have hw := whole?_negative (digitsWord?_decimal (n := n.natAbs) hword) (by omega)
    rw [if_pos hn, List.cons_append, number?, unsigned?_decimal true n.natAbs h, hw,
      Option.map_some]
    congr 3
    omega
  · have hw := whole?_positive (digitsWord?_decimal (n := n.natAbs) hword) (by omega)
    rw [if_neg hn]
    cases hd : Text.decimal n.natAbs with
    | nil => exact absurd hd Nat.toDigits_ne_nil
    | cons c cs =>
      have hc : Text.isDigit c = true := Text.isDigit_of_mem_decimal (hd ▸ List.mem_cons_self)
      rw [List.cons_append, number?_digit hc, ← List.cons_append, ← hd,
        unsigned?_decimal false n.natAbs h, hw, Option.map_some]
      congr 3
      omega

theorem head_decimalInt (n : Int) :
    ∃ c s, Text.decimalInt n = c :: s ∧ (Text.isDigit c = true ∨ c = '-') := by
  unfold Text.decimalInt
  split
  · exact ⟨_, _, rfl, .inr rfl⟩
  · cases hd : Text.decimal n.natAbs with
    | nil => exact absurd hd Nat.toDigits_ne_nil
    | cons c cs => exact ⟨c, cs, rfl, .inl (Text.isDigit_of_mem_decimal (hd ▸ List.mem_cons_self))⟩

end ContextServer.Json.Parser
