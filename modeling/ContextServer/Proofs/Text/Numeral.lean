import ContextServer.Proofs.Text.Blank
import ContextServer.Text.Numeral

/-!
Numerals as text. A word numeral is read exactly if it is one or more decimal digits, with at most
one plus sign before them, whose value fits a word (`word?_eq_some`).
-/

namespace ContextServer.Text

theorem toNat_of_isDigit {c : Char} (h : isDigit c = true) : 48 ≤ c.toNat ∧ c.toNat ≤ 57 := by
  simp only [isDigit, Bool.and_eq_true, decide_eq_true_eq] at h
  exact h

theorem isDigit_of_mem_decimal {n : Nat} {c : Char} (h : c ∈ decimal n) : isDigit c = true := by
  have hd := Nat.isDigit_of_mem_toDigits (by decide) (by decide) h
  simp only [Char.isDigit, ge_iff_le, Bool.and_eq_true, decide_eq_true_eq] at hd
  simp only [isDigit, Bool.and_eq_true, decide_eq_true_eq]
  exact hd

theorem isBlank_of_isDigit {c : Char} (h : isDigit c = true) : isBlank c = false := by
  have := toNat_of_isDigit h
  simp [isBlank]
  omega

/-- Decimal digits of this value, with at most one plus sign before them. -/
def IsNumeral (n : Nat) (word : List Char) : Prop :=
  ∃ digits, (word = digits ∨ word = '+' :: digits) ∧ digits ≠ [] ∧
    (∀ c ∈ digits, isDigit c = true) ∧ digitsValue digits = n

theorem isNumeral_decimal (n : Nat) : IsNumeral n (decimal n) :=
  ⟨decimal n, .inl rfl, decimal_ne_nil n, fun _ h => isDigit_of_mem_decimal h,
    digitsValue_decimal n⟩

theorem IsNumeral.ne_nil {n : Nat} {word : List Char} (h : IsNumeral n word) : word ≠ [] := by
  obtain ⟨digits, rfl | rfl, hne, -⟩ := h
  · exact hne
  · nofun

theorem IsNumeral.isBlank {n : Nat} {word : List Char} (h : IsNumeral n word) :
    ∀ c ∈ word, isBlank c = false := by
  obtain ⟨digits, rfl | rfl, -, hall, -⟩ := h
  · exact fun c hc => isBlank_of_isDigit (hall c hc)
  · rintro c (- | ⟨-, hc⟩)
    · decide
    · exact isBlank_of_isDigit (hall c hc)

/-- Leading zeros do not count: the value alone is to fit a word. -/
theorem word?_of_isNumeral {n : Nat} {word : List Char} (h : IsNumeral n word)
    (hn : n < wordBound) : word? word = some n := by
  obtain ⟨digits, hword, hne, hall, rfl⟩ := h
  have hread : (if digits.isEmpty || !digits.all isDigit then none else digitsWord? digits) =
      some (digitsValue digits) := by
    rw [digitsWord?_eq, if_pos hn]
    simp [hne, List.all_eq_true.mpr hall]
  rcases hword with rfl | rfl
  · unfold word?
    split
    · exact absurd (hall '+' (by simp)) (by decide)
    · exact hread
  · exact hread

theorem word?_eq_some {n : Nat} {word : List Char} :
    word? word = some n ↔ IsNumeral n word ∧ n < wordBound := by
  refine ⟨fun h => ?_, fun ⟨h, hn⟩ => word?_of_isNumeral h hn⟩
  have numeral {digits : List Char} (hword : word = digits ∨ word = '+' :: digits)
      (h : (if digits.isEmpty || !digits.all isDigit then none else digitsWord? digits) =
        some n) : IsNumeral n word ∧ n < wordBound := by
    rw [digitsWord?_eq] at h
    simp only [Option.ite_none_left_eq_some, Option.ite_none_right_eq_some, Option.some.injEq,
      Bool.or_eq_true, Bool.not_eq_true', not_or, List.isEmpty_iff, Bool.not_eq_false,
      List.all_eq_true] at h
    obtain ⟨⟨hne, hall⟩, hlt, rfl⟩ := h
    exact ⟨⟨digits, hword, hne, hall, rfl⟩, hlt⟩
  unfold word? at h
  split at h
  · exact numeral (.inr rfl) h
  · exact numeral (.inl rfl) h

end ContextServer.Text
