import ContextServer.Proofs.Stream.RoundTrip

/-!
What the limit of a reader bounds. A line is measured up to its newline, a body by the length that
its header tells, and the lines of a header are lines like all others. So a payload is held to the
same limit in each framing, once the limit leaves room for the line that tells its length; only a
carriage return before the newline counts as a byte of the line.
-/

namespace ContextServer

namespace Reader

open Framing

variable {limit n : Nat} {s : Source} {p l r : List UInt8}

/-- What the next read gives. -/
def first (framing : Framing) (limit : Nat) (s : Source) : Option Reading :=
  (read framing limit s).map Prod.fst

def tooLarge (limit : Nat) : Reading := .failed (.messageTooLarge limit)

theorem readingOf_ne_failed (p : List UInt8) (cause : TransportError) :
    readingOf p ≠ .failed cause := by
  unfold readingOf
  split <;> nofun

theorem nextLine_of_tooLong (h : scanLine limit s.bytes = .tooLong) :
    ∃ t, nextLine limit s = some (.error (.messageTooLarge limit), t) := by
  have hbuffer : s.whole.buffer = s.bytes := rfl
  refine seen_eq_error.mp ?_
  rw [seen_nextLine, lineIn, hbuffer, h]

theorem nextLine_of_long (hs : s.bytes = l ++ newline :: r) (hn : newline ∉ l)
    (hl : limit < l.length) :
    ∃ t, nextLine limit s = some (.error (.messageTooLarge limit), t) := by
  apply nextLine_of_tooLong
  rw [hs, scanLine_line limit r hn, if_pos hl]

/-! ### A payload on a line -/

theorem first_line_of_long (hs : s.bytes = l ++ newline :: r) (hn : newline ∉ l)
    (hl : limit < l.length) : first .line limit s = some (tooLarge limit) := by
  obtain ⟨t, ht⟩ := nextLine_of_long hs hn hl
  rw [first, read, readLine_eq, ht]
  rfl

/-- A line that is not blank is parsed without its carriage return. -/
theorem first_line_of_short (hs : s.bytes = l ++ newline :: r) (hn : newline ∉ l)
    (hl : l.length ≤ limit) (hb : (stripReturn l).all Text.isBlankByte = false) :
    first .line limit s = some (readingOf (stripReturn l)) := by
  obtain ⟨t, ht, -⟩ := nextLine_of_bytes hs hn hl
  rw [first, read, readLine_eq, ht]
  simp only [hb, Bool.false_eq_true, if_false, Option.map_some]

theorem first_line (hs : s.bytes = p ++ newline :: r) (hn : newline ∉ p)
    (hr : p.getLast? ≠ some carriageReturn) (hb : p.all Text.isBlankByte = false) :
    first .line limit s = some (if limit < p.length then tooLarge limit else readingOf p) := by
  split
  · exact first_line_of_long hs hn ‹_›
  · rename_i hl
    have hstrip := stripReturn_of_getLast? hr
    have hfirst := first_line_of_short hs hn (Nat.not_lt.mp hl) (hstrip.symm ▸ hb)
    rwa [hstrip] at hfirst

/-- The carriage return takes up room in a line of its own length. -/
theorem first_line_return (hs : s.bytes = p ++ carriageReturn :: newline :: r)
    (hn : newline ∉ p) (hb : p.all Text.isBlankByte = false) :
    first .line limit s = some (if limit ≤ p.length then tooLarge limit else readingOf p) := by
  have hline : s.bytes = (p ++ [carriageReturn]) ++ newline :: r := by
    rw [hs, List.append_assoc]
    rfl
  have hnl : newline ∉ p ++ [carriageReturn] := by
    rw [List.mem_append, List.mem_singleton]
    exact fun h => h.elim hn (by decide)
  have hlen : (p ++ [carriageReturn]).length = p.length + 1 := List.length_append
  have hstrip := stripReturn_concat p
  split
  · exact first_line_of_long hline hnl (by omega)
  · have hfirst := first_line_of_short hline hnl (by omega : _ ≤ limit) (hstrip.symm ▸ hb)
    rwa [hstrip] at hfirst

/-! ### A payload behind a header -/

theorem first_header (hs : s.bytes = headerBytes p.length ++ (p ++ r))
    (hw : p.length < Text.wordBound) :
    first .header limit s = some (if limit < p.length ∨ limit < (lengthLine p.length).length
      then tooLarge limit else readingOf p) := by
  rcases Nat.lt_or_ge limit (lengthLine p.length).length with hh | hh
  · rw [if_pos (.inr hh)]
    have hline : s.bytes =
        lengthLine p.length ++ newline :: (carriageReturn :: newline :: (p ++ r)) := by
      simp [hs, headerBytes_eq]
    obtain ⟨t, ht⟩ := nextLine_of_long hline (newline_notMem_lengthLine _) hh
    rw [first, read, readHeader, contentLength?_eq, ht]
    rfl
  · obtain ⟨t, ht, hrest⟩ := contentLength?_of_bytes hs hw hh
    rw [first, read, readHeader, ht]
    rcases Nat.lt_or_ge limit p.length with hl | hl
    · rw [if_pos (.inl hl)]
      simp only [if_pos hl]
      rfl
    · rw [if_neg (by omega)]
      obtain ⟨u, hu, -⟩ := nextBody_of_bytes (bytes_of_whole_eq hrest)
      simp only [if_neg (Nat.not_lt.mpr hl), hu, Option.map_some]

/-! ### The same limit -/

theorem tooLarge_iff {o : Option Reading} {c : Prop} [Decidable c]
    (h : o = some (if c then tooLarge limit else readingOf p)) :
    (o = some (tooLarge limit) ↔ c) ∧ (¬ c → o = some (readingOf p)) := by
  subst h
  refine ⟨⟨fun h => ?_, fun hc => by rw [if_pos hc]⟩, fun hc => by rw [if_neg hc]⟩
  by_contra hc
  rw [if_neg hc] at h
  exact readingOf_ne_failed p _ (Option.some.inj h)

/-- A payload is refused as too large, or parsed, alike on a line and behind a header, when the
limit leaves room for the line that tells its length. On a line that ends with a carriage return as
well, unless the payload has exactly the length of the limit. -/
theorem first_of_payload {line lineReturn header : Source} {r₁ r₂ r₃ : List UInt8} (limit : Nat)
    (hn : newline ∉ p) (hr : p.getLast? ≠ some carriageReturn)
    (hb : p.all Text.isBlankByte = false) (hw : p.length < Text.wordBound)
    (hline : line.bytes = p ++ newline :: r₁)
    (hreturn : lineReturn.bytes = p ++ carriageReturn :: newline :: r₂)
    (hheader : header.bytes = headerBytes p.length ++ (p ++ r₃)) :
    ((first .line limit line = some (tooLarge limit) ↔ limit < p.length) ∧
      (¬ limit < p.length → first .line limit line = some (readingOf p))) ∧
    ((limit < p.length → first .line limit lineReturn = some (tooLarge limit)) ∧
      (p.length < limit → first .line limit lineReturn = some (readingOf p))) ∧
    ((first .header limit header = some (tooLarge limit) ↔
        limit < p.length ∨ limit < (lengthLine p.length).length) ∧
      (¬ (limit < p.length ∨ limit < (lengthLine p.length).length) →
        first .header limit header = some (readingOf p))) := by
  have hfirst : first .line limit lineReturn = _ := first_line_return hreturn hn hb
  refine ⟨tooLarge_iff (first_line hline hn hr hb), ⟨fun h => ?_, fun h => ?_⟩,
    tooLarge_iff (first_header hheader hw)⟩
  · rw [hfirst, if_pos (Nat.le_of_lt h)]
  · rw [hfirst, if_neg (Nat.not_le.mpr h)]

/-- Two braces within a limit of 64 bytes, of which the line of their length takes up 18. -/
theorem first_of_payload_braces :
    first .line 64 (.mk [] [123, 125, 10] [1] none true) = some (readingOf [123, 125]) ∧
      first .line 64 (.mk [123] [125, 13, 10] [1] none true) = some (readingOf [123, 125]) ∧
      first .header 64 (.mk [] (headerBytes 2 ++ [123, 125]) [7] none true) =
        some (readingOf [123, 125]) := by
  have hlen : (lengthLine 2).length = 18 := by decide +kernel
  have hbytes : Source.bytes (.mk [] [123, 125, 10] [1] none true) =
      [123, 125] ++ newline :: [] := rfl
  have hbytesReturn : Source.bytes (.mk [123] [125, 13, 10] [1] none true) =
      [123, 125] ++ carriageReturn :: newline :: [] := rfl
  have hbytesHeader : Source.bytes (.mk [] (headerBytes 2 ++ [123, 125]) [7] none true) =
      headerBytes [(123 : UInt8), 125].length ++ ([123, 125] ++ []) := rfl
  obtain ⟨⟨-, hline⟩, ⟨-, hreturn⟩, -, hheader⟩ := first_of_payload 64 (by decide) (by decide)
    (by decide) (by decide) hbytes hbytesReturn hbytesHeader
  exact ⟨hline (by decide), hreturn (by decide), hheader (by simp [hlen])⟩

/-- At a limit of two bytes the same payload is parsed only from the line without a carriage
return, though it is within the limit. -/
theorem first_of_braces_at_limit :
    ¬ 2 < [(123 : UInt8), 125].length ∧
      first .line 2 (.mk [] [123, 125, 10] [] none true) = some (readingOf [123, 125]) ∧
      first .line 2 (.mk [] [123, 125, 13, 10] [] none true) = some (tooLarge 2) ∧
      first .header 2 (.mk [] (headerBytes 2 ++ [123, 125]) [] none true) = some (tooLarge 2) := by
  have hlen : (lengthLine 2).length = 18 := by decide +kernel
  refine ⟨by decide, ?_, ?_, ?_⟩
  · exact first_line (p := [123, 125]) (r := []) rfl (by decide) (by decide) (by decide)
  · exact first_line_return (p := [123, 125]) (r := []) rfl (by decide) (by decide)
  · have hheader : first .header 2 (.mk [] (headerBytes 2 ++ [123, 125]) [] none true) = _ :=
      first_header (p := [123, 125]) (r := []) rfl (by decide)
    rwa [if_pos (.inr (by simp [hlen]))] at hheader

end Reader

end ContextServer
