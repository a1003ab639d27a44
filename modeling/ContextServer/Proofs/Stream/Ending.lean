import ContextServer.Proofs.Stream.Chunking

/-!
A stream that nothing more can come to is read to its end. No read of it waits, each one that is
not the last uses up a byte at least, and so the reads come to the end of the stream or to a fault
of it (`exists_last_reading`). How the bytes have been cut on their way has no say in what the
reads give (`readings_of_carries`).
-/

namespace ContextServer

namespace Source

variable {s t : Source} {bs : List UInt8} {fault : Option String}

/-- The stream has these bytes left, then the fault, if there is one, and then its end. How many of
the bytes are in the buffer, and how many each read gives, is left open. -/
structure Carries (s : Source) (bs : List UInt8) (fault : Option String) : Prop where
  bytes : s.bytes = bs
  fault : s.fault = fault
  ended : s.ended = true

theorem Carries.isOpen (h : s.Carries bs fault) : s.isOpen = false := by
  simp [Source.isOpen, h.ended]

theorem Carries.whole_eq (hs : s.Carries bs fault) (ht : t.Carries bs fault) :
    s.whole = t.whole :=
  whole_eq_iff.mpr ⟨hs.bytes.trans ht.bytes.symm, hs.fault.trans ht.fault.symm,
    hs.ended.trans ht.ended.symm⟩

theorem Carries.size (h : s.Carries bs fault) : s.size = bs.length := by
  rw [← h.bytes, length_bytes]

theorem carries_iff : s.Carries bs fault ↔ s.whole = ⟨bs, [], [], fault, true⟩ := by
  constructor
  · intro h
    rw [whole, h.bytes, h.fault, h.ended]
  · intro h
    simp only [whole, Source.mk.injEq] at h
    exact ⟨h.1, h.2.2.2.1, h.2.2.2.2⟩

/-- A stream whose reads give these chunks one after the other. -/
def cut (chunks : List (List UInt8)) (fault : Option String) : Source :=
  ⟨[], chunks.flatten, chunks.map List.length, fault, true⟩

theorem carries_cut (chunks : List (List UInt8)) (fault : Option String) :
    (cut chunks fault).Carries chunks.flatten fault :=
  ⟨rfl, rfl, rfl⟩

theorem isOpen_of_rest (h : s.rest = .wait) : s.isOpen = true := by
  unfold rest at h
  split at h
  · cases h
  · rename_i hf
    split at h
    · cases h
    · rename_i he
      simp [isOpen, hf, he]

end Source

/-- Whether the reads end with this one. -/
def Reading.isLast : Reading → Bool
  | ended | failed _ => true
  | envelope _ | malformed _ => false

theorem Reading.ne_of_isLast {r : Reading} (h : r.isLast = false) :
    r ≠ .ended ∧ ∀ e, r ≠ .failed e := by
  cases r with
  | ended | failed => cases h
  | envelope | malformed => exact ⟨nofun, nofun⟩

namespace Reader

variable {framing : Framing} {limit : Nat} {s t : Source}

theorem isOpen_whole (s : Source) : s.whole.isOpen = s.isOpen := rfl

theorem isOpen_of_frame (h : t.fault = s.fault ∧ t.ended = s.ended) : t.isOpen = s.isOpen := by
  rw [Source.isOpen, h.1, h.2, Source.isOpen]

/-- A line of a stream that nothing more can come to does not keep its reader waiting. -/
theorem nextLine_ne_none (h : s.isOpen = false) : nextLine limit s ≠ none := by
  intro hn
  have hl : lineIn limit s.whole = none := by rw [← seen_nextLine, hn]; rfl
  unfold lineIn at hl
  split at hl
  · cases hl
  · cases hl
  · split at hl
    · rename_i hr
      rw [← isOpen_whole, Source.isOpen_of_rest hr] at h
      cases h
    · cases hl
    · cases hl

theorem nextBody_ne_none {n : Nat} (h : s.isOpen = false) : nextBody n s ≠ none := by
  intro hn
  have hb : bodyIn n s.whole = none := by rw [← seen_nextBody, hn]; rfl
  unfold bodyIn at hb
  split at hb
  · cases hb
  · split at hb
    · rename_i hr
      rw [← isOpen_whole, Source.isOpen_of_rest hr] at h
      cases h
    · cases hb
    · cases hb

/-- What is left at the end of a stream is a line, unless it is nothing but a carriage return. -/
theorem nextLine_of_carries_last {bs : List UInt8} (hs : s.Carries bs none)
    (hn : Framing.newline ∉ bs) (hl : bs.length ≤ limit) :
    ∃ t, nextLine limit s = some (.ok (if (stripReturn bs).isEmpty then none
      else some (stripReturn bs)), t) ∧ t.Carries [] none := by
  have hseen : seen (nextLine limit s) = some (.ok (if (stripReturn bs).isEmpty then none
      else some (stripReturn bs), ⟨[], [], [], none, true⟩)) := by
    rw [seen_nextLine, Source.carries_iff.mp hs, lineIn, scanLine_piece limit hn,
      if_neg (Nat.not_lt.mpr hl)]
    rfl
  obtain ⟨t, ht, hw⟩ := seen_eq_ok.mp hseen
  exact ⟨t, ht, Source.carries_iff.mpr hw⟩

theorem isOpen_of_nextLine {l : Option (List UInt8)} (h : nextLine limit s = some (.ok l, t)) :
    t.isOpen = s.isOpen := by
  have hl : lineIn limit s.whole = some (.ok (l, t.whole)) := by rw [← seen_nextLine, h]; rfl
  exact isOpen_of_frame (s := s.whole) (t := t.whole) (frame_of_lineIn hl)

theorem readLine_ne_none (h : s.isOpen = false) : readLine limit s ≠ none := by
  fun_induction readLine limit s with
  | case1 s hl => exact absurd hl (nextLine_ne_none h)
  | case2 | case3 | case5 => exact Option.some_ne_none _
  | case4 s l t hl _ _ ih => exact ih ((isOpen_of_nextLine hl).trans h)

/-- Nor do the lines of a header, and the stream behind them is as it was. -/
theorem contentLength?_ne_none {started : Bool} {length : Option Nat} (h : s.isOpen = false) :
    contentLength? limit started length s ≠ none := by
  fun_induction contentLength? limit started length s with
  | case1 _ _ s hl => exact absurd hl (nextLine_ne_none h)
  | case2 | case3 | case4 | case5 | case8 => exact Option.some_ne_none _
  | case6 _ _ s l t hl _ _ _ ih | case7 _ _ s l t hl _ _ ih =>
    exact ih ((isOpen_of_nextLine hl).trans h)

theorem isOpen_of_contentLength? {started : Bool} {length n : Option Nat}
    (h : contentLength? limit started length s = some (.ok n, t)) : t.isOpen = s.isOpen := by
  fun_induction contentLength? limit started length s with
  | case1 | case2 | case5 | case8 => cases h
  | case3 started length s u hl =>
    split at h <;> cases h
    exact isOpen_of_nextLine hl
  | case4 _ s l u hl =>
    cases h
    exact isOpen_of_nextLine hl
  | case6 _ _ s l u hl _ _ _ ih | case7 _ _ s l u hl _ _ ih =>
    exact (ih h).trans (isOpen_of_nextLine hl)

theorem read_ne_none (h : s.isOpen = false) : read framing limit s ≠ none := by
  cases framing with
  | line => exact readLine_ne_none h
  | header =>
    rw [read, readHeader]
    split
    · rename_i hc
      exact absurd hc (contentLength?_ne_none h)
    · nofun
    · nofun
    · rename_i n u hc
      split
      · nofun
      · split
        · rename_i hb
          exact absurd hb (nextBody_ne_none ((isOpen_of_contentLength? hc).trans h))
        · nofun
        · nofun

theorem readings_of_isLast {n : Nat} {r : Reading} (h : read framing limit s = some (r, t))
    (hr : r.isLast = true) : readings framing limit false (n + 1) s = [r] := by
  cases r with
  | ended => simp only [readings, h]
  | failed e => simp only [readings, h, Bool.false_eq_true, if_false]
  | envelope | malformed => cases hr

theorem readings_of_not_isLast {n : Nat} {r : Reading} {past : Bool}
    (h : read framing limit s = some (r, t)) (hr : r.isLast = false) :
    readings framing limit past (n + 1) s = r :: readings framing limit past n t := by
  cases r with
  | ended | failed => cases hr
  | envelope | malformed => simp only [readings, h]

theorem isLast_readingOf (p : List UInt8) : (readingOf p).isLast = false := by
  unfold readingOf
  split <;> rfl

theorem isRecoverable_readingOf (p : List UInt8) :
    (readingOf p).isRecoverable = true ↔ ∃ cause, Envelope.ofBytes p = .error cause := by
  unfold readingOf
  cases Envelope.ofBytes p <;> simp [Reading.isRecoverable]

/-- The reads come to an end, and none before the last of them is one. The induction is on the
number of reads that are left; each of them uses up a byte. -/
theorem exists_last_reading {n : Nat} (h : s.isOpen = false) (hn : s.size < n) :
    ∃ rs last, readings framing limit false n s = rs ++ [last] ∧ last.isLast = true ∧
      ∀ r ∈ rs, r.isLast = false := by
  induction n generalizing s with
  | zero => omega
  | succ n ih =>
    match hr : read framing limit s with
    | none => exact absurd hr (read_ne_none h)
    | some (r, u) =>
      cases hlast : r.isLast with
      | true =>
        refine ⟨[], r, ?_, hlast, fun q hq => absurd hq List.not_mem_nil⟩
        rw [readings_of_isLast hr hlast, List.nil_append]
      | false =>
        obtain ⟨hended, hfailed⟩ := Reading.ne_of_isLast hlast
        have hlt := size_lt_of_read hr hended hfailed
        have hu : u.isOpen = false := (isOpen_of_frame (frame_of_read hr hfailed)).trans h
        obtain ⟨rs, last, hrs, hend, hall⟩ := ih hu (by omega)
        refine ⟨r :: rs, last, ?_, hend, List.forall_mem_cons.mpr ⟨hlast, hall⟩⟩
        rw [readings_of_not_isLast hr hlast, hrs, List.cons_append]

/-- However a stream is cut on its way, its reads give the same, up to the end of it or the first
fault. -/
theorem readings_of_carries {bs : List UInt8} {fault : Option String} (framing : Framing)
    (limit : Nat) (hs : s.Carries bs fault) (ht : t.Carries bs fault) :
    (∀ n, readings framing limit false n s = readings framing limit false n t) ∧
      ∃ rs last, last.isLast = true ∧ (∀ r ∈ rs, r.isLast = false) ∧
        ∀ n, bs.length < n → readings framing limit false n s = rs ++ [last] := by
  have heq : ∀ n, readings framing limit false n s = readings framing limit false n t :=
    readings_of_whole_eq (hs.whole_eq ht)
  obtain ⟨rs, last, hrs, hlast, hall⟩ : ∃ rs last,
      readings framing limit false (s.size + 1) s = rs ++ [last] ∧ last.isLast = true ∧
        ∀ r ∈ rs, r.isLast = false :=
    exists_last_reading hs.isOpen (Nat.lt_succ_self s.size)
  refine ⟨heq, rs, last, hlast, hall, fun n hn => ?_⟩
  rw [← hrs]
  exact readings_of_size_lt (hs.size ▸ hn) (Nat.lt_succ_self s.size)

/-- A stream breaks within its second line; it has come as a whole, or byte by byte, so that the
carriage return of the first line and the newline behind it are in different reads. -/
theorem readings_of_carries_bytewise :
    (∀ n, readings .line 3 false n (.cut [[123, 125, 13, 10, 123]] (some "gone")) =
      readings .line 3 false n (.cut [[123], [125], [13], [10], [123]] (some "gone"))) ∧
    ∃ rs last, last.isLast = true ∧ (∀ r ∈ rs, r.isLast = false) ∧ ∀ n, 5 < n →
      readings .line 3 false n (.cut [[123, 125, 13, 10, 123]] (some "gone")) = rs ++ [last] :=
  readings_of_carries .line 3 (Source.carries_cut [[123, 125, 13, 10, 123]] (some "gone"))
    (Source.carries_cut [[123], [125], [13], [10], [123]] (some "gone"))

end Reader

end ContextServer
