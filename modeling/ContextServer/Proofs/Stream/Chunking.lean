import Mathlib.Data.List.TakeWhile
import ContextServer.Stream.Reader

/-!
Reading does not depend on how the bytes come. What a read gives, and what it leaves, is fixed by
the bytes that are not used up and by what comes after the last of them: neither the boundary
between buffer and stream matters nor the sizes of the reads to come. And what a read has given it
gives as well when more has arrived behind the bytes that it needed.
-/

namespace ContextServer

namespace Source

/-- The same stream with all its bytes in the buffer. -/
def whole (s : Source) : Source := ⟨s.bytes, [], [], s.fault, s.ended⟩

/-- Whether more bytes may arrive. -/
def isOpen (s : Source) : Bool := s.fault.isNone && !s.ended

@[simp] theorem bytes_whole (s : Source) : s.whole.bytes = s.bytes := List.append_nil _

theorem whole_eq_iff {s t : Source} :
    s.whole = t.whole ↔ s.bytes = t.bytes ∧ s.fault = t.fault ∧ s.ended = t.ended := by
  simp [whole]

theorem frame_refill {s t : Source} {room : Nat} (h : s.refill room = some t) :
    t.fault = s.fault ∧ t.ended = s.ended := by
  unfold refill at h
  split at h
  · cases h
  · cases h
    exact ⟨rfl, rfl⟩

theorem unread_of_refill {s : Source} {room : Nat} (h : s.refill room = none) :
    s.unread = [] := by
  unfold refill at h
  split at h
  · assumption
  · cases h

theorem rest_of_isOpen {s : Source} (h : s.isOpen = true) : s.rest = .wait := by
  simp only [isOpen, Bool.and_eq_true, Option.isNone_iff_eq_none, Bool.not_eq_true'] at h
  simp [rest, h.1, h.2]

end Source

namespace Reader

section Scan

variable {α : Type} [DecidableEq α] {a : α} {l r as bs : List α}

theorem splitAt?_append_left (h : a ∉ l) : splitAt? a (l ++ a :: r) = some (l, r) := by
  unfold splitAt?
  rw [List.dropWhile_append_of_pos (by simpa using fun x hx => ne_of_mem_of_not_mem hx h),
    List.takeWhile_append_of_pos (by simpa using fun x hx => ne_of_mem_of_not_mem hx h)]
  simp

theorem splitAt?_eq_none : splitAt? a as = none ↔ a ∉ as := by
  unfold splitAt?
  constructor
  · intro h
    split at h
    · rename_i hd
      have := List.dropWhile_eq_nil_iff.mp hd
      exact fun ha => by simpa using this a ha
    · cases h
  · intro h
    have : as.dropWhile (· ≠ a) = [] :=
      List.dropWhile_eq_nil_iff.mpr fun x hx => by simpa using ne_of_mem_of_not_mem hx h
    rw [this]

theorem notMem_of_splitAt? (h : splitAt? a as = some (l, r)) : a ∉ l := by
  unfold splitAt? at h
  split at h
  · cases h
  · cases h
    intro ha
    simpa using List.mem_takeWhile_imp ha

end Scan

/-- A buffer holds no end of a line, or a line up to the first one. -/
theorem line_cases (bs : List UInt8) :
    Framing.newline ∉ bs ∨ ∃ l r, Framing.newline ∉ l ∧ bs = l ++ Framing.newline :: r := by
  cases h : splitAt? Framing.newline bs with
  | none => exact .inl (splitAt?_eq_none.mp h)
  | some lr => exact .inr ⟨lr.1, lr.2, notMem_of_splitAt? h, eq_of_splitAt? h⟩

theorem scanLine_line (room : Nat) {l : List UInt8} (r : List UInt8) (h : Framing.newline ∉ l) :
    scanLine room (l ++ Framing.newline :: r) =
      if room < l.length then .tooLong else .complete l r := by
  rw [scanLine, splitAt?_append_left h]

theorem scanLine_piece (room : Nat) {bs : List UInt8} (h : Framing.newline ∉ bs) :
    scanLine room bs = if room < bs.length then .tooLong else .unfinished := by
  rw [scanLine, splitAt?_eq_none.mpr h]

theorem notMem_of_unfinished {room : Nat} {bs : List UInt8}
    (h : scanLine room bs = .unfinished) : Framing.newline ∉ bs ∧ bs.length ≤ room := by
  rcases line_cases bs with hn | ⟨l, r, hn, rfl⟩
  · rw [scanLine_piece room hn] at h
    refine ⟨hn, ?_⟩
    split at h
    · cases h
    · omega
  · rw [scanLine_line room r hn] at h
    split at h <;> cases h

/-- Bytes that hold no end of a line only take room away. -/
theorem scanLine_append {room : Nat} {as : List UInt8} (bs : List UInt8)
    (h : Framing.newline ∉ as) :
    scanLine (room + as.length) (as ++ bs) = match scanLine room bs with
      | .complete l r => .complete (as ++ l) r
      | .tooLong => .tooLong
      | .unfinished => .unfinished := by
  rcases line_cases bs with hn | ⟨l, r, hn, rfl⟩
  · rw [scanLine_piece room hn, scanLine_piece _ (by simp [h, hn]), List.length_append]
    by_cases hr : room < bs.length
    · rw [if_pos hr, if_pos (by omega)]
    · rw [if_neg hr, if_neg (by omega)]
  · rw [scanLine_line room r hn, ← List.append_assoc, scanLine_line _ r (by simp [h, hn]),
      List.length_append]
    by_cases hr : room < l.length
    · rw [if_pos hr, if_pos (by omega)]
    · rw [if_neg hr, if_neg (by omega)]

/-- More bytes change nothing of a scan that has come to a result. -/
theorem scanLine_extend {room : Nat} {as : List UInt8} (bs : List UInt8)
    (h : scanLine room as ≠ .unfinished) :
    scanLine room (as ++ bs) = match scanLine room as with
      | .complete l r => .complete l (r ++ bs)
      | .tooLong => .tooLong
      | .unfinished => .unfinished := by
  rcases line_cases as with hn | ⟨l, r, hn, rfl⟩
  · rw [scanLine_piece room hn] at h ⊢
    by_cases hr : room < as.length
    · rw [if_pos hr]
      rcases line_cases bs with hb | ⟨l, r, hb, rfl⟩
      · rw [scanLine_piece room (by simp [hn, hb]), if_pos (by simp; omega)]
      · rw [← List.append_assoc, scanLine_line room r (by simp [hn, hb]), if_pos (by simp; omega)]
    · exact absurd (if_neg hr) h
  · rw [List.append_assoc, List.cons_append, scanLine_line room _ hn, scanLine_line room _ hn]
    split <;> rfl

/-! ### What the next reader sees -/

/-- A result, of whose stream only that counts which the next reader can see. After a fault of the
stream nothing of it counts. -/
def seen {α : Type} (p : Progress α) : Option (Except TransportError (α × Source)) :=
  p.map fun
    | (.ok a, t) => .ok (a, t.whole)
    | (.error e, _) => .error e

section Seen

variable {α : Type} {p : Progress α} {a : α} {e : TransportError} {w : Source}

@[simp] theorem seen_eq_none : seen p = none ↔ p = none := Option.map_eq_none_iff

theorem seen_eq_ok : seen p = some (.ok (a, w)) ↔ ∃ t, p = some (.ok a, t) ∧ t.whole = w := by
  constructor
  · intro h
    obtain ⟨⟨r, t⟩, rfl, ht⟩ := Option.map_eq_some_iff.mp h
    cases r with
    | error => cases ht
    | ok b =>
      simp only [Except.ok.injEq, Prod.mk.injEq] at ht
      exact ⟨t, by rw [ht.1], ht.2⟩
  · rintro ⟨t, rfl, rfl⟩
    rfl

theorem seen_eq_error : seen p = some (.error e) ↔ ∃ t, p = some (.error e, t) := by
  constructor
  · intro h
    obtain ⟨⟨r, t⟩, rfl, ht⟩ := Option.map_eq_some_iff.mp h
    cases r with
    | ok => cases ht
    | error f =>
      simp only [Except.error.injEq] at ht
      exact ⟨t, by rw [ht]⟩
  · rintro ⟨t, rfl⟩
    rfl

end Seen

/-- The next line of a stream that has all its bytes in the buffer. -/
def lineIn (limit : Nat) (w : Source) :
    Option (Except TransportError (Option (List UInt8) × Source)) :=
  match scanLine limit w.buffer with
  | .complete l r => some (.ok (some (stripReturn l), { w with buffer := r }))
  | .tooLong => some (.error (.messageTooLarge limit))
  | .unfinished =>
    match w.rest with
    | .wait => none
    | .fault m _ => some (.error (.io m))
    | .ended t =>
      let l := stripReturn w.buffer
      some (.ok (if l.isEmpty then none else some l, t))

/-- The next `n` bytes of a stream that has all its bytes in the buffer. -/
def bodyIn (n : Nat) (w : Source) : Option (Except TransportError (List UInt8 × Source)) :=
  if n ≤ w.buffer.length then
    some (.ok (w.buffer.take n, { w with buffer := w.buffer.drop n }))
  else
    match w.rest with
    | .wait => none
    | .fault m _ => some (.error (.io m))
    | .ended _ => some (.error earlyEnd)

/-- The invariant of reading a line: the bytes `acc` of earlier buffers hold no end of a line, and
they and the room that is left make up the limit. -/
theorem seen_line? {limit room : Nat} {acc : List UInt8} {s : Source}
    (hl : room + acc.length = limit) (hn : Framing.newline ∉ acc) :
    seen (line? limit room acc s) =
      lineIn limit ⟨acc.reverse ++ s.bytes, [], [], s.fault, s.ended⟩ := by
  have scan (room : Nat) (acc bs : List UInt8) (hn : Framing.newline ∉ acc) :=
    @scanLine_append room acc.reverse bs (by simpa using hn)
  simp only [List.length_reverse] at scan
  fun_induction line? limit room acc s with
  | case1 room acc s l r hs =>
    have hne : scanLine room s.buffer ≠ .unfinished := by simp [hs]
    have hx := scanLine_extend s.unread hne
    rw [hs] at hx
    have hall := scan room acc s.bytes hn
    rw [Source.bytes, hx, hl] at hall
    simp only [lineIn, Source.bytes, hall]
    rfl
  | case2 room acc s hs =>
    have hne : scanLine room s.buffer ≠ .unfinished := by simp [hs]
    have hx := scanLine_extend s.unread hne
    rw [hs] at hx
    have hall := scan room acc s.bytes hn
    rw [Source.bytes, hx, hl] at hall
    simp only [lineIn, Source.bytes, hall]
    rfl
  | case3 room acc s hs t ht _ ih =>
    obtain ⟨hnb, hlen⟩ := notMem_of_unfinished hs
    have hf := Source.frame_refill ht
    rw [ih (by simp; omega) (by simp [hn, hnb]), Source.bytes_refill ht, hf.1, hf.2]
    simp [Source.bytes]
  | case4 room acc s hs ht hr | case5 room acc s hs ht m t hr | case6 room acc s hs ht t hr =>
    -- all bytes are in the buffers, so what comes after the last of them decides
    have hall := scan room acc s.bytes hn
    rw [Source.bytes, Source.unread_of_refill ht, List.append_nil, hs, hl] at hall
    simp only [lineIn, Source.bytes, Source.unread_of_refill ht, List.append_nil, hall]
    unfold Source.rest at hr ⊢
    cases hf : s.fault <;> cases he : s.ended <;>
      simp only [hf, he, reduceCtorEq, if_true, if_false, Bool.false_eq_true] at hr <;>
      cases hr <;> simp [seen, Source.whole, Source.bytes]

theorem seen_nextLine (limit : Nat) (s : Source) :
    seen (nextLine limit s) = lineIn limit s.whole :=
  seen_line? rfl List.not_mem_nil

theorem seen_body? {n : Nat} {acc : List UInt8} {s : Source} :
    seen (body? n acc s) =
      bodyIn (n + acc.length) ⟨acc.reverse ++ s.bytes, [], [], s.fault, s.ended⟩ := by
  fun_induction body? n acc s with
  | case1 n acc s h =>
    have hle : n + acc.length ≤ (acc.reverse ++ s.bytes).length := by
      simp only [Source.bytes, List.length_append, List.length_reverse]
      omega
    have htake : (acc.reverse ++ s.bytes).take (n + acc.length) =
        acc.reverse ++ s.buffer.take n := by
      rw [Nat.add_comm, ← List.length_reverse, List.take_length_add_append, Source.bytes,
        List.take_append_of_le_length h]
    have hdrop : (acc.reverse ++ s.bytes).drop (n + acc.length) =
        s.buffer.drop n ++ s.unread := by
      rw [Nat.add_comm, ← List.length_reverse, List.drop_length_add_append, Source.bytes,
        List.drop_append_of_le_length h]
    rw [bodyIn, if_pos hle, htake, hdrop]
    rfl
  | case2 n acc s h t ht _ ih =>
    have hf := Source.frame_refill ht
    rw [ih, Source.bytes_refill ht, hf.1, hf.2]
    have : n - s.buffer.length + (s.buffer.reverseAux acc).length = n + acc.length := by
      simp
      omega
    rw [this]
    simp [Source.bytes]
  | case3 n acc s h ht hr | case4 n acc s h ht m t hr | case5 n acc s h ht t hr =>
    have hlt : ¬ n + acc.length ≤ (acc.reverse ++ s.bytes).length := by
      simp only [Source.bytes, Source.unread_of_refill ht, List.length_append, List.length_reverse,
        List.length_nil]
      omega
    rw [bodyIn, if_neg hlt]
    unfold Source.rest at hr ⊢
    cases hf : s.fault <;> cases he : s.ended <;> simp_all [seen]

theorem seen_nextBody (n : Nat) (s : Source) : seen (nextBody n s) = bodyIn n s.whole :=
  seen_body?

/-! ### What has arrived since -/

end Reader

/-- What arrives at an open stream: bytes, and perhaps what comes after the last of them. -/
structure Arrival where
  bytes : List UInt8
  fault : Option String
  ended : Bool

/-- The stream `t` is the stream `s` after the arrival. A stream that is not open any more only
stays what it is. -/
structure Source.Grown (x : Arrival) (s t : Source) : Prop where
  bytes : t.bytes = s.bytes ++ x.bytes
  fault : t.fault = x.fault
  ended : t.ended = x.ended
  start : s.isOpen = true ∨ (x.bytes = [] ∧ s.fault = x.fault ∧ s.ended = x.ended)

namespace Source

variable {x : Arrival} {s t : Source}

theorem grown_whole : s.whole.Grown x t.whole ↔ s.Grown x t := by
  constructor
  · intro h
    exact ⟨by simpa using h.bytes, h.fault, h.ended, h.start⟩
  · intro h
    exact ⟨by simpa using h.bytes, h.fault, h.ended, h.start⟩

theorem whole_of_grown (h : s.Grown x t) :
    t.whole = ⟨s.bytes ++ x.bytes, [], [], x.fault, x.ended⟩ := by
  simp [whole, h.bytes, h.fault, h.ended]

/-- Equal streams differ by an arrival of nothing. -/
theorem grown_of_whole_eq (h : s.whole = t.whole) : s.Grown ⟨[], s.fault, s.ended⟩ t := by
  obtain ⟨hb, hf, he⟩ := whole_eq_iff.mp h
  exact ⟨by simp [hb], hf.symm, he.symm, .inr ⟨rfl, rfl, rfl⟩⟩

theorem whole_eq_of_grown (h : s.Grown ⟨[], s.fault, s.ended⟩ t) : s.whole = t.whole := by
  rw [whole_of_grown h]
  simp [whole]

end Source

namespace Reader

/-- Whatever result `p` has, `q` has it as well, and the streams behind the results differ by the
same arrival, if the stream has not failed. -/
def Keeps {α : Type} (x : Arrival) (p q : Progress α) : Prop :=
  ∀ r t, p = some (r, t) → ∃ u, q = some (r, u) ∧ ∀ a, r = .ok a → t.Grown x u

section Keeps

variable {α : Type} {x : Arrival} {s t : Source}

theorem keeps_of_seen {p q : Progress α}
    (hok : ∀ a w, seen p = some (.ok (a, w)) → ∃ v, seen q = some (.ok (a, v)) ∧ w.Grown x v)
    (herr : ∀ e, seen p = some (.error e) → seen q = some (.error e)) : Keeps x p q := by
  rintro (e | a) t rfl
  · obtain ⟨u, hu⟩ := seen_eq_error.mp (herr e rfl)
    exact ⟨u, hu, nofun⟩
  · obtain ⟨v, hv, hg⟩ := hok a t.whole rfl
    obtain ⟨u, hu, rfl⟩ := seen_eq_ok.mp hv
    exact ⟨u, hu, fun _ _ => Source.grown_whole.mp hg⟩

theorem keeps_none (q : Progress α) : Keeps x none q := by
  intro r t h
  cases h

theorem keeps_of_seen_eq {p q : Progress α} (h : seen p = seen q)
    (hf : ∀ a w, seen p = some (.ok (a, w)) → w.fault = s.fault ∧ w.ended = s.ended) :
    Keeps ⟨[], s.fault, s.ended⟩ p q := by
  refine keeps_of_seen (fun a w hp => ?_) (fun e hp => h ▸ hp)
  obtain ⟨hfault, hended⟩ := hf a w hp
  exact ⟨w, h ▸ hp, ⟨(List.append_nil _).symm, hfault, hended, .inr ⟨rfl, hfault, hended⟩⟩⟩

theorem frame_of_rest {u : Source} (h : s.rest = .ended u) :
    u.fault = s.fault ∧ u.ended = s.ended := by
  unfold Source.rest at h
  split at h
  · cases h
  · split at h
    · cases h
      exact ⟨rfl, rfl⟩
    · cases h

theorem frame_of_lineIn {limit : Nat} {l : Option (List UInt8)} {u : Source}
    (h : lineIn limit s = some (.ok (l, u))) : u.fault = s.fault ∧ u.ended = s.ended := by
  unfold lineIn at h
  split at h
  · cases h
    exact ⟨rfl, rfl⟩
  · cases h
  · split at h
    · cases h
    · cases h
    · rename_i hr
      cases h
      exact frame_of_rest hr

theorem frame_of_bodyIn {n : Nat} {bs : List UInt8} {u : Source}
    (h : bodyIn n s = some (.ok (bs, u))) : u.fault = s.fault ∧ u.ended = s.ended := by
  unfold bodyIn at h
  split at h
  · cases h
    exact ⟨rfl, rfl⟩
  · split at h <;> cases h

/-- To a stream that is not open any more nothing has arrived. -/
theorem whole_eq_of_rest (hg : s.Grown x t) (hr : s.rest ≠ .wait) :
    s.whole = t.whole ∧ x = ⟨[], s.fault, s.ended⟩ := by
  rcases hg.start with h | ⟨hb, hf, he⟩
  · exact absurd (Source.rest_of_isOpen h) hr
  · rw [Source.whole_of_grown hg, hb, ← hf, ← he, List.append_nil]
    exact ⟨rfl, by rw [hf, he, ← hb]⟩

theorem rest_whole_wait : s.whole.rest = .wait ↔ s.rest = .wait := by
  unfold Source.rest Source.whole
  cases s.fault <;> cases s.ended <;> simp

theorem nextLine_keeps (limit : Nat) (hg : s.Grown x t) :
    Keeps x (nextLine limit s) (nextLine limit t) := by
  have hwhole : t.whole.buffer = s.whole.buffer ++ x.bytes := hg.bytes
  by_cases hu : scanLine limit s.whole.buffer = .unfinished
  · by_cases hr : s.whole.rest = .wait
    · have hn : nextLine limit s = none := by
        rw [← seen_eq_none, seen_nextLine, lineIn, hu, hr]
      rw [hn]
      exact keeps_none _
    · obtain ⟨hst, rfl⟩ := whole_eq_of_rest hg fun h => hr (rest_whole_wait.mpr h)
      have hsame : seen (nextLine limit s) = seen (nextLine limit t) := by
        rw [seen_nextLine, seen_nextLine, hst]
      exact keeps_of_seen_eq hsame fun a w h =>
        frame_of_lineIn (s := s.whole) (seen_nextLine limit s ▸ h)
  · have hx := scanLine_extend x.bytes hu
    apply keeps_of_seen
    · intro a w h
      rw [seen_nextLine, lineIn] at h ⊢
      rw [hwhole, hx]
      cases hs : scanLine limit s.whole.buffer with
      | complete l r =>
        rw [hs] at h
        simp only [Option.some.injEq, Except.ok.injEq, Prod.mk.injEq] at h
        obtain ⟨rfl, rfl⟩ := h
        refine ⟨_, rfl, ⟨?_, hg.fault, hg.ended, hg.start⟩⟩
        simp [Source.bytes, Source.whole]
      | tooLong =>
        rw [hs] at h
        cases h
      | unfinished => exact absurd hs hu
    · intro e h
      rw [seen_nextLine, lineIn] at h ⊢
      rw [hwhole, hx]
      cases hs : scanLine limit s.whole.buffer with
      | complete l r =>
        rw [hs] at h
        cases h
      | tooLong =>
        rw [hs] at h
        exact h
      | unfinished => exact absurd hs hu

theorem nextBody_keeps (n : Nat) (hg : s.Grown x t) :
    Keeps x (nextBody n s) (nextBody n t) := by
  have hwhole : t.whole.buffer = s.whole.buffer ++ x.bytes := hg.bytes
  by_cases hn : n ≤ s.whole.buffer.length
  · apply keeps_of_seen
    · intro a w h
      rw [seen_nextBody, bodyIn, if_pos hn] at h
      rw [seen_nextBody, bodyIn, hwhole, if_pos (by rw [List.length_append]; omega),
        List.take_append_of_le_length hn, List.drop_append_of_le_length hn]
      simp only [Option.some.injEq, Except.ok.injEq, Prod.mk.injEq] at h
      obtain ⟨rfl, rfl⟩ := h
      refine ⟨_, rfl, ⟨?_, hg.fault, hg.ended, hg.start⟩⟩
      simp [Source.bytes, Source.whole]
    · intro e h
      rw [seen_nextBody, bodyIn, if_pos hn] at h
      cases h
  · by_cases hr : s.whole.rest = .wait
    · have hn : nextBody n s = none := by
        rw [← seen_eq_none, seen_nextBody, bodyIn, if_neg hn, hr]
      rw [hn]
      exact keeps_none _
    · obtain ⟨hst, rfl⟩ := whole_eq_of_rest hg fun h => hr (rest_whole_wait.mpr h)
      have hsame : seen (nextBody n s) = seen (nextBody n t) := by
        rw [seen_nextBody, seen_nextBody, hst]
      exact keeps_of_seen_eq hsame fun a w h =>
        frame_of_bodyIn (s := s.whole) (seen_nextBody n s ▸ h)

theorem contentLength?_eq (limit : Nat) (started : Bool) (length : Option Nat) (s : Source) :
    contentLength? limit started length s =
      match nextLine limit s with
      | none => none
      | some (.error e, t) => some (.error e, t)
      | some (.ok none, t) => some (if started then .error endInHeaders else .ok none, t)
      | some (.ok (some l), t) =>
        match headerLine l with
        | .blank =>
          match length with
          | some n => some (.ok (some n), t)
          | none => some (.error .missingContentLength, t)
        | .length n => contentLength? limit true (some n) t
        | .other => contentLength? limit true length t
        | .invalid line => some (.error (.invalidHeader line), t) := by
  rw [contentLength?]
  split <;> rename_i h
  · rw [h]
  · rw [h]
  · rw [h]
  · dsimp only
    rewrite [h]
    rfl

theorem readLine_eq (limit : Nat) (s : Source) :
    readLine limit s =
      match nextLine limit s with
      | none => none
      | some (.error e, t) => some (.failed e, t)
      | some (.ok none, t) => some (.ended, t)
      | some (.ok (some l), t) =>
        if l.all Text.isBlankByte then readLine limit t else some (readingOf l, t) := by
  rw [readLine]
  split <;> rename_i h <;> simp only [h]

theorem keeps_some {r : Except TransportError α} {u v : Source} {q : Progress α}
    (hq : q = some (r, v)) (hg : ∀ a, r = .ok a → u.Grown x v) : Keeps x (some (r, u)) q := by
  intro r' u' h
  cases h
  exact ⟨v, hq, hg⟩

theorem contentLength?_keeps (limit : Nat) (started : Bool) (length : Option Nat)
    (hg : s.Grown x t) :
    Keeps x (contentLength? limit started length s) (contentLength? limit started length t) := by
  fun_induction contentLength? limit started length s generalizing t with
  | case1 => exact keeps_none _
  | case2 started length s e u h =>
    obtain ⟨v, hv, -⟩ := nextLine_keeps limit hg _ _ h
    exact keeps_some (by rw [contentLength?_eq, hv]) nofun
  | case3 started length s u h =>
    obtain ⟨v, hv, hgrown⟩ := nextLine_keeps limit hg _ _ h
    exact keeps_some (by rw [contentLength?_eq, hv]) fun _ _ => hgrown _ rfl
  | case4 started s l u h _ hl n =>
    obtain ⟨v, hv, hgrown⟩ := nextLine_keeps limit hg _ _ h
    refine keeps_some ?_ fun _ _ => hgrown _ rfl
    rw [contentLength?_eq, hv]
    simp only [hl]
  | case5 started s l u h _ hl =>
    obtain ⟨v, hv, -⟩ := nextLine_keeps limit hg _ _ h
    refine keeps_some (v := v) ?_ nofun
    rw [contentLength?_eq, hv]
    simp only [hl]
  | case6 started length s l u h _ n hl ih =>
    obtain ⟨v, hv, hgrown⟩ := nextLine_keeps limit hg _ _ h
    have hq : contentLength? limit started length t = contentLength? limit true (some n) v := by
      rw [contentLength?_eq, hv]
      simp only [hl]
    rw [hq]
    exact ih (hgrown _ rfl)
  | case7 started length s l u h _ hl ih =>
    obtain ⟨v, hv, hgrown⟩ := nextLine_keeps limit hg _ _ h
    have hq : contentLength? limit started length t = contentLength? limit true length v := by
      rw [contentLength?_eq, hv]
      simp only [hl]
    rw [hq]
    exact ih (hgrown _ rfl)
  | case8 started length s l u h _ line hl =>
    obtain ⟨v, hv, -⟩ := nextLine_keeps limit hg _ _ h
    refine keeps_some (v := v) ?_ nofun
    rw [contentLength?_eq, hv]
    simp only [hl]

theorem readLine_keeps (limit : Nat) (hg : s.Grown x t) {r : Reading} {u : Source}
    (h : readLine limit s = some (r, u)) :
    ∃ v, readLine limit t = some (r, v) ∧ ((∀ e, r ≠ .failed e) → u.Grown x v) := by
  fun_induction readLine limit s generalizing t with
  | case1 => cases h
  | case2 s e w hl =>
    obtain ⟨v, hv, -⟩ := nextLine_keeps limit hg _ _ hl
    cases h
    exact ⟨v, by rw [readLine_eq, hv], fun hne => absurd rfl (hne e)⟩
  | case3 s w hl =>
    obtain ⟨v, hv, hgrown⟩ := nextLine_keeps limit hg _ _ hl
    cases h
    exact ⟨v, by rw [readLine_eq, hv], fun _ => hgrown _ rfl⟩
  | case4 s l w hl _ hb ih =>
    obtain ⟨v, hv, hgrown⟩ := nextLine_keeps limit hg _ _ hl
    obtain ⟨v', hv', hgrown'⟩ := ih (hgrown _ rfl) h
    refine ⟨v', ?_, hgrown'⟩
    rw [readLine_eq, hv]
    simp only [hb, if_true]
    exact hv'
  | case5 s l w hl _ hb =>
    obtain ⟨v, hv, hgrown⟩ := nextLine_keeps limit hg _ _ hl
    simp only [Option.some.injEq, Prod.mk.injEq] at h
    obtain ⟨rfl, rfl⟩ := h
    refine ⟨v, ?_, fun _ => hgrown _ rfl⟩
    rw [readLine_eq, hv]
    exact if_neg hb

theorem readHeader_keeps (limit : Nat) (hg : s.Grown x t) {r : Reading} {u : Source}
    (h : readHeader limit s = some (r, u)) :
    ∃ v, readHeader limit t = some (r, v) ∧ ((∀ e, r ≠ .failed e) → u.Grown x v) := by
  have hk := contentLength?_keeps limit false none hg
  unfold readHeader at h ⊢
  match hc : contentLength? limit false none s with
  | none =>
    rw [hc] at h
    cases h
  | some (.error e, w) =>
    obtain ⟨v, hv, -⟩ := hk _ _ hc
    rw [hc] at h
    cases h
    rw [hv]
    exact ⟨v, rfl, fun hne => absurd rfl (hne e)⟩
  | some (.ok none, w) =>
    obtain ⟨v, hv, hgrown⟩ := hk _ _ hc
    rw [hc] at h
    cases h
    rw [hv]
    exact ⟨v, rfl, fun _ => hgrown _ rfl⟩
  | some (.ok (some n), w) =>
    obtain ⟨v, hv, hgrown⟩ := hk _ _ hc
    rw [hc] at h
    rw [hv]
    by_cases hn : limit < n
    · simp only [if_pos hn] at h ⊢
      cases h
      exact ⟨v, rfl, fun hne => absurd rfl (hne _)⟩
    · simp only [if_neg hn] at h ⊢
      match hb : nextBody n w with
      | none =>
        rw [hb] at h
        cases h
      | some (.error e, w') =>
        obtain ⟨v', hv', -⟩ := nextBody_keeps n (hgrown _ rfl) _ _ hb
        rw [hb] at h
        cases h
        rw [hv']
        exact ⟨v', rfl, fun hne => absurd rfl (hne e)⟩
      | some (.ok bs, w') =>
        obtain ⟨v', hv', hgrown'⟩ := nextBody_keeps n (hgrown _ rfl) _ _ hb
        rw [hb] at h
        simp only [Option.some.injEq, Prod.mk.injEq] at h
        obtain ⟨rfl, rfl⟩ := h
        rw [hv']
        exact ⟨v', rfl, fun _ => hgrown' _ rfl⟩

/-- What a read has given it gives as well when more has arrived. -/
theorem read_keeps (framing : Framing) (limit : Nat) (hg : s.Grown x t) {r : Reading}
    {u : Source} (h : read framing limit s = some (r, u)) :
    ∃ v, read framing limit t = some (r, v) ∧ ((∀ e, r ≠ .failed e) → u.Grown x v) := by
  cases framing with
  | line => exact readLine_keeps limit hg h
  | header => exact readHeader_keeps limit hg h

/-- A read leaves alone what comes after the last byte, unless that makes it fail. -/
theorem frame_of_read {framing : Framing} {limit : Nat} {r : Reading} {u : Source}
    (hr : read framing limit s = some (r, u)) (hne : ∀ e, r ≠ .failed e) :
    u.fault = s.fault ∧ u.ended = s.ended := by
  -- nothing has arrived at the stream since it was itself
  obtain ⟨v, hv, hgrown⟩ := read_keeps framing limit (Source.grown_of_whole_eq (s := s) rfl) hr
  rw [hr] at hv
  cases hv
  exact ⟨(hgrown hne).fault, (hgrown hne).ended⟩

/-- Streams that show the same to a reader give the same and leave the same. -/
theorem read_of_whole_eq {framing : Framing} {limit : Nat} (h : s.whole = t.whole) {r : Reading}
    {u : Source} (hr : read framing limit s = some (r, u)) :
    ∃ v, read framing limit t = some (r, v) ∧ ((∀ e, r ≠ .failed e) → u.whole = v.whole) := by
  obtain ⟨v, hv, hgrown⟩ := read_keeps framing limit (Source.grown_of_whole_eq h) hr
  refine ⟨v, hv, fun hne => Source.whole_eq_of_grown ?_⟩
  obtain ⟨hf, he⟩ := frame_of_read hr hne
  rw [hf, he]
  exact hgrown hne

theorem read_eq_none_of_whole_eq {framing : Framing} {limit : Nat} (h : s.whole = t.whole)
    (hr : read framing limit s = none) : read framing limit t = none := by
  cases ht : read framing limit t with
  | none => rfl
  | some p =>
    obtain ⟨v, hv, -⟩ := read_of_whole_eq (u := p.2) h.symm ht
    rw [hr] at hv
    cases hv

theorem readings_of_whole_eq {framing : Framing} {limit : Nat} (h : s.whole = t.whole) (n : Nat) :
    readings framing limit false n s = readings framing limit false n t := by
  induction n generalizing s t with
  | zero => rfl
  | succ n ih =>
    match hr : read framing limit s with
    | none => simp only [readings, hr, read_eq_none_of_whole_eq h hr]
    | some (r, u) =>
      obtain ⟨v, hv, hw⟩ := read_of_whole_eq h hr
      cases r with
      | ended => simp only [readings, hr, hv]
      | failed e => simp only [readings, hr, hv, Bool.false_eq_true, if_false]
      | envelope | malformed => simp only [readings, hr, hv, ih (hw nofun)]

end Keeps

/-! ### What a read uses up -/

theorem size_lt_of_contentLength? {limit : Nat} {started : Bool} {length : Option Nat}
    {s t : Source} {n : Nat} (h : contentLength? limit started length s = some (.ok (some n), t)) :
    t.size < s.size := by
  fun_induction contentLength? limit started length s with
  | case1 | case2 | case5 | case8 => cases h
  | case3 started length s u hl => split at h <;> cases h
  | case4 started s l u hl hlt =>
    cases h
    exact hlt
  | case6 started length s l u hl hlt m hh ih | case7 started length s l u hl hlt hh ih =>
    have := ih h
    omega

theorem size_le_of_body? {n : Nat} {acc bs : List UInt8} {s t : Source}
    (h : body? n acc s = some (.ok bs, t)) : t.size ≤ s.size := by
  fun_induction body? n acc s with
  | case1 n acc s hn =>
    cases h
    simp only [Source.size, List.length_drop]
    omega
  | case2 n acc s hn u hu _ ih =>
    have := ih h
    have := Source.size_refill hu
    simp only [Source.size] at *
    omega
  | case3 | case4 | case5 => cases h

theorem size_lt_of_readLine {limit : Nat} {s t : Source} {r : Reading}
    (h : readLine limit s = some (r, t)) (he : r ≠ .ended) (hf : ∀ e, r ≠ .failed e) :
    t.size < s.size := by
  fun_induction readLine limit s with
  | case1 => cases h
  | case2 s e u hl =>
    cases h
    exact absurd rfl (hf e)
  | case3 s u hl =>
    cases h
    exact absurd rfl he
  | case4 s l u hl hlt hb ih =>
    have := ih h
    omega
  | case5 s l u hl hlt hb =>
    simp only [Option.some.injEq, Prod.mk.injEq] at h
    rw [← h.2]
    exact hlt

theorem size_lt_of_readHeader {limit : Nat} {s t : Source} {r : Reading}
    (h : readHeader limit s = some (r, t)) (he : r ≠ .ended) (hf : ∀ e, r ≠ .failed e) :
    t.size < s.size := by
  unfold readHeader at h
  split at h
  · cases h
  · cases h
    exact absurd rfl (hf _)
  · cases h
    exact absurd rfl he
  · rename_i n u hc
    have hlt := size_lt_of_contentLength? hc
    split at h
    · cases h
      exact absurd rfl (hf _)
    · split at h
      · cases h
      · cases h
        exact absurd rfl (hf _)
      · rename_i bs v hb
        have hle := size_le_of_body? hb
        simp only [Option.some.injEq, Prod.mk.injEq] at h
        rw [← h.2]
        omega

theorem size_lt_of_read {framing : Framing} {limit : Nat} {s t : Source} {r : Reading}
    (h : read framing limit s = some (r, t)) (he : r ≠ .ended) (hf : ∀ e, r ≠ .failed e) :
    t.size < s.size := by
  cases framing with
  | line => exact size_lt_of_readLine h he hf
  | header => exact size_lt_of_readHeader h he hf

/-- As many reads as there are bytes, and one more, are all that a stream has to give. -/
theorem readings_of_size_lt {framing : Framing} {limit n m : Nat} {s : Source}
    (hn : s.size < n) (hm : s.size < m) :
    readings framing limit false n s = readings framing limit false m s := by
  induction n generalizing m s with
  | zero => omega
  | succ n ih =>
    obtain ⟨m, rfl⟩ : ∃ k, m = k + 1 := ⟨m - 1, by omega⟩
    match hr : read framing limit s with
    | none => simp only [readings, hr]
    | some (r, u) =>
      cases r with
      | ended => simp only [readings, hr]
      | failed e => simp only [readings, hr, Bool.false_eq_true, if_false]
      | envelope | malformed =>
        have hlt := size_lt_of_read hr nofun nofun
        simp only [readings, hr]
        rw [ih (by omega) (by omega : u.size < m)]

end Reader

end ContextServer
