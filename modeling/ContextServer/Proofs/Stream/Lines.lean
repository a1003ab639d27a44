import ContextServer.Proofs.Stream.Ending
import ContextServer.Proofs.Stream.Limit

/-!
A stream of lines, seen as a whole. The newlines cut its bytes into pieces, and the reads give the
pieces one by one (`readings_of_lines`): each one that is not blank is parsed for itself, so one
that is malformed does no harm to those behind it. They end with the first piece that is too long,
with a fault, or with the end of the stream; only there does a piece count that no newline ends.

The reader keeps a line across its buffers, and all of its cases are in `nextLine`. So each kind of
piece has one lemma, and the induction goes from piece to piece.
-/

namespace ContextServer

namespace Reader

open Framing

variable {limit : Nat} {past : Bool} {fault : Option String} {s t : Source} {l r bs : List UInt8}

/-- What is read of a piece: nothing if it is blank. -/
def ofPiece? (p : List UInt8) : Option Reading :=
  if p.all Text.isBlankByte then none else some (readingOf (stripReturn p))

/-- What is read of these bytes and the fault or the end behind them, told from the pieces between
the newlines. The last piece has no newline behind it. -/
def lineReadings (limit : Nat) (fault : Option String) (bs : List UInt8) : List Reading :=
  let pieces := bs.splitOn newline
  let short := pieces.takeWhile (·.length ≤ limit)
  if short.length < pieces.length then short.filterMap ofPiece? ++ [tooLarge limit]
  else
    match fault with
    | none => pieces.filterMap ofPiece? ++ [.ended]
    | some m => pieces.dropLast.filterMap ofPiece? ++ [.failed (.io m)]

theorem lineReadings_cons (hn : newline ∉ l) :
    lineReadings limit fault (l ++ newline :: r) =
      if limit < l.length then [tooLarge limit]
      else (ofPiece? l).toList ++ lineReadings limit fault r := by
  have hsplit : (l ++ newline :: r).splitOn newline = l :: r.splitOn newline := by
    rw [List.splitOn_append_cons_self, List.splitOn_eq_singleton hn, List.singleton_append]
  have hne : r.splitOn newline ≠ [] := List.splitOn_ne_nil newline r
  simp only [lineReadings, hsplit]
  by_cases hl : limit < l.length
  · rw [if_pos hl, List.takeWhile_cons_of_neg (by simpa using hl)]
    simp
  · rw [if_neg hl, List.takeWhile_cons_of_pos (by simpa using hl)]
    simp only [List.length_cons, Nat.add_lt_add_iff_right, List.dropLast_cons_of_ne_nil hne]
    split
    · cases h : ofPiece? l <;> simp [h]
    · cases fault <;> cases h : ofPiece? l <;> simp [h]

theorem lineReadings_last (hn : newline ∉ l) :
    lineReadings limit fault l =
      if limit < l.length then [tooLarge limit]
      else match fault with
        | none => (ofPiece? l).toList ++ [.ended]
        | some m => [.failed (.io m)] := by
  simp only [lineReadings, List.splitOn_eq_singleton hn]
  by_cases hl : limit < l.length
  · rw [if_pos hl, List.takeWhile_cons_of_neg (by simpa using hl)]
    simp
  · rw [if_neg hl, List.takeWhile_cons_of_pos (by simpa using hl)]
    cases fault <;> cases h : ofPiece? l <;> simp [h]

/-! ### What is read of one piece -/

/-- The carriage return at the end of a piece is blank itself. -/
theorem all_stripReturn (p : List UInt8) :
    (stripReturn p).all Text.isBlankByte = p.all Text.isBlankByte := by
  unfold stripReturn
  split
  · rename_i h
    obtain ⟨q, rfl⟩ := List.getLast?_eq_some_iff.mp h
    rw [List.dropLast_concat, List.all_append]
    exact (Bool.and_true _).symm
  · rfl

theorem ofPiece?_eq_some {p : List UInt8} {x : Reading} (h : ofPiece? p = some x) :
    x = readingOf (stripReturn p) := by
  unfold ofPiece? at h
  split at h
  · cases h
  · exact (Option.some.inj h).symm

/-- The last of the readings ends them, and each one before it comes from a whole piece. -/
theorem exists_last_lineReading (limit : Nat) (fault : Option String) (bs : List UInt8) :
    ∃ rs last, lineReadings limit fault bs = rs ++ [last] ∧ last.isLast = true ∧
      rs.length ≤ bs.count newline + 1 ∧
      ∀ r ∈ rs, ∃ p ∈ bs.splitOn newline, p.length ≤ limit ∧ r = readingOf (stripReturn p) := by
  have none_of_nil {P : Reading → Prop} : ∀ r ∈ [], P r := fun _ h => absurd h List.not_mem_nil
  induction hk : bs.length using Nat.strongRecOn generalizing bs with
  | ind k ih =>
    subst hk
    rcases line_cases bs with hn | ⟨l, r, hn, rfl⟩
    · rw [lineReadings_last hn, List.splitOn_eq_singleton hn]
      by_cases hl : limit < bs.length
      · rw [if_pos hl]
        exact ⟨[], _, rfl, rfl, Nat.zero_le _, none_of_nil⟩
      · rw [if_neg hl]
        cases fault with
        | some m => exact ⟨[], _, rfl, rfl, Nat.zero_le _, none_of_nil⟩
        | none =>
          refine ⟨_, _, rfl, rfl, ?_, fun x hx => ⟨bs, by simp, Nat.not_lt.mp hl, ?_⟩⟩
          · cases ofPiece? bs <;> simp
          · exact ofPiece?_eq_some (by simpa using hx)
    · rw [lineReadings_cons hn, List.splitOn_append_cons_self, List.splitOn_eq_singleton hn]
      by_cases hl : limit < l.length
      · rw [if_pos hl]
        exact ⟨[], _, rfl, rfl, Nat.zero_le _, none_of_nil⟩
      · obtain ⟨rs, last, hrs, hlast, hlen, hall⟩ := ih r.length (by simp; omega) r rfl
        rw [if_neg hl, hrs, ← List.append_assoc]
        refine ⟨_, last, rfl, hlast, ?_, fun x hx => ?_⟩
        · have hone : (ofPiece? l).toList.length ≤ 1 := by cases ofPiece? l <;> simp
          rw [List.length_append, List.count_append, List.count_cons_self]
          omega
        · rcases List.mem_append.mp hx with hx | hx
          · exact ⟨l, by simp, Nat.not_lt.mp hl, ofPiece?_eq_some (by simpa using hx)⟩
          · obtain ⟨p, hp, hle, rfl⟩ := hall x hx
            exact ⟨p, by simp [hp], hle, rfl⟩

/-! ### The reads of a stream -/

/-- Of a line that has been taken off the stream. -/
theorem readLine_of_nextLine (h : nextLine limit s = some (.ok (some (stripReturn l)), t)) :
    readLine limit s = match ofPiece? l with
      | none => readLine limit t
      | some x => some (x, t) := by
  rw [readLine_eq, h]
  simp only [all_stripReturn, ofPiece?]
  cases l.all Text.isBlankByte <;> rfl

/-- Unless the line is blank, it is given before what the stream behind it gives. -/
theorem readings_of_nextLine {rs : List Reading}
    (h : nextLine limit s = some (.ok (some (stripReturn l)), t))
    (ht : ∀ n, readings .line limit past n t = rs.take n) (n : Nat) :
    readings .line limit past n s = ((ofPiece? l).toList ++ rs).take n := by
  have hread : read .line limit s = _ := readLine_of_nextLine h
  cases hp : ofPiece? l with
  | none =>
    have hsame : read .line limit s = read .line limit t := by rw [hread, hp]; rfl
    have hsame : readings .line limit past n s = readings .line limit past n t := by
      cases n with
      | zero => rfl
      | succ n => simp only [readings, hsame]
    rw [hsame, ht]
    rfl
  | some x =>
    rw [hp] at hread
    cases n with
    | zero => rfl
    | succ n =>
      have hx : x.isLast = false := ofPiece?_eq_some hp ▸ isLast_readingOf _
      rw [readings_of_not_isLast hread hx, ht]
      rfl

theorem readings_of_tooLong (h : scanLine limit s.bytes = .tooLong) (n : Nat) :
    readings .line limit false n s = [tooLarge limit].take n := by
  cases n with
  | zero => rfl
  | succ n =>
    obtain ⟨t, ht⟩ := nextLine_of_tooLong h
    have hread : read .line limit s = some (tooLarge limit, t) := by
      rw [read, readLine_eq, ht]
      rfl
    rw [readings_of_isLast hread rfl, List.take_succ_cons, List.take_nil]

theorem readings_of_ended (h : read .line limit s = some (.ended, t)) (n : Nat) :
    readings .line limit past n s = [Reading.ended].take n := by
  cases n with
  | zero => rfl
  | succ n => simp only [readings, h, List.take_succ_cons, List.take_nil]

theorem readings_carries_nil (hs : s.Carries [] none) (n : Nat) :
    readings .line limit past n s = [Reading.ended].take n := by
  obtain ⟨t, ht, -⟩ := nextLine_of_carries_last hs List.not_mem_nil (Nat.zero_le limit)
  refine readings_of_ended (t := t) ?_ n
  rw [read, readLine_eq, ht]
  rfl

/-- The last piece, with the end of the stream behind it. -/
theorem readings_carries_last (hs : s.Carries bs none) (hn : newline ∉ bs)
    (hl : bs.length ≤ limit) (n : Nat) :
    readings .line limit past n s = ((ofPiece? bs).toList ++ [Reading.ended]).take n := by
  obtain ⟨t, ht, hend⟩ := nextLine_of_carries_last hs hn hl
  by_cases he : stripReturn bs = []
  · have hblank : bs.all Text.isBlankByte = true := by
      rw [← all_stripReturn, he]
      rfl
    rw [ofPiece?, if_pos hblank]
    refine readings_of_ended (t := t) ?_ n
    rw [read, readLine_eq, ht, he]
    rfl
  · rw [List.isEmpty_eq_false_iff.mpr he] at ht
    exact readings_of_nextLine ht (readings_carries_nil hend) n

/-- A fault leaves nothing of the stream, wherever in a line it has come. -/
theorem carries_of_line? {room : Nat} {acc : List UInt8} {m : String} (he : s.ended = true)
    (h : line? limit room acc s = some (.error (.io m), t)) : t.Carries [] none := by
  fun_induction line? limit room acc s with
  | case1 | case2 | case4 | case6 => cases h
  | case3 room acc s hs u hu _ ih => exact ih ((Source.frame_refill hu).2.trans he) h
  | case5 room acc s hs hn m' u hr =>
    cases h
    unfold Source.rest at hr
    split at hr
    · cases hr
      exact ⟨rfl, rfl, he⟩
    · split at hr <;> cases hr

theorem nextLine_of_carries_fault {m : String} (hs : s.Carries bs (some m)) (hn : newline ∉ bs)
    (hl : bs.length ≤ limit) :
    ∃ t, nextLine limit s = some (.error (.io m), t) ∧ t.Carries [] none := by
  have hseen : seen (nextLine limit s) = some (.error (.io m)) := by
    rw [seen_nextLine, Source.carries_iff.mp hs, lineIn, scanLine_piece limit hn,
      if_neg (Nat.not_lt.mpr hl)]
    rfl
  obtain ⟨t, ht⟩ := seen_eq_error.mp hseen
  exact ⟨t, ht, carries_of_line? hs.ended ht⟩

/-- The last piece, with a fault behind it. -/
theorem readings_carries_fault {m : String} (hs : s.Carries bs (some m)) (hn : newline ∉ bs)
    (hl : bs.length ≤ limit) (n : Nat) :
    readings .line limit past n s =
      (.failed (.io m) :: if past then [Reading.ended] else []).take n := by
  obtain ⟨t, ht, hend⟩ := nextLine_of_carries_fault hs hn hl
  have hread : read .line limit s = some (.failed (.io m), t) := by rw [read, readLine_eq, ht]
  cases n with
  | zero => rfl
  | succ n =>
    simp only [readings, hread, List.take_succ_cons]
    cases past with
    | false => simp
    | true => simp [readings_carries_nil hend n]

/-- The induction is on the pieces. Past a fault the reads go on only where no piece is too long,
since what they give of one that is depends on how it has been cut. -/
theorem readings_take_pieces (hs : s.Carries bs fault)
    (hp : past = true → ∀ p ∈ bs.splitOn newline, p.length ≤ limit) (n : Nat) :
    readings .line limit past n s = (lineReadings limit fault bs ++
      if past && fault.isSome then [Reading.ended] else []).take n := by
  induction hk : bs.length using Nat.strongRecOn generalizing s bs n with
  | ind k ih =>
    subst hk
    have hpast {p : List UInt8} (h : p ∈ bs.splitOn newline) (hl : limit < p.length) :
        past = false := by
      cases past with
      | false => rfl
      | true => exact absurd (hp rfl p h) (Nat.not_le.mpr hl)
    rcases line_cases bs with hn | ⟨l, r, hn, rfl⟩
    · rw [lineReadings_last hn]
      by_cases hl : limit < bs.length
      · obtain rfl := hpast (by simp [List.splitOn_eq_singleton hn]) hl
        have hscan : scanLine limit s.bytes = .tooLong := by
          rw [hs.bytes, scanLine_piece limit hn, if_pos hl]
        rw [if_pos hl]
        exact readings_of_tooLong hscan n
      · have hle := Nat.not_lt.mp hl
        rw [if_neg hl]
        cases fault with
        | none => simpa using readings_carries_last hs hn hle n
        | some m => simpa using readings_carries_fault hs hn hle n
    · rw [List.splitOn_append_cons_self, List.splitOn_eq_singleton hn] at hp hpast
      rw [lineReadings_cons hn]
      by_cases hl : limit < l.length
      · obtain rfl := hpast (by simp) hl
        have hscan : scanLine limit s.bytes = .tooLong := by
          rw [hs.bytes, scanLine_line limit r hn, if_pos hl]
        rw [if_pos hl]
        exact readings_of_tooLong hscan n
      · obtain ⟨t, ht, hw⟩ := nextLine_of_bytes hs.bytes hn (Nat.not_lt.mp hl)
        have hrest : t.Carries r fault := by
          rw [Source.carries_iff] at hs ⊢
          rw [hw, hs]
        have hshort : r.length < (l ++ newline :: r).length := by
          rw [List.length_append, List.length_cons]
          omega
        rw [if_neg hl, List.append_assoc]
        exact readings_of_nextLine ht
          (fun m => ih r.length hshort hrest (fun h p hm => hp h p (by simp [hm])) m rfl) n

/-- However the stream has been cut on its way, the reads give its pieces in their order: an
envelope or a recoverable fault for each that is not blank, and nothing of one that is too long or
that a fault interrupts. They have come to their last after two more of them than there are
newlines. Past a fault that has interrupted a piece of the stream they give its end. -/
theorem readings_of_lines (limit : Nat) (hs : s.Carries bs fault) :
    (∀ n, readings .line limit false n s = (lineReadings limit fault bs).take n) ∧
    (∃ rs last, lineReadings limit fault bs = rs ++ [last] ∧ last.isLast = true ∧
      (rs ++ [last]).length ≤ bs.count newline + 2 ∧
      ∀ r ∈ rs, r.isLast = false ∧ ∃ p ∈ bs.splitOn newline, p.length ≤ limit ∧
        r = readingOf (stripReturn p) ∧
        (r.isRecoverable = true ↔ ∃ cause, Envelope.ofBytes (stripReturn p) = .error cause)) ∧
    (fault.isSome = true → (∀ p ∈ bs.splitOn newline, p.length ≤ limit) → ∀ n,
      readings .line limit true n s = (lineReadings limit fault bs ++ [Reading.ended]).take n) := by
  obtain ⟨rs, last, hrs, hlast, hlen, hall⟩ := exists_last_lineReading limit fault bs
  refine ⟨fun n => ?_, ⟨rs, last, hrs, hlast, ?_, fun r hr => ?_⟩, fun hf hp n => ?_⟩
  · have h : readings .line limit false n s = _ :=
      readings_take_pieces hs (fun h => absurd h Bool.false_ne_true) n
    rw [h, Bool.false_and, if_neg Bool.false_ne_true, List.append_nil]
  · rw [List.length_append, List.length_singleton]
    omega
  · obtain ⟨p, hp, hle, rfl⟩ := hall r hr
    exact ⟨isLast_readingOf _, p, hp, hle, rfl, isRecoverable_readingOf _⟩
  · rw [readings_take_pieces hs fun _ => hp, hf]
    rfl

/-- Two braces on a line, a blank line, and a third brace that a fault interrupts; the first
newline comes in another chunk than the carriage return before it. -/
def interrupted : Source := .cut [[123], [125, 13], [10, 32, 10, 123]] (some "gone")

theorem readings_of_lines_interrupted :
    interrupted.Carries [123, 125, 13, 10, 32, 10, 123] (some "gone") ∧
      (∀ n, readings .line 4 false n interrupted =
        [readingOf [123, 125], .failed (.io "gone")].take n) ∧
      ∀ n, readings .line 4 true n interrupted =
        [readingOf [123, 125], .failed (.io "gone"), .ended].take n := by
  have hs := Source.carries_cut [[123], [125, 13], [10, 32, 10, 123]] (some "gone")
  obtain ⟨hreadings, -, hpast⟩ := readings_of_lines 4 hs
  exact ⟨hs, hreadings, hpast rfl (by decide)⟩

end Reader

end ContextServer
