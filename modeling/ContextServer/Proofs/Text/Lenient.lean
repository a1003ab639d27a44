import Mathlib.Algebra.Ring.Nat
import ContextServer.Proofs.Text.Utf8

/-!
Lenient decoding. Whatever the bytes are, they fall into the forms of characters and into runs that
are no form (`lossy_decodeLossy`). So text without a replacement character is read of its own form
only, a character of ASCII is read where its byte stands and nowhere else, and there a text can be
taken apart before or after it has been decoded (`decodeLossy_ascii`).

What carries this is that the automaton never forgets what it has begun: the bytes that it holds
begin every character that it may still find (`Unfinished.Begun`).
-/

namespace ContextServer.Text.Utf8

variable {u u' : Unfinished} {held : List UInt8} {b : UInt8} {c : Char} {n : Nat}

/-! ### Characters from their numbers -/

theorem toNat_charOfNat (h : n < 0xD800 ∨ 0xDFFF < n ∧ n < 0x110000) :
    (Char.ofNat n).toNat = n := by
  rw [Char.ofNat, dif_pos h]
  rfl

theorem encodeChar_one (h : n < 0x80) : encodeChar (Char.ofNat n) = [UInt8.ofNat n] := by
  rw [encodeChar, toNat_charOfNat (.inl (by omega)), if_pos h]

theorem encodeChar_two (h : 0x80 ≤ n) (h' : n < 0x800) :
    encodeChar (Char.ofNat n) = [UInt8.ofNat (0xC0 + n / 64), continuation n] := by
  rw [encodeChar, toNat_charOfNat (.inl (by omega)), if_neg (by omega), if_pos h']

theorem encodeChar_three (h : 0x800 ≤ n) (h' : n < 0x10000)
    (hs : n < 0xD800 ∨ 0xE000 ≤ n) :
    encodeChar (Char.ofNat n) =
      [UInt8.ofNat (0xE0 + n / 4096), continuation (n / 64), continuation n] := by
  rw [encodeChar, toNat_charOfNat (by omega), if_neg (by omega), if_neg (by omega), if_pos h']

theorem encodeChar_four (h : 0x10000 ≤ n) (h' : n < 0x110000) :
    encodeChar (Char.ofNat n) = [UInt8.ofNat (0xF0 + n / 262144), continuation (n / 4096),
      continuation (n / 64), continuation n] := by
  rw [encodeChar, toNat_charOfNat (.inr (by omega)), if_neg (by omega), if_neg (by omega),
    if_neg (by omega)]

theorem ofNat_eq (h : n = b.toNat) : UInt8.ofNat n = b := by
  rw [h, UInt8.ofNat_toNat]

/-! ### Characters that have been begun -/

/-- The last `k + 1` bytes of a character with a number beyond ASCII. -/
def lastBytes : Nat → Nat → List UInt8
  | 0, n => [continuation n]
  | k + 1, n => continuation (n / 64 ^ (k + 1)) :: lastBytes k n

/-- These bytes begin every character that goes on as the reader expects it to. -/
structure Unfinished.Begun (u : Unfinished) (held : List UInt8) : Prop where
  bytes : ∀ b ∈ held, 0x80 ≤ b.toNat
  low : 0x80 ≤ u.low
  high : u.high ≤ 0xBF
  goesOn : ∀ n, n / 64 ^ (u.further + 1) = u.value → u.low ≤ 0x80 + n / 64 ^ u.further % 64 →
    0x80 + n / 64 ^ u.further % 64 ≤ u.high →
      encodeChar (Char.ofNat n) = held ++ lastBytes u.further n

/-- A first byte of two, three or four, and what is expected behind it. -/
inductive Leads (b : Nat) : Unfinished → Prop
  | two (hl : 0xC2 ≤ b) (hh : b < 0xE0) : Leads b ⟨0, 0x80, 0xBF, b - 0xC0⟩
  | three {low high : Nat} (hl : 0xE0 ≤ b) (hh : b < 0xF0) (hlow : 0x80 ≤ low)
      (hhigh : high ≤ 0xBF) (overlong : b = 0xE0 → 0xA0 ≤ low)
      (surrogate : b = 0xED → high ≤ 0x9F) : Leads b ⟨1, low, high, b - 0xE0⟩
  | four {low high : Nat} (hl : 0xF0 ≤ b) (hh : b < 0xF5) (hlow : 0x80 ≤ low)
      (hhigh : high ≤ 0xBF) (overlong : b = 0xF0 → 0x90 ≤ low)
      (beyond : b = 0xF4 → high ≤ 0x8F) : Leads b ⟨2, low, high, b - 0xF0⟩

theorem leads_of_scanFirst {b : Nat} (h : scanFirst b = .unfinished u) : Leads b u := by
  unfold scanFirst at h
  split at h
  · cases h
  split at h
  · cases h
  split at h
  · cases h
    exact .two (by omega) (by omega)
  -- the byte of the overlong forms, the byte of the surrogates, and all others of three bytes
  split at h
  · cases h
    subst b
    apply Leads.three <;> omega
  split at h
  · cases h
    subst b
    apply Leads.three <;> omega
  split at h
  · cases h
    apply Leads.three <;> omega
  split at h
  · cases h
    subst b
    apply Leads.four <;> omega
  split at h
  · cases h
    apply Leads.four <;> omega
  split at h
  · cases h
    subst b
    apply Leads.four <;> omega
  · cases h

theorem begun_of_scanFirst (h : scanFirst b.toNat = .unfinished u) : u.Begun [b] := by
  cases leads_of_scanFirst h with
  | two hl hh =>
    refine ⟨by simpa using by omega, by simp, by simp, fun n hv hlow hhigh => ?_⟩
    simp only [Nat.zero_add, Nat.pow_one, Nat.pow_zero, Nat.div_one] at hv hlow hhigh
    rw [encodeChar_two (by omega) (by omega), ofNat_eq (by omega : 0xC0 + n / 64 = b.toNat)]
    rfl
  | three hl hh hlow hhigh overlong surrogate =>
    refine ⟨by simpa using by omega, hlow, hhigh, fun n hv hlow hhigh => ?_⟩
    simp only [Nat.reduceAdd, Nat.reducePow] at hv hlow hhigh
    rw [encodeChar_three (by omega) (by omega) (by omega),
      ofNat_eq (by omega : 0xE0 + n / 4096 = b.toNat)]
    rfl
  | four hl hh hlow hhigh overlong beyond =>
    refine ⟨by simpa using by omega, hlow, hhigh, fun n hv hlow hhigh => ?_⟩
    simp only [Nat.reduceAdd, Nat.reducePow] at hv hlow hhigh
    rw [encodeChar_four (by omega) (by omega),
      ofNat_eq (by omega : 0xF0 + n / 262144 = b.toNat)]
    rfl

/-- The last byte makes the bytes that have been held a whole character. -/
theorem Unfinished.Begun.encodeChar_eq (h : u.Begun held) (hs : u.scan b.toNat = .char c) :
    encodeChar c = held ++ [b] := by
  obtain ⟨further, low, high, value⟩ := u
  obtain ⟨-, hlow, hhigh, hon⟩ := h
  unfold scan at hs
  split at hs
  · rename_i hb
    cases further with
    | succ k => cases hs
    | zero =>
      simp only [Scan.char.injEq] at hs
      simp only at hb hlow hhigh
      simp only [Nat.zero_add, Nat.pow_one, Nat.pow_zero, Nat.div_one] at hon
      rw [← hs, hon _ (by omega) (by omega) (by omega), lastBytes, continuation,
        ofNat_eq (b := b) (by omega)]
  · cases hs

theorem Unfinished.Begun.next (h : u.Begun held) (hs : u.scan b.toNat = .unfinished u') :
    u'.Begun (held ++ [b]) := by
  obtain ⟨further, low, high, value⟩ := u
  obtain ⟨hbytes, hlow, hhigh, hon⟩ := h
  unfold scan at hs
  split at hs
  · rename_i hb
    cases further with
    | zero => cases hs
    | succ k =>
      simp only [Scan.unfinished.injEq] at hs
      simp only at hb hlow hhigh hon
      subst hs
      refine ⟨?_, by simp, by simp, fun n hv _ _ => ?_⟩
      · simp only [List.mem_append, List.mem_singleton]
        rintro x (hx | rfl)
        · exact hbytes x hx
        · omega
      · simp only at hv
        have hdiv : n / 64 ^ (k + 1 + 1) = n / 64 ^ (k + 1) / 64 := by
          rw [Nat.div_div_eq_div_mul, Nat.pow_succ]
        rw [hon n (by omega) (by omega) (by omega), lastBytes, continuation,
          ofNat_eq (b := b) (by omega), List.append_assoc, List.singleton_append]
  · cases hs

/-! ### Forms and runs -/

/-- These characters are made of these bytes: each is the character that the bytes in its place are
the form of, or stands for a run of bytes beyond ASCII that is no form. -/
inductive Lossy : List UInt8 → List Char → Prop
  | nil : Lossy [] []
  | char (c : Char) {bs : List UInt8} {cs : List Char} (h : Lossy bs cs) :
      Lossy (encodeChar c ++ bs) (c :: cs)
  | broken (run : List UInt8) {bs : List UInt8} {cs : List Char} (hrun : ∀ b ∈ run, 0x80 ≤ b.toNat)
      (h : Lossy bs cs) : Lossy (run ++ bs) (replacement :: cs)

theorem encodeChar_of_scanFirst (h : scanFirst b.toNat = .char c) : encodeChar c = [b] := by
  unfold scanFirst at h
  split at h
  · rename_i hb
    simp only [Scan.char.injEq] at h
    rw [← h, encodeChar_one hb, UInt8.ofNat_toNat]
  · repeat' split at h
    all_goals cases h

theorem toNat_of_broken (h : scanFirst b.toNat = .broken) : 0x80 ≤ b.toNat := by
  unfold scanFirst at h
  split at h
  · cases h
  · omega

/-- The invariant of reading on: the bytes `held` by a state have begun a character, and what comes
out behind `acc` is made of them and of the bytes to come. -/
theorem exists_lossy (acc : List Char) (state : Option Unfinished) (held bs : List UInt8)
    (hstate : match state with
      | none => held = []
      | some u => u.Begun held) :
    ∃ cs, decodeLossyFrom acc state bs = acc.reverse ++ cs ∧ Lossy (held ++ bs) cs := by
  fun_induction decodeLossyFrom acc state bs generalizing held with
  | case1 acc =>
    subst hstate
    exact ⟨[], (List.append_nil _).symm, .nil⟩
  | case2 acc u => exact ⟨[replacement], by simp, .broken held hstate.bytes .nil⟩
  | case3 acc b bs c hs ih =>
    obtain ⟨cs, hcs, hl⟩ := ih [] rfl
    subst hstate
    refine ⟨c :: cs, by rw [hcs]; simp, ?_⟩
    have := Lossy.char c hl
    rwa [encodeChar_of_scanFirst hs] at this
  | case4 acc b bs u hs ih =>
    subst hstate
    exact ih [b] (begun_of_scanFirst hs)
  | case5 acc b bs hs ih =>
    obtain ⟨cs, hcs, hl⟩ := ih [] rfl
    subst hstate
    refine ⟨replacement :: cs, by rw [hcs]; simp, ?_⟩
    exact .broken [b] (by simpa using toNat_of_broken hs) hl
  | case6 acc u b bs c hs ih =>
    obtain ⟨cs, hcs, hl⟩ := ih [] rfl
    refine ⟨c :: cs, by rw [hcs]; simp, ?_⟩
    have := Lossy.char c hl
    rwa [hstate.encodeChar_eq hs, List.append_assoc] at this
  | case7 acc u b bs u' hs ih =>
    obtain ⟨cs, hcs, hl⟩ := ih (held ++ [b]) (hstate.next hs)
    exact ⟨cs, hcs, by simpa using hl⟩
  | case8 acc u b bs hs c hf ih =>
    obtain ⟨cs, hcs, hl⟩ := ih [] rfl
    refine ⟨replacement :: c :: cs, by rw [hcs]; simp, .broken held hstate.bytes ?_⟩
    have := Lossy.char c hl
    rwa [encodeChar_of_scanFirst hf] at this
  | case9 acc u b bs hs u' hf ih =>
    obtain ⟨cs, hcs, hl⟩ := ih [b] (begun_of_scanFirst hf)
    exact ⟨replacement :: cs, by rw [hcs]; simp, .broken held hstate.bytes hl⟩
  | case10 acc u b bs hs hf ih =>
    obtain ⟨cs, hcs, hl⟩ := ih [] rfl
    refine ⟨replacement :: replacement :: cs, by rw [hcs]; simp, .broken held hstate.bytes ?_⟩
    exact .broken [b] (by simpa using toNat_of_broken hf) hl

theorem lossy_decodeLossy (bs : List UInt8) : Lossy bs (decodeLossy bs) := by
  obtain ⟨cs, hcs, hl⟩ := exists_lossy [] none [] bs rfl
  rw [decodeLossy, hcs]
  exact hl

/-- Text that shows no replacement character is read of its own form only. -/
theorem Lossy.encode_eq {bs : List UInt8} {cs : List Char} (h : Lossy bs cs)
    (hc : replacement ∉ cs) : encode cs = bs := by
  induction h with
  | nil => rfl
  | char c _ ih => rw [encode_cons, ih fun h => hc (List.mem_cons_of_mem c h)]
  | broken => exact absurd List.mem_cons_self hc

/-- A character of ASCII is read of its own byte only. -/
theorem Lossy.mem_of_mem {bs : List UInt8} {cs : List Char} (h : Lossy bs cs)
    (hc : c ∈ cs) (hlt : c.toNat < 0x80) : UInt8.ofNat c.toNat ∈ bs := by
  induction h with
  | nil => cases hc
  | char d _ ih =>
    rw [List.mem_append]
    rcases List.mem_cons.mp hc with rfl | hc
    · left
      rw [encodeChar, if_pos hlt]
      exact List.mem_singleton_self _
    · exact .inr (ih hc)
  | broken run _ _ ih =>
    rw [List.mem_append]
    rcases List.mem_cons.mp hc with rfl | hc
    · exact absurd hlt (by decide)
    · exact .inr (ih hc)

/-! ### Text in two parts -/

/-- The characters read so far stay. -/
theorem decodeLossyFrom_append (acc before : List Char) (state : Option Unfinished)
    (bs : List UInt8) :
    decodeLossyFrom (acc ++ before) state bs = before.reverse ++ decodeLossyFrom acc state bs := by
  fun_induction decodeLossyFrom acc state bs with
  | case1 acc => simp [decodeLossyFrom]
  | case2 acc u => simp [decodeLossyFrom]
  | case3 _ _ _ _ hs ih | case4 _ _ _ _ hs ih | case5 _ _ _ hs ih | case6 _ _ _ _ _ hs ih
  | case7 _ _ _ _ _ hs ih =>
    rw [decodeLossyFrom, hs]
    exact ih
  | case8 _ _ _ _ hs _ hf ih | case9 _ _ _ _ hs _ hf ih | case10 _ _ _ _ hs hf ih =>
    simp only [decodeLossyFrom, hs, hf]
    exact ih

theorem decodeLossyFrom_none (acc : List Char) (bs : List UInt8) :
    decodeLossyFrom acc none bs = acc.reverse ++ decodeLossy bs :=
  decodeLossyFrom_append [] acc none bs

theorem scanFirst_ascii (hb : b.toNat < 0x80) : scanFirst b.toNat = .char (Char.ofNat b.toNat) := by
  rw [scanFirst, if_pos hb]

/-- No character goes on with a byte of ASCII. -/
theorem scan_ascii (hu : 0x80 ≤ u.low) (hb : b.toNat < 0x80) : u.scan b.toNat = .broken := by
  rw [Unfinished.scan, if_neg (by omega)]

theorem low_of_scan (hs : u.scan b.toNat = .unfinished u') : 0x80 ≤ u'.low := by
  unfold Unfinished.scan at hs
  split at hs
  · split at hs
    · cases hs
    · cases hs
      exact Nat.le_refl _
  · cases hs

theorem decodeLossyFrom_ascii (acc : List Char) (state : Option Unfinished) (as bs : List UInt8)
    (hstate : ∀ u ∈ state, 0x80 ≤ u.low) (hb : b.toNat < 0x80) :
    decodeLossyFrom acc state (as ++ b :: bs) =
      decodeLossyFrom acc state as ++ Char.ofNat b.toNat :: decodeLossy bs := by
  fun_induction decodeLossyFrom acc state as with
  | case1 acc =>
    rw [List.nil_append, decodeLossyFrom, scanFirst_ascii hb]
    simp [decodeLossyFrom_none]
  | case2 acc u =>
    rw [List.nil_append, decodeLossyFrom, scan_ascii (hstate u rfl) hb]
    simp [scanFirst_ascii hb, decodeLossyFrom_none]
  | case3 _ _ _ _ hs ih | case5 _ _ _ hs ih | case6 _ _ _ _ _ hs ih =>
    rw [List.cons_append, decodeLossyFrom, hs]
    exact ih nofun
  | case4 _ _ _ _ hs ih =>
    rw [List.cons_append, decodeLossyFrom, hs]
    exact ih fun _ h => Option.some.inj h ▸ (begun_of_scanFirst hs).low
  | case7 _ _ _ _ _ hs ih =>
    rw [List.cons_append, decodeLossyFrom, hs]
    exact ih fun _ h => Option.some.inj h ▸ low_of_scan hs
  | case8 _ _ _ _ hs _ hf ih | case10 _ _ _ _ hs hf ih =>
    simp only [List.cons_append, decodeLossyFrom, hs, hf]
    exact ih nofun
  | case9 _ _ _ _ hs _ hf ih =>
    simp only [List.cons_append, decodeLossyFrom, hs, hf]
    exact ih fun _ h => Option.some.inj h ▸ (begun_of_scanFirst hf).low

/-- At a byte of ASCII the text can be taken apart before it is decoded. -/
theorem decodeLossy_ascii (as bs : List UInt8) (hb : b.toNat < 0x80) :
    decodeLossy (as ++ b :: bs) = decodeLossy as ++ Char.ofNat b.toNat :: decodeLossy bs :=
  decodeLossyFrom_ascii [] none as bs nofun hb

/-! ### Well-formed text -/

theorem decodeLossyFrom_of_decodeFrom {acc cs : List Char} {state : Option Unfinished}
    {bs : List UInt8} (h : decodeFrom acc state bs = some cs) :
    decodeLossyFrom acc state bs = cs := by
  fun_induction decodeFrom acc state bs with
  | case1 acc => exact Option.some.inj h
  | case2 => cases h
  | case3 acc state b bs c hs ih | case4 acc state b bs c hs ih =>
    cases state with
    | none =>
      rw [Option.elim_none] at hs
      rw [decodeLossyFrom, hs]
      exact ih h
    | some u =>
      rw [Option.elim_some] at hs
      rw [decodeLossyFrom, hs]
      exact ih h
  | case5 => cases h

/-- Well-formed text is not lost on a lenient reader. -/
theorem decodeLossy_encode (cs : List Char) : decodeLossy (encode cs) = cs :=
  decodeLossyFrom_of_decodeFrom (decode?_encode cs)

end ContextServer.Text.Utf8
