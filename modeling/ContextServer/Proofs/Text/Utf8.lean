import ContextServer.Text.Utf8

/-!
Decoding undoes encoding. The automaton reads the bytes of a character one after the other, each of
them within the bounds that the one before it has set, and comes out with the number that they were
made of.
-/

namespace ContextServer.Text.Utf8

theorem toNat_ofNat {n : Nat} (h : n < 256) : (UInt8.ofNat n).toNat = n := by
  rw [UInt8.toNat_ofNat']
  omega

theorem toNat_continuation (n : Nat) : (continuation n).toNat = 0x80 + n % 64 :=
  toNat_ofNat (by omega)

/-- No character is a surrogate or beyond the last one. -/
theorem toNat_bounds (c : Char) : c.toNat < 0xD800 ∨ (0xE000 ≤ c.toNat ∧ c.toNat < 0x110000) := by
  rcases c.valid with h | ⟨h, h'⟩
  · exact .inl h
  · exact .inr ⟨h, h'⟩

section Steps

variable {acc : List Char} {state : Option Unfinished} {b : UInt8} {bs : List UInt8}

theorem decodeFrom_char {c : Char} (h : (state.elim scanFirst Unfinished.scan) b.toNat = .char c) :
    decodeFrom acc state (b :: bs) = decodeFrom (c :: acc) none bs := by
  rw [decodeFrom, h]

theorem decodeFrom_unfinished {u : Unfinished}
    (h : (state.elim scanFirst Unfinished.scan) b.toNat = .unfinished u) :
    decodeFrom acc state (b :: bs) = decodeFrom acc (some u) bs := by
  rw [decodeFrom, h]

end Steps

theorem scanFirst_two {n : Nat} (h : 0x80 ≤ n) (h' : n < 0x800) :
    scanFirst (0xC0 + n / 64) = .unfinished ⟨0, 0x80, 0xBF, n / 64⟩ := by
  rw [scanFirst, if_neg (by omega), if_neg (by omega), if_pos (by omega), Nat.add_sub_cancel_left]

theorem scan_last {u : Unfinished} {n : Nat} (hu : u.further = 0) (hv : u.value = n / 64)
    (hl : u.low ≤ 0x80 + n % 64) (hh : 0x80 + n % 64 ≤ u.high) :
    u.scan (0x80 + n % 64) = .char (Char.ofNat n) := by
  have hn : u.value * 64 + (0x80 + n % 64 - 0x80) = n := by omega
  simp only [Unfinished.scan, if_pos (And.intro hl hh), hu, hn]

theorem scan_inner {u : Unfinished} {n k : Nat} (hu : u.further = k + 1) (hv : u.value = n / 64)
    (hl : u.low ≤ 0x80 + n % 64) (hh : 0x80 + n % 64 ≤ u.high) :
    u.scan (0x80 + n % 64) = .unfinished ⟨k, 0x80, 0xBF, n⟩ := by
  have hn : u.value * 64 + (0x80 + n % 64 - 0x80) = n := by omega
  simp only [Unfinished.scan, if_pos (And.intro hl hh), hu, hn]

/-- The bounds on the second byte of three hold for every number that is no surrogate. -/
theorem scanFirst_three {n : Nat} (h : 0x800 ≤ n) (h' : n < 0x10000)
    (hs : n < 0xD800 ∨ 0xE000 ≤ n) :
    ∃ u, scanFirst (0xE0 + n / 4096) = .unfinished u ∧ u.further = 1 ∧ u.value = n / 64 / 64 ∧
      u.low ≤ 0x80 + n / 64 % 64 ∧ 0x80 + n / 64 % 64 ≤ u.high := by
  rw [scanFirst, if_neg (by omega), if_neg (by omega), if_neg (by omega)]
  by_cases h0 : n < 0x1000
  · rw [if_pos (by omega)]
    exact ⟨_, rfl, rfl, by simp only; omega, by simp only; omega, by simp only; omega⟩
  · rw [if_neg (by omega)]
    by_cases hd : n / 4096 = 0xD
    · rw [if_pos (by omega)]
      exact ⟨_, rfl, rfl, by simp only; omega, by simp only; omega, by simp only; omega⟩
    · rw [if_neg (by omega), if_pos (by omega)]
      exact ⟨_, rfl, rfl, by simp only; omega, by simp only; omega, by simp only; omega⟩

theorem scanFirst_four {n : Nat} (h : 0x10000 ≤ n) (h' : n < 0x110000) :
    ∃ u, scanFirst (0xF0 + n / 262144) = .unfinished u ∧ u.further = 2 ∧
      u.value = n / 4096 / 64 ∧ u.low ≤ 0x80 + n / 4096 % 64 ∧ 0x80 + n / 4096 % 64 ≤ u.high := by
  rw [scanFirst, if_neg (by omega), if_neg (by omega), if_neg (by omega), if_neg (by omega),
    if_neg (by omega), if_neg (by omega)]
  by_cases h0 : n < 0x40000
  · rw [if_pos (by omega)]
    exact ⟨_, rfl, rfl, by simp only; omega, by simp only; omega, by simp only; omega⟩
  · rw [if_neg (by omega)]
    by_cases h3 : n < 0x100000
    · rw [if_pos (by omega)]
      exact ⟨_, rfl, rfl, by simp only; omega, by simp only; omega, by simp only; omega⟩
    · rw [if_neg (by omega), if_pos (by omega)]
      exact ⟨_, rfl, rfl, by simp only; omega, by simp only; omega, by simp only; omega⟩

theorem decodeFrom_encodeChar (acc : List Char) (c : Char) (bs : List UInt8) :
    decodeFrom acc none (encodeChar c ++ bs) = decodeFrom (c :: acc) none bs := by
  have hc := toNat_bounds c
  have hof := Char.ofNat_toNat c
  simp only [encodeChar]
  split
  · rename_i h
    refine decodeFrom_char ?_
    rw [toNat_ofNat (by omega), Option.elim_none, scanFirst, if_pos h, hof]
  · split
    · rename_i h
      refine (decodeFrom_unfinished (u := ⟨0, 0x80, 0xBF, c.toNat / 64⟩) ?_).trans
        (decodeFrom_char ?_)
      · rw [toNat_ofNat (by omega)]
        exact scanFirst_two (by omega) h
      · rw [toNat_continuation, Option.elim_some, scan_last rfl rfl (by simp) (by simp; omega), hof]
    · split
      · rename_i h
        obtain ⟨u, hu, hf, hv, hl, hh⟩ := scanFirst_three (n := c.toNat) (by omega) h (by omega)
        refine (decodeFrom_unfinished (u := u) ?_).trans <|
          (decodeFrom_unfinished (u := ⟨0, 0x80, 0xBF, c.toNat / 64⟩) ?_).trans
            (decodeFrom_char ?_)
        · rw [toNat_ofNat (by omega)]
          exact hu
        · rw [toNat_continuation, Option.elim_some]
          exact scan_inner hf hv hl hh
        · rw [toNat_continuation, Option.elim_some, scan_last rfl rfl (by simp) (by simp; omega),
            hof]
      · obtain ⟨u, hu, hf, hv, hl, hh⟩ := scanFirst_four (n := c.toNat) (by omega) (by omega)
        refine (decodeFrom_unfinished (u := u) ?_).trans <|
          (decodeFrom_unfinished (u := ⟨1, 0x80, 0xBF, c.toNat / 4096⟩) ?_).trans <|
            (decodeFrom_unfinished (u := ⟨0, 0x80, 0xBF, c.toNat / 64⟩) ?_).trans
              (decodeFrom_char ?_)
        · rw [toNat_ofNat (by omega)]
          exact hu
        · rw [toNat_continuation, Option.elim_some]
          exact scan_inner hf hv hl hh
        · rw [toNat_continuation, Option.elim_some]
          exact scan_inner rfl (by simp only; omega) (by simp) (by simp; omega)
        · rw [toNat_continuation, Option.elim_some, scan_last rfl rfl (by simp) (by simp; omega),
            hof]

theorem decode?_encode (cs : List Char) : decode? (encode cs) = some cs := by
  have from_acc (acc : List Char) :
      decodeFrom acc none (encode cs) = some (acc.reverse ++ cs) := by
    induction cs generalizing acc with
    | nil => simp [decodeFrom]
    | cons c cs ih => rw [encode_cons, decodeFrom_encodeChar, ih]; simp
  exact from_acc []

/-- Only a character of ASCII has its number for a byte. -/
theorem mem_encodeChar {c : Char} {b : UInt8} (h : b ∈ encodeChar c) (hb : b.toNat < 0x80) :
    c.toNat = b.toNat := by
  simp only [encodeChar] at h
  split at h
  · simp only [List.mem_singleton] at h
    rw [h, toNat_ofNat (by omega)]
  · have cont (n : Nat) : (continuation n).toNat < 0x80 → False := by
      rw [toNat_continuation]
      omega
    have lead (n : Nat) (hn : 0xC0 ≤ n) (hm : n < 256) : (UInt8.ofNat n).toNat < 0x80 → False := by
      rw [toNat_ofNat hm]
      omega
    have hc := toNat_bounds c
    split at h
    · simp only [List.mem_cons, List.not_mem_nil, or_false] at h
      rcases h with rfl | rfl
      · exact (lead _ (by omega) (by omega) hb).elim
      · exact (cont _ hb).elim
    · split at h
      · simp only [List.mem_cons, List.not_mem_nil, or_false] at h
        rcases h with rfl | rfl | rfl
        · exact (lead _ (by omega) (by omega) hb).elim
        · exact (cont _ hb).elim
        · exact (cont _ hb).elim
      · simp only [List.mem_cons, List.not_mem_nil, or_false] at h
        rcases h with rfl | rfl | rfl | rfl
        · exact (lead _ (by omega) (by omega) hb).elim
        · exact (cont _ hb).elim
        · exact (cont _ hb).elim
        · exact (cont _ hb).elim

/-! ### Text that goes on -/

section Prefix

variable {acc cs ds : List Char} {state : Option Unfinished} {bs ys : List UInt8}

theorem decodeFrom_append (h : decodeFrom acc state bs = some ds) (ys : List UInt8) :
    decodeFrom acc state (bs ++ ys) = decodeFrom ds.reverse none ys := by
  fun_induction decodeFrom acc state bs with
  | case1 acc =>
    cases h
    rw [List.nil_append, List.reverse_reverse]
  | case2 => cases h
  | case3 acc state b bs c hs ih =>
    rw [List.cons_append, decodeFrom_char hs]
    exact ih h
  | case4 acc state b bs u hs ih =>
    rw [List.cons_append, decodeFrom_unfinished hs]
    exact ih h
  | case5 => cases h

/-- The characters read so far stay, and any byte that is left adds one. -/
theorem exists_append_of_decodeFrom (h : decodeFrom acc state bs = some ds) :
    ∃ es, ds = acc.reverse ++ es ∧ (es = [] → state = none ∧ bs = []) := by
  fun_induction decodeFrom acc state bs with
  | case1 acc =>
    cases h
    exact ⟨[], (List.append_nil _).symm, fun _ => ⟨rfl, rfl⟩⟩
  | case2 => cases h
  | case3 acc state b bs c hs ih =>
    obtain ⟨es, rfl, -⟩ := ih h
    exact ⟨c :: es, by simp, nofun⟩
  | case4 acc state b bs u hs ih =>
    obtain ⟨es, rfl, hes⟩ := ih h
    exact ⟨es, rfl, fun h => absurd (hes h).1 nofun⟩
  | case5 => cases h

/-- Text that is well-formed, with more bytes behind it, is more text. -/
theorem exists_append_of_decode? (hd : decode? bs = some ds) (hc : decode? (bs ++ ys) = some cs)
    (hy : ys ≠ []) : ∃ es, cs = ds ++ es ∧ es ≠ [] := by
  rw [decode?, decodeFrom_append hd] at hc
  obtain ⟨es, rfl, hes⟩ := exists_append_of_decodeFrom hc
  exact ⟨es, by rw [List.reverse_reverse], fun h => hy (hes h).2⟩

end Prefix

end ContextServer.Text.Utf8
