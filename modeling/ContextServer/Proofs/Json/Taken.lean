import ContextServer.Proofs.Json.Spelling

/-!
What a parser takes off a text. It is read on its own to its end, and what is left over has had no
part in it (`takes_all`). So a number that has been read is a numeral, and an object is members
with commas between them.
-/

namespace ContextServer

namespace Json

namespace Parser

variable {s r : List Char}

/-! ### Numbers -/

theorem exists_digits (s : List Char) (h : ¬ (splitDigits s).1.isEmpty = true) :
    ∃ ds : Digits, splitDigits s = (ds.chars, (splitDigits s).2) ∧
      s = ds.chars ++ (splitDigits s).2 := by
  refine ⟨⟨(splitDigits s).1, ?_, ?_⟩, rfl, List.takeWhile_append_dropWhile.symm⟩
  · intro c hc
    exact List.mem_takeWhile_imp hc
  · intro h0
    exact h (List.isEmpty_iff.mpr h0)

theorem power?_eq_some {fraction f : Option (List Char)} {negative : Bool} {e : Option Int}
    (h : power? fraction negative s = some (f, e, r)) :
    f = fraction ∧ ∃ ds : Digits, s = ds.chars ++ r ∧
      e = some (if negative then -(Text.cappedValue exponentBound ds.chars : Int)
        else Text.cappedValue exponentBound ds.chars) := by
  unfold power? at h
  by_cases hds : (splitDigits s).1.isEmpty = true
  · simp [hds] at h
  · obtain ⟨ds, hsplit, hs⟩ := exists_digits s hds
    rw [hsplit] at h hds
    simp only [if_neg hds] at h
    cases h
    exact ⟨rfl, ds, hs, rfl⟩

theorem exponent?_eq_some {fraction f : Option (List Char)} {e : Option Int}
    (h : exponent? fraction s = some (f, e, r)) :
    f = fraction ∧ ∃ x : Option Exponent, s = (x.map Exponent.text).getD [] ++ r ∧
      e = x.map Exponent.capped := by
  cases s with
  | nil =>
    cases h
    exact ⟨rfl, none, rfl, rfl⟩
  | cons c s =>
    by_cases hc : (c == 'e' || c == 'E') = true
    · have hletter : ∃ upper : Bool, c = if upper then 'E' else 'e' := by
        rcases Bool.or_eq_true_iff.mp hc with he | hE
        · exact ⟨false, eq_of_beq he⟩
        · exact ⟨true, eq_of_beq hE⟩
      obtain ⟨upper, rfl⟩ := hletter
      simp only [exponent?, if_pos hc] at h
      split at h
      · obtain ⟨hf, ds, rfl, he⟩ := power?_eq_some h
        exact ⟨hf, some ⟨upper, some true, ds⟩, rfl, he⟩
      · obtain ⟨hf, ds, rfl, he⟩ := power?_eq_some h
        exact ⟨hf, some ⟨upper, some false, ds⟩, rfl, he⟩
      · obtain ⟨hf, ds, rfl, he⟩ := power?_eq_some h
        exact ⟨hf, some ⟨upper, none, ds⟩, rfl, he⟩
    · simp only [exponent?, if_neg hc] at h
      cases h
      exact ⟨rfl, none, rfl, rfl⟩

/-- A number that has been read is a numeral. -/
theorem unsigned?_taken {negative : Bool} {n : Number} (h : unsigned? negative s = some (n, r)) :
    ∃ x : Numeral, x.negative = negative ∧ s = x.whole.chars ++ x.tail ++ r ∧
      x.read? = some n := by
  obtain ⟨hfits, f, e, ht, hn⟩ := unsigned?_eq_some.mp h
  have hne : ¬ (splitDigits s).1.isEmpty = true := by
    intro h0
    rw [List.isEmpty_iff.mp h0] at hfits
    cases hfits
  obtain ⟨ds, hsplit, hs⟩ := exists_digits s hne
  rw [hsplit] at hfits hn
  generalize (splitDigits s).2 = u at ht hs
  subst hs
  by_cases hpoint : ∃ v, u = '.' :: v
  · obtain ⟨v, rfl⟩ := hpoint
    rw [tail?_point] at ht
    split at ht
    · cases ht
    · rename_i hv
      obtain ⟨fs, hfs, hv⟩ := exists_digits v hv
      rw [hfs] at ht
      obtain ⟨rfl, x, hx, rfl⟩ := exponent?_eq_some ht
      refine ⟨⟨negative, ds, hfits, some fs, x⟩, rfl, ?_, hn⟩
      rw [hv, hx]
      simp [Numeral.tail, Numeral.ending]
  · rw [tail?_other (fun v hv => hpoint ⟨v, hv⟩)] at ht
    obtain ⟨rfl, x, rfl, rfl⟩ := exponent?_eq_some ht
    refine ⟨⟨negative, ds, hfits, none, x⟩, rfl, ?_, hn⟩
    simp [Numeral.tail, Numeral.ending]

theorem number?_taken {n : Number} (h : number? s = some (n, r)) :
    ∃ x : Numeral, s = x.text ++ r ∧ x.read? = some n := by
  obtain ⟨c, t, rfl, hc⟩ := head_of_number? h
  rcases hc with hc | rfl
  · rw [number?_digit hc] at h
    obtain ⟨x, hx, hs, hn⟩ := unsigned?_taken h
    refine ⟨x, ?_, hn⟩
    rw [hs, Numeral.text, hx]
    rfl
  · obtain ⟨x, hx, hs, hn⟩ := unsigned?_taken (show unsigned? true t = some (n, r) from h)
    refine ⟨x, ?_, hn⟩
    rw [hs, Numeral.text, hx]
    rfl

/-! ### Strings -/

theorem string?_taken {acc : List Char} {k : String} (h : string? acc s = some (k, r)) :
    ∃ t, s = t ++ '"' :: r ∧ string? acc (t ++ ['"']) = some (k, []) := by
  fun_induction string? acc s with
  | case1 | case3 | case4 | case6 | case7 | case8 | case10 | case12 => cases h
  | case2 acc u =>
    cases h
    exact ⟨[], rfl, rfl⟩
  | case5 acc a b c d n hn hhigh a' b' c' d' u m hm hlow ih =>
    obtain ⟨t, rfl, ht⟩ := ih h
    refine ⟨'\\' :: 'u' :: a :: b :: c :: d :: '\\' :: 'u' :: a' :: b' :: c' :: d' :: t, rfl, ?_⟩
    simp only [List.cons_append]
    rw [string?]
    simp only [hn, hhigh, hm, hlow, if_true]
    exact ht
  | case9 acc a b c d u n hn hhigh hlow ih =>
    obtain ⟨t, rfl, ht⟩ := ih h
    refine ⟨'\\' :: 'u' :: a :: b :: c :: d :: t, rfl, ?_⟩
    simp only [List.cons_append]
    rw [string?]
    simp only [hn, if_neg hhigh, if_neg hlow]
    exact ht
  | case11 acc e u _ c hc ih =>
    obtain ⟨t, rfl, ht⟩ := ih h
    have hu : e ≠ 'u' := by
      rintro rfl
      cases hc
    refine ⟨'\\' :: e :: t, rfl, ?_⟩
    rw [List.cons_append, List.cons_append, string?_escape hu hc]
    exact ht
  | case13 acc c u hquote _ hescape hc ih =>
    obtain ⟨t, rfl, ht⟩ := ih h
    -- a backslash before the closing quote would have been an escape
    have hb : c ≠ '\\' := by
      rintro rfl
      cases t with
      | nil => exact hescape _ _ rfl rfl
      | cons e t => exact hescape _ _ rfl rfl
    refine ⟨c :: t, rfl, ?_⟩
    rw [List.cons_append, string?_plain hquote hb (Nat.not_lt.mp hc)]
    exact ht

/-! ### Values -/

theorem exists_blank (s : List Char) : ∃ b, Blank b ∧ s = b ++ skip s := by
  refine ⟨s.takeWhile isBlank, ?_, List.takeWhile_append_dropWhile.symm⟩
  intro c hc
  exact List.mem_takeWhile_imp hc

theorem items?_skip (fuel depth : Nat) (acc : List Json) (s : List Char) :
    items? fuel depth acc (skip s) = items? fuel depth acc s := by
  cases fuel with
  | zero => rfl
  | succ fuel => rw [items?, items?, value?_skip]

/-- A value is taken off the text `s`, and `r` is left. With two units of fuel for each of its
characters it is read on its own. -/
def TakesValue (depth : Nat) (s : List Char) (j : Json) (r : List Char) : Prop :=
  ∃ t, s = t ++ r ∧ value? (2 * t.length) depth t = some (j, [])

/-- What the three parsers have read has been taken off the text, and the members of an object
stand between commas. -/
structure Takes (fuel : Nat) : Prop where
  value : ∀ {depth : Nat} {s r : List Char} {j : Json}, value? fuel depth s = some (j, r) →
    TakesValue depth s j r
  items : ∀ {depth : Nat} {acc : List Json} {s r : List Char} {j : Json},
    items? fuel depth acc s = some (j, r) →
      ∃ t, s = t ++ r ∧ items? (2 * t.length) depth acc t = some (j, [])
  members : ∀ {depth : Nat} {acc : List (String × Json)} {s r : List Char} {j : Json},
    members? fuel depth acc s = some (j, r) →
      ∃ (ms : List (Member depth)) (m : Member depth),
        s = joined ((ms ++ [m]).map Member.text) ++ '}' :: r ∧
          j = .object (acc.reverse ++ (ms ++ [m]).map Member.pair)

section Step

variable {fuel depth : Nat} {j : Json}

/-- The blanks before a value are taken with it. -/
theorem value?_taken_of_skip {w : List Char} (n : Nat) (hs : skip s = w ++ r)
    (h : value? n depth w = some (j, [])) (hf : n ≤ 2 * w.length) :
    TakesValue depth s j r := by
  obtain ⟨b, hb, heq⟩ := exists_blank s
  refine ⟨b ++ w, ?_, ?_⟩
  · rw [List.append_assoc, ← hs]
    exact heq
  · have hmore : n ≤ 2 * (b ++ w).length := by
      rw [List.length_append]
      omega
    have hw := (extends_all n).value hmore h [] (.inl (.inr endsNumber_nil))
    rw [List.append_nil] at hw
    have hskip : skip (b ++ w) = skip w := List.dropWhile_append_of_pos hb
    rw [← value?_skip, hskip, value?_skip]
    exact hw

theorem value?_taken_items {u : List Char} (ih : Takes fuel) (hs : skip s = '[' :: u)
    (h : value? (fuel + 1) depth s = some (j, r)) :
    TakesValue depth s j r := by
  rw [value?, hs] at h
  cases depth with
  | zero => cases h
  | succ depth =>
    simp only at h
    split at h
    · rename_i u' hu
      cases h
      obtain ⟨b, hb, heq⟩ := exists_blank u
      rw [hu] at heq
      refine value?_taken_of_skip (w := '[' :: (b ++ [']'])) 1 ?_ ?_ ?_
      · rw [hs, heq]
        simp
      · rw [value?, skip_of_not_isBlank rfl]
        simp only [hb.skip_append (c := ']') rfl]
      · simp
        omega
    · rename_i hne
      rw [items?_skip] at h
      obtain ⟨t, rfl, ht⟩ := ih.items h
      have hskip : skip t ≠ [] := by
        intro h0
        rw [← items?_skip, h0, items?_nil] at ht
        cases ht
      obtain ⟨c, v, hv⟩ := List.exists_cons_of_ne_nil hskip
      have hc : c ≠ ']' := by
        rintro rfl
        exact hne _ (skip_append_cons hv r)
      refine value?_taken_of_skip (w := '[' :: t) (2 * t.length + 1) hs ?_ ?_
      · rw [value?_of_skip_items (skip_of_not_isBlank rfl t) hv hc, ← hv, items?_skip]
        exact ht
      · rw [List.length_cons]
        omega

theorem value?_taken_members {u : List Char} (ih : Takes fuel) (hs : skip s = '{' :: u)
    (h : value? (fuel + 1) depth s = some (j, r)) :
    TakesValue depth s j r := by
  rw [value?, hs] at h
  cases depth with
  | zero => cases h
  | succ depth =>
    simp only at h
    split at h
    · rename_i u' hu
      cases h
      obtain ⟨b, hb, heq⟩ := exists_blank u
      rw [hu] at heq
      refine value?_taken_of_skip (w := '{' :: (b ++ ['}'])) 1 ?_ ?_ ?_
      · rw [hs, heq]
        simp
      · rw [value?, skip_of_not_isBlank rfl]
        simp only [hb.skip_append (c := '}') rfl]
      · simp
        omega
    · rw [members?_skip] at h
      obtain ⟨ms, m, rfl, rfl⟩ := ih.members h
      obtain ⟨v, hv⟩ := Member.skip_joined ms m []
      refine value?_taken_of_skip (w := '{' :: (joined ((ms ++ [m]).map Member.text) ++ ['}']))
        (2 * (joined ((ms ++ [m]).map Member.text)).length + 1) ?_ ?_ ?_
      · rw [hs]
        simp
      · rw [value?_of_skip_members (skip_of_not_isBlank rfl _) hv (by decide), ← hv,
          members?_skip, Member.members?_joined ms m le_rfl]
        rfl
      · rw [List.length_cons, List.length_append]
        omega

theorem value?_taken (ih : Takes fuel) (h : value? (fuel + 1) depth s = some (j, r)) :
    TakesValue depth s j r := by
  have hvalue := h
  rw [value?] at h
  split at h
  · cases h
  · rename_i hs
    cases h
    exact value?_taken_of_skip (w := "null".toList) 1 hs rfl (by decide)
  · rename_i hs
    cases h
    exact value?_taken_of_skip (w := "true".toList) 1 hs rfl (by decide)
  · rename_i hs
    cases h
    exact value?_taken_of_skip (w := "false".toList) 1 hs rfl (by decide)
  · rename_i u hs
    split at h
    · cases h
    · rename_i hk
      cases h
      obtain ⟨t, rfl, ht⟩ := string?_taken hk
      refine value?_taken_of_skip (w := '"' :: (t ++ ['"'])) 1 ?_ ?_ ?_
      · rw [hs]
        simp
      · rw [value?_string, ht]
        rfl
      · simp
        omega
  · rename_i u hs
    exact value?_taken_items ih hs hvalue
  · rename_i u hs
    exact value?_taken_members ih hs hvalue
  · split at h
    · cases h
    · rename_i n t hn
      cases h
      obtain ⟨x, hs, hx⟩ := number?_taken hn
      obtain ⟨c, u, hu, -⟩ := x.head_text
      refine value?_taken_of_skip (w := x.text) 1 hs ?_ ?_
      · have hv := x.value?_text blank_nil endsNumber_nil 0 depth
        rw [List.nil_append, List.append_nil, hx] at hv
        exact hv
      · rw [hu, List.length_cons]
        omega

/-- A value has blanks behind it and then something that ends it. -/
theorem value?_before {t b : List Char} (h : value? (2 * t.length) depth t = some (j, []))
    (hb : Blank b) {c : Char} (hc : c = ',' ∨ c = ']' ∨ c = '}') (v : List Char)
    (hf : 2 * t.length ≤ fuel) :
    value? fuel depth (t ++ (b ++ c :: v)) = some (j, b ++ c :: v) :=
  (extends_all _).value hf h _ (.inl (.inr (hb.endsNumber (endsNumber_cons hc v))))

theorem items?_taken {acc : List Json} (ih : Takes fuel)
    (h : items? (fuel + 1) depth acc s = some (j, r)) :
    ∃ t, s = t ++ r ∧ items? (2 * t.length) depth acc t = some (j, []) := by
  rw [items?] at h
  split at h
  · cases h
  · rename_i y q hy
    obtain ⟨t, rfl, ht⟩ := ih.value hy
    obtain ⟨b, hb, hq⟩ := exists_blank q
    -- what is taken of the text is the value, the blanks, a comma or a bracket, and `v`
    have hlen (c : Char) (v : List Char) :
        2 * (t ++ (b ++ c :: v)).length = 2 * t.length + 2 * b.length + 2 * v.length + 1 + 1 := by
      simp only [List.length_append, List.length_cons]
      omega
    split at h
    · rename_i u hu
      rw [hu] at hq
      obtain ⟨v, rfl, hv⟩ := ih.items h
      refine ⟨t ++ (b ++ ',' :: v), by simp [hq], ?_⟩
      rw [hlen, items?, value?_before ht hb (.inl rfl) v (by omega)]
      simp only [hb.skip_append (c := ',') rfl]
      have hrest := (extends_all _).items
        (show 2 * v.length ≤ 2 * t.length + 2 * b.length + 2 * v.length + 1 by omega) hv []
      rwa [List.append_nil] at hrest
    · rename_i u hu
      rw [hu] at hq
      cases h
      refine ⟨t ++ (b ++ [']']), by simp [hq], ?_⟩
      rw [hlen, items?, value?_before ht hb (.inr (.inl rfl)) [] (by simp; omega)]
      simp only [hb.skip_append (c := ']') rfl]
    · cases h

/-- A name, a colon and a value have been read, and the members have gone on behind them. -/
theorem members?_eq_some {acc : List (String × Json)}
    (h : members? (fuel + 1) depth acc s = some (j, r)) :
    ∃ (l : Label) (u : List Char) (y : Json) (q : List Char), s = l.text ++ u ∧
      value? fuel depth u = some (y, q) ∧
        goOn? fuel depth ((l.key, y) :: acc) (skip q) = some (j, r) := by
  have hmembers := h
  rw [members?] at h
  split at h
  · rename_i a hs
    split at h
    · cases h
    · rename_i k p hk
      split at h
      · rename_i u hu
        obtain ⟨name, rfl, hname⟩ := string?_taken hk
        obtain ⟨lead, hlead, hs'⟩ := exists_blank s
        obtain ⟨gap, hgap, hp⟩ := exists_blank p
        rw [hs, hp, hu] at hs'
        let l : Label := ⟨lead, name, gap, k, hlead, hgap, hname⟩
        have htext : s = l.text ++ u := hs'.trans (l.text_append u).symm
        rw [htext, l.members?_text] at hmembers
        obtain ⟨⟨y, q⟩, hy, hgo⟩ := Option.bind_eq_some_iff.mp hmembers
        exact ⟨l, u, y, q, htext, hy, hgo⟩
      · cases h
  · cases h

theorem goOn?_eq_some {acc : List (String × Json)} (h : goOn? fuel depth acc s = some (j, r)) :
    (∃ u, s = ',' :: u ∧ members? fuel depth acc u = some (j, r)) ∨
      (s = '}' :: r ∧ j = .object acc.reverse) := by
  unfold goOn? at h
  split at h
  · exact .inl ⟨_, rfl, h⟩
  · cases h
    exact .inr ⟨rfl, rfl⟩
  · cases h

theorem members?_taken {acc : List (String × Json)} (ih : Takes fuel)
    (h : members? (fuel + 1) depth acc s = some (j, r)) :
    ∃ (ms : List (Member depth)) (m : Member depth),
      s = joined ((ms ++ [m]).map Member.text) ++ '}' :: r ∧
        j = .object (acc.reverse ++ (ms ++ [m]).map Member.pair) := by
  obtain ⟨l, u, y, q, rfl, hy, hgo⟩ := members?_eq_some h
  obtain ⟨t, rfl, ht⟩ := ih.value hy
  obtain ⟨b, hb, hq⟩ := exists_blank q
  have hread : value? (2 * (t ++ b).length + 2) depth (t ++ b) = some (y, b) := by
    refine (extends_all _).value ?_ ht b (.inl (.inr hb.endsNumber_self))
    rw [List.length_append]
    omega
  let m : Member depth := ⟨l, t ++ b, y, b, hread, hb⟩
  rcases goOn?_eq_some hgo with ⟨v, hv, hmore⟩ | ⟨hv, rfl⟩
  · obtain ⟨ms, m', rfl, rfl⟩ := ih.members hmore
    refine ⟨m :: ms, m', ?_, ?_⟩
    · have hj : joined ((m :: ms ++ [m']).map Member.text) =
          m.text ++ ',' :: joined ((ms ++ [m']).map Member.text) := by
        cases ms <;> rfl
      rw [hq, hv, hj]
      simp [m, Member.text]
    · simp [m, Member.pair]
  · refine ⟨[], m, ?_, ?_⟩
    · rw [hq, hv]
      simp [m, Member.text, joined]
    · simp [m, Member.pair]

end Step

/-- The induction is on the fuel that the three parsers share. -/
theorem takes_all (fuel : Nat) : Takes fuel := by
  induction fuel with
  | zero =>
    constructor
    · intro depth s r j h
      cases h
    · intro depth acc s r j h
      cases h
    · intro depth acc s r j h
      cases h
  | succ fuel ih =>
    constructor
    · intro depth s r j h
      exact value?_taken ih h
    · intro depth acc s r j h
      exact items?_taken ih h
    · intro depth acc s r j h
      exact members?_taken ih h

/-! ### Objects -/

section Objects

variable {fuel depth : Nat}

theorem items?_eq_arr {acc : List Json} {j : Json} (h : items? fuel depth acc s = some (j, r)) :
    ∃ js, j = .arr js := by
  induction fuel generalizing acc s with
  | zero => cases h
  | succ fuel ih =>
    rw [items?] at h
    split at h
    · cases h
    · split at h
      · exact ih h
      · cases h
        exact ⟨_, rfl⟩
      · cases h

theorem value?_eq_num {n : Number} (h : value? fuel depth s = some (.num n, r)) :
    number? (skip s) = some (n, r) := by
  cases fuel with
  | zero => cases h
  | succ fuel =>
    rw [value?] at h
    split at h
    · cases h
    · cases h
    · cases h
    · cases h
    · split at h <;> cases h
    · split at h
      · cases h
      · split at h
        · cases h
        · obtain ⟨js, hjs⟩ := items?_eq_arr h
          cases hjs
    · split at h
      · cases h
      · split at h
        · cases h
        · obtain ⟨ms, m, -, hms⟩ := (takes_all fuel).members h
          cases hms
    · split at h
      · cases h
      · cases h
        assumption

/-- An object is empty, or it is members with commas between them. -/
theorem value?_eq_obj {ms : List (String × Json)}
    (h : value? fuel (depth + 1) s = some (.obj ms, r)) :
    ms = [] ∨ ∃ (lead : List Char) (ns : List (Member depth)) (m : Member depth), Blank lead ∧
      s = lead ++ '{' :: (joined ((ns ++ [m]).map Member.text) ++ '}' :: r) ∧
        ms = Members.sorted ((ns ++ [m]).map Member.pair) := by
  cases fuel with
  | zero => cases h
  | succ fuel =>
    rw [value?] at h
    split at h
    · cases h
    · cases h
    · cases h
    · cases h
    · split at h <;> cases h
    · simp only at h
      split at h
      · cases h
      · obtain ⟨js, hjs⟩ := items?_eq_arr h
        cases hjs
    · rename_i u hs
      simp only at h
      split at h
      · cases h
        exact .inl rfl
      · rw [members?_skip] at h
        obtain ⟨ns, m, rfl, hms⟩ := (takes_all fuel).members h
        obtain ⟨lead, hlead, heq⟩ := exists_blank s
        cases hms
        exact .inr ⟨lead, ns, m, hlead, hs ▸ heq, rfl⟩
    · split at h <;> cases h

end Objects

end Parser

/-- A member whose value is a number has a numeral with blanks around it. -/
theorem Member.exists_numeral {depth : Nat} (m : Member depth) {n : Number}
    (h : m.json = .num n) :
    ∃ (x : Numeral) (left right : List Char), Blank left ∧ Blank right ∧
      m.value = left ++ (x.text ++ right) := by
  obtain ⟨right, hread, hright⟩ := m.reads
  rw [h] at hread
  obtain ⟨x, hx, -⟩ := Parser.number?_taken (Parser.value?_eq_num hread)
  obtain ⟨left, hleft, hvalue⟩ := Parser.exists_blank m.value
  exact ⟨x, left, right, hleft, hright, hvalue.trans (congrArg (left ++ ·) hx)⟩

/-- The text of an object that has a number under a name spells a numeral there. -/
theorem exists_spelling {cs : List Char} {ms : List (String × Json)} {k : String} {n : Number}
    (h : parse? cs = some (.obj ms)) (hn : ms.lookup k = some (.num n)) :
    ∃ (x : Numeral) (s : Spelling x), s.key = k ∧ s.text = cs := by
  rw [parse?] at h
  split at h
  · rename_i j trail hv
    split at h
    · rename_i htrail
      cases h
      rcases Parser.value?_eq_obj hv with rfl | ⟨lead, ns, m, hlead, rfl, rfl⟩
      · cases hn
      · obtain ⟨ps, qs, hpairs, hlast⟩ := Members.lookup_sorted_eq_some.mp hn
        obtain ⟨before, rest, hns, rfl, hrest⟩ := List.map_eq_append_iff.mp hpairs
        obtain ⟨m', after, rfl, hm', rfl⟩ := List.map_eq_cons_iff.mp hrest
        obtain ⟨rfl, hjson⟩ := Prod.mk.inj hm'
        obtain ⟨x, left, right, hleft, hright, hvalue⟩ := m'.exists_numeral hjson
        refine ⟨x, ⟨lead, trail, before, m'.label, left, right, after,
          ⟨hlead, List.all_eq_true.mp htrail, hleft, hright⟩, ?_⟩, rfl, ?_⟩
        · intro m'' hm''
          exact hlast _ (List.mem_map_of_mem hm'')
        · rw [hns]
          simp [Spelling.text, Spelling.body, Member.text, hvalue]
    · cases h
  · cases h

end Json

end ContextServer
