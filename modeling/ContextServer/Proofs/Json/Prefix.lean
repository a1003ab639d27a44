import Mathlib.Data.List.DropRight
import ContextServer.Proofs.Envelope.RoundTrip

/-!
A value that has been read is read as well when the text goes on behind it. Only a number may grow,
and only where nothing stands behind it that ends it. So no text that breaks off within a printed
object is a value: the object would be read off the whole of it with something left over.
-/

namespace ContextServer

namespace Json

namespace Parser

variable {s r : List Char}

theorem skip_append (h : skip s ≠ []) (x : List Char) : skip (s ++ x) = skip s ++ x := by
  have hne : (s.dropWhile isBlank).isEmpty = false := List.isEmpty_eq_false_iff.mpr h
  rw [skip, List.dropWhile_append, hne]
  rfl

theorem skip_append_cons {c : Char} (h : skip s = c :: r) (x : List Char) :
    skip (s ++ x) = c :: (r ++ x) := by
  rw [skip_append (by simp [h]), h, List.cons_append]

theorem ne_nil_of_skip {c : Char} (h : skip s = c :: r) : s ≠ [] := by
  rintro rfl
  cases h

theorem value?_skip (fuel depth : Nat) (s : List Char) :
    value? fuel depth (skip s) = value? fuel depth s := by
  cases fuel with
  | zero => rfl
  | succ fuel =>
    have hskip : skip (skip s) = skip s := List.dropWhile_idempotent isBlank s
    rw [value?, value?, hskip]

/-! ### Numbers -/

/-- The digits are over before the end of the text, or where what comes next is put. -/
theorem splitDigits_append {x : List Char} (h : (splitDigits s).2 ≠ [] ∨ EndsNumber x) :
    splitDigits (s ++ x) = ((splitDigits s).1, (splitDigits s).2 ++ x) := by
  have hsplit : s.takeWhile Text.isDigit ++ s.dropWhile Text.isDigit = s :=
    List.takeWhile_append_dropWhile
  cases hr : s.dropWhile Text.isDigit with
  | cons c r =>
    have hlen : (s.takeWhile Text.isDigit).length ≠ s.length := by
      intro heq
      have happ := congrArg List.length hsplit
      rw [List.length_append, heq, hr] at happ
      simp at happ
    have hne : (s.dropWhile Text.isDigit).isEmpty = false := by rw [hr]; rfl
    rw [splitDigits, List.dropWhile_append, hne, List.takeWhile_append, if_neg hlen]
    rfl
  | nil =>
    have hx : EndsNumber x := h.resolve_left fun hne => hne hr
    have hall : ∀ c ∈ s, Text.isDigit c = true := List.dropWhile_eq_nil_iff.mp hr
    rw [splitDigits, splitDigits, List.takeWhile_append_of_pos hall,
      List.dropWhile_append_of_pos hall, hr, List.nil_append]
    rw [hr, List.append_nil] at hsplit
    rw [hsplit]
    cases x with
    | nil => simp
    | cons c x =>
      have hc := (hx c (by simp)).1
      simp [hc]

/-- What is read of a number behind its whole digits. -/
abbrev Tail := Option (List Char) × Option Int × List Char

/-- The digits of an exponent. -/
def power? (fraction : Option (List Char)) (negative : Bool) (s : List Char) : Option Tail :=
  let (ds, r) := splitDigits s
  if ds.isEmpty then none
  else
    let n : Int := Text.cappedValue exponentBound ds
    some (fraction, some (if negative then -n else n), r)

/-- The part of a number after its fraction. -/
def exponent? (fraction : Option (List Char)) (s : List Char) : Option Tail :=
  match s with
  | [] => some (fraction, none, [])
  | c :: r =>
    if c == 'e' || c == 'E' then
      let (negative, r) := match r with
        | '-' :: r => (true, r)
        | '+' :: r => (false, r)
        | _ => (false, r)
      power? fraction negative r
    else some (fraction, none, c :: r)

theorem tail?_other (h : ∀ t, s ≠ '.' :: t) : tail? s = exponent? none s := by
  rw [tail?.eq_2 s h]
  rfl

theorem tail?_point (s : List Char) :
    tail? ('.' :: s) =
      if (splitDigits s).1.isEmpty then none
      else exponent? (some (splitDigits s).1) (splitDigits s).2 := by
  rw [tail?]
  cases hd : (splitDigits s).1.isEmpty with
  | true => simp [hd]
  | false =>
    simp only [hd]
    rfl

/-- Digits that have something behind them do not grow. -/
theorem power?_append {x : List Char} {fraction f : Option (List Char)} {negative : Bool}
    {e : Option Int} (h : power? fraction negative s = some (f, e, r))
    (hr : r ≠ [] ∨ EndsNumber x) : power? fraction negative (s ++ x) = some (f, e, r ++ x) := by
  unfold power? at h ⊢
  have hrest : (splitDigits s).2 ≠ [] ∨ EndsNumber x := by
    refine hr.imp_left fun hr hd => ?_
    simp only [hd] at h
    split at h <;> cases h
    exact hr rfl
  rw [splitDigits_append hrest]
  simp only at h ⊢
  split at h
  · cases h
  · rename_i hds
    cases h
    rw [if_neg hds]

theorem exponent?_append {x : List Char} {fraction f : Option (List Char)} {e : Option Int}
    (h : exponent? fraction s = some (f, e, r)) (hr : r ≠ [] ∨ EndsNumber x) :
    exponent? fraction (s ++ x) = some (f, e, r ++ x) := by
  cases s with
  | nil =>
    cases h
    have hx : EndsNumber x := hr.resolve_left fun hne => hne rfl
    cases x with
    | nil => rfl
    | cons c x =>
      obtain ⟨-, -, he, hE⟩ := hx c (by simp)
      simp [exponent?, he, hE]
  | cons c s =>
    by_cases hc : (c == 'e' || c == 'E') = true
    · rw [List.cons_append]
      simp only [exponent?, if_pos hc] at h ⊢
      split at h
      · exact power?_append h hr
      · exact power?_append h hr
      · rename_i hminus hplus
        cases s with
        | nil => cases h
        | cons d s =>
          split
          · rename_i heq
            exact absurd (congrArg (· :: s) (List.cons.inj heq).1) (hminus s)
          · rename_i heq
            exact absurd (congrArg (· :: s) (List.cons.inj heq).1) (hplus s)
          · exact power?_append h hr
    · rw [List.cons_append]
      simp only [exponent?, if_neg hc] at h ⊢
      cases h
      rfl

theorem tail?_append {x : List Char} {f : Option (List Char)} {e : Option Int}
    (h : tail? s = some (f, e, r)) (hr : r ≠ [] ∨ EndsNumber x) :
    tail? (s ++ x) = some (f, e, r ++ x) := by
  by_cases hs : ∃ t, s = '.' :: t
  · obtain ⟨t, rfl⟩ := hs
    rw [tail?_point] at h
    rw [List.cons_append, tail?_point]
    split at h
    · cases h
    · rename_i hds
      have hrest : (splitDigits t).2 ≠ [] ∨ EndsNumber x := by
        refine hr.imp_left fun hr hd => ?_
        rw [hd] at h
        cases h
        exact hr rfl
      rw [splitDigits_append hrest, if_neg hds]
      exact exponent?_append h hr
  · have hother : ∀ t, s ≠ '.' :: t := fun t ht => hs ⟨t, ht⟩
    cases s with
    | nil =>
      cases h
      exact tail?_of_endsNumber (hr.resolve_left fun hne => hne rfl)
    | cons c u =>
      rw [tail?_other hother] at h
      rw [tail?_other]
      · exact exponent?_append h hr
      · intro t ht
        exact hother u (congrArg (· :: u) (List.cons.inj ht).1)

/-- The number that whole digits make up with a fraction and an exponent. -/
def numberOf? (negative : Bool) (whole : List Char) (fraction : Option (List Char))
    (exponent : Option Int) : Option Number :=
  match fraction, exponent with
  | none, none => Number.whole? negative whole
  | _, _ => Number.float? negative whole (fraction.getD []) (exponent.getD 0)

/-- Whole digits as a number has them: there are some, and none before the others is a zero. -/
def wholeFits (whole : List Char) : Bool :=
  !(whole.isEmpty || (whole.head? == some '0' && whole.length != 1))

theorem unsigned?_eq_some {negative : Bool} {n : Number} :
    unsigned? negative s = some (n, r) ↔
      wholeFits (splitDigits s).1 = true ∧ ∃ f e, tail? (splitDigits s).2 = some (f, e, r) ∧
        numberOf? negative (splitDigits s).1 f e = some n := by
  unfold unsigned? wholeFits
  cases hbad : ((splitDigits s).1.isEmpty ||
      ((splitDigits s).1.head? == some '0' && (splitDigits s).1.length != 1)) with
  | true => simp [hbad]
  | false =>
    simp only [hbad, Bool.false_eq_true, if_false, Bool.not_false, true_and]
    cases ht : tail? (splitDigits s).2 with
    | none => simp
    | some p =>
      obtain ⟨f, e, u⟩ := p
      cases f <;> cases e <;> simp [numberOf?, Option.bind_eq_some_iff, and_comm]

theorem unsigned?_append {x : List Char} {negative : Bool} {n : Number}
    (h : unsigned? negative s = some (n, r)) (hr : r ≠ [] ∨ EndsNumber x) :
    unsigned? negative (s ++ x) = some (n, r ++ x) := by
  obtain ⟨hw, f, e, ht, hn⟩ := unsigned?_eq_some.mp h
  have hrest : (splitDigits s).2 ≠ [] ∨ EndsNumber x := by
    refine hr.imp_left fun hr hd => ?_
    rw [hd] at ht
    cases ht
    exact hr rfl
  refine unsigned?_eq_some.mpr ?_
  rw [splitDigits_append hrest]
  exact ⟨hw, f, e, tail?_append ht hr, hn⟩

/-- A number begins with a digit or a minus sign. -/
theorem head_of_number? {n : Number} (h : number? s = some (n, r)) :
    ∃ c t, s = c :: t ∧ (Text.isDigit c = true ∨ c = '-') := by
  cases s with
  | nil => cases h
  | cons c s =>
    by_cases hc : c = '-'
    · exact ⟨c, s, rfl, .inr hc⟩
    · cases hd : Text.isDigit c with
      | true => exact ⟨c, s, rfl, .inl hd⟩
      | false =>
        have hnone : unsigned? false (c :: s) = none := by
          simp [unsigned?, splitDigits, hd]
        rw [number?, hnone] at h
        · cases h
        · rintro _ heq
          exact hc (List.cons.inj heq).1

theorem number?_append {x : List Char} {n : Number} (h : number? s = some (n, r))
    (hr : r ≠ [] ∨ EndsNumber x) : number? (s ++ x) = some (n, r ++ x) := by
  obtain ⟨c, t, rfl, hc⟩ := head_of_number? h
  rcases hc with hc | rfl
  · rw [number?_digit hc] at h
    rw [List.cons_append, number?_digit hc]
    exact unsigned?_append h hr
  · exact unsigned?_append h hr

/-! ### Strings -/

theorem string?_append {acc : List Char} {k : String} (h : string? acc s = some (k, r))
    (x : List Char) : string? acc (s ++ x) = some (k, r ++ x) := by
  fun_induction string? acc s with
  | case1 | case3 | case4 | case6 | case7 | case8 | case10 | case12 => cases h
  | case2 acc u =>
    cases h
    rw [List.cons_append, string?]
  | case5 acc a b c d n hn hhigh a' b' c' d' u m hm hlow ih =>
    simp only [List.cons_append]
    rw [string?]
    simp only [hn, hhigh, hm, hlow, if_true]
    exact ih h
  | case9 acc a b c d u n hn hhigh hlow ih =>
    simp only [List.cons_append]
    rw [string?]
    simp only [hn, if_neg hhigh, if_neg hlow]
    exact ih h
  | case11 acc e u _ c hc ih =>
    have hu : e ≠ 'u' := by
      rintro rfl
      cases hc
    rw [List.cons_append, List.cons_append, string?_escape hu hc]
    exact ih h
  | case13 acc c u hquote _ hescape hc ih =>
    -- a backslash stands before something, or the string breaks off
    have hb : c ≠ '\\' := by
      rintro rfl
      cases u with
      | nil => cases h
      | cons e u => exact hescape e u rfl rfl
    rw [List.cons_append, string?_plain hquote hb (Nat.not_lt.mp hc)]
    exact ih h

/-! ### Values -/

/-- Whether a value that begins so is a number. -/
def BeginsNumber (s : List Char) : Prop :=
  ∃ c t, skip s = c :: t ∧ (Text.isDigit c = true ∨ c = '-')

/-- What the three parsers have read they read as well with more behind it and with more fuel. A
number has to have something behind it that ends it, from the start or in what is put there. -/
structure Extends (fuel : Nat) : Prop where
  value : ∀ {more depth : Nat} {s r : List Char} {j : Json}, fuel ≤ more →
    value? fuel depth s = some (j, r) → ∀ x, (r ≠ [] ∨ EndsNumber x) ∨ ¬ BeginsNumber s →
      value? more depth (s ++ x) = some (j, r ++ x)
  items : ∀ {more depth : Nat} {acc : List Json} {s r : List Char} {j : Json}, fuel ≤ more →
    items? fuel depth acc s = some (j, r) → ∀ x,
      items? more depth acc (s ++ x) = some (j, r ++ x)
  members : ∀ {more depth : Nat} {acc : List (String × Json)} {s r : List Char} {j : Json},
    fuel ≤ more → members? fuel depth acc s = some (j, r) → ∀ x,
      members? more depth acc (s ++ x) = some (j, r ++ x)

section Opening

variable {c : Char} {fuel depth : Nat} {u v : List Char}

theorem value?_of_skip_items (hs : skip s = '[' :: u) (hu : skip u = c :: v) (hc : c ≠ ']') :
    value? (fuel + 1) (depth + 1) s = items? fuel depth [] (c :: v) := by
  rw [value?, hs]
  simp only [hu]
  split
  · rename_i heq
    exact absurd (List.cons.inj heq).1 hc
  · rfl

theorem value?_of_skip_members (hs : skip s = '{' :: u) (hu : skip u = c :: v) (hc : c ≠ '}') :
    value? (fuel + 1) (depth + 1) s = members? fuel depth [] (c :: v) := by
  rw [value?, hs]
  simp only [hu]
  split
  · rename_i heq
    exact absurd (List.cons.inj heq).1 hc
  · rfl

theorem items?_nil (acc : List Json) : items? fuel depth acc [] = none := by
  cases fuel with
  | zero => rfl
  | succ fuel => cases fuel <;> rfl

theorem members?_nil (acc : List (String × Json)) : members? fuel depth acc [] = none := by
  cases fuel <;> rfl

end Opening

section Step

variable {fuel more depth : Nat} {j : Json}

theorem value?_append_items {u : List Char} (ih : Extends fuel) (hm : fuel ≤ more)
    (hs : skip s = '[' :: u) (h : value? (fuel + 1) depth s = some (j, r)) (x : List Char) :
    value? (more + 1) depth (s ++ x) = some (j, r ++ x) := by
  cases depth with
  | zero =>
    rw [value?, hs] at h
    cases h
  | succ depth =>
    cases hu : skip u with
    | nil =>
      rw [value?, hs] at h
      simp only [hu, items?_nil] at h
      cases h
    | cons c v =>
      by_cases hc : c = ']'
      · subst hc
        rw [value?, hs] at h
        simp only [hu] at h
        cases h
        rw [value?, skip_append_cons hs]
        simp only [skip_append_cons hu]
      · rw [value?_of_skip_items hs hu hc] at h
        rw [value?_of_skip_items (skip_append_cons hs x) (skip_append_cons hu x) hc]
        exact ih.items hm h x

theorem value?_append_members {u : List Char} (ih : Extends fuel) (hm : fuel ≤ more)
    (hs : skip s = '{' :: u) (h : value? (fuel + 1) depth s = some (j, r)) (x : List Char) :
    value? (more + 1) depth (s ++ x) = some (j, r ++ x) := by
  cases depth with
  | zero =>
    rw [value?, hs] at h
    cases h
  | succ depth =>
    cases hu : skip u with
    | nil =>
      rw [value?, hs] at h
      simp only [hu, members?_nil] at h
      cases h
    | cons c v =>
      by_cases hc : c = '}'
      · subst hc
        rw [value?, hs] at h
        simp only [hu] at h
        cases h
        rw [value?, skip_append_cons hs]
        simp only [skip_append_cons hu]
      · rw [value?_of_skip_members hs hu hc] at h
        rw [value?_of_skip_members (skip_append_cons hs x) (skip_append_cons hu x) hc]
        exact ih.members hm h x

theorem value?_append (ih : Extends fuel) (hm : fuel ≤ more)
    (h : value? (fuel + 1) depth s = some (j, r)) (x : List Char)
    (hr : (r ≠ [] ∨ EndsNumber x) ∨ ¬ BeginsNumber s) :
    value? (more + 1) depth (s ++ x) = some (j, r ++ x) := by
  have hvalue := h
  rw [value?] at h
  split at h
  · cases h
  · rename_i hs
    cases h
    rw [value?, skip_append_cons hs]
    rfl
  · rename_i hs
    cases h
    rw [value?, skip_append_cons hs]
    rfl
  · rename_i hs
    cases h
    rw [value?, skip_append_cons hs]
    rfl
  · rename_i u hs
    split at h
    · cases h
    · rename_i hk
      cases h
      rw [value?, skip_append_cons hs]
      simp only [string?_append hk x]
  · rename_i u hs
    exact value?_append_items ih hm hs hvalue x
  · rename_i u hs
    exact value?_append_members ih hm hs hvalue x
  · split at h
    · cases h
    · rename_i n t hn
      cases h
      obtain ⟨c, u, hs, hc⟩ := head_of_number? hn
      have hx := number?_append (hs ▸ hn) (hr.resolve_right fun hb => hb ⟨c, u, hs, hc⟩)
      rw [← value?_skip, skip_append_cons hs, value?_number more depth _ hc]
      exact congrArg (Option.map fun y => (Json.num y.1, y.2)) hx

theorem items?_append {acc : List Json} (ih : Extends fuel) (hm : fuel ≤ more)
    (h : items? (fuel + 1) depth acc s = some (j, r)) (x : List Char) :
    items? (more + 1) depth acc (s ++ x) = some (j, r ++ x) := by
  rw [items?] at h
  split at h
  · cases h
  · rename_i y t hy
    split at h
    · rename_i u hu
      rw [items?, ih.value hm hy x (.inl (.inl (ne_nil_of_skip hu)))]
      simp only [skip_append_cons hu]
      exact ih.items hm h x
    · rename_i u hu
      cases h
      rw [items?, ih.value hm hy x (.inl (.inl (ne_nil_of_skip hu)))]
      simp only [skip_append_cons hu]
    · cases h

theorem members?_append {acc : List (String × Json)} (ih : Extends fuel) (hm : fuel ≤ more)
    (h : members? (fuel + 1) depth acc s = some (j, r)) (x : List Char) :
    members? (more + 1) depth acc (s ++ x) = some (j, r ++ x) := by
  rw [members?] at h
  split at h
  · rename_i u hs
    rw [members?, skip_append_cons hs]
    split at h
    · cases h
    · rename_i k t hk
      simp only [string?_append hk x]
      split at h
      · rename_i v hv
        simp only [skip_append_cons hv]
        split at h
        · cases h
        · rename_i y w hy
          split at h
          · rename_i z hz
            rw [ih.value hm hy x (.inl (.inl (ne_nil_of_skip hz)))]
            simp only [skip_append_cons hz]
            exact ih.members hm h x
          · rename_i z hz
            cases h
            rw [ih.value hm hy x (.inl (.inl (ne_nil_of_skip hz)))]
            simp only [skip_append_cons hz]
          · cases h
      · cases h
  · cases h

end Step

/-- The induction is on the fuel that the three parsers share. -/
theorem extends_all (fuel : Nat) : Extends fuel := by
  induction fuel with
  | zero =>
    constructor
    · intro more depth s r j _ h
      cases h
    · intro more depth acc s r j _ h
      cases h
    · intro more depth acc s r j _ h
      cases h
  | succ fuel ih =>
    constructor
    · intro more depth s r j hm h x hr
      obtain ⟨more, rfl⟩ := Nat.exists_eq_add_of_lt hm
      exact value?_append ih (Nat.le_add_right fuel more) h x hr
    · intro more depth acc s r j hm h x
      obtain ⟨more, rfl⟩ := Nat.exists_eq_add_of_lt hm
      exact items?_append ih (Nat.le_add_right fuel more) h x
    · intro more depth acc s r j hm h x
      obtain ⟨more, rfl⟩ := Nat.exists_eq_add_of_lt hm
      exact members?_append ih (Nat.le_add_right fuel more) h x

end Parser

/-! ### What breaks off -/

variable {s x : List Char}

/-- The whole text would be read as the value of its beginning, with `x` left over. -/
theorem parse?_of_print_eq_append {j : Json} (hi : Integral j) (hd : j.depth ≤ maxDepth)
    (hp : j.print = s ++ x) (hx : x ≠ []) (hs : ¬ Parser.BeginsNumber s) : parse? s = none := by
  rw [parse?]
  cases hv : Parser.value? (2 * s.length + 2) maxDepth s with
  | none => rfl
  | some y =>
    obtain ⟨k, r⟩ := y
    have hend : Parser.EndsNumber [] := by
      intro c hc
      cases hc
    have hwhole := Parser.value?_print j (2 * j.print.length + 2) maxDepth [] hi hd (by omega) hend
    have hfuel : 2 * s.length + 2 ≤ 2 * (s ++ x).length + 2 := by
      rw [List.length_append]
      omega
    rw [List.append_nil, hp, (Parser.extends_all _).value hfuel hv x (.inr hs)] at hwhole
    have hrest : r ++ x = [] := congrArg Prod.snd (Option.some.inj hwhole)
    exact absurd (List.append_eq_nil_iff.mp hrest).2 hx

theorem not_beginsNumber_of_print_eq_append {ms : List (String × Json)}
    (hp : print (.obj ms) = s ++ x) : ¬ Parser.BeginsNumber s := by
  rintro ⟨c, t, hskip, hc⟩
  cases s with
  | nil => cases hskip
  | cons d u =>
    obtain rfl : d = '{' := (List.cons.inj hp).1.symm
    rw [Parser.skip_of_not_isBlank rfl] at hskip
    obtain rfl : '{' = c := (List.cons.inj hskip).1
    revert hc
    decide

/-- No beginning of the bytes of an object is a value. -/
theorem ofBytes?_of_encode_eq_append {ms : List (String × Json)} {bs ys : List UInt8}
    (hi : Integral (.obj ms)) (hd : (obj ms).depth ≤ maxDepth)
    (hp : Text.Utf8.encode (print (.obj ms)) = bs ++ ys) (hy : ys ≠ []) : ofBytes? bs = none := by
  rw [ofBytes?]
  cases hdec : Text.Utf8.decode? bs with
  | none => rfl
  | some s =>
    have hall : Text.Utf8.decode? (bs ++ ys) = some (print (.obj ms)) :=
      hp ▸ Text.Utf8.decode?_encode _
    obtain ⟨x, hx, hne⟩ := Text.Utf8.exists_append_of_decode? hdec hall hy
    exact parse?_of_print_eq_append hi hd hx hne (not_beginsNumber_of_print_eq_append hx)

end Json

/-- An envelope that breaks off is refused as malformed, wherever it does. -/
theorem Envelope.ofBytes_of_toBytes_eq_append {e : Envelope} {bs ys : List UInt8}
    (ht : e.parts.Tidy 125) (hi : e.Integral) (h : e.toBytes = bs ++ ys) (hy : ys ≠ []) :
    ofBytes bs = .error .malformed := by
  rw [ofBytes, Json.ofBytes?_of_encode_eq_append hi (Parts.depth_wire ht) h hy]

end ContextServer
