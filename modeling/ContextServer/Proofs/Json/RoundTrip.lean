import ContextServer.Proofs.Json.Scalars
import ContextServer.Proofs.Text.Utf8

/-!
Reading undoes printing, up to the order of members. The text of a value without floats is read
back as its normal form, in which every object lists its members in ascending order; a value that
has been read is in normal form already.
-/

namespace ContextServer.Json

mutual
/-- The same value with the members of every object in ascending order. -/
def normal : Json → Json
  | null => null
  | bool b => bool b
  | num n => num n
  | str s => str s
  | arr items => arr (normalItems items)
  | obj members => object (normalMembers members)
def normalItems : List Json → List Json
  | [] => []
  | x :: r => normal x :: normalItems r
def normalMembers : List (String × Json) → List (String × Json)
  | [] => []
  | (k, x) :: r => (k, normal x) :: normalMembers r
end

mutual
/-- How deep arrays and objects nest within a value. -/
def depth : Json → Nat
  | arr items => depthItems items + 1
  | obj members => depthMembers members + 1
  | _ => 0
def depthItems : List Json → Nat
  | [] => 0
  | x :: r => max (depth x) (depthItems r)
def depthMembers : List (String × Json) → Nat
  | [] => 0
  | (_, x) :: r => max (depth x) (depthMembers r)
end

mutual
/-- No number within is a float. -/
def Integral : Json → Prop
  | num (.float _) => False
  | arr items => IntegralItems items
  | obj members => IntegralMembers members
  | _ => True
def IntegralItems : List Json → Prop
  | [] => True
  | x :: r => Integral x ∧ IntegralItems r
def IntegralMembers : List (String × Json) → Prop
  | [] => True
  | (_, x) :: r => Integral x ∧ IntegralMembers r
end

mutual
theorem normal_of_canonical : ∀ {j : Json}, Canonical j → normal j = j
  | null, _ | bool _, _ | num _, _ | str _, _ => rfl
  | arr items, h => by
    rw [normal, normalItems_of_canonical h]
  | obj members, h => by
    rw [normal, normalMembers_of_canonical h.2, object, Members.sorted_of_ascending h.1]
theorem normalItems_of_canonical : ∀ {js : List Json}, CanonicalItems js → normalItems js = js
  | [], _ => rfl
  | x :: r, h => by
    rw [normalItems, normal_of_canonical h.1, normalItems_of_canonical h.2]
theorem normalMembers_of_canonical :
    ∀ {ms : List (String × Json)}, CanonicalMembers ms → normalMembers ms = ms
  | [], _ => rfl
  | (k, x) :: r, h => by
    rw [normalMembers, normal_of_canonical h.1, normalMembers_of_canonical h.2]
end

namespace Parser

theorem skip_of_not_isBlank {c : Char} (h : isBlank c = false) (s : List Char) :
    skip (c :: s) = c :: s := by
  simp [skip, h]

theorem isBlank_of_number {c : Char} (h : Text.isDigit c = true ∨ c = '-') :
    isBlank c = false := by
  cases hb : isBlank c with
  | false => rfl
  | true =>
    simp only [isBlank, Bool.or_eq_true, beq_iff_eq] at hb
    rcases hb with ((rfl | rfl) | rfl) | rfl <;> simp [Text.isDigit] at h

/-- A printed value begins neither with a blank nor with a closing bracket. -/
theorem head_print {j : Json} (h : Integral j) :
    ∃ c s, print j = c :: s ∧ isBlank c = false ∧ c ≠ ']' := by
  cases j with
  | null => exact ⟨_, _, rfl, rfl, by decide⟩
  | bool b => cases b <;> exact ⟨_, _, rfl, rfl, by decide⟩
  | str s => exact ⟨_, _, rfl, rfl, by decide⟩
  | arr items => exact ⟨_, _, rfl, rfl, by decide⟩
  | obj members => exact ⟨_, _, rfl, rfl, by decide⟩
  | num n =>
    cases n with
    | float x => cases h
    | int n fits =>
      obtain ⟨c, s, hs, hc⟩ := head_decimalInt n
      refine ⟨c, s, hs, isBlank_of_number hc, ?_⟩
      rintro rfl
      revert hc
      decide

/-- What stands behind an item or a member. -/
theorem endsNumber_cons {c : Char} (h : c = ',' ∨ c = ']' ∨ c = '}') (r : List Char) :
    EndsNumber (c :: r) := by
  intro d hd
  obtain rfl : c = d := by simpa using hd
  rcases h with rfl | rfl | rfl <;> exact ⟨rfl, by decide, by decide, by decide⟩

/-! ### How a value begins -/

section Values

variable (fuel depth : Nat) (r : List Char)

theorem value?_number {c : Char} (h : Text.isDigit c = true ∨ c = '-') :
    value? (fuel + 1) depth (c :: r) = (number? (c :: r)).map fun x => (.num x.1, x.2) := by
  have hne (d : Char) (hd : Text.isDigit d = false ∧ d ≠ '-') : c ≠ d := by
    rintro rfl
    simp [hd.1, hd.2] at h
  rw [value?, skip_of_not_isBlank (isBlank_of_number h)]
  split
  · rename_i heq; cases heq
  · rename_i heq; exact absurd (List.cons.inj heq).1 (hne _ (by decide))
  · rename_i heq; exact absurd (List.cons.inj heq).1 (hne _ (by decide))
  · rename_i heq; exact absurd (List.cons.inj heq).1 (hne _ (by decide))
  · rename_i heq; exact absurd (List.cons.inj heq).1 (hne _ (by decide))
  · rename_i heq; exact absurd (List.cons.inj heq).1 (hne _ (by decide))
  · rename_i heq; exact absurd (List.cons.inj heq).1 (hne _ (by decide))
  · cases number? (c :: r) <;> rfl

theorem value?_string :
    value? (fuel + 1) depth ('"' :: r) = (string? [] r).map fun x => (.str x.1, x.2) := by
  rw [value?, skip_of_not_isBlank rfl]
  simp only
  cases string? [] r <;> rfl

theorem value?_items {c : Char} (hb : isBlank c = false) (hc : c ≠ ']') :
    value? (fuel + 1) (depth + 1) ('[' :: c :: r) = items? fuel depth [] (c :: r) := by
  rw [value?, skip_of_not_isBlank rfl]
  simp only [skip_of_not_isBlank hb]
  split
  · rename_i heq
    exact absurd (List.cons.inj heq).1 hc
  · rfl

theorem value?_members :
    value? (fuel + 1) (depth + 1) ('{' :: '"' :: r) = members? fuel depth [] ('"' :: r) := by
  rw [value?, skip_of_not_isBlank rfl]
  rfl

end Values

/-! ### How items and members go on -/

section Lists

variable {fuel depth : Nat} {s r : List Char} {x : Json}

theorem items?_more {acc : List Json} (h : value? fuel depth s = some (x, ',' :: r)) :
    items? (fuel + 1) depth acc s = items? fuel depth (x :: acc) r := by
  rw [items?, h]
  rfl

theorem items?_last {acc : List Json} (h : value? fuel depth s = some (x, ']' :: r)) :
    items? (fuel + 1) depth acc s = some (.arr (x :: acc).reverse, r) := by
  rw [items?, h]
  rfl

theorem members?_name {acc : List (String × Json)} (k : String) :
    members? (fuel + 1) depth acc (printString k ++ ':' :: s) =
      match value? fuel depth s with
      | none => none
      | some (x, r) =>
        match skip r with
        | ',' :: r => members? fuel depth ((k, x) :: acc) r
        | '}' :: r => some (.object ((k, x) :: acc).reverse, r)
        | _ => none := by
  have hk := string?_print k.toList (':' :: s)
  rw [printString, List.cons_append, List.append_assoc, List.singleton_append, members?,
    skip_of_not_isBlank rfl]
  simp only [hk, String.ofList_toList]
  rw [skip_of_not_isBlank rfl]
  rfl

theorem members?_more {acc : List (String × Json)} {k : String}
    (h : value? fuel depth s = some (x, ',' :: r)) :
    members? (fuel + 1) depth acc (printString k ++ ':' :: s) =
      members? fuel depth ((k, x) :: acc) r := by
  rw [members?_name, h]
  rfl

theorem members?_last {acc : List (String × Json)} {k : String}
    (h : value? fuel depth s = some (x, '}' :: r)) :
    members? (fuel + 1) depth acc (printString k ++ ':' :: s) =
      some (.object ((k, x) :: acc).reverse, r) := by
  rw [members?_name, h]
  rfl

end Lists

theorem length_print_pos {j : Json} (h : Integral j) : 0 < (print j).length := by
  obtain ⟨c, s, hs, -⟩ := head_print h
  rw [hs]
  exact Nat.succ_pos _

theorem printItems_cons (x y : Json) (r : List Json) :
    printItems (x :: y :: r) = print x ++ ',' :: printItems (y :: r) := rfl

theorem printMembers_cons (k : String) (x : Json) (m : String × Json) (r : List (String × Json)) :
    printMembers ((k, x) :: m :: r) =
      printString k ++ ':' :: (print x ++ ',' :: printMembers (m :: r)) := rfl

/-! ### The round trip

Two units of fuel for each printed character are enough: an item or a member takes one for itself
and has a comma or a bracket behind it. -/

mutual
theorem value?_print : ∀ (j : Json) (fuel depth : Nat) (r : List Char), Integral j →
    j.depth ≤ depth → 2 * (print j).length ≤ fuel + 1 → EndsNumber r →
      value? fuel depth (print j ++ r) = some (j.normal, r)
  | j, 0, depth, r, hi, hd, hf, hr => by
    have := length_print_pos hi
    omega
  | .null, fuel + 1, depth, r, hi, hd, hf, hr => by
    rw [value?]
    rfl
  | .bool true, fuel + 1, depth, r, hi, hd, hf, hr => by
    rw [value?]
    rfl
  | .bool false, fuel + 1, depth, r, hi, hd, hf, hr => by
    rw [value?]
    rfl
  | .num (.float x), fuel + 1, depth, r, hi, hd, hf, hr => by cases hi
  | .num (.int n fits), fuel + 1, depth, r, hi, hd, hf, hr => by
    obtain ⟨c, s, hs, hc⟩ := head_decimalInt n
    have hn := number?_print fits hr
    rw [hs, List.cons_append] at hn
    rw [print, Number.print, hs, List.cons_append, value?_number fuel depth _ hc, hn]
    rfl
  | .str s, fuel + 1, depth, r, hi, hd, hf, hr => by
    have hs := string?_print s.toList r
    rw [print, printString, List.cons_append, List.append_assoc, List.singleton_append,
      value?_string, hs, String.ofList_toList]
    rfl
  | .arr [], fuel + 1, depth + 1, r, hi, hd, hf, hr => by
    rw [value?]
    rfl
  | .arr (x :: xs), fuel + 1, depth + 1, r, hi, hd, hf, hr => by
    have hitems := items?_print x xs fuel depth [] r hi
      (by simpa [Json.depth] using hd)
      (by simp only [print, List.length_cons, List.length_append, List.length_nil] at hf; omega)
    obtain ⟨c, s, hs, hb, hc⟩ := head_print hi.1
    have hhead : ∃ s, printItems (x :: xs) ++ ']' :: r = c :: s := by
      cases xs <;> exact ⟨_, by simp [printItems, hs]; rfl⟩
    obtain ⟨s', hs'⟩ := hhead
    rw [print, List.cons_append, List.append_assoc, List.singleton_append, hs',
      value?_items fuel depth s' hb hc, ← hs', hitems]
    rfl
  | .obj [], fuel + 1, depth + 1, r, hi, hd, hf, hr => by
    rw [value?]
    rfl
  | .obj (m :: ms), fuel + 1, depth + 1, r, hi, hd, hf, hr => by
    have hmembers := members?_print m ms fuel depth [] r hi
      (by simpa [Json.depth] using hd)
      (by simp only [print, List.length_cons, List.length_append, List.length_nil] at hf; omega)
    have hhead : ∃ s, printMembers (m :: ms) ++ '}' :: r = '"' :: s := by
      cases ms <;> exact ⟨_, by simp [printMembers, printString]; rfl⟩
    obtain ⟨s', hs'⟩ := hhead
    rw [print, List.cons_append, List.append_assoc, List.singleton_append, hs',
      value?_members fuel depth s', ← hs', hmembers]
    rfl
  | .arr _, fuel + 1, 0, r, hi, hd, hf, hr => by simp [Json.depth] at hd
  | .obj _, fuel + 1, 0, r, hi, hd, hf, hr => by simp [Json.depth] at hd
theorem items?_print : ∀ (x : Json) (xs : List Json) (fuel depth : Nat) (acc : List Json)
    (r : List Char), IntegralItems (x :: xs) → depthItems (x :: xs) ≤ depth →
      2 * (printItems (x :: xs)).length ≤ fuel →
        items? fuel depth acc (printItems (x :: xs) ++ ']' :: r) =
          some (.arr (acc.reverse ++ normalItems (x :: xs)), r)
  | x, [], 0, depth, acc, r, hi, hd, hf => by
    have := length_print_pos hi.1
    simp only [printItems] at hf
    omega
  | x, [], fuel + 1, depth, acc, r, hi, hd, hf => by
    have hx := value?_print x fuel depth (']' :: r) hi.1
      (by simp only [depthItems] at hd; omega) (by simpa [printItems] using hf)
      (endsNumber_cons (by simp) r)
    rw [printItems, items?_last hx]
    simp [normalItems]
  | x, y :: ys, 0, depth, acc, r, hi, hd, hf => by
    rw [printItems_cons, List.length_append, List.length_cons] at hf
    omega
  | x, y :: ys, fuel + 1, depth, acc, r, hi, hd, hf => by
    rw [printItems_cons, List.length_append, List.length_cons] at hf
    have hd' : x.depth ≤ depth ∧ depthItems (y :: ys) ≤ depth := by
      rw [depthItems] at hd
      omega
    have hx := value?_print x fuel depth
      (',' :: (printItems (y :: ys) ++ ']' :: r)) hi.1 hd'.1 (by omega)
      (endsNumber_cons (by simp) _)
    have hrest := items?_print y ys fuel depth (x.normal :: acc) r hi.2 hd'.2 (by omega)
    rw [printItems_cons, List.append_assoc, List.cons_append, items?_more hx, hrest]
    simp [normalItems]
theorem members?_print : ∀ (m : String × Json) (ms : List (String × Json)) (fuel depth : Nat)
    (acc : List (String × Json)) (r : List Char), IntegralMembers (m :: ms) →
      depthMembers (m :: ms) ≤ depth → 2 * (printMembers (m :: ms)).length ≤ fuel →
        members? fuel depth acc (printMembers (m :: ms) ++ '}' :: r) =
          some (.object (acc.reverse ++ normalMembers (m :: ms)), r)
  | (k, x), [], 0, depth, acc, r, hi, hd, hf => by
    simp [printMembers] at hf
  | (k, x), [], fuel + 1, depth, acc, r, hi, hd, hf => by
    rw [printMembers, List.length_append, List.length_cons] at hf
    have hx := value?_print x fuel depth ('}' :: r) hi.1
      (by simp only [depthMembers] at hd; omega) (by omega) (endsNumber_cons (by simp) r)
    rw [printMembers, List.append_assoc, List.cons_append, members?_last hx]
    simp [normalMembers]
  | (k, x), m :: ms, 0, depth, acc, r, hi, hd, hf => by
    rw [printMembers_cons, List.length_append, List.length_cons] at hf
    omega
  | (k, x), m :: ms, fuel + 1, depth, acc, r, hi, hd, hf => by
    rw [printMembers_cons, List.length_append, List.length_cons, List.length_append,
      List.length_cons] at hf
    have hd' : x.depth ≤ depth ∧ depthMembers (m :: ms) ≤ depth := by
      rw [depthMembers] at hd
      omega
    have hx := value?_print x fuel depth
      (',' :: (printMembers (m :: ms) ++ '}' :: r)) hi.1 hd'.1 (by omega)
      (endsNumber_cons (by simp) _)
    have hrest := members?_print m ms fuel depth ((k, x.normal) :: acc) r hi.2 hd'.2
      (by omega)
    rw [printMembers_cons, List.append_assoc, List.cons_append, List.append_assoc,
      List.cons_append, members?_more hx, hrest]
    simp [normalMembers]
end

end Parser

/-- The text of a value without floats is read back, with the members in order. -/
theorem parse?_print {j : Json} (hi : Integral j) (hd : j.depth ≤ maxDepth) :
    parse? j.print = some j.normal := by
  have h := Parser.value?_print j (2 * j.print.length + 2) maxDepth [] hi hd (by omega) nofun
  rw [List.append_nil] at h
  rw [parse?, h]
  rfl

theorem ofBytes?_print {j : Json} (hi : Integral j) (hd : j.depth ≤ maxDepth) :
    ofBytes? (Text.Utf8.encode j.print) = some j.normal := by
  rw [ofBytes?, Text.Utf8.decode?_encode, Option.bind_some, parse?_print hi hd]

/-! ### What printed text is made of -/

theorem le_of_mem_decimalInt {n : Int} {c : Char} (h : c ∈ Text.decimalInt n) : 32 ≤ c.toNat := by
  have digit (hc : c ∈ Text.decimal n.natAbs) : 32 ≤ c.toNat := by
    have := Text.toNat_of_isDigit (Text.isDigit_of_mem_decimal hc)
    omega
  unfold Text.decimalInt at h
  split at h
  · rcases List.mem_cons.mp h with rfl | h
    · decide
    · exact digit h
  · exact digit h

theorem le_digitChar {m : Nat} (h : m < 16) : 32 ≤ m.digitChar.toNat := by
  interval_cases m <;> decide

theorem le_of_mem_escapeChar {c d : Char} (h : d ∈ escapeChar c) : 32 ≤ d.toNat := by
  rcases Parser.escapeChar_cases c with ⟨e, he, -, hs⟩ | ⟨hc, he⟩ | ⟨-, -, hc, he⟩
  · rw [he] at h
    simp only [List.mem_cons, List.not_mem_nil, or_false] at h
    rcases h with rfl | rfl
    · decide
    · unfold Parser.shortEscape? at hs
      split at hs <;> first | decide | cases hs
  · rw [he] at h
    simp only [List.mem_cons, List.not_mem_nil, or_false] at h
    rcases h with rfl | rfl | rfl | rfl | rfl | rfl
    · decide
    · decide
    · decide
    · decide
    · exact le_digitChar (by omega)
    · exact le_digitChar (by omega)
  · rw [he] at h
    simp only [List.mem_singleton] at h
    exact h ▸ hc

theorem le_of_mem_printString {s : String} {c : Char} (h : c ∈ printString s) :
    32 ≤ c.toNat := by
  unfold printString at h
  rcases List.mem_cons.mp h with rfl | h
  · decide
  · rcases List.mem_append.mp h with h | h
    · obtain ⟨d, -, hd⟩ := List.mem_flatMap.mp h
      exact le_of_mem_escapeChar hd
    · rw [List.mem_singleton.mp h]
      decide

theorem le_of_mem_word {cs : List Char} {c : Char} (hcs : cs.all (32 ≤ ·.toNat) = true)
    (h : c ∈ cs) : 32 ≤ c.toNat := by
  simpa using List.all_eq_true.mp hcs c h

mutual
/-- No control character is printed raw. -/
theorem le_of_mem_print : ∀ {j : Json} {c : Char}, Integral j → c ∈ print j → 32 ≤ c.toNat
  | null, _, _, h => le_of_mem_word (by decide) h
  | bool true, _, _, h => le_of_mem_word (by decide) h
  | bool false, _, _, h => le_of_mem_word (by decide) h
  | num (.float _), _, hi, _ => by cases hi
  | num (.int _ _), _, _, h => le_of_mem_decimalInt h
  | str _, _, _, h => le_of_mem_printString h
  | arr items, c, hi, h => by
    simp only [print, List.mem_cons, List.mem_append, List.not_mem_nil, or_false] at h
    rcases h with rfl | h | rfl
    · decide
    · exact le_of_mem_printItems hi h
    · decide
  | obj members, c, hi, h => by
    simp only [print, List.mem_cons, List.mem_append, List.not_mem_nil, or_false] at h
    rcases h with rfl | h | rfl
    · decide
    · exact le_of_mem_printMembers hi h
    · decide
theorem le_of_mem_printItems :
    ∀ {js : List Json} {c : Char}, IntegralItems js → c ∈ printItems js → 32 ≤ c.toNat
  | [], _, _, h => by cases h
  | [x], _, hi, h => le_of_mem_print hi.1 h
  | x :: y :: r, c, hi, h => by
    simp only [Parser.printItems_cons, List.mem_append, List.mem_cons] at h
    rcases h with h | rfl | h
    · exact le_of_mem_print hi.1 h
    · decide
    · exact le_of_mem_printItems hi.2 h
theorem le_of_mem_printMembers :
    ∀ {ms : List (String × Json)} {c : Char}, IntegralMembers ms → c ∈ printMembers ms →
      32 ≤ c.toNat
  | [], _, _, h => by cases h
  | [(k, x)], c, hi, h => by
    simp only [printMembers, List.mem_append, List.mem_cons] at h
    rcases h with h | rfl | h
    · exact le_of_mem_printString h
    · decide
    · exact le_of_mem_print hi.1 h
  | (k, x) :: m :: r, c, hi, h => by
    simp only [Parser.printMembers_cons, List.mem_append, List.mem_cons] at h
    rcases h with h | rfl | h | rfl | h
    · exact le_of_mem_printString h
    · decide
    · exact le_of_mem_print hi.1 h
    · decide
    · exact le_of_mem_printMembers hi.2 h
end

end ContextServer.Json
