import ContextServer.Proofs.Codec.Record
import ContextServer.Proofs.Json.Kept

/-!
Objects as they are spelled, with blanks wherever the grammar allows them, names with any escapes
and values of any form. The parser reads such an object as the members that its parts stand for
(`parse?_text`), and of several members with one name it keeps the last. `Spelling` singles out a
member whose value is a numeral.
-/

namespace ContextServer

open Json.Parser

namespace Members

variable {α : Type} {k : String} {a : α}

theorem lookup_sorted_eq (ms : List (String × α)) :
    (sorted ms).lookup k = ms.reverse.lookup k := by
  induction ms with
  | nil => rfl
  | cons m ms ih =>
    show (place m.1 m.2 (sorted ms)).lookup k = _
    rw [lookup_place (ascending_sorted ms), ih, List.reverse_cons, List.lookup_append]
    by_cases hk : k = m.1
    · rw [if_pos hk, lookup_head hk]
    · rw [if_neg hk, lookup_tail hk]
      rfl

/-- Of the members of one name the last is the one that is found. -/
theorem lookup_sorted_eq_some {ms : List (String × α)} :
    (sorted ms).lookup k = some a ↔
      ∃ before after, ms = before ++ (k, a) :: after ∧ ∀ m ∈ after, m.1 ≠ k := by
  rw [lookup_sorted_eq, List.lookup_eq_some_iff]
  constructor
  · rintro ⟨after, before, hms, hk⟩
    refine ⟨before.reverse, after.reverse, ?_, ?_⟩
    · rw [← List.reverse_reverse ms, hms]
      simp
    · intro m hm heq
      have hne := hk m (List.mem_reverse.mp hm)
      simp [heq] at hne
  · rintro ⟨before, after, rfl, hk⟩
    refine ⟨after.reverse, before.reverse, by simp, ?_⟩
    intro m hm
    have hne := hk m (List.mem_reverse.mp hm)
    exact bne_iff_ne.mpr hne.symm

end Members

namespace Json

/-- Nothing but blanks. -/
def Blank (cs : List Char) : Prop := ∀ c ∈ cs, isBlank c = true

instance (cs : List Char) : Decidable (Blank cs) :=
  decidable_of_iff (cs.all isBlank = true) List.all_eq_true

theorem blank_nil : Blank [] := by
  intro c hc
  cases hc

theorem endsNumber_nil : EndsNumber [] := by
  intro c hc
  cases hc

theorem Blank.skip_append {cs r : List Char} {c : Char} (h : Blank cs) (hc : isBlank c = false) :
    skip (cs ++ c :: r) = c :: r := by
  rw [skip, List.dropWhile_append_of_pos h]
  exact skip_of_not_isBlank hc r

theorem Blank.endsNumber {cs r : List Char} (h : Blank cs) (hr : EndsNumber r) :
    EndsNumber (cs ++ r) := by
  cases cs with
  | nil => exact hr
  | cons d cs =>
    have hb := h d (by simp)
    intro c hc
    obtain rfl : d = c := by simpa using hc
    simp only [isBlank, Bool.or_eq_true, beq_iff_eq] at hb
    rcases hb with ((rfl | rfl) | rfl) | rfl <;> exact ⟨rfl, by decide, by decide, by decide⟩

theorem Blank.endsNumber_self {cs : List Char} (h : Blank cs) : EndsNumber cs :=
  List.append_nil cs ▸ h.endsNumber endsNumber_nil

/-- The name of a member with its quotes, the colon behind it, and blanks before both. -/
structure Label where
  lead : List Char
  name : List Char
  gap : List Char
  key : String
  lead_blank : Blank lead
  gap_blank : Blank gap
  reads : Parser.string? [] (name ++ ['"']) = some (key, [])

/-- A member whose value nests at most `depth` levels. -/
structure Member (depth : Nat) where
  label : Label
  value : List Char
  json : Json
  reads : ∃ r, value? (2 * value.length + 2) depth value = some (json, r) ∧ Blank r

/-- Texts with commas between them. -/
def joined : List (List Char) → List Char
  | [] => []
  | [t] => t
  | t :: ts => t ++ ',' :: joined ts

/-- What can stand behind a member. -/
def Closes (c : Char) : Prop := c = ',' ∨ c = '}'

theorem Closes.isBlank {c : Char} (h : Closes c) : isBlank c = false := by
  rcases h with rfl | rfl <;> rfl

theorem Closes.endsNumber {c : Char} (h : Closes c) (r : List Char) : EndsNumber (c :: r) :=
  endsNumber_cons (by rcases h with rfl | rfl <;> simp) r

/-- Behind each of the texts stands a comma or the closing brace. -/
theorem exists_joined (t : List Char) (ts : List (List Char)) (r : List Char) :
    ∃ c u, Closes c ∧ joined (t :: ts) ++ '}' :: r = t ++ c :: u := by
  cases ts with
  | nil => exact ⟨'}', r, .inr rfl, rfl⟩
  | cons u ts =>
    refine ⟨',', joined (u :: ts) ++ '}' :: r, .inl rfl, ?_⟩
    show t ++ ',' :: joined (u :: ts) ++ '}' :: r = _
    rw [List.append_assoc, List.cons_append]

/-- How the members of an object go on: behind a comma with another one, or to the end. -/
def goOn? (fuel depth : Nat) (acc : List (String × Json)) : List Char → Option (Json × List Char)
  | ',' :: r => members? fuel depth acc r
  | '}' :: r => some (.object acc.reverse, r)
  | _ => none

namespace Label

def text (l : Label) : List Char := l.lead ++ '"' :: (l.name ++ '"' :: (l.gap ++ [':']))

theorem text_append (l : Label) (v : List Char) :
    l.text ++ v = l.lead ++ '"' :: (l.name ++ '"' :: (l.gap ++ ':' :: v)) := by
  simp [text]

/-- Behind the label a value is read, and behind the value it is seen how the members go on. -/
theorem members?_text (l : Label) (fuel depth : Nat) (acc : List (String × Json))
    (v : List Char) :
    members? (fuel + 1) depth acc (l.text ++ v) =
      (value? fuel depth v).bind fun p => goOn? fuel depth ((l.key, p.1) :: acc) (skip p.2) := by
  have hname := string?_append l.reads (l.gap ++ ':' :: v)
  rw [List.append_assoc, List.singleton_append, List.nil_append] at hname
  rw [l.text_append, members?, l.lead_blank.skip_append rfl]
  simp only [hname, l.gap_blank.skip_append (c := ':') rfl]
  cases value? fuel depth v <;> rfl

/-- Wherever it stands, the name is the first thing behind the brace. -/
theorem skip_joined (l : Label) (v : List Char) (ts : List (List Char)) (r : List Char) :
    ∃ u, skip (joined ((l.text ++ v) :: ts) ++ '}' :: r) = '"' :: u := by
  obtain ⟨c, u, -, hj⟩ := exists_joined (l.text ++ v) ts r
  rw [hj, List.append_assoc, l.text_append, l.lead_blank.skip_append rfl]
  exact ⟨_, rfl⟩

/-- A name as it is printed. -/
def printed (k : String) : Label where
  lead := []
  name := k.toList.flatMap escapeChar
  gap := []
  key := k
  lead_blank := blank_nil
  gap_blank := blank_nil
  reads := by
    rw [string?_print, String.ofList_toList]

end Label

namespace Member

variable {depth fuel : Nat}

def text (m : Member depth) : List Char := m.label.text ++ m.value

def pair (m : Member depth) : String × Json := (m.label.key, m.json)

/-- A member with a value as it is printed. -/
def printed (l : Label) (j : Json) (hi : Integral j) (hd : j.depth ≤ depth) : Member depth where
  label := l
  value := j.print
  json := j.normal
  reads := by
    refine ⟨[], ?_, blank_nil⟩
    have h := value?_print j (2 * j.print.length + 2) depth [] hi hd (by omega) endsNumber_nil
    rwa [List.append_nil] at h

theorem length_text (m : Member depth) : m.value.length + 3 ≤ m.text.length := by
  simp only [text, Label.text, List.length_append, List.length_cons, List.length_nil]
  omega

/-- A member is read up to the comma or the brace behind it. -/
theorem members?_text (m : Member depth) (hf : 2 * m.value.length + 2 ≤ fuel) {c : Char}
    (hc : Closes c) (acc : List (String × Json)) (r : List Char) :
    members? (fuel + 1) depth acc (m.text ++ c :: r) =
      goOn? fuel depth (m.pair :: acc) (c :: r) := by
  obtain ⟨b, hv, hb⟩ := m.reads
  have hvalue := (extends_all _).value hf hv (c :: r) (.inl (.inr (hc.endsNumber r)))
  rw [text, List.append_assoc, m.label.members?_text, hvalue, Option.bind_some,
    hb.skip_append hc.isBlank, pair]

theorem skip_joined (ms : List (Member depth)) (m : Member depth) (r : List Char) :
    ∃ u, skip (joined ((ms ++ [m]).map text) ++ '}' :: r) = '"' :: u := by
  cases ms with
  | nil => exact m.label.skip_joined _ _ _
  | cons m' ms => exact m'.label.skip_joined _ _ _

/-- Members that come before others are put aside; each takes one unit of fuel of two for each
of its characters. -/
theorem members?_append (ms : List (Member depth)) (t : List Char) (ts : List (List Char))
    (hf : 2 * (joined (ms.map text ++ t :: ts)).length ≤ fuel) (acc : List (String × Json))
    (r : List Char) :
    ∃ more, 2 * (joined (t :: ts)).length ≤ more ∧
      members? fuel depth acc (joined (ms.map text ++ t :: ts) ++ '}' :: r) =
        members? more depth ((ms.map pair).reverse ++ acc) (joined (t :: ts) ++ '}' :: r) := by
  induction ms generalizing fuel acc with
  | nil => exact ⟨fuel, hf, rfl⟩
  | cons m ms ih =>
    have hj : joined ((m :: ms).map text ++ t :: ts) =
        m.text ++ ',' :: joined (ms.map text ++ t :: ts) := by
      cases ms <;> rfl
    have hlen := m.length_text
    rw [hj, List.length_append, List.length_cons] at hf
    obtain ⟨fuel, rfl⟩ := Nat.exists_eq_add_of_le' (show 1 ≤ fuel by omega)
    have hrest : 2 * (joined (ms.map text ++ t :: ts)).length ≤ fuel := by omega
    obtain ⟨more, hmore, heq⟩ := ih hrest (m.pair :: acc)
    refine ⟨more, hmore, ?_⟩
    rw [hj, List.append_assoc, List.cons_append, m.members?_text (by omega) (.inl rfl), goOn?,
      heq]
    simp

/-- The last member has the brace behind it. -/
theorem members?_joined (ms : List (Member depth)) (m : Member depth)
    (hf : 2 * (joined ((ms ++ [m]).map text)).length ≤ fuel) (r : List Char) :
    members? fuel depth [] (joined ((ms ++ [m]).map text) ++ '}' :: r) =
      some (.object ((ms ++ [m]).map pair), r) := by
  rw [List.map_append] at hf ⊢
  obtain ⟨more, hmore, heq⟩ := members?_append ms m.text [] hf [] r
  have hlen := m.length_text
  have hj : joined [m.text] = m.text := rfl
  rw [hj] at hmore heq
  obtain ⟨more, rfl⟩ := Nat.exists_eq_add_of_le' (show 1 ≤ more by omega)
  rw [List.map_singleton, heq, m.members?_text (by omega) (.inr rfl), goOn?]
  simp

/-- A value that is refused refuses the object. -/
theorem members?_refused (ms : List (Member depth)) (l : Label) {v : List Char}
    (hv : ∀ fuel c u, Closes c → value? fuel depth (v ++ c :: u) = none)
    (ts : List (List Char))
    (hf : 2 * (joined (ms.map text ++ (l.text ++ v) :: ts)).length ≤ fuel) (r : List Char) :
    members? fuel depth [] (joined (ms.map text ++ (l.text ++ v) :: ts) ++ '}' :: r) = none := by
  obtain ⟨more, -, heq⟩ := members?_append ms (l.text ++ v) ts hf [] r
  obtain ⟨c, u, hc, hj⟩ := exists_joined (l.text ++ v) ts r
  rw [heq, hj, List.append_assoc]
  cases more with
  | zero => rfl
  | succ more => rw [l.members?_text, hv more c u hc, Option.bind_none]

end Member

theorem members?_skip (fuel depth : Nat) (acc : List (String × Json)) (s : List Char) :
    members? fuel depth acc (skip s) = members? fuel depth acc s := by
  cases fuel with
  | zero => rfl
  | succ fuel =>
    have hskip : skip (skip s) = skip s := List.dropWhile_idempotent isBlank s
    rw [members?, members?, hskip]

/-- An object with members and with blanks around it. -/
theorem parse?_braces {lead body trail : List Char} (hl : Blank lead)
    (hb : ∃ u, skip (body ++ '}' :: trail) = '"' :: u) :
    ∃ fuel, 2 * body.length ≤ fuel ∧
      parse? (lead ++ '{' :: (body ++ '}' :: trail)) =
        (members? fuel 126 [] (body ++ '}' :: trail)).bind fun p =>
          if p.2.all isBlank then some p.1 else none := by
  obtain ⟨u, hu⟩ := hb
  refine ⟨2 * (lead ++ '{' :: (body ++ '}' :: trail)).length + 1, ?_, ?_⟩
  · simp only [List.length_append, List.length_cons]
    omega
  · have hskip : skip (lead ++ '{' :: (body ++ '}' :: trail)) = '{' :: (body ++ '}' :: trail) :=
      hl.skip_append rfl
    rw [parse?, maxDepth, value?_of_skip_members hskip hu (by decide), ← hu, members?_skip]
    cases members? _ 126 [] (body ++ '}' :: trail) <;> rfl

/-! ### A numeral among the members -/

theorem Numeral.head_text (x : Numeral) :
    ∃ c t, x.text = c :: t ∧ (Text.isDigit c = true ∨ c = '-') := by
  unfold Numeral.text
  obtain ⟨c, cs, hcs, hc⟩ := x.whole.exists_cons
  cases x.negative with
  | true => exact ⟨'-', _, rfl, .inr rfl⟩
  | false => exact ⟨c, cs ++ x.tail, by simp [hcs], .inl hc⟩

/-- A numeral is a value, with blanks before it. -/
theorem Numeral.value?_text (x : Numeral) {left r : List Char} (hl : Blank left)
    (hr : EndsNumber r) (fuel depth : Nat) :
    value? (fuel + 1) depth (left ++ (x.text ++ r)) = x.read?.map fun n => (.num n, r) := by
  obtain ⟨c, t, ht, hc⟩ := x.head_text
  have hnum := x.number?_text hr
  rw [ht, List.cons_append] at hnum
  rw [← value?_skip, ht, List.cons_append, hl.skip_append (isBlank_of_number hc),
    value?_number fuel depth _ hc, hnum, Option.map_map]
  rfl

/-- The text of an object in which the value of one member is the numeral `x`. The blanks around
the numeral belong to its member. -/
structure Spelling (x : Numeral) where
  lead : List Char
  trail : List Char
  before : List (Member 126)
  label : Label
  left : List Char
  right : List Char
  after : List (Member 126)
  blank : Blank lead ∧ Blank trail ∧ Blank left ∧ Blank right
  /-- the member is the last one of its name, so it is the one that counts -/
  last : ∀ m ∈ after, m.label.key ≠ label.key

namespace Spelling

variable {x : Numeral}

/-- The name of the member. -/
def key (s : Spelling x) : String := s.label.key

/-- What stands between the braces. -/
def body (s : Spelling x) : List Char :=
  joined (s.before.map Member.text ++
    (s.label.text ++ (s.left ++ (x.text ++ s.right))) :: s.after.map Member.text)

def text (s : Spelling x) : List Char := s.lead ++ '{' :: (s.body ++ '}' :: s.trail)

/-- The member of the numeral, when the parser makes a number of it. -/
def member (s : Spelling x) {n : Number} (h : x.read? = some n) : Member 126 where
  label := s.label
  value := s.left ++ (x.text ++ s.right)
  json := .num n
  reads := by
    refine ⟨s.right, ?_, s.blank.2.2.2⟩
    rw [x.value?_text s.blank.2.2.1 s.blank.2.2.2.endsNumber_self, h]
    rfl

theorem skip_body (s : Spelling x) : ∃ u, skip (s.body ++ '}' :: s.trail) = '"' :: u := by
  unfold body
  cases s.before with
  | nil => exact s.label.skip_joined _ _ _
  | cons m ms => exact m.label.skip_joined _ _ _

theorem parse?_text (s : Spelling x) {n : Number} (h : x.read? = some n) :
    parse? s.text =
      some (.object (s.before.map Member.pair ++ (s.key, .num n) :: s.after.map Member.pair)) := by
  obtain ⟨fuel, hfuel, hparse⟩ := parse?_braces s.blank.1 s.skip_body
  have hbody : s.body = joined ((s.before ++ s.member h :: s.after).map Member.text) := by
    rw [List.map_append, List.map_cons]
    rfl
  have hpairs : (s.before ++ s.member h :: s.after).map Member.pair =
      s.before.map Member.pair ++ (s.key, .num n) :: s.after.map Member.pair := by
    rw [List.map_append, List.map_cons]
    rfl
  have hne : s.before ++ s.member h :: s.after ≠ [] := by simp
  have hall : s.trail.all isBlank = true := List.all_eq_true.mpr s.blank.2.1
  rw [hbody, ← List.dropLast_append_getLast hne] at hfuel hparse
  rw [text, hbody, ← List.dropLast_append_getLast hne, hparse, Member.members?_joined _ _ hfuel,
    List.dropLast_append_getLast hne, hpairs]
  exact if_pos hall

/-- A number beyond the greatest float is no value, so its object is none either. -/
theorem parse?_text_none (s : Spelling x) (h : x.read? = none) : parse? s.text = none := by
  obtain ⟨fuel, hfuel, hparse⟩ := parse?_braces s.blank.1 s.skip_body
  have hvalue (fuel : Nat) (c : Char) (u : List Char) (hc : Closes c) :
      value? fuel 126 (s.left ++ (x.text ++ s.right) ++ c :: u) = none := by
    cases fuel with
    | zero => rfl
    | succ fuel =>
      have hends := s.blank.2.2.2.endsNumber (hc.endsNumber u)
      rw [List.append_assoc, List.append_assoc, x.value?_text s.blank.2.2.1 hends, h]
      rfl
  rw [text, hparse, body, Member.members?_refused _ _ hvalue _ hfuel, Option.bind_none]

/-- The object has the number under the name, whatever other members of this name it has. -/
theorem exists_ofBytes? (s : Spelling x) {n : Number} (h : x.read? = some n)
    {bs : List UInt8} (hb : Text.Utf8.decode? bs = some s.text) :
    ∃ ms, ofBytes? bs = some (.obj ms) ∧ Members.Ascending ms ∧
      ms.lookup s.key = some (.num n) := by
  have hlast : ∀ m ∈ s.after.map Member.pair, m.1 ≠ s.key := by
    intro m hm
    obtain ⟨m', hm', rfl⟩ := List.mem_map.mp hm
    exact s.last m' hm'
  refine ⟨_, ?_, Members.ascending_sorted _,
    Members.lookup_sorted_eq_some.mpr ⟨s.before.map Member.pair, _, rfl, hlast⟩⟩
  rw [ofBytes?, hb, Option.bind_some, s.parse?_text h]
  rfl

theorem ofBytes?_eq_none (s : Spelling x) (h : x.read? = none) {bs : List UInt8}
    (hb : Text.Utf8.decode? bs = some s.text) : ofBytes? bs = none := by
  rw [ofBytes?, hb, Option.bind_some, s.parse?_text_none h]

end Spelling

end Json

end ContextServer
