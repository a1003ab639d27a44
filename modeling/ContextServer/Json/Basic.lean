import ContextServer.Binary64.Basic

/-!
JSON values. Objects list their members; `Json.object` lists them in ascending order of their
names and, of members with one name, keeps the last.
-/

namespace ContextServer

/-- A number is an integer of at most 64 bits, signed or unsigned, or a binary64 number. -/
inductive Number
  | int (n : Int) (fits : -9223372036854775808 ≤ n ∧ n < 18446744073709551616)
  | float (x : Binary64)
  deriving DecidableEq, Repr

inductive Json
  | null
  | bool (b : Bool)
  | num (n : Number)
  | str (s : String)
  | arr (items : List Json)
  | obj (members : List (String × Json))
  deriving Repr, Inhabited, BEq

namespace Members

variable {α : Type}

/-- Puts a member in its place in an ascending list, unless its name is there already. -/
def place (name : String) (a : α) : List (String × α) → List (String × α)
  | [] => [(name, a)]
  | (k, b) :: r =>
    if name < k then (name, a) :: (k, b) :: r
    else if k < name then (k, b) :: place name a r
    else (k, b) :: r

/-- The members in ascending order of their names, the last of each name. -/
def sorted (ms : List (String × α)) : List (String × α) :=
  ms.foldr (fun m acc => place m.1 m.2 acc) []

def Ascending (ms : List (String × α)) : Prop := ms.Pairwise fun a b => a.1 < b.1

theorem eq_of_not_lt {a b : String} (h₁ : ¬ a < b) (h₂ : ¬ b < a) : a = b :=
  String.le_antisymm (String.not_lt.mp h₂) (String.not_lt.mp h₁)

theorem name_mem_place {name k : String} {a : α} {ms : List (String × α)}
    (h : k ∈ (place name a ms).map Prod.fst) : k = name ∨ k ∈ ms.map Prod.fst := by
  induction ms with
  | nil => simpa [place] using h
  | cons m r ih =>
    obtain ⟨k', b⟩ := m
    simp only [place] at h
    split at h
    · simpa using h
    · split at h
      · simp only [List.map_cons, List.mem_cons] at h ⊢
        rcases h with h | h
        · exact .inr (.inl h)
        · exact (ih h).imp id .inr
      · exact .inr h

theorem ascending_place {name : String} {a : α} {ms : List (String × α)} (h : Ascending ms) :
    Ascending (place name a ms) := by
  induction ms with
  | nil => simp [place, Ascending]
  | cons m r ih =>
    obtain ⟨k, b⟩ := m
    have hr : Ascending r := (List.pairwise_cons.mp h).2
    have hk := (List.pairwise_cons.mp h).1
    simp only [place]
    split
    · rename_i hlt
      refine List.pairwise_cons.mpr ⟨fun m hm => ?_, h⟩
      rcases List.mem_cons.mp hm with rfl | hm
      · exact hlt
      · exact String.lt_trans hlt (hk m hm)
    · split
      · rename_i hlt
        refine List.pairwise_cons.mpr ⟨fun m hm => ?_, ih hr⟩
        rcases name_mem_place (List.mem_map_of_mem (f := Prod.fst) hm) with h' | h'
        · exact h' ▸ hlt
        · obtain ⟨m', hm', he⟩ := List.mem_map.mp h'
          exact he ▸ hk m' hm'
      · exact h

theorem ascending_sorted (ms : List (String × α)) : Ascending (sorted ms) := by
  induction ms with
  | nil => simp [sorted, Ascending]
  | cons m r ih => exact ascending_place ih

theorem place_of_head_lt {name : String} {a : α} {ms : List (String × α)}
    (h : ∀ m ∈ ms, name < m.1) : place name a ms = (name, a) :: ms := by
  cases ms with
  | nil => rfl
  | cons m r => simp [place, h m (by simp)]

theorem sorted_of_ascending {ms : List (String × α)} (h : Ascending ms) : sorted ms = ms := by
  induction ms with
  | nil => rfl
  | cons m r ih =>
    have h' := List.pairwise_cons.mp h
    show place m.1 m.2 (sorted r) = m :: r
    rw [ih h'.2, place_of_head_lt h'.1]

end Members

namespace Json

def object (members : List (String × Json)) : Json := .obj (Members.sorted members)

mutual
/-- Every object within lists its members in strictly ascending order of their names. -/
def Canonical : Json → Prop
  | arr items => CanonicalItems items
  | obj members => Members.Ascending members ∧ CanonicalMembers members
  | _ => True
def CanonicalItems : List Json → Prop
  | [] => True
  | x :: r => Canonical x ∧ CanonicalItems r
def CanonicalMembers : List (String × Json) → Prop
  | [] => True
  | (_, x) :: r => Canonical x ∧ CanonicalMembers r
end

/-- The member of an object with a name. -/
def member? (name : String) : Json → Option Json
  | obj members => members.lookup name
  | _ => none

def string? : Json → Option String
  | str s => some s
  | _ => none

end Json

end ContextServer
