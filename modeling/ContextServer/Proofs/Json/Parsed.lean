import ContextServer.Proofs.Json.RoundTrip

/-!
What has been parsed is tidy: its objects list their members in ascending order, and it does not
nest deeper than the parser allows.
-/

namespace ContextServer

namespace Members

variable {α : Type} {name : String} {a : α} {m : String × α} {ms : List (String × α)}

theorem mem_place (h : m ∈ place name a ms) : m = (name, a) ∨ m ∈ ms := by
  induction ms with
  | nil => simpa [place] using h
  | cons x r ih =>
    obtain ⟨k, b⟩ := x
    simp only [place] at h
    split at h
    · simpa using h
    · split at h
      · rcases List.mem_cons.mp h with h | h
        · exact .inr (by simp [h])
        · exact (ih h).imp_right fun h => by simp [h]
      · exact .inr h

theorem mem_of_mem_sorted (h : m ∈ sorted ms) : m ∈ ms := by
  induction ms with
  | nil => exact h
  | cons x r ih =>
    rcases mem_place h with h | h
    · simp [h]
    · exact List.mem_cons_of_mem x (ih h)

end Members

namespace Json

theorem canonicalItems_iff {js : List Json} : CanonicalItems js ↔ ∀ x ∈ js, Canonical x := by
  induction js with
  | nil => simp [CanonicalItems]
  | cons x r ih => simp [CanonicalItems, ih]

theorem canonicalMembers_iff {ms : List (String × Json)} :
    CanonicalMembers ms ↔ ∀ m ∈ ms, Canonical m.2 := by
  induction ms with
  | nil => simp [CanonicalMembers]
  | cons m r ih =>
    obtain ⟨k, x⟩ := m
    rw [CanonicalMembers, ih, List.forall_mem_cons]

theorem depthItems_le {js : List Json} {d : Nat} :
    depthItems js ≤ d ↔ ∀ x ∈ js, x.depth ≤ d := by
  induction js with
  | nil => simp [depthItems]
  | cons x r ih => rw [depthItems, Nat.max_le, ih, List.forall_mem_cons]

theorem depthMembers_le {ms : List (String × Json)} {d : Nat} :
    depthMembers ms ≤ d ↔ ∀ m ∈ ms, m.2.depth ≤ d := by
  induction ms with
  | nil => simp [depthMembers]
  | cons m r ih =>
    obtain ⟨k, x⟩ := m
    rw [depthMembers, Nat.max_le, ih, List.forall_mem_cons]

/-- A value as a parser leaves it that has so many levels to nest. -/
structure Tidy (d : Nat) (j : Json) : Prop where
  canonical : Canonical j
  depth : j.depth ≤ d

namespace Tidy

variable {d : Nat}

theorem normal {j : Json} (h : Tidy d j) : j.normal = j := normal_of_canonical h.canonical

theorem arr {js : List Json} : Tidy (d + 1) (.arr js) ↔ ∀ x ∈ js, Tidy d x := by
  constructor
  · intro h x hx
    have hc : CanonicalItems js := h.canonical
    have hd : depthItems js + 1 ≤ d + 1 := h.depth
    exact ⟨canonicalItems_iff.mp hc x hx, depthItems_le.mp (by omega) x hx⟩
  · intro h
    refine ⟨canonicalItems_iff.mpr fun x hx => (h x hx).canonical, ?_⟩
    rw [Json.depth, Nat.add_le_add_iff_right]
    exact depthItems_le.mpr fun x hx => (h x hx).depth

theorem obj {ms : List (String × Json)} :
    Tidy (d + 1) (.obj ms) ↔ Members.Ascending ms ∧ ∀ m ∈ ms, Tidy d m.2 := by
  constructor
  · intro h
    have hc : Members.Ascending ms ∧ CanonicalMembers ms := h.canonical
    have hd : depthMembers ms + 1 ≤ d + 1 := h.depth
    exact ⟨hc.1, fun m hm =>
      ⟨canonicalMembers_iff.mp hc.2 m hm, depthMembers_le.mp (by omega) m hm⟩⟩
  · rintro ⟨ha, h⟩
    refine ⟨⟨ha, canonicalMembers_iff.mpr fun m hm => (h m hm).canonical⟩, ?_⟩
    rw [Json.depth, Nat.add_le_add_iff_right]
    exact depthMembers_le.mpr fun m hm => (h m hm).depth

theorem object {ms : List (String × Json)} (h : ∀ m ∈ ms, Tidy d m.2) :
    Tidy (d + 1) (.object ms) :=
  obj.mpr ⟨Members.ascending_sorted ms, fun m hm => h m (Members.mem_of_mem_sorted hm)⟩

/-- What nests no further is tidy at any level. -/
theorem null : Tidy d .null := ⟨trivial, Nat.zero_le d⟩

theorem bool (b : Bool) : Tidy d (.bool b) := ⟨trivial, Nat.zero_le d⟩

theorem num (n : Number) : Tidy d (.num n) := ⟨trivial, Nat.zero_le d⟩

theorem str (s : String) : Tidy d (.str s) := ⟨trivial, Nat.zero_le d⟩

end Tidy

namespace Parser

/-- What the three parsers keep, by induction on the fuel that they share. -/
structure Sound (fuel : Nat) : Prop where
  value : ∀ {depth : Nat} {s r : List Char} {j : Json},
    value? fuel depth s = some (j, r) → Tidy depth j
  items : ∀ {depth : Nat} {acc : List Json} {s r : List Char} {j : Json},
    items? fuel depth acc s = some (j, r) → (∀ x ∈ acc, Tidy depth x) → Tidy (depth + 1) j
  members : ∀ {depth : Nat} {acc : List (String × Json)} {s r : List Char} {j : Json},
    members? fuel depth acc s = some (j, r) → (∀ m ∈ acc, Tidy depth m.2) → Tidy (depth + 1) j

theorem sound (fuel : Nat) : Sound fuel := by
  induction fuel with
  | zero =>
    constructor
    · intro depth s r j h
      cases h
    · intro depth acc s r j h
      cases h
    · intro depth acc s r j h
      cases h
  | succ fuel ih =>
    constructor
    · intro depth s r j h
      rw [value?] at h
      split at h
      · cases h
      · cases h
        exact .null
      · cases h
        exact .bool true
      · cases h
        exact .bool false
      · split at h <;> cases h
        exact .str _
      · split at h
        · cases h
        · split at h
          · cases h
            exact Tidy.arr.mpr (List.forall_mem_nil _)
          · exact ih.items h (List.forall_mem_nil _)
      · split at h
        · cases h
        · split at h
          · cases h
            exact Tidy.obj.mpr ⟨.nil, List.forall_mem_nil _⟩
          · exact ih.members h (List.forall_mem_nil _)
      · split at h <;> cases h
        exact .num _
    · intro depth acc s r j h hacc
      rw [items?] at h
      split at h
      · cases h
      · rename_i x t hx
        have hall : ∀ y ∈ x :: acc, Tidy depth y :=
          List.forall_mem_cons.mpr ⟨ih.value hx, hacc⟩
        split at h
        · exact ih.items h hall
        · cases h
          exact Tidy.arr.mpr fun y hy => hall y (List.mem_reverse.mp hy)
        · cases h
    · intro depth acc s r j h hacc
      rw [members?] at h
      split at h
      · split at h
        · cases h
        · rename_i k t hk
          split at h
          · split at h
            · cases h
            · rename_i x u hx
              have hall : ∀ m ∈ (k, x) :: acc, Tidy depth m.2 :=
                List.forall_mem_cons.mpr ⟨ih.value hx, hacc⟩
              split at h
              · exact ih.members h hall
              · cases h
                exact Tidy.object fun m hm => hall m (List.mem_reverse.mp hm)
              · cases h
          · cases h
      · cases h

end Parser

theorem tidy_of_parse? {s : List Char} {j : Json} (h : parse? s = some j) : Tidy maxDepth j := by
  unfold parse? at h
  split at h
  · rename_i x r hv
    split at h <;> cases h
    exact (Parser.sound _).value hv
  · cases h

theorem tidy_of_ofBytes? {bs : List UInt8} {j : Json} (h : ofBytes? bs = some j) :
    Tidy maxDepth j := by
  obtain ⟨s, -, hs⟩ := Option.bind_eq_some_iff.mp h
  exact tidy_of_parse? hs

end Json

end ContextServer
