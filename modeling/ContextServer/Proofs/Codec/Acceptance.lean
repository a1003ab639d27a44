import ContextServer.Proofs.Codec.Record

/-!
Which members a record is read from, and what it is read as. Whether the members suit is asked of
each member under its name, and the value of each field is looked up, so both come apart into one
statement for each field (`Fields.decodeMembers_eq_ok`).
-/

namespace ContextServer

/-- A member that is `null` counts as absent. -/
def Members.present? (name : String) (ms : List (String × Json)) : Option Json :=
  match ms.lookup name with
  | some .null => none
  | j => j

theorem Members.present?_eq_some {name : String} {ms : List (String × Json)} {j : Json} :
    present? name ms = some j ↔ ms.lookup name = some j ∧ j ≠ .null := by
  unfold present?
  split
  · rename_i hnull
    simp [hnull, eq_comm]
  · rename_i hne
    refine (and_iff_left_of_imp fun h hnull => ?_).symm
    exact hne (hnull ▸ h)

theorem Codec.string_decode_eq_ok {j : Json} {s : String} :
    Codec.string.decode j = .ok s ↔ j = .str s := by
  cases j <;> simp [Codec.string]

namespace Field

variable {σ α : Type} {ms : List (String × Json)}

/-- Every member of this name is a value of the field. -/
def Suits (ms : List (String × Json)) (f : Field σ α) : Prop :=
  ∀ j, (f.name, j) ∈ ms → ∃ a, f.codec.decode j = .ok a

theorem Suits.exists_reads {f : Field σ α} (h : f.Suits ms) (ha : f.absent.isSome = true) :
    ∃ a, f.Reads ms a := by
  unfold Reads
  split
  · rename_i j hj
    exact h j (Members.mem_of_lookup hj)
  · exact Option.isSome_iff_exists.mp ha

theorem suits_optional {name : String} {get : σ → Option α} {c : Codec α} :
    (optional name get c).Suits ms ↔
      ∀ j, (name, j) ∈ ms → j = .null ∨ ∃ a, c.decode j = .ok a := by
  refine forall₂_congr fun j _ => ?_
  cases j with
  | null => exact iff_of_true ⟨none, rfl⟩ (.inl rfl)
  | _ =>
    simp only [optional, Codec.option, reduceCtorEq, false_or]
    cases c.decode _ <;> simp [Except.map]

theorem reads_optional {name : String} {get : σ → Option α} {c : Codec α} {a : Option α} :
    (optional name get c).Reads ms a ↔
      (Members.present? name ms).map c.decode = a.map Except.ok := by
  unfold Reads Members.present?
  simp only [optional]
  cases ms.lookup name with
  | none => cases a <;> simp
  | some j =>
    cases j with
    | null => cases a <;> simp [Codec.option]
    | _ =>
      simp only [Codec.option, Option.map_some]
      cases c.decode _ <;> cases a <;> simp [Except.map]

end Field

namespace Fields

variable {σ τ : Type} {s : σ} {ms : List (String × Json)} {fields : Fields σ τ}

def Suit (ms : List (String × Json)) : {τ : Type} → Fields σ τ → Prop
  | _, done => True
  | _, field f rest => f.Suits ms ∧ Suit ms rest

def AllOptional : {τ : Type} → Fields σ τ → Prop
  | _, done => True
  | _, field f rest => f.absent.isSome = true ∧ AllOptional rest

theorem fault?_of_notMem {m : String × Json} (h : m.1 ∉ fields.names) :
    fields.fault? m = none := by
  induction fields with
  | done => rfl
  | field f rest ih =>
    rw [names, List.mem_cons, not_or] at h
    rw [fault?, if_neg h.1]
    exact ih h.2

/-- No two fields share a name, so each member is asked for one field only. -/
theorem findSome?_fault?_eq_none (hn : fields.names.Nodup) :
    ms.findSome? (fields.fault? ·) = none ↔ fields.Suit ms := by
  rw [List.findSome?_eq_none_iff]
  induction fields with
  | done => exact iff_of_true (fun _ _ => rfl) trivial
  | field f rest ih =>
    rw [names, List.nodup_cons] at hn
    rw [Suit, ← ih hn.2]
    constructor
    · intro h
      refine ⟨fun j hj => ?_, fun m hm => ?_⟩
      · have hj := h (f.name, j) hj
        rw [fault?, if_pos rfl] at hj
        split at hj
        · cases hj
        · exact ⟨_, ‹_›⟩
      · by_cases hname : m.1 = f.name
        · exact fault?_of_notMem (hname ▸ hn.1)
        · have hm := h m hm
          rwa [fault?, if_neg hname] at hm
    · rintro ⟨hf, hrest⟩ ⟨k, j⟩ hm
      rw [fault?]
      split
      · rename_i hname
        obtain ⟨a, ha⟩ := hf j (hname ▸ hm)
        rw [ha]
      · exact hrest _ hm

theorem decodeMembers_eq_ok {make : τ} (hn : fields.names.Nodup) :
    fields.decodeMembers make ms = .ok s ↔ fields.Suit ms ∧ fields.collect ms make = .ok s := by
  rw [← findSome?_fault?_eq_none hn]
  unfold decodeMembers
  split
  · rename_i e he
    simp [he]
  · rename_i hnone
    simp [hnone]

/-- Members that suit are enough if no field is required. -/
theorem exists_collect (h : fields.Suit ms) (ha : fields.AllOptional) (make : τ) :
    ∃ s, fields.collect ms make = .ok s := by
  induction fields with
  | done => exact ⟨make, rfl⟩
  | field f rest ih =>
    obtain ⟨a, hf⟩ := h.1.exists_reads ha.1
    obtain ⟨s, hs⟩ := ih h.2 ha.2 (make a)
    exact ⟨s, collect_field_eq_ok.mpr ⟨a, hf, hs⟩⟩

end Fields

end ContextServer
