import ContextServer.Proofs.Codec.Record
import ContextServer.Proofs.Envelope.Acceptance

/-!
An envelope that has been parsed is parsed from its own bytes again. It is written with its members
in the order of their declaration and read with them in ascending order, and of what `null` can
stand for it holds only what survives: no params and no data that are `null`.
-/

namespace ContextServer

namespace Envelope

/-- No number in the envelope is a float. -/
def Integral (e : Envelope) : Prop := e.toJson.Integral

end Envelope

theorem Codec.decode_option {α : Type} {c : Codec α} {j : Json} {a : α}
    (h : c.option.decode j = .ok (some a)) : j ≠ .null ∧ c.decode j = .ok a := by
  cases j with
  | null => cases h
  | _ =>
    refine ⟨by simp, ?_⟩
    simp only [Codec.option] at h
    cases hd : c.decode _ with
    | error e => rw [hd] at h; cases h
    | ok b => rw [hd] at h; cases h; rfl

namespace ErrorObject

/-- The data of an error are there only if they are not `null`, and nest to so many levels. -/
def Tidy (d : Nat) (e : ErrorObject) : Prop := ∀ j, e.data = some j → j ≠ .null ∧ j.Tidy d

theorem tidy_of_decode {d : Nat} {j : Json} {e : ErrorObject} (h : shape.decode j = .ok e)
    (hj : j.Tidy (d + 1)) : e.Tidy d := by
  obtain ⟨code, -, message, -, data, hdata, rfl⟩ := Shape.found_of_decode h
  rintro k rfl
  rcases hdata with ⟨x, hx, hd⟩ | ha
  · obtain ⟨hne, heq⟩ := Codec.decode_option hd
    cases heq
    exact ⟨hne, hj.of_mem_children hx⟩
  · cases ha

theorem restores {d : Nat} {e : ErrorObject} (h : e.Tidy d) : shape.fields.Restores e := by
  refine ⟨?_, ?_, ?_, trivial⟩
  · exact Codec.int64_lawful e.code
  · rfl
  · obtain ⟨code, message, data⟩ := e
    cases data with
    | none => rfl
    | some j =>
      obtain ⟨hne, ht⟩ := h j rfl
      show Codec.json.option.decode j.normal = .ok (some j)
      rw [ht.normal]
      cases j with
      | null => exact absurd rfl hne
      | _ => rfl

theorem decode_wire {d : Nat} {e : ErrorObject} (h : e.Tidy d) :
    shape.decode e.wire.normal = .ok e :=
  Shape.decode_normal_wire (by decide) (restores h)

end ErrorObject

theorem ErrorObject.depth_wire {d : Nat} {e : ErrorObject} (h : e.Tidy d) :
    e.wire.depth ≤ d + 1 := by
  rw [ErrorObject.wire, Shape.wire, Json.depth, Nat.add_le_add_iff_right]
  refine Json.depthMembers_le.mpr fun m hm => ?_
  rcases Fields.mem_members_field.mp hm with ⟨-, rfl⟩ | hm
  · exact Nat.zero_le d
  rcases Fields.mem_members_field.mp hm with ⟨-, rfl⟩ | hm
  · exact Nat.zero_le d
  rcases Fields.mem_members_field.mp hm with ⟨ho, rfl⟩ | hm
  · obtain ⟨code, message, data⟩ := e
    cases data with
    | none => cases ho
    | some j => exact (h j rfl).2.depth
  · cases hm

namespace Envelope

/-- What is known of the parts of an envelope that has been parsed. -/
structure Parts.Tidy (d : Nat) (p : Parts) : Prop where
  params : ∀ j, p.params = some j → j ≠ .null ∧ j.Tidy (d + 1)
  result : ∀ j, p.result = some j → j.Tidy (d + 1)
  error : ∀ e, p.error = some e → e.Tidy d

theorem Parts.tidy_of_decodeMembers {d : Nat} {ms : List (String × Json)} {p : Parts}
    (h : Parts.shape.decodeMembers ms = .ok p) (hms : ∀ m ∈ ms, m.2.Tidy (d + 1)) :
    p.Tidy d := by
  have hheld := (decodeMembers_eq_ok.mp h).2
  have htidy {k : String} {j : Json} (hj : ms.lookup k = some j) : j.Tidy (d + 1) :=
    hms (k, j) (Members.mem_of_lookup hj)
  refine ⟨fun j hj => ?_, fun j hj => htidy (hheld.result ▸ hj), fun e he => ?_⟩
  · obtain ⟨hlookup, hne⟩ := Members.present?_eq_some.mp (hheld.params ▸ hj)
    exact ⟨hne, htidy hlookup⟩
  · have herror := hheld.error
    rw [he] at herror
    obtain ⟨j, hj, hd⟩ := Option.map_eq_some_iff.mp herror
    exact ErrorObject.tidy_of_decode hd (htidy (Members.present?_eq_some.mp hj).1)

/-- An envelope keeps of its parts those that belong to it. -/
theorem Parts.Tidy.ofParts {d : Nat} {p : Parts} (h : p.Tidy d) :
    (Envelope.ofParts p).parts.Tidy d := by
  unfold Envelope.ofParts
  split
  · exact ⟨h.params, nofun, nofun⟩
  · exact ⟨h.params, nofun, nofun⟩
  · exact ⟨nofun, h.result, h.error⟩

theorem tidy_of_ofBytes {bs : List UInt8} {e : Envelope} (h : ofBytes bs = .ok e) :
    e.parts.Tidy 125 := by
  unfold ofBytes at h
  split at h
  · rename_i j hj
    have ht : j.Tidy 127 := Json.tidy_of_ofBytes? hj
    unfold ofJson at h
    split at h
    · split at h
      · rename_i p hp
        split at h
        · cases h
          exact (Parts.tidy_of_decodeMembers hp (Json.Tidy.obj.mp ht).2).ofParts
        · cases h
      · cases h
    · cases h
  · cases h

theorem ofParts_parts (e : Envelope) : ofParts e.parts = e := by
  cases e with
  | request | notification => rfl
  | response r =>
    obtain ⟨id, result, error⟩ := r
    cases id <;> rfl

theorem version_parts (e : Envelope) : e.parts.version = some rpcVersion := by
  cases e <;> rfl

theorem Parts.restores {d : Nat} {p : Parts} (h : p.Tidy d) : Parts.shape.fields.Restores p := by
  obtain ⟨version, id, method, params, result, error⟩ := p
  refine ⟨?_, ?_, ?_, ?_, ?_, ?_, trivial⟩
  · cases version <;> rfl
  · cases id with
    | none => rfl
    | some id => cases id <;> rfl
  · cases method <;> rfl
  · cases params with
    | none => rfl
    | some j =>
      obtain ⟨hne, ht⟩ := h.params j rfl
      show Codec.json.option.decode j.normal = .ok (some j)
      rw [ht.normal]
      cases j with
      | null => exact absurd rfl hne
      | _ => rfl
  · cases result with
    | none => rfl
    | some j =>
      show Except.ok (some j.normal) = .ok (some j)
      rw [(h.result j rfl).normal]
  · cases error with
    | none => rfl
    | some e =>
      have hd := ErrorObject.decode_wire (h.error e rfl)
      show (ErrorObject.shape.decode e.wire.normal).map some = .ok (some e)
      rw [hd]
      rfl

theorem ofJson_toJson {d : Nat} {e : Envelope} (h : e.parts.Tidy d) :
    ofJson e.toJson.normal = .ok e := by
  have hd : Parts.shape.decode e.toJson.normal = .ok e.parts :=
    Shape.decode_normal_wire (by decide) (Parts.restores h)
  have hobj : e.toJson.normal = .obj (Members.sorted
    (Json.normalMembers (Parts.shape.fields.members e.parts))) := rfl
  rw [hobj] at hd ⊢
  have hm : Parts.shape.decodeMembers (Members.sorted
      (Json.normalMembers (Parts.shape.fields.members e.parts))) = .ok e.parts := hd
  rw [ofJson, hm]
  simp only [version_parts, if_true, ofParts_parts]

theorem Parts.depth_wire {d : Nat} {p : Parts} (h : p.Tidy d) :
    (Parts.shape.wire p).depth ≤ d + 2 := by
  obtain ⟨version, id, method, params, result, error⟩ := p
  rw [Shape.wire, Json.depth, Nat.add_le_add_iff_right]
  refine Json.depthMembers_le.mpr fun m hm => ?_
  rcases Fields.mem_members_field.mp hm with ⟨-, rfl⟩ | hm
  · cases version <;> exact Nat.zero_le _
  rcases Fields.mem_members_field.mp hm with ⟨ho, rfl⟩ | hm
  · cases id with
    | none => cases ho
    | some id => cases id <;> exact Nat.zero_le _
  rcases Fields.mem_members_field.mp hm with ⟨-, rfl⟩ | hm
  · cases method <;> exact Nat.zero_le _
  rcases Fields.mem_members_field.mp hm with ⟨ho, rfl⟩ | hm
  · cases params with
    | none => cases ho
    | some j => exact (h.params j rfl).2.depth
  rcases Fields.mem_members_field.mp hm with ⟨ho, rfl⟩ | hm
  · cases result with
    | none => cases ho
    | some j => exact (h.result j rfl).depth
  rcases Fields.mem_members_field.mp hm with ⟨ho, rfl⟩ | hm
  · cases error with
    | none => cases ho
    | some e => exact ErrorObject.depth_wire (h.error e rfl)
  · cases hm

theorem ofBytes_toBytes_of_tidy {e : Envelope} (h : e.parts.Tidy 125) (hi : e.Integral) :
    ofBytes e.toBytes = .ok e := by
  rw [ofBytes, toBytes, print, Json.ofBytes?_print hi (Parts.depth_wire h)]
  exact ofJson_toJson h

theorem ofBytes_toBytes {bs : List UInt8} {e : Envelope} (h : ofBytes bs = .ok e)
    (hi : e.Integral) : ofBytes e.toBytes = .ok e :=
  ofBytes_toBytes_of_tidy (tidy_of_ofBytes h) hi

end Envelope

end ContextServer
