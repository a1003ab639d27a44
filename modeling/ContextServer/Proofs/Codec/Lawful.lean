import Mathlib.Data.List.Forall2
import ContextServer.Proofs.Codec.Record

/-!
Codecs put together from lawful codecs. A list, an optional value and a table are read back as they
are written if their parts are, and so is a record whose fields are (`Shape.lawful`): a field that
is not written must have, when it is absent, the very value that was not written.
-/

namespace ContextServer

/-- What is read of a list one after the other is read of each of its items. -/
theorem mapM_eq_ok {ε α β : Type} {f : α → Except ε β} {as : List α} {bs : List β} :
    as.mapM f = .ok bs ↔ List.Forall₂ (fun a b => f a = .ok b) as bs := by
  induction as generalizing bs with
  | nil =>
    rw [List.mapM_nil, List.forall₂_nil_left_iff]
    exact ⟨fun h => (Except.ok.inj h).symm, fun h => congrArg Except.ok h.symm⟩
  | cons a as ih =>
    rw [List.mapM_cons, List.forall₂_cons_left_iff]
    simp only [← ih]
    constructor
    · intro h
      cases ha : f a with
      | error e => rw [ha] at h; cases h
      | ok b =>
        cases has : as.mapM f with
        | error e => rw [ha, has] at h; cases h
        | ok cs =>
          rw [ha, has] at h
          cases h
          exact ⟨b, cs, rfl, rfl, rfl⟩
    · rintro ⟨b, cs, ha, has, rfl⟩
      rw [ha, has]
      rfl

namespace Codec

variable {α : Type} {c : Codec α}

theorem list_lawful (h : c.Lawful) : c.list.Lawful := by
  intro as
  show (as.map c.encode).mapM c.decode = .ok as
  induction as with
  | nil => rfl
  | cons a as ih =>
    rw [List.map_cons, List.mapM_cons, h a, ih]
    rfl

/-- A value that is written as `null` cannot be told from none. -/
theorem option_lawful (h : c.Lawful) (hn : ∀ a, c.encode a ≠ .null) : c.option.Lawful := by
  intro a
  cases a with
  | none => rfl
  | some a =>
    show c.option.decode (c.encode a) = .ok (some a)
    have ha := h a
    have hne := hn a
    generalize c.encode a = j at ha hne
    cases j with
    | null => exact absurd rfl hne
    | _ =>
      simp only [option, ha]
      rfl

/-- A table is read member by member, under the names that the object has. -/
theorem table_decode_eq_ok {ms : List (String × Json)} {as : List (String × α)} :
    c.table.decode (.obj ms) = .ok as ↔
      List.Forall₂ (fun m a => m.1 = a.1 ∧ c.decode m.2 = .ok a.2) ms as := by
  refine mapM_eq_ok.trans (Iff.of_eq (congrFun₂ (congrArg List.Forall₂ ?_) ms as))
  funext m a
  refine propext ?_
  cases c.decode m.2 with
  | error e => simp [Except.map]
  | ok b => simp [Except.map, Prod.ext_iff]

theorem map_fst_of_decode_table {ms : List (String × Json)} {as : List (String × α)}
    (h : c.table.decode (.obj ms) = .ok as) : as.map Prod.fst = ms.map Prod.fst := by
  have hf : List.Forall₂ (· = ·) (ms.map Prod.fst) (as.map Prod.fst) :=
    List.forall₂_map_left_iff.mpr (List.forall₂_map_right_iff.mpr
      ((table_decode_eq_ok.mp h).imp fun _ _ hm => hm.1))
  rw [List.forall₂_eq_eq_eq] at hf
  exact hf.symm

theorem ascending_of_decode_table {j : Json} {as : List (String × α)} (hj : j.Canonical)
    (h : c.table.decode j = .ok as) : Members.Ascending as := by
  cases j with
  | obj ms =>
    have hms : (ms.map Prod.fst).Pairwise (· < ·) := List.pairwise_map.mpr hj.1
    rw [← map_fst_of_decode_table h] at hms
    exact List.pairwise_map.mp hms
  | null | bool | num | str | arr => cases h

/-- A table is written with its names in ascending order. -/
theorem decode_encode_table (h : c.Lawful) {as : List (String × α)}
    (ha : Members.Ascending as) : c.table.decode (c.table.encode as) = .ok as := by
  have hsorted : Members.sorted (as.map fun m => (m.1, c.encode m.2)) =
      as.map fun m => (m.1, c.encode m.2) :=
    Members.sorted_of_ascending (List.pairwise_map.mpr ha)
  show (Members.sorted (as.map fun m => (m.1, c.encode m.2))).mapM _ = _
  rw [hsorted]
  clear hsorted ha
  induction as with
  | nil => rfl
  | cons a as ih =>
    rw [List.map_cons, List.mapM_cons, ih, h a.2]
    rfl

end Codec

namespace Field

variable {σ α : Type} {name : String} {c : Codec α}

/-- Every value of the field is read back as it is written. -/
def Lawful (f : Field σ α) : Prop := ∀ a, f.Returns id a

theorem required_lawful {get : σ → α} (h : c.Lawful) : (required name get c).Lawful := h

theorem defaulted_lawful {get : σ → α} {value : α} (h : c.Lawful) :
    (defaulted name get c value).Lawful := h

/-- A field that is left out for one value only has that value when it is absent. -/
theorem omitted_lawful {get : σ → α} {value : α} {omits : α → Bool} (h : c.Lawful)
    (ho : ∀ a, omits a = true → a = value) : Lawful ⟨name, get, c, some value, omits⟩ := by
  intro a
  unfold Returns
  split
  · rename_i hoa
    rw [ho a hoa]
  · exact h a

theorem optional_lawful {get : σ → Option α} (h : c.Lawful) (hn : ∀ a, c.encode a ≠ .null) :
    (optional name get c).Lawful :=
  omitted_lawful (Codec.option_lawful h hn) fun _ => Option.isNone_iff_eq_none.mp

theorem flag_lawful {get : σ → Bool} : (flag name get).Lawful :=
  omitted_lawful Codec.bool_lawful fun b hb => by simpa using hb

/-- A JSON value that has been read for an optional field is not `null`. -/
theorem Found.returns_optional_json {js : List Json} {get : σ → Option Json} {a : Option Json}
    (h : (optional name get .json).Found js a) : (optional name get .json).Returns id a := by
  cases a with
  | none => rfl
  | some k =>
    rcases h with ⟨j, -, hd⟩ | h
    · cases j <;> cases hd <;> rfl
    · cases h

end Field

namespace Fields

variable {σ τ : Type}

def Lawful : {τ : Type} → Fields σ τ → Prop
  | _, done => True
  | _, field f rest => f.Lawful ∧ Lawful rest

theorem Lawful.returns {fields : Fields σ τ} (h : fields.Lawful) (s : σ) :
    fields.Returns id s := by
  induction fields with
  | done => trivial
  | field f rest ih => exact ⟨h.1 (f.get s), ih h.2⟩

end Fields

namespace Shape

variable {σ : Type} {shape : Shape σ}

theorem lawful (hn : shape.fields.names.Nodup) (hf : shape.fields.Lawful)
    (hr : ∀ s, shape.fields.remake s shape.make = s) : shape.codec.Lawful := by
  intro s
  rw [decode_encode hn (hf.returns s), hr]

theorem encode_ne_null (s : σ) : shape.codec.encode s ≠ .null := nofun

end Shape

end ContextServer
