import ContextServer.Codec.Record
import ContextServer.Proofs.Json.Parsed
import ContextServer.Proofs.Json.Place

/-!
Records read back from their members. What counts of a list of members is what each field finds
under its name, so neither the order in which they stand nor other members matter.
-/

namespace ContextServer

namespace Members

variable {α : Type} {k name : String} {a : α} {ms : List (String × α)}

theorem lookup_head {m : String × α} (h : k = m.1) (r : List (String × α)) :
    (m :: r).lookup k = some m.2 := by
  rw [List.lookup_cons, beq_iff_eq.mpr h]

theorem lookup_tail {m : String × α} (h : k ≠ m.1) (r : List (String × α)) :
    (m :: r).lookup k = r.lookup k := by
  rw [List.lookup_cons, beq_eq_false_iff_ne.mpr h]

theorem lookup_eq_none (h : ∀ m ∈ ms, m.1 ≠ k) : ms.lookup k = none := by
  induction ms with
  | nil => rfl
  | cons m r ih =>
    rw [lookup_tail (h m (by simp)).symm]
    exact ih fun m' hm => h m' (by simp [hm])

/-- What is found under one name does not depend on the members of another. -/
theorem lookup_filter_ne (hk : k ≠ name) (ms : List (String × α)) :
    (ms.filter (·.1 != name)).lookup k = ms.lookup k := by
  induction ms with
  | nil => rfl
  | cons m r ih =>
    rw [List.filter_cons]
    by_cases hm : m.1 = name
    · rw [if_neg (by simp [hm]), ih, lookup_tail (hm ▸ hk)]
    · rw [if_pos (by simpa using hm)]
      by_cases hkm : k = m.1
      · rw [lookup_head hkm, lookup_head hkm]
      · rw [lookup_tail hkm, lookup_tail hkm, ih]

theorem mem_of_lookup (h : ms.lookup k = some a) : (k, a) ∈ ms := by
  induction ms with
  | nil => cases h
  | cons m r ih =>
    by_cases hk : k = m.1
    · rw [lookup_head hk] at h
      cases h
      simp [hk]
    · rw [lookup_tail hk] at h
      exact List.mem_cons_of_mem m (ih h)

theorem lookup_of_mem (hn : (ms.map Prod.fst).Nodup) {m : String × α} (h : m ∈ ms) :
    ms.lookup m.1 = some m.2 := by
  induction ms with
  | nil => cases h
  | cons x r ih =>
    rw [List.map_cons, List.nodup_cons] at hn
    rcases List.mem_cons.mp h with rfl | h
    · exact lookup_head rfl r
    · rw [lookup_tail fun heq => hn.1 (heq ▸ List.mem_map_of_mem h)]
      exact ih hn.2 h

/-- A member that is there already stays, and another one is found where it has been put. -/
theorem lookup_place (h : Ascending ms) :
    (place name a ms).lookup k = (ms.lookup k).or (if k = name then some a else none) := by
  induction ms with
  | nil =>
    by_cases hk : k = name
    · rw [place, lookup_head hk, if_pos hk]
      rfl
    · rw [place, lookup_tail hk, if_neg hk]
      rfl
  | cons m r ih =>
    obtain ⟨x, b⟩ := m
    have hr := List.pairwise_cons.mp h
    simp only [place]
    split
    · rename_i hlt
      by_cases hk : k = name
      · have hnone : ((x, b) :: r).lookup k = none := by
          refine lookup_eq_none fun m hm => ?_
          rw [hk]
          rcases List.mem_cons.mp hm with rfl | hm
          · exact fun heq => String.lt_irrefl _ (heq ▸ hlt)
          · exact fun heq => String.lt_irrefl _ (heq ▸ String.lt_trans hlt (hr.1 m hm))
        rw [hnone, lookup_head hk, if_pos hk]
        rfl
      · rw [lookup_tail hk, if_neg hk, Option.or_none]
    · split
      · by_cases hx : k = x
        · rw [lookup_head hx, lookup_head hx]
          rfl
        · rw [lookup_tail hx, lookup_tail hx, ih hr.2]
      · rename_i h₁ h₂
        have hx : name = x := eq_of_not_lt h₁ h₂
        by_cases hk : k = name
        · rw [lookup_head (hk.trans hx)]
          rfl
        · rw [if_neg hk, Option.or_none]

theorem lookup_sorted (hn : (ms.map Prod.fst).Nodup) (k : String) :
    (sorted ms).lookup k = ms.lookup k := by
  induction ms with
  | nil => rfl
  | cons m r ih =>
    rw [List.map_cons, List.nodup_cons] at hn
    show (place m.1 m.2 (sorted r)).lookup k = _
    rw [lookup_place (ascending_sorted r), ih hn.2]
    by_cases hk : k = m.1
    · have hnone : r.lookup k = none :=
        lookup_eq_none fun m' hm heq => hn.1 (hk ▸ heq ▸ List.mem_map_of_mem hm)
      rw [hnone, if_pos hk, lookup_head hk]
      rfl
    · rw [if_neg hk, Option.or_none, lookup_tail hk]

theorem nodup_of_ascending (h : Ascending ms) : (ms.map Prod.fst).Nodup := by
  rw [List.Nodup, List.pairwise_map]
  refine List.Pairwise.imp (fun hlt heq => ?_) h
  rw [heq] at hlt
  exact String.lt_irrefl _ hlt

end Members

/-- A value is read back in the form that `g` gives to what is written of it, and one that is not
written is what the field has when it is absent. -/
def Field.Returns {σ α : Type} (g : Json → Json) (f : Field σ α) (a : α) : Prop :=
  if f.omits a then f.absent = some a else f.codec.decode (g (f.codec.encode a)) = .ok a

/-- The field has this value of the member that is found under its name, or because there is no
such member. -/
def Field.Reads {σ α : Type} (ms : List (String × Json)) (f : Field σ α) (a : α) : Prop :=
  match ms.lookup f.name with
  | some j => f.codec.decode j = .ok a
  | none => f.absent = some a

namespace Fields

variable {σ τ : Type} {s : σ}

theorem collect_done_eq_ok {ms : List (String × Json)} {t : σ} :
    done.collect ms t = .ok s ↔ t = s := by
  rw [collect, Except.ok.injEq]

theorem collect_field_eq_ok {α : Type} {f : Field σ α} {rest : Fields σ τ} {make : α → τ}
    {ms : List (String × Json)} :
    (field f rest).collect ms make = .ok s ↔
      ∃ a, f.Reads ms a ∧ rest.collect ms (make a) = .ok s := by
  rw [collect]
  unfold Field.Reads
  cases ms.lookup f.name with
  | none => cases f.absent <;> simp
  | some j => cases hj : f.codec.decode j <;> simp [hj]

/-- What each field finds under its name is its value; a field that finds nothing may be absent. -/
def Carried (s : σ) (ms : List (String × Json)) : {τ : Type} → Fields σ τ → Prop
  | _, done => True
  | _, field f rest =>
    (match ms.lookup f.name with
      | some j => f.codec.decode j = .ok (f.get s)
      | none => f.absent = some (f.get s)) ∧ Carried s ms rest

theorem collect_of_carried {ms : List (String × Json)} {fields : Fields σ τ}
    (h : fields.Carried s ms) (make : τ) : fields.collect ms make = .ok (fields.remake s make) := by
  induction fields with
  | done => rfl
  | field f rest ih =>
    obtain ⟨hf, hrest⟩ := h
    exact collect_field_eq_ok.mpr ⟨f.get s, hf, ih hrest _⟩

theorem fault?_of_carried {ms : List (String × Json)} {fields : Fields σ τ}
    (h : fields.Carried s ms) {m : String × Json} (hm : ms.lookup m.1 = some m.2) :
    fields.fault? m = none := by
  induction fields with
  | done => rfl
  | field f rest ih =>
    obtain ⟨hf, hrest⟩ := h
    rw [fault?]
    split
    · rename_i hname
      rw [← hname, hm] at hf
      simp only at hf
      rw [hf]
    · exact ih hrest

theorem decodeMembers_of_carried {ms : List (String × Json)} {fields : Fields σ τ}
    (hn : (ms.map Prod.fst).Nodup) (h : fields.Carried s ms) (make : τ) :
    fields.decodeMembers make ms = .ok (fields.remake s make) := by
  have hnone : ms.findSome? (fields.fault? ·) = none :=
    List.findSome?_eq_none_iff.mpr fun m hm =>
      fault?_of_carried h (Members.lookup_of_mem hn hm)
  rw [decodeMembers, hnone]
  exact collect_of_carried h make

/-- What is written for each field is read back in the form that `g` gives to it. -/
def Returns (g : Json → Json) (s : σ) : {τ : Type} → Fields σ τ → Prop
  | _, done => True
  | _, field f rest => f.Returns g (f.get s) ∧ Returns g s rest

/-- What is written for each field in normal form is read back, and what is not written may be
absent. -/
def Restores (s : σ) : {τ : Type} → Fields σ τ → Prop
  | _, done => True
  | _, field f rest =>
    (if f.omits (f.get s) then f.absent = some (f.get s)
      else f.codec.decode (f.codec.encode (f.get s)).normal = .ok (f.get s)) ∧ Restores s rest

theorem returns_of_restores {fields : Fields σ τ} (h : fields.Restores s) :
    fields.Returns Json.normal s := by
  induction fields with
  | done => trivial
  | field f rest ih => exact ⟨h.1, ih h.2⟩

theorem mem_members_field {α : Type} {f : Field σ α} {rest : Fields σ τ} {m : String × Json} :
    m ∈ (field f rest).members s ↔
      (f.omits (f.get s) = false ∧ m = (f.name, f.codec.encode (f.get s))) ∨
        m ∈ rest.members s := by
  rw [members]
  by_cases h : f.omits (f.get s) = true
  · simp [h]
  · simp [h]

theorem sublist_names (fields : Fields σ τ) :
    ((fields.members s).map Prod.fst).Sublist fields.names := by
  induction fields with
  | done => exact .slnil
  | field f rest ih =>
    rw [members]
    split
    · exact ih.cons _
    · exact ih.cons_cons _

end Fields

namespace Json

theorem map_fst_normalMembers (ms : List (String × Json)) :
    (normalMembers ms).map Prod.fst = ms.map Prod.fst := by
  induction ms with
  | nil => rfl
  | cons m r ih => simp [normalMembers, ih]

theorem lookup_normalMembers (k : String) (ms : List (String × Json)) :
    (normalMembers ms).lookup k = (ms.lookup k).map normal := by
  induction ms with
  | nil => rfl
  | cons m r ih =>
    obtain ⟨x, j⟩ := m
    rw [normalMembers, List.lookup_cons, List.lookup_cons, ih]
    split <;> rfl

end Json

namespace Fields

variable {σ τ : Type} {s : σ}

theorem carried_of_returns {g : Json → Json} {ms : List (String × Json)} {fields : Fields σ τ}
    (hn : fields.names.Nodup) (h : fields.Returns g s)
    (hl : ∀ k ∈ fields.names, ms.lookup k = ((fields.members s).lookup k).map g) :
    fields.Carried s ms := by
  induction fields with
  | done => trivial
  | field f rest ih =>
    obtain ⟨hf, hrest⟩ := h
    rw [names, List.nodup_cons] at hn
    have hname (m : String × Json) (hm : m ∈ rest.members s) : m.1 ∈ rest.names :=
      (sublist_names rest).subset (List.mem_map_of_mem hm)
    refine ⟨?_, ih hn.2 hrest fun k hk => ?_⟩
    · rw [hl f.name (by simp [names]), members]
      by_cases ho : f.omits (f.get s) = true
      · have hnone : (rest.members s).lookup f.name = none :=
          Members.lookup_eq_none fun m hm heq => hn.1 (heq ▸ hname m hm)
        rw [Field.Returns, if_pos ho] at hf
        rw [if_pos ho, hnone]
        exact hf
      · rw [Field.Returns, if_neg ho] at hf
        rw [if_neg ho, Members.lookup_head (m := (f.name, f.codec.encode (f.get s))) rfl]
        exact hf
    · rw [hl k (by simp [names, hk]), members]
      split
      · rfl
      · have hne : k ≠ f.name := fun heq => hn.1 (heq ▸ hk)
        rw [Members.lookup_tail (m := (f.name, f.codec.encode (f.get s))) hne]

end Fields

/-- A record is read back from its members in any order. -/
theorem Shape.decode_normal_wire {σ : Type} {shape : Shape σ} {s : σ}
    (hn : shape.fields.names.Nodup) (h : shape.fields.Restores s) :
    shape.decode (shape.wire s).normal = .ok (shape.fields.remake s shape.make) := by
  have hnames : ((Json.normalMembers (shape.fields.members s)).map Prod.fst).Nodup := by
    rw [Json.map_fst_normalMembers]
    exact (Fields.sublist_names shape.fields).nodup hn
  refine Fields.decodeMembers_of_carried
    (Members.nodup_of_ascending (Members.ascending_sorted _)) ?_ shape.make
  refine Fields.carried_of_returns hn (Fields.returns_of_restores h) fun k _ => ?_
  rw [Members.lookup_sorted hnames, Json.lookup_normalMembers]

/-- A record is read back from the object that is written for it. -/
theorem Shape.decode_encode {σ : Type} {shape : Shape σ} {s : σ}
    (hn : shape.fields.names.Nodup) (h : shape.fields.Returns id s) :
    shape.codec.decode (shape.codec.encode s) = .ok (shape.fields.remake s shape.make) := by
  have hnames : ((shape.fields.members s).map Prod.fst).Nodup :=
    (Fields.sublist_names shape.fields).nodup hn
  refine Fields.decodeMembers_of_carried
    (Members.nodup_of_ascending (Members.ascending_sorted _)) ?_ shape.make
  refine Fields.carried_of_returns hn h fun k _ => ?_
  rw [Members.lookup_sorted hnames, Option.map_id_fun, id]

/-! ### What has been read -/

/-- The field has the value of this entry, or the one that it has when it is absent. -/
def Field.Takes {σ α : Type} (f : Field σ α) (o : Option Json) (a : α) : Prop :=
  match o with
  | some j => f.codec.decode j = .ok a
  | none => f.absent = some a

/-- The value of a field comes from one of these values, or is what an absent field has. -/
def Field.Found {σ α : Type} (js : List Json) (f : Field σ α) (a : α) : Prop :=
  (∃ j ∈ js, f.codec.decode j = .ok a) ∨ f.absent = some a

theorem Field.found_of_takes {σ α : Type} {f : Field σ α} {o : Option Json} {a : α} {js : List Json}
    (h : f.Takes o a) (ho : ∀ j, o = some j → j ∈ js) : f.Found js a := by
  cases o with
  | none => exact .inr h
  | some j => exact .inl ⟨j, ho j rfl, h⟩

namespace Fields

variable {σ τ : Type} {s : σ} {fields : Fields σ τ} {make : τ}

/-- The record is made of these entries, of which each field takes one. -/
def Takes (s : σ) : {τ : Type} → Fields σ τ → τ → List (Option Json) → Prop
  | _, done, t, _ => t = s
  | _, field f rest, make, os => ∃ a, f.Takes os.head?.join a ∧ Takes s rest (make a) os.tail

/-- The record is made of what has been found for its fields. -/
def Found (js : List Json) (s : σ) : {τ : Type} → Fields σ τ → τ → Prop
  | _, done, t => t = s
  | _, field f rest, make => ∃ a, f.Found js a ∧ Found js s rest (make a)

theorem found_of_takes {os : List (Option Json)} {js : List Json} (h : fields.Takes s make os)
    (hos : ∀ j, some j ∈ os → j ∈ js) : fields.Found js s make := by
  induction fields generalizing os with
  | done => exact h
  | field f rest ih =>
    obtain ⟨a, ha, h⟩ := h
    refine ⟨a, Field.found_of_takes ha fun j hj => ?_, ih h fun j hj => ?_⟩
    · exact hos j (List.mem_of_head? (Option.join_eq_some_iff.mp hj))
    · exact hos j (List.mem_of_mem_tail hj)

theorem collect_of_decodeMembers {ms : List (String × Json)}
    (h : fields.decodeMembers make ms = .ok s) : fields.collect ms make = .ok s := by
  unfold decodeMembers at h
  split at h
  · cases h
  · exact h

theorem collect_eq_ok_iff {ms : List (String × Json)} :
    fields.collect ms make = .ok s ↔ fields.Takes s make (fields.names.map (ms.lookup ·)) := by
  induction fields with
  | done => exact collect_done_eq_ok
  | field f rest ih =>
    rw [collect_field_eq_ok]
    exact exists_congr fun a => and_congr_right fun _ => ih

theorem decodeItems_eq_ok_iff {fail : Nat → DecodeError} {n : Nat} {js left : List Json} :
    fields.decodeItems fail make n js = .ok (s, left) ↔
      fields.Takes s make (js.map some) ∧ js.drop fields.names.length = left := by
  induction fields generalizing n js with
  | done => rw [decodeItems, Except.ok.injEq, Prod.mk.injEq]; rfl
  | field f rest ih =>
    cases js with
    | nil =>
      rw [decodeItems]
      cases ha : f.absent with
      | none => simp [Takes, Field.Takes, ha]
      | some a =>
        rw [ih]
        simp [Takes, Field.Takes, ha]
    | cons j js =>
      rw [decodeItems]
      cases hj : f.codec.decode j with
      | error e => simp [Takes, Field.Takes, hj]
      | ok a =>
        rw [ih]
        simp [Takes, Field.Takes, hj, names]

end Fields

theorem Json.Tidy.of_mem_children {d : Nat} {j k : Json} (hj : j.Tidy (d + 1))
    (hk : k ∈ j.children) : k.Tidy d := by
  cases j with
  | arr js => exact Tidy.arr.mp hj k hk
  | obj ms =>
    obtain ⟨m, hm, rfl⟩ := List.mem_map.mp hk
    exact (Tidy.obj.mp hj).2 m hm
  | null | bool | num | str => cases hk

namespace Shape

variable {σ : Type} {shape : Shape σ} {s : σ} {j : Json}

/-- What a value has for each field, in the order of declaration. -/
def entries (shape : Shape σ) : Json → List (Option Json)
  | .obj ms => shape.fields.names.map (ms.lookup ·)
  | .arr js => js.map some
  | _ => []

theorem mem_children_of_entries {k : Json} (h : some k ∈ shape.entries j) : k ∈ j.children := by
  cases j with
  | obj ms =>
    obtain ⟨name, -, hk⟩ := List.mem_map.mp h
    exact List.mem_map_of_mem (f := Prod.snd) (Members.mem_of_lookup hk)
  | arr js =>
    obtain ⟨x, hx, hk⟩ := List.mem_map.mp h
    exact Option.some_inj.mp hk ▸ hx
  | null | bool | num | str => cases h

theorem decode_arr_eq_ok_iff {js : List Json} :
    shape.decode (.arr js) = .ok s ↔ shape.decodeItems js = .ok (s, []) := by
  simp only [decode]
  cases shape.decodeItems js with
  | error e => simp
  | ok r =>
    obtain ⟨t, left⟩ := r
    cases left <;> simp

/-- Whichever form a record has been read from, it is made of its entries. -/
theorem takes_of_decode (h : shape.decode j = .ok s) :
    shape.fields.Takes s shape.make (shape.entries j) := by
  cases j with
  | obj ms => exact Fields.collect_eq_ok_iff.mp (Fields.collect_of_decodeMembers h)
  | arr js => exact (Fields.decodeItems_eq_ok_iff.mp (decode_arr_eq_ok_iff.mp h)).1
  | null | bool | num | str => cases h

theorem found_of_decode (h : shape.decode j = .ok s) :
    shape.fields.Found j.children s shape.make :=
  Fields.found_of_takes (takes_of_decode h) fun _ => mem_children_of_entries

end Shape

end ContextServer
