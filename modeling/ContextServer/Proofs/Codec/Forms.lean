import ContextServer.Proofs.Codec.Acceptance
import ContextServer.Proofs.Codec.Lawful

/-!
The two forms of a record side by side. What counts of either form is one entry for each field in
the order of declaration, or the lack of one: an object has it under the name of the field, an
array at its place (`Shape.entries`). So an object that has all the fields is read as the array of
its entries is (`Shape.decodeMembers_eq_ok_iff`), and members of other names do not even change
the error (`Fields.decodeMembers_congr`). What is read of a record depends on a member or an item
only by what that is read as (`Fields.decodeMembers_same`, `Fields.decodeItems_same`), so that all
of this goes on within records.
-/

namespace ContextServer

/-! ### Entries -/

namespace Field

variable {σ α : Type} {name : String} {o : Option Json}

theorem takes_required {get : σ → α} {c : Codec α} {a : α} :
    (required name get c).Takes o a ↔ ∃ j, o = some j ∧ c.decode j = .ok a := by
  cases o <;> simp [Takes, required]

theorem takes_defaulted {get : σ → α} {c : Codec α} {value a : α} :
    (defaulted name get c value).Takes o a ↔
      (o = none ∧ a = value) ∨ ∃ j, o = some j ∧ c.decode j = .ok a := by
  cases o <;> simp [Takes, defaulted, eq_comm]

/-- Of a field that takes any JSON value, `null` is as good as nothing. -/
theorem takes_optional_json {get : σ → Option Json} {a : Option Json} :
    (optional name get .json).Takes o a ↔
      ((o = none ∨ o = some .null) ∧ a = none) ∨ ∃ j, o = some j ∧ j ≠ .null ∧ a = some j := by
  cases o with
  | none => simp [Takes, optional, eq_comm]
  | some j => cases j <;> simp [Takes, optional, Codec.option, Codec.json, Except.map, eq_comm]

end Field

/-- A table of texts is an object of texts, in the same order. -/
theorem Codec.table_string_decode_eq_ok {j : Json} {as : List (String × String)} :
    Codec.string.table.decode j = .ok as ↔ j = .obj (as.map fun m => (m.1, .str m.2)) := by
  cases j with
  | obj ms =>
    rw [table_decode_eq_ok, Json.obj.injEq]
    simp only [string_decode_eq_ok, ← Prod.ext_iff (y := (_, Json.str _))]
    rw [← List.forall₂_map_right_iff (R := Eq), List.forall₂_eq_eq_eq]
  | null | bool | num | str | arr => exact iff_of_false nofun nofun

namespace Fields

variable {σ τ : Type} {s : σ} {fields : Fields σ τ} {make : τ} {ms ns : List (String × Json)}

/-- Where each name occurs once, a member suits its field if the field can take it. -/
theorem suit_of_takes (hms : (ms.map Prod.fst).Nodup)
    (h : fields.Takes s make (fields.names.map (ms.lookup ·))) : fields.Suit ms := by
  induction fields with
  | done => trivial
  | field f rest ih =>
    obtain ⟨a, ha, h⟩ := h
    refine ⟨fun j hj => ⟨a, ?_⟩, ih h⟩
    have hl : ms.lookup f.name = some j := Members.lookup_of_mem hms hj
    simp only [names, List.map_cons, List.head?_cons, Option.join_some, hl] at ha
    exact ha

end Fields

namespace Shape

variable {σ : Type} {shape : Shape σ} {s : σ} {ms : List (String × Json)} {js : List Json}
  {j : Json}

/-- What a value has for field number `n`. -/
def entry (shape : Shape σ) (n : Nat) (j : Json) : Option Json := (shape.entries j)[n]?.join

theorem entry_zero : shape.entry 0 j = (shape.entries j).head?.join := by
  rw [entry, List.head?_eq_getElem?]

theorem entry_one : shape.entry 1 j = (shape.entries j).tail.head?.join := by
  rw [entry, List.head?_eq_getElem?, List.getElem?_tail]

/-- An object with all the fields is read as its entries are, one after the other. -/
theorem decodeMembers_eq_ok_iff (hn : shape.fields.names.Nodup) (hms : (ms.map Prod.fst).Nodup)
    (hjs : shape.fields.names.map (ms.lookup ·) = js.map some) :
    shape.decodeMembers ms = .ok s ↔ shape.decodeItems js = .ok (s, []) := by
  have hlen : js.length = shape.fields.names.length := by
    rw [← List.length_map some, ← hjs, List.length_map]
  rw [decodeMembers, decodeItems, Fields.decodeMembers_eq_ok hn, Fields.collect_eq_ok_iff,
    Fields.decodeItems_eq_ok_iff, ← hjs]
  constructor
  · rintro ⟨-, h⟩
    exact ⟨h, List.drop_of_length_le hlen.le⟩
  · rintro ⟨h, -⟩
    exact ⟨Fields.suit_of_takes hms h, h⟩

end Shape

/-! ### Members of other names -/

namespace Members

variable {α : Type} {names : List String} {k : String}

theorem lookup_filter_mem (hk : k ∈ names) (ms : List (String × α)) :
    (ms.filter (·.1 ∈ names)).lookup k = ms.lookup k := by
  induction ms with
  | nil => rfl
  | cons m r ih =>
    by_cases hm : m.1 ∈ names
    · rw [List.filter_cons_of_pos (by simpa using hm)]
      by_cases hkm : k = m.1
      · rw [lookup_head hkm, lookup_head hkm]
      · rw [lookup_tail hkm, lookup_tail hkm, ih]
    · rw [List.filter_cons_of_neg (by simpa using hm), ih,
        lookup_tail fun heq => hm (heq ▸ hk)]

end Members

namespace Fields

variable {σ τ : Type} {fields : Fields σ τ} {ms ns : List (String × Json)}

theorem collect_congr (h : ∀ k ∈ fields.names, ms.lookup k = ns.lookup k) (make : τ) :
    fields.collect ms make = fields.collect ns make := by
  induction fields with
  | done => rfl
  | field f rest ih =>
    have hrest (make) := ih (fun k hk => h k (List.mem_cons_of_mem _ hk)) make
    simp only [collect, h f.name (by simp [names]), hrest]

theorem findSome?_fault?_filter (ms : List (String × Json)) :
    (ms.filter (·.1 ∈ fields.names)).findSome? (fields.fault? ·) =
      ms.findSome? (fields.fault? ·) := by
  induction ms with
  | nil => rfl
  | cons m r ih =>
    by_cases hm : m.1 ∈ fields.names
    · rw [List.filter_cons_of_pos (by simpa using hm), List.findSome?_cons, List.findSome?_cons, ih]
    · rw [List.filter_cons_of_neg (by simpa using hm), ih, List.findSome?_cons,
        fault?_of_notMem hm]

/-- Members of other names change neither the value nor the error. -/
theorem decodeMembers_congr
    (h : ms.filter (·.1 ∈ fields.names) = ns.filter (·.1 ∈ fields.names)) (make : τ) :
    fields.decodeMembers make ms = fields.decodeMembers make ns := by
  have hl : ∀ k ∈ fields.names, ms.lookup k = ns.lookup k := fun k hk => by
    rw [← Members.lookup_filter_mem hk ms, h, Members.lookup_filter_mem hk ns]
  rw [decodeMembers, decodeMembers, ← findSome?_fault?_filter ms, h, findSome?_fault?_filter ns,
    collect_congr hl]

end Fields

/-! ### Within a record -/

/-- The same value, or errors that are the same as far as `g` tells. -/
def SameUpTo {α β : Type} (g : DecodeError → β) (x y : Except DecodeError α) : Prop :=
  x.mapError g = y.mapError g

namespace SameUpTo

variable {α β γ : Type} {g : DecodeError → β} {x y z : Except DecodeError α}

theorem refl (x : Except DecodeError α) : SameUpTo g x x := rfl

theorem cases (h : SameUpTo g x y) :
    (∃ a, x = .ok a ∧ y = .ok a) ∨ ∃ e f, x = .error e ∧ y = .error f ∧ g e = g f := by
  cases x with
  | ok a =>
    cases y with
    | ok b => exact .inl ⟨a, rfl, congrArg _ (Except.ok.inj h).symm⟩
    | error f => cases h
  | error e =>
    cases y with
    | ok b => cases h
    | error f => exact .inr ⟨e, f, rfl, rfl, Except.error.inj h⟩

theorem error {e f : DecodeError} (h : g e = g f) :
    SameUpTo g (.error e : Except DecodeError α) (.error f) :=
  congrArg Except.error h

theorem eq (h : SameUpTo id x y) : x = y := by
  rcases h.cases with ⟨a, rfl, rfl⟩ | ⟨e, f, rfl, rfl, he⟩
  · rfl
  · exact congrArg _ he

/-- If `g` tells nothing of errors, only values count. -/
theorem iff_ok : SameUpTo (fun _ => ()) x y ↔ ∀ a, x = .ok a ↔ y = .ok a := by
  constructor
  · intro h a
    rcases h.cases with ⟨b, rfl, rfl⟩ | ⟨e, f, rfl, rfl, -⟩
    · rfl
    · exact iff_of_false nofun nofun
  · intro h
    cases x with
    | ok a => rw [(h a).mp rfl]; exact refl _
    | error e =>
      cases y with
      | ok b => cases (h b).mpr rfl
      | error f => rfl

theorem bind {p q : α → Except DecodeError γ} (h : SameUpTo g x y)
    (hp : ∀ a, SameUpTo g (p a) (q a)) : SameUpTo g (x >>= p) (y >>= q) := by
  rcases h.cases with ⟨a, rfl, rfl⟩ | ⟨e, e', rfl, rfl, he⟩
  · exact hp a
  · exact error he

theorem map (h : SameUpTo g x y) (f : α → γ) : SameUpTo g (x.map f) (y.map f) := by
  rcases h.cases with ⟨a, rfl, rfl⟩ | ⟨e, e', rfl, rfl, he⟩
  · exact refl _
  · exact error he

end SameUpTo

namespace Fields

variable {σ τ β : Type} {g : DecodeError → β} {name : String} {j k : Json}

/-- A field of this name reads the one value as it reads the other. -/
def ReadsSame (g : DecodeError → β) (name : String) (j k : Json) :
    {τ : Type} → Fields σ τ → Prop
  | _, done => True
  | _, field f rest =>
    (f.name = name → SameUpTo g (f.codec.decode j) (f.codec.decode k)) ∧ ReadsSame g name j k rest

/-- The record has a field of this name, which is read as `c` has it. -/
inductive Has {α : Type} (name : String) (c : Codec α) : {τ : Type} → Fields σ τ → Prop
  | head {τ : Type} {f : Field σ α} {rest : Fields σ τ} (hname : f.name = name) (hc : f.codec = c) :
      Has name c (field f rest)
  | tail {γ τ : Type} {f : Field σ γ} {rest : Fields σ τ} (h : Has name c rest) :
      Has name c (field f rest)

variable {fields : Fields σ τ} {before after : List (String × Json)}

theorem Has.mem_names {α : Type} {c : Codec α} (h : fields.Has name c) : name ∈ fields.names := by
  induction h with
  | head hname hc => rw [names, hname]; exact List.mem_cons_self
  | tail h ih => exact List.mem_cons_of_mem _ ih

theorem readsSame_of_notMem (h : name ∉ fields.names) : fields.ReadsSame g name j k := by
  induction fields with
  | done => trivial
  | field f rest ih =>
    rw [names, List.mem_cons, not_or] at h
    exact ⟨fun hname => absurd hname.symm h.1, ih h.2⟩

theorem Has.readsSame {α : Type} {c : Codec α} (h : fields.Has name c) (hn : fields.names.Nodup)
    (hc : SameUpTo g (c.decode j) (c.decode k)) : fields.ReadsSame g name j k := by
  induction h with
  | head hname hcodec =>
    rw [names, hname, List.nodup_cons] at hn
    exact ⟨fun _ => hcodec ▸ hc, readsSame_of_notMem hn.1⟩
  | tail h ih =>
    rw [names, List.nodup_cons] at hn
    exact ⟨fun hname => absurd (hname ▸ h.mem_names) hn.1, ih hn.2⟩

theorem fault?_same (h : fields.ReadsSame g name j k) :
    (fields.fault? (name, j)).map g = (fields.fault? (name, k)).map g := by
  induction fields with
  | done => rfl
  | field f rest ih =>
    rw [fault?, fault?]
    by_cases hname : name = f.name
    · rw [if_pos hname, if_pos hname]
      rcases (h.1 hname.symm).cases with ⟨a, hj, hk⟩ | ⟨e, e', hj, hk, he⟩
      · rw [hj, hk]
      · rw [hj, hk]
        exact congrArg some he
    · rw [if_neg hname, if_neg hname]
      exact ih h.2

theorem findSome?_fault?_same (h : fields.ReadsSame g name j k)
    (before after : List (String × Json)) :
    ((before ++ (name, j) :: after).findSome? (fields.fault? ·)).map g =
      ((before ++ (name, k) :: after).findSome? (fields.fault? ·)).map g := by
  have hf := fault?_same h
  rw [List.findSome?_append, List.findSome?_append, List.findSome?_cons, List.findSome?_cons]
  generalize fields.fault? (name, j) = x, fields.fault? (name, k) = y at hf
  cases before.findSome? (fields.fault? ·) with
  | some e => rfl
  | none =>
    cases x with
    | none =>
      cases y with
      | none => rfl
      | some e => cases hf
    | some e =>
      cases y with
      | none => cases hf
      | some e' => exact hf

/-- What a field is given by its member, or for the lack of one. -/
def fieldValue {α : Type} (f : Field σ α) (ms : List (String × Json)) : Except DecodeError α :=
  match ms.lookup f.name with
  | some j => f.codec.decode j
  | none =>
    match f.absent with
    | some a => .ok a
    | none => .error (.missing f.name)

theorem collect_field {α : Type} {f : Field σ α} {rest : Fields σ τ} (ms : List (String × Json))
    (make : α → τ) : (field f rest).collect ms make =
      fieldValue f ms >>= fun a => rest.collect ms (make a) := by
  rw [collect, fieldValue]
  cases ms.lookup f.name with
  | some j => cases hj : f.codec.decode j <;> simp only [hj] <;> rfl
  | none => cases f.absent <;> rfl

theorem fieldValue_same {α : Type} {f : Field σ α}
    (h : f.name = name → SameUpTo g (f.codec.decode j) (f.codec.decode k)) :
    SameUpTo g (fieldValue f (before ++ (name, j) :: after))
      (fieldValue f (before ++ (name, k) :: after)) := by
  rw [fieldValue, fieldValue, List.lookup_append, List.lookup_append]
  cases before.lookup f.name with
  | some x => exact .refl _
  | none =>
    rw [Option.none_or, Option.none_or]
    by_cases hname : f.name = name
    · rw [Members.lookup_head (m := (name, j)) hname, Members.lookup_head (m := (name, k)) hname]
      exact h hname
    · rw [Members.lookup_tail (m := (name, j)) hname, Members.lookup_tail (m := (name, k)) hname]
      exact .refl _

theorem collect_same (h : fields.ReadsSame g name j k) (make : τ) :
    SameUpTo g (fields.collect (before ++ (name, j) :: after) make)
      (fields.collect (before ++ (name, k) :: after) make) := by
  induction fields with
  | done => exact .refl _
  | field f rest ih =>
    rw [collect_field, collect_field]
    exact (fieldValue_same h.1).bind fun a => ih h.2 (make a)

theorem decodeMembers_same (h : fields.ReadsSame g name j k) (make : τ) :
    SameUpTo g (fields.decodeMembers make (before ++ (name, j) :: after))
      (fields.decodeMembers make (before ++ (name, k) :: after)) := by
  have hf := findSome?_fault?_same h before after
  rw [decodeMembers, decodeMembers]
  cases hj : (before ++ (name, j) :: after).findSome? (fields.fault? ·) <;>
    cases hk : (before ++ (name, k) :: after).findSome? (fields.fault? ·) <;> rw [hj, hk] at hf
  · exact collect_same h make
  · cases hf
  · cases hf
  · exact .error (Option.some_inj.mp hf)

theorem decodeItems_cons {α : Type} {f : Field σ α} {rest : Fields σ τ}
    (fail : Nat → DecodeError) (make : α → τ) (n : Nat) (j : Json) (js : List Json) :
    (field f rest).decodeItems fail make n (j :: js) =
      f.codec.decode j >>= fun a => rest.decodeItems fail (make a) (n + 1) js := by
  rw [decodeItems]
  cases f.codec.decode j <;> rfl

/-- The item at the place of a field counts by what it is read as. -/
theorem decodeItems_same {items rest : List Json} {fail : Nat → DecodeError} {n : Nat}
    (h : fields.ReadsSame g name j k) (hn : fields.names[items.length]? = some name) (make : τ) :
    SameUpTo g (fields.decodeItems fail make n (items ++ j :: rest))
      (fields.decodeItems fail make n (items ++ k :: rest)) := by
  induction fields generalizing items n with
  | done => simp [names] at hn
  | field f fs ih =>
    cases items with
    | nil =>
      have hname : f.name = name := by simpa [names] using hn
      rw [List.nil_append, List.nil_append, decodeItems_cons, decodeItems_cons]
      exact (h.1 hname).bind fun _ => .refl _
    | cons x items =>
      rw [List.cons_append, List.cons_append, decodeItems_cons, decodeItems_cons]
      exact (SameUpTo.refl _).bind fun a => ih h.2 (by simpa [names] using hn) (make a)

end Fields

/-- A record in an array may have more items than fields, and then how many decides. -/
theorem Shape.decode_arr_same {σ β : Type} {g : DecodeError → β} {shape : Shape σ}
    {js ks : List Json} (hlen : js.length = ks.length)
    (h : SameUpTo g (shape.decodeItems js) (shape.decodeItems ks)) :
    SameUpTo g (shape.decode (.arr js)) (shape.decode (.arr ks)) := by
  simp only [decode]
  rcases h.cases with ⟨⟨s, left⟩, hj, hk⟩ | ⟨e, e', hj, hk, he⟩
  · rw [hj, hk]
    cases left with
    | nil => exact .refl _
    | cons => exact .error (by rw [hlen])
  · rw [hj, hk]
    exact .error he

namespace Codec

variable {α β : Type} {g : DecodeError → β} {c : Codec α} {j k : Json}

theorem list_same {before after : List Json} (h : SameUpTo g (c.decode j) (c.decode k)) :
    SameUpTo g (c.list.decode (.arr (before ++ j :: after)))
      (c.list.decode (.arr (before ++ k :: after))) := by
  show SameUpTo g (List.mapM _ _) (List.mapM _ _)
  induction before with
  | nil =>
    rw [List.nil_append, List.nil_append, List.mapM_cons, List.mapM_cons]
    exact h.bind fun _ => .refl _
  | cons x before ih =>
    rw [List.cons_append, List.cons_append, List.mapM_cons, List.mapM_cons]
    exact (SameUpTo.refl _).bind fun _ => ih.bind fun _ => .refl _

/-- A value that is not `null` is read as if it had to be there. -/
theorem option_same (hj : j ≠ .null) (hk : k ≠ .null) (h : SameUpTo g (c.decode j) (c.decode k)) :
    SameUpTo g (c.option.decode j) (c.option.decode k) := by
  have some_of {x : Json} (hx : x ≠ .null) : c.option.decode x = (c.decode x).map some := by
    cases x with
    | null => exact absurd rfl hx
    | _ => rfl
  rw [some_of hj, some_of hk]
  exact h.map some

end Codec

end ContextServer
