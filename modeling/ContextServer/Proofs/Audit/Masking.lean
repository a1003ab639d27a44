import ContextServer.Audit
import ContextServer.Codec.Record

/-!
What masking hides. Two values are alike if nothing but what lies under sensitive names tells them
apart: masking takes them to one value (`masked_eq_of_alike`), and a record none of whose fields has
a sensitive name is read from both of them or from neither (`Shape.agrees_of_fields`).
-/

namespace ContextServer

namespace Audit

mutual
/-- Equal, except for what lies under sensitive names at any depth. -/
inductive Alike : Json → Json → Prop
  | same (j : Json) : Alike j j
  | arr {xs ys : List Json} (h : AlikeItems xs ys) : Alike (.arr xs) (.arr ys)
  | obj {ms ns : List (String × Json)} (h : AlikeMembers ms ns) : Alike (.obj ms) (.obj ns)
inductive AlikeItems : List Json → List Json → Prop
  | nil : AlikeItems [] []
  | cons {x y : Json} {xs ys : List Json} (h : Alike x y) (hr : AlikeItems xs ys) :
      AlikeItems (x :: xs) (y :: ys)
inductive AlikeMembers : List (String × Json) → List (String × Json) → Prop
  | nil : AlikeMembers [] []
  | hidden {k : String} {x y : Json} {ms ns : List (String × Json)} (hk : isSensitive k = true)
      (hr : AlikeMembers ms ns) : AlikeMembers ((k, x) :: ms) ((k, y) :: ns)
  | shown {k : String} {x y : Json} {ms ns : List (String × Json)} (h : Alike x y)
      (hr : AlikeMembers ms ns) : AlikeMembers ((k, x) :: ms) ((k, y) :: ns)
end

theorem alikeItems_refl (xs : List Json) : AlikeItems xs xs := by
  induction xs with
  | nil => exact .nil
  | cons x xs ih => exact .cons (.same x) ih

theorem alikeMembers_refl (ms : List (String × Json)) : AlikeMembers ms ms := by
  induction ms with
  | nil => exact .nil
  | cons m ms ih => exact .shown (.same m.2) ih

theorem length_eq_of_alike {xs ys : List Json} (h : AlikeItems xs ys) : xs.length = ys.length := by
  induction xs generalizing ys with
  | nil =>
    cases h
    rfl
  | cons x xs ih =>
    cases h with
    | cons _ hr => exact congrArg (· + 1) (ih hr)

mutual
theorem masked_eq_of_alike : {j k : Json} → Alike j k → masked j = masked k
  | _, _, .same _ => rfl
  | _, _, .arr h => by rw [masked, masked, maskedItems_eq_of_alike h]
  | _, _, .obj h => by rw [masked, masked, maskedMembers_eq_of_alike h]
theorem maskedItems_eq_of_alike : {xs ys : List Json} → AlikeItems xs ys →
    maskedItems xs = maskedItems ys
  | _, _, .nil => rfl
  | _, _, .cons h hr => by
    rw [maskedItems, maskedItems, masked_eq_of_alike h, maskedItems_eq_of_alike hr]
theorem maskedMembers_eq_of_alike : {ms ns : List (String × Json)} → AlikeMembers ms ns →
    maskedMembers ms = maskedMembers ns
  | _, _, .nil => rfl
  | _, _, .hidden hk hr => by
    rw [maskedMembers, maskedMembers, if_pos hk, if_pos hk, maskedMembers_eq_of_alike hr]
  | _, _, .shown h hr => by
    rw [maskedMembers, maskedMembers, masked_eq_of_alike h, maskedMembers_eq_of_alike hr]
end

/-- Params that are alike are shown as one value. -/
theorem shown_eq_of_alike {p q : Option Json} (h : Option.Rel Alike p q) : shown p = shown q := by
  cases h with
  | some h => exact masked_eq_of_alike h
  | none => rfl

/-- Under a name that is not sensitive both lists hold values that are alike, or neither holds
one. -/
theorem lookup_alike {k : String} (hk : isSensitive k = false) {ms ns : List (String × Json)}
    (h : AlikeMembers ms ns) : Option.Rel Alike (ms.lookup k) (ns.lookup k) := by
  induction ms generalizing ns with
  | nil =>
    cases h
    exact .none
  | cons m ms ih =>
    cases h with
    | @hidden k' x y _ _ hk' hr =>
      have hne : (k == k') = false := beq_eq_false_iff_ne.mpr fun he => by
        rw [he, hk'] at hk
        cases hk
      simp only [List.lookup_cons, hne]
      exact ih hr
    | @shown k' x y _ _ h hr =>
      simp only [List.lookup_cons]
      cases k == k' with
      | true => exact .some h
      | false => exact ih hr

end Audit

open Audit

/-- Two results that are related, or two faults. -/
inductive Agree {α β : Type} (R : α → β → Prop) : Except DecodeError α → Except DecodeError β → Prop
  | ok {a : α} {b : β} (h : R a b) : Agree R (.ok a) (.ok b)
  | error {e e' : DecodeError} : Agree R (.error e) (.error e')

namespace Agree

variable {α β : Type}

theorem refl {R : α → α → Prop} (h : ∀ a, R a a) : ∀ r, Agree R r r
  | .ok a => .ok (h a)
  | .error _ => .error

theorem map_some {r r' : Except DecodeError α} (h : Agree Eq r r') :
    Agree Eq (r.map some) (r'.map some) := by
  cases h with
  | ok h => exact .ok (congrArg some h)
  | error => exact .error

end Agree

/-- What is read from values that are alike is related. -/
def Codec.Agrees {α : Type} (c : Codec α) (R : α → α → Prop) : Prop :=
  ∀ j k, Alike j k → Agree R (c.decode j) (c.decode k)

namespace Codec

theorem json_agrees : json.Agrees Alike := fun _ _ h => .ok h

theorem string_agrees : string.Agrees Eq := by
  intro j k h
  cases h with
  | same => exact .refl (fun _ => rfl) _
  | arr | obj => exact .error

theorem option_agrees {α : Type} {c : Codec α} (hc : c.Agrees Eq) : c.option.Agrees Eq := by
  intro j k h
  cases h with
  | same => exact .refl (fun _ => rfl) _
  | arr h => exact (hc _ _ (.arr h)).map_some
  | obj h => exact (hc _ _ (.obj h)).map_some

end Codec

/-- No field has a sensitive name, and what the fields read from values that are alike is related.
Constructors that are related make of it records that `R` relates. -/
inductive Fields.Agrees {σ : Type} (R : σ → σ → Prop) :
    {τ : Type} → Fields σ τ → (τ → τ → Prop) → Prop
  | done : Agrees R .done R
  | field {α τ : Type} {f : Field σ α} {rest : Fields σ τ} {Q : α → α → Prop} {S : τ → τ → Prop}
      (name : isSensitive f.name = false) (codec : f.codec.Agrees Q)
      (absent : ∀ a, f.absent = some a → Q a a) (hrest : rest.Agrees R S) :
      Agrees R (.field f rest) fun make make' => ∀ a b, Q a b → S (make a) (make' b)

namespace Fields

variable {σ τ : Type} {R : σ → σ → Prop} {S : τ → τ → Prop} {fields : Fields σ τ} {make make' : τ}

/-- A member with a sensitive name belongs to no field. -/
theorem fault?_of_isSensitive (h : fields.Agrees R S) {k : String} (hk : isSensitive k = true)
    (j : Json) : fields.fault? (k, j) = none := by
  induction h with
  | done => rfl
  | field name _ _ _ ih =>
    rw [fault?, if_neg fun he => ?_]
    · exact ih
    · rw [← he, hk] at name
      cases name

/-- Members of one name that are alike are both faulty or neither is. -/
theorem fault?_alike (h : fields.Agrees R S) {x y : Json} (hxy : Alike x y) (k : String) :
    (fields.fault? (k, x)).isSome = (fields.fault? (k, y)).isSome := by
  induction h with
  | done => rfl
  | @field _ _ f _ _ _ _ codec _ _ ih =>
    rw [fault?, fault?]
    by_cases hk : k = f.name
    · rw [if_pos hk, if_pos hk]
      have hd := codec x y hxy
      generalize f.codec.decode x = r, f.codec.decode y = q at hd ⊢
      cases hd <;> rfl
    · rw [if_neg hk, if_neg hk]
      exact ih

theorem faults_alike (h : fields.Agrees R S) {ms ns : List (String × Json)}
    (hm : AlikeMembers ms ns) :
    (ms.findSome? (fields.fault? ·)).isSome = (ns.findSome? (fields.fault? ·)).isSome := by
  induction ms generalizing ns with
  | nil =>
    cases hm
    rfl
  | cons m ms ih =>
    cases hm with
    | hidden hk hr =>
      rw [List.findSome?_cons, List.findSome?_cons, fault?_of_isSensitive h hk,
        fault?_of_isSensitive h hk]
      exact ih hr
    | @shown k x y _ _ hxy hr =>
      have hf := fault?_alike h hxy k
      rw [List.findSome?_cons, List.findSome?_cons]
      cases hx : fields.fault? (k, x) <;> cases hy : fields.fault? (k, y) <;>
        simp only [hx, hy, Option.isSome_some, Option.isSome_none, reduceCtorEq] at hf
      · exact ih hr
      · rfl

theorem collect_alike (h : fields.Agrees R S) (hmake : S make make')
    {ms ns : List (String × Json)} (hm : AlikeMembers ms ns) :
    Agree R (fields.collect ms make) (fields.collect ns make') := by
  induction h with
  | done => exact .ok hmake
  | @field _ _ f _ _ _ name codec absent _ ih =>
    rw [collect, collect]
    have hl := lookup_alike name hm
    generalize ms.lookup f.name = x, ns.lookup f.name = y at hl ⊢
    cases hl with
    | @some x y hxy =>
      have hd := codec x y hxy
      dsimp only
      generalize f.codec.decode x = r, f.codec.decode y = q at hd ⊢
      cases hd with
      | ok hab => exact ih (hmake _ _ hab)
      | error => exact .error
    | none =>
      cases ha : f.absent with
      | none => exact .error
      | some a => exact ih (hmake a a (absent a ha))

theorem decodeItems_alike (h : fields.Agrees R S) (hmake : S make make')
    (fail : Nat → DecodeError) (n : Nat) {js ks : List Json} (hj : AlikeItems js ks) :
    Agree (fun p q => R p.1 q.1 ∧ p.2.length = q.2.length)
      (fields.decodeItems fail make n js) (fields.decodeItems fail make' n ks) := by
  induction h generalizing n js ks with
  | done => exact .ok ⟨hmake, length_eq_of_alike hj⟩
  | @field _ _ f _ _ _ name codec absent _ ih =>
    cases hj with
    | nil =>
      rw [decodeItems, decodeItems]
      cases ha : f.absent with
      | none => exact .error
      | some a => exact ih (hmake a a (absent a ha)) (n + 1) .nil
    | @cons x y _ _ hxy hr =>
      rw [decodeItems, decodeItems]
      have hd := codec x y hxy
      generalize f.codec.decode x = r, f.codec.decode y = q at hd ⊢
      cases hd with
      | ok hab => exact ih (hmake _ _ hab) (n + 1) hr
      | error => exact .error

end Fields

/-- A record none of whose fields has a sensitive name is read from both of two values that are
alike, or from neither. -/
theorem Shape.agrees_of_fields {σ : Type} {shape : Shape σ} {R : σ → σ → Prop}
    {S : shape.τ → shape.τ → Prop} (h : shape.fields.Agrees R S) (hmake : S shape.make shape.make) :
    shape.codec.Agrees R := by
  have members {ms ns : List (String × Json)} (hm : AlikeMembers ms ns) :
      Agree R (shape.decode (.obj ms)) (shape.decode (.obj ns)) := by
    have hf := Fields.faults_alike h hm
    show Agree R (shape.fields.decodeMembers shape.make ms)
      (shape.fields.decodeMembers shape.make ns)
    rw [Fields.decodeMembers, Fields.decodeMembers]
    cases hx : ms.findSome? (shape.fields.fault? ·) <;>
      cases hy : ns.findSome? (shape.fields.fault? ·) <;>
      simp only [hx, hy, Option.isSome_some, Option.isSome_none, reduceCtorEq] at hf
    · exact Fields.collect_alike h hmake hm
    · exact .error
  have items {xs ys : List Json} (hx : AlikeItems xs ys) :
      Agree R (shape.decode (.arr xs)) (shape.decode (.arr ys)) := by
    have hd := Fields.decodeItems_alike h hmake (.tooShort · shape.title shape.size) 0 hx
    rw [Shape.decode, Shape.decode, Shape.decodeItems, Shape.decodeItems]
    generalize shape.fields.decodeItems _ shape.make 0 xs = r,
      shape.fields.decodeItems _ shape.make 0 ys = q at hd ⊢
    cases hd with
    | error => exact .error
    | @ok p q h =>
      obtain ⟨s, left⟩ := p
      obtain ⟨t, left'⟩ := q
      cases left <;> cases left' <;> simp only [List.length_nil, List.length_cons] at h
      · exact .ok h.1
      · omega
      · omega
      · exact .error
  intro j k hjk
  cases hjk with
  | arr h => exact items h
  | obj h => exact members h
  | same j =>
    cases j with
    | arr xs => exact items (alikeItems_refl xs)
    | obj ms => exact members (alikeMembers_refl ms)
    | null | bool | num | str => exact .error

end ContextServer
