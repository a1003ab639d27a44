import ContextServer.Proofs.Audit.Masking
import ContextServer.Proofs.Audit.Worklist

/-!
What masking does at each place. A place is open if no sensitive name is on the way to it. At an
open place the masked value has what the value itself has there, but for the values within, which
have places of their own; and right behind a sensitive name it has the mask (`masks_masked`).
Nothing but the masked value is like that (`Masks.eq_masked`), and the values that are masked to it
are those that differ below sensitive names only (`alike_of_masked_eq`).
-/

namespace ContextServer

namespace Audit

open Json (Place)

theorem occursIn_iff {part cs : List Char} : occursIn part cs = true ↔ part <:+: cs := by
  induction cs with
  | nil => simp [occursIn]
  | cons c cs ih =>
    rw [occursIn, Bool.or_eq_true, ih, List.isPrefixOf_iff_prefix, List.infix_cons_iff]

theorem isSensitive_iff {name : String} :
    isSensitive name = true ↔ Text.lower (Text.trim name.toList) ∈ exactNames ∨
      ∃ part ∈ fragments, part <:+: Text.lower (Text.trim name.toList) := by
  simp only [isSensitive, Bool.or_eq_true, List.contains_iff_mem, List.any_eq_true, occursIn_iff]

/-- The value at a position within a value, unless its name there is sensitive. -/
def openChild? : Json → Nat → Option Json
  | .arr items, i => items[i]?
  | .obj members, i => (members[i]?.filter fun m => !isSensitive m.1).map Prod.snd
  | _, _ => none

/-- The value at a place, unless a sensitive name is on the way to it. -/
def openAt? (j : Json) : Place → Option Json
  | [] => some j
  | i :: p => (openChild? j i).bind (openAt? · p)

/-- A value without what the values within it are: the names of an object, the length of an array,
and all of any other value. -/
def face : Json → Json
  | .arr items => .arr (items.map fun _ => .null)
  | .obj members => .obj (members.map fun m => (m.1, .null))
  | j => j

/-- The second value has, at every open place of either, what the first one has there, and the mask
behind every sensitive name that is reached so. -/
structure Masks (j k : Json) : Prop where
  shows : ∀ p, (openAt? k p).map face = (openAt? j p).map face
  hides : ∀ p members i m, openAt? j p = some (.obj members) → members[i]? = some m →
    isSensitive m.1 = true → k.at? (p ++ [i]) = some mask

theorem children_of_openChild? {j k : Json} {i : Nat} (h : openChild? j i = some k) :
    j.children[i]? = some k := by
  cases j with
  | arr items => exact h
  | obj members =>
    rw [openChild?, Option.map_eq_some_iff] at h
    obtain ⟨m, hm, rfl⟩ := h
    rw [Json.children, List.getElem?_map, (Option.filter_eq_some_iff.mp hm).1]
    rfl
  | _ => cases h

theorem at?_of_openAt? {j k : Json} {p : Place} (h : openAt? j p = some k) : j.at? p = some k := by
  induction p generalizing j with
  | nil => exact h
  | cons i p ih =>
    rw [openAt?, Option.bind_eq_some_iff] at h
    obtain ⟨x, hx, hp⟩ := h
    rw [Json.at?, children_of_openChild? hx]
    exact ih hp

theorem openChild?_masked (j : Json) (i : Nat) :
    openChild? (masked j) i = (openChild? j i).map masked := by
  cases j with
  | arr items => rw [masked, maskedItems_eq, openChild?, openChild?, List.getElem?_map]
  | obj members =>
    rw [masked, maskedMembers_eq, openChild?, openChild?, List.getElem?_map]
    cases members[i]? with
    | none => rfl
    | some m => cases hs : isSensitive m.1 <;> simp [Option.filter_some, hs]
  | _ => rfl

/-- The open places of a masked value are those of the value itself, and what is there is masked. -/
theorem openAt?_masked (j : Json) (p : Place) :
    openAt? (masked j) p = (openAt? j p).map masked := by
  induction p generalizing j with
  | nil => rfl
  | cons i p ih =>
    rw [openAt?, openAt?, openChild?_masked]
    cases openChild? j i with
    | none => rfl
    | some k => exact ih k

theorem face_masked (j : Json) : face (masked j) = face j := by
  cases j with
  | arr items => rw [masked, maskedItems_eq, face, face, List.map_map]; rfl
  | obj members => rw [masked, maskedMembers_eq, face, face, List.map_map]; rfl
  | _ => rfl

theorem masks_masked (j : Json) : Masks j (masked j) := by
  constructor
  · intro p
    rw [openAt?_masked, Option.map_map]
    exact congrArg (Option.map · _) (funext face_masked)
  · intro p members i m hp hm hs
    have hmasked : openAt? (masked j) p = some (masked (.obj members)) := by
      rw [openAt?_masked, hp]
      rfl
    rw [Json.at?_append, at?_of_openAt? hmasked]
    simp [Json.at?, Json.children, masked, maskedMembers_eq, hm, hs]

/-! ### Only the masked value is like that -/

theorem nodes_lt_of_openChild? {j k : Json} {i : Nat} (h : openChild? j i = some k) :
    k.nodes < j.nodes := by
  have hmem : k ∈ j.children := List.mem_of_getElem? (children_of_openChild? h)
  rw [j.nodes_eq, Nat.lt_succ_iff]
  exact List.le_sum_of_mem (List.mem_map_of_mem hmem)

/-- What holds of a value and its masked one holds of the values within them. -/
theorem Masks.child {j k x y : Json} {i : Nat} (h : Masks j k) (hx : openChild? j i = some x)
    (hy : openChild? k i = some y) : Masks x y := by
  constructor
  · intro p
    have hp := h.shows (i :: p)
    rw [openAt?, openAt?, hx, hy] at hp
    exact hp
  · intro p members n m hp hm hs
    have hj : openAt? j (i :: p) = some (.obj members) := by
      rw [openAt?, hx]
      exact hp
    have hk := h.hides (i :: p) members n m hj hm hs
    rw [List.cons_append, Json.at?, children_of_openChild? hy] at hk
    exact hk

theorem Masks.eq_masked {j k : Json} (h : Masks j k) : k = masked j := by
  induction hn : j.nodes using Nat.strongRecOn generalizing j k with
  | ind n ih =>
    subst hn
    have hchild {i : Nat} {x y : Json} (hx : openChild? j i = some x)
        (hy : openChild? k i = some y) : y = masked x :=
      ih x.nodes (nodes_lt_of_openChild? hx) (h.child hx hy) rfl
    have hface : face k = face j := Option.some.inj (h.shows [])
    cases j with
    | arr items =>
      cases k with
      | arr items' =>
        rw [masked, maskedItems_eq, Json.arr.injEq]
        apply List.ext_getElem?
        intro i
        have hi := congrArg (·[i]?) (Json.arr.inj hface)
        simp only [List.getElem?_map] at hi ⊢
        cases hx : items[i]? with
        | none => simpa [hx] using hi
        | some x =>
          obtain ⟨y, hy⟩ : ∃ y, items'[i]? = some y := by simpa [hx] using hi
          rw [hy, hchild hx hy]
          rfl
      | _ => cases hface
    | obj members =>
      cases k with
      | obj members' =>
        rw [masked, maskedMembers_eq, Json.obj.injEq]
        apply List.ext_getElem?
        intro i
        have hi := congrArg (·[i]?) (Json.obj.inj hface)
        simp only [List.getElem?_map] at hi ⊢
        cases hm : members[i]? with
        | none => simpa [hm] using hi
        | some m =>
          obtain ⟨m', hm', hname⟩ : ∃ m', members'[i]? = some m' ∧ m'.1 = m.1 := by
            simpa [hm] using hi
          rw [hm', Option.map_some, Option.some.injEq, Prod.ext_iff, hname, and_iff_right rfl]
          cases hs : isSensitive m.1 with
          | true =>
            have hmask := h.hides [] members i m rfl hm hs
            simpa [Json.at?, Json.children, hm'] using hmask
          | false =>
            have hx : openChild? (.obj members) i = some m.2 := by
              simp [openChild?, hm, Option.filter_some, hs]
            have hy : openChild? (.obj members') i = some m'.2 := by
              simp [openChild?, hm', Option.filter_some, hname, hs]
            simpa using hchild hx hy
      | _ => cases hface
    | null | bool | num | str =>
      cases k with
      | arr | obj => cases hface
      | _ => exact hface

/-! ### What is masked to the same -/

mutual
theorem masked_masked : (j : Json) → masked (masked j) = masked j
  | .arr items => by rw [masked, masked, maskedItems_masked]
  | .obj members => by rw [masked, masked, maskedMembers_masked]
  | .null | .bool _ | .num _ | .str _ => rfl
theorem maskedItems_masked : (xs : List Json) → maskedItems (maskedItems xs) = maskedItems xs
  | [] => rfl
  | x :: xs => by rw [maskedItems, maskedItems, masked_masked x, maskedItems_masked xs]
theorem maskedMembers_masked : (ms : List (String × Json)) →
    maskedMembers (maskedMembers ms) = maskedMembers ms
  | [] => rfl
  | (k, x) :: ms => by
    rw [maskedMembers, maskedMembers, maskedMembers_masked ms]
    split
    · rfl
    · rw [masked_masked x]
end

mutual
theorem alike_of_masked_eq : {j k : Json} → masked j = masked k → Alike j k
  | .arr xs, k, h => by
    cases k with
    | arr ys => exact .arr (alikeItems_of_masked_eq (Json.arr.inj h))
    | _ => cases h
  | .obj ms, k, h => by
    cases k with
    | obj ns => exact .obj (alikeMembers_of_masked_eq (Json.obj.inj h))
    | _ => cases h
  | .null, k, h | .bool _, k, h | .num _, k, h | .str _, k, h => by
    cases k <;> cases h
    exact .same _
theorem alikeItems_of_masked_eq : {xs ys : List Json} → maskedItems xs = maskedItems ys →
    AlikeItems xs ys
  | [], ys, h => by
    cases ys with
    | nil => exact .nil
    | cons => cases h
  | x :: xs, ys, h => by
    cases ys with
    | nil => cases h
    | cons y ys =>
      obtain ⟨hx, hr⟩ := List.cons.inj h
      exact .cons (alike_of_masked_eq hx) (alikeItems_of_masked_eq hr)
theorem alikeMembers_of_masked_eq : {ms ns : List (String × Json)} →
    maskedMembers ms = maskedMembers ns → AlikeMembers ms ns
  | [], ns, h => by
    cases ns with
    | nil => exact .nil
    | cons => cases h
  | (k, x) :: ms, ns, h => by
    cases ns with
    | nil => cases h
    | cons n ns =>
      obtain ⟨k', y⟩ := n
      obtain ⟨hm, hr⟩ := List.cons.inj h
      obtain ⟨rfl, hx⟩ := Prod.mk.inj hm
      cases hs : isSensitive k with
      | true => exact .hidden hs (alikeMembers_of_masked_eq hr)
      | false =>
        rw [hs] at hx
        exact .shown (alike_of_masked_eq hx) (alikeMembers_of_masked_eq hr)
end

/-- Params are shown with the mask behind each sensitive name that is reached, and with nothing else
changed; the loop over places that are pending comes to this, and showing them again changes
nothing. Params are shown alike exactly if they differ below sensitive names only. -/
theorem shown_masks (j : Json) :
    Masks j (shown (some j)) ∧ (∀ k, Masks j k → k = shown (some j)) ∧
    maskInPlace j [[]] = shown (some j) ∧
    shown (some (shown (some j))) = shown (some j) ∧
    (∀ k, shown (some k) = shown (some j) ↔ Alike k j) ∧
    ∀ name, isSensitive name = true ↔ Text.lower (Text.trim name.toList) ∈ exactNames ∨
      ∃ part ∈ fragments, part <:+: Text.lower (Text.trim name.toList) :=
  ⟨masks_masked j, fun _ h => h.eq_masked, maskInPlace_eq j, masked_masked j,
    fun _ => ⟨alike_of_masked_eq, masked_eq_of_alike⟩, fun _ => isSensitive_iff⟩

/-- Names that are sensitive as a whole and in part, whatever the case, are hidden at any depth. -/
example : shown (some (.obj [("user", .str "ann"), (" Api_Key", .arr [.null, .null]),
      ("calls", .arr [.obj [("x-access-TOKEN", .str "t"), ("args", .null)]])])) =
    .obj [("user", .str "ann"), (" Api_Key", .str "[REDACTED]"),
      ("calls", .arr [.obj [("x-access-TOKEN", .str "[REDACTED]"), ("args", .null)]])] := rfl

end Audit

end ContextServer
