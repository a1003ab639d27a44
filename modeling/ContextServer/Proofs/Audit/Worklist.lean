import Mathlib.Algebra.Order.BigOperators.Group.List
import Mathlib.Algebra.Order.Group.Nat
import Mathlib.Data.List.Nodup
import ContextServer.Audit
import ContextServer.Proofs.Json.Place

/-!
Masking in place, by a list of the places that are still to be visited. A visit masks the members of
the value at one place and puts on the list the places below it where masking has to go on, so no
recursion is needed, and the list runs out because each visit leaves fewer values to be visited.

It comes to the same as masking by recursion (`maskInPlace_eq`). At any time, masking at each of the
places that are pending would bring the value to its end, and a visit does not change that
(`foldl_below`): what it does not do itself it leaves to the places below.
-/

namespace ContextServer

/-- Each position is changed once. -/
theorem getElem?_foldl_modify {α : Type} (f : α → α) {is : List Nat} (hn : is.Nodup) (as : List α)
    (k : Nat) : (is.foldl (fun as i => as.modify i f) as)[k]? =
      if k ∈ is then as[k]?.map f else as[k]? := by
  induction is generalizing as with
  | nil => simp
  | cons i is ih =>
    rw [List.nodup_cons] at hn
    rw [List.foldl_cons, ih hn.2, List.getElem?_modify]
    by_cases hi : i = k
    · subst hi
      simp [hn.1]
    · have hk : ¬ k = i := fun h => hi h.symm
      simp [hi, hk]

namespace Audit

open Json (Place)

/-- Masks the members of an object that have sensitive names, and nothing below the others. -/
def maskMembers : Json → Json
  | .obj members => .obj (members.map fun m => (m.1, if isSensitive m.1 then mask else m.2))
  | j => j

/-- The positions at which masking goes on below a value: those of all items, and those of the
members whose names are not sensitive. -/
def goesOn : Json → List Nat
  | .arr items => List.range items.length
  | .obj members => (List.range members.length).filter fun i => !members[i]?.any (isSensitive ·.1)
  | _ => []

/-- The places that a visit adds, the last of them first. -/
def below (j : Json) (p : Place) : List Place :=
  match j.at? p with
  | some k => (goesOn k).reverse.map fun i => p ++ [i]
  | none => []

/-! ### The visits come to an end -/

/-- How many values there are at the places that are pending. -/
def outstanding (j : Json) (pending : List Place) : Nat := (pending.map j.nodesAt).sum

theorem nodesAt_maskMembers_le (j : Json) (q : Place) :
    (maskMembers j).nodesAt q ≤ j.nodesAt q := by
  have hmask (q : Place) : mask.nodesAt q = 1 := by cases q <;> rfl
  cases j with
  | obj members =>
    have hle (m : String × Json) (q : Place) :
        (if isSensitive m.1 then mask else m.2).nodesAt q ≤ m.2.nodesAt q := by
      split
      · rw [hmask]
        exact Json.nodesAt_pos m.2 q
      · exact Nat.le_refl _
    cases q with
    | nil =>
      show (maskMembers (.obj members)).nodes ≤ (Json.obj members).nodes
      rw [Json.nodes_eq, Json.nodes_eq, Nat.add_le_add_iff_right]
      simp only [maskMembers, Json.children, List.map_map]
      exact List.sum_le_sum fun m _ => hle m []
    | cons i q =>
      rw [Json.nodesAt_cons, Json.nodesAt_cons]
      simp only [maskMembers, Json.children, List.getElem?_map]
      cases members[i]? with
      | none => exact Nat.le_refl _
      | some m => exact hle m q
  | _ => exact Nat.le_refl _

theorem sum_goesOn_lt (j : Json) : ((goesOn j).map fun i => j.nodesAt [i]).sum < j.nodes := by
  rw [← j.sum_range_nodesAt, Nat.lt_succ_iff]
  cases j with
  | arr items => exact Nat.le_refl _
  | obj members =>
    have hlength : (Json.obj members).children.length = members.length := List.length_map ..
    rw [goesOn, hlength]
    exact (List.filter_sublist.map _).sum_le_sum fun _ _ => Nat.zero_le _
  | _ => exact Nat.le_refl _

/-- A visit turns one place into places below it, and leaves a value of it behind. -/
theorem outstanding_below_lt (j : Json) (p : Place) :
    outstanding (j.modifyAt maskMembers p) (below j p) < j.nodesAt p := by
  rw [outstanding, below, Json.nodesAt]
  cases hp : j.at? p with
  | none => exact Nat.one_pos
  | some k =>
    have hle : ∀ i ∈ goesOn k, (j.modifyAt maskMembers p).nodesAt (p ++ [i]) ≤ k.nodesAt [i] := by
      intro i _
      rw [Json.nodesAt_modifyAt_append hp]
      exact nodesAt_maskMembers_le k [i]
    simp only [List.map_map, List.map_reverse, List.sum_reverse]
    exact Nat.lt_of_le_of_lt (List.sum_le_sum hle) (sum_goesOn_lt k)

theorem outstanding_lt (j : Json) (p : Place) (rest : List Place) :
    outstanding (j.modifyAt maskMembers p) (below j p ++ rest) < outstanding j (p :: rest) := by
  have hbelow := outstanding_below_lt j p
  have hrest : outstanding (j.modifyAt maskMembers p) rest ≤ outstanding j rest :=
    List.sum_le_sum fun q _ => Json.nodesAt_modifyAt_le nodesAt_maskMembers_le j p q
  simp only [outstanding, List.map_append, List.sum_append, List.map_cons, List.sum_cons] at *
  omega

/-- Of the places that are pending the latest is visited first. -/
def maskInPlace (j : Json) : List Place → Json
  | [] => j
  | p :: rest => maskInPlace (j.modifyAt maskMembers p) (below j p ++ rest)
termination_by pending => outstanding j pending
decreasing_by exact outstanding_lt j p rest

/-! ### What the visits come to -/

theorem maskedItems_eq (items : List Json) : maskedItems items = items.map masked := by
  induction items with
  | nil => rfl
  | cons x r ih => rw [maskedItems, ih, List.map_cons]

theorem maskedMembers_eq (members : List (String × Json)) : maskedMembers members =
    members.map fun m => (m.1, if isSensitive m.1 then mask else masked m.2) := by
  induction members with
  | nil => rfl
  | cons m r ih => rw [maskedMembers, ih, List.map_cons]

theorem nodup_goesOn (j : Json) : (goesOn j).reverse.Nodup := by
  rw [List.nodup_reverse]
  cases j with
  | arr items => exact List.nodup_range
  | obj members => exact List.nodup_range.filter _
  | _ => exact List.nodup_nil

theorem mem_goesOn_arr {items : List Json} {i : Nat} :
    i ∈ (goesOn (.arr items)).reverse ↔ i < items.length := by
  rw [List.mem_reverse, goesOn, List.mem_range]

theorem mem_goesOn_obj {members : List (String × Json)} {i : Nat} {m : String × Json}
    (hm : members[i]? = some m) :
    i ∈ (goesOn (.obj members)).reverse ↔ isSensitive m.1 = false := by
  obtain ⟨hi, -⟩ := List.getElem?_eq_some_iff.mp hm
  rw [List.mem_reverse, goesOn, List.mem_filter, List.mem_range, and_iff_right hi, hm]
  simp

/-- Masking goes on at just those values below that recursion masks. -/
theorem foldl_goesOn (j : Json) :
    (goesOn j).reverse.foldl (fun k i => k.modifyAt masked [i]) (maskMembers j) = masked j := by
  have hnodup := nodup_goesOn j
  cases j with
  | arr items =>
    have harr (is : List Nat) (xs : List Json) :
        is.foldl (fun k i => k.modifyAt masked [i]) (Json.arr xs) =
          .arr (is.foldl (fun xs i => xs.modify i masked) xs) := by
      induction is generalizing xs with
      | nil => rfl
      | cons i is ih => exact ih _
    rw [maskMembers, harr, masked, maskedItems_eq]
    · congr 1
      apply List.ext_getElem?
      intro k
      rw [getElem?_foldl_modify masked hnodup, List.getElem?_map]
      split
      · rfl
      · rename_i hk
        rw [mem_goesOn_arr, Nat.not_lt] at hk
        rw [List.getElem?_eq_none hk]
        rfl
    · nofun
  | obj members =>
    have hobj (is : List Nat) (ms : List (String × Json)) :
        is.foldl (fun k i => k.modifyAt masked [i]) (Json.obj ms) =
          .obj (is.foldl (fun ms i => ms.modify i fun m => (m.1, masked m.2)) ms) := by
      induction is generalizing ms with
      | nil => rfl
      | cons i is ih => exact ih _
    rw [maskMembers, hobj, masked, maskedMembers_eq]
    congr 1
    apply List.ext_getElem?
    intro k
    rw [getElem?_foldl_modify _ hnodup, List.getElem?_map, List.getElem?_map]
    cases hm : members[k]? with
    | none => simp
    | some m => cases hs : isSensitive m.1 <;> simp [mem_goesOn_obj hm, hs]
  | _ => rfl

/-- A visit leaves to the places below what is not done at its own place. -/
theorem foldl_below (j : Json) (p : Place) :
    (below j p).foldl (Json.modifyAt masked) (j.modifyAt maskMembers p) = j.modifyAt masked p := by
  unfold below
  split
  · rename_i k hk
    rw [List.foldl_map, Json.foldl_modifyAt_below]
    refine Json.modifyAt_congr fun x hx => ?_
    rw [hk] at hx
    cases hx
    exact foldl_goesOn k
  · rename_i hnone
    refine Json.modifyAt_congr fun x hx => ?_
    rw [hnone] at hx
    cases hx

/-- The invariant of the visits: what is left to do is to mask at the places that are pending. -/
theorem maskInPlace_eq_foldl (j : Json) (pending : List Place) :
    maskInPlace j pending = pending.foldl (Json.modifyAt masked) j := by
  fun_induction maskInPlace j pending with
  | case1 j => rfl
  | case2 j p rest ih => rw [ih, List.foldl_append, foldl_below, List.foldl_cons]

theorem maskInPlace_eq (j : Json) : maskInPlace j [[]] = masked j := maskInPlace_eq_foldl j [[]]

end Audit

end ContextServer
