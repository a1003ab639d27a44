import Mathlib.Algebra.Ring.Nat
import ContextServer.Json.Basic

/-!
Places within a JSON value: the positions of the items and members on the way to them. A value is
looked up at a place, and changed there while all around it stays. What is done at one place
composes (`modifyAt_append`, `modifyAt_modifyAt`) and depends on the value there alone
(`modifyAt_congr`).
-/

namespace ContextServer

theorem modify_congr {α : Type} {f g : α → α} {as : List α} {i : Nat}
    (h : ∀ a, as[i]? = some a → f a = g a) : as.modify i f = as.modify i g := by
  apply List.ext_getElem?
  intro k
  rw [List.getElem?_modify, List.getElem?_modify]
  by_cases hk : i = k
  · subst hk
    cases ha : as[i]? with
    | none => rfl
    | some a => simp [h a ha]
  · simp [hk]

namespace Json

abbrev Place := List Nat

/-- The values within an object or an array. -/
def children : Json → List Json
  | arr items => items
  | obj members => members.map Prod.snd
  | _ => []

def at? (j : Json) : Place → Option Json
  | [] => some j
  | i :: p => j.children[i]?.bind (at? · p)

def modifyAt (f : Json → Json) (j : Json) : Place → Json
  | [] => f j
  | i :: p =>
    match j with
    | arr items => .arr (items.modify i (modifyAt f · p))
    | obj members => .obj (members.modify i fun m => (m.1, modifyAt f m.2 p))
    | j => j

theorem at?_append (j : Json) (p q : Place) : j.at? (p ++ q) = (j.at? p).bind (at? · q) := by
  induction p generalizing j with
  | nil => rfl
  | cons i p ih =>
    rw [List.cons_append, at?, at?]
    cases j.children[i]? with
    | none => rfl
    | some k => exact ih k

theorem children_modifyAt (f : Json → Json) (j : Json) (i : Nat) (p : Place) :
    (j.modifyAt f (i :: p)).children = j.children.modify i (modifyAt f · p) := by
  cases j with
  | arr items => rfl
  | obj members =>
    rw [modifyAt, children, children]
    apply List.ext_getElem?
    intro k
    simp only [List.getElem?_map, List.getElem?_modify]
    cases members[k]? with
    | none => rfl
    | some m => by_cases h : i = k <;> simp [h]
  | _ => simp [modifyAt, children]

theorem at?_modifyAt (f : Json → Json) (j : Json) (p q : Place) :
    (j.modifyAt f p).at? (p ++ q) = (j.at? p).bind fun k => (f k).at? q := by
  induction p generalizing j with
  | nil => rfl
  | cons i p ih =>
    rw [List.cons_append, at?, at?, children_modifyAt, List.getElem?_modify_eq]
    cases j.children[i]? with
    | none => rfl
    | some k => exact ih k

theorem modifyAt_append (f : Json → Json) (j : Json) (p q : Place) :
    j.modifyAt f (p ++ q) = j.modifyAt (modifyAt f · q) p := by
  induction p generalizing j with
  | nil => rfl
  | cons i p ih => cases j <;> simp only [List.cons_append, modifyAt, ih]

theorem modifyAt_modifyAt (f g : Json → Json) (j : Json) (p : Place) :
    (j.modifyAt f p).modifyAt g p = j.modifyAt (g ∘ f) p := by
  induction p generalizing j with
  | nil => rfl
  | cons i p ih =>
    cases j <;> simp only [modifyAt, List.modify_modify_eq, Function.comp_def, ih]

/-- What is done at a place depends on the value there alone. -/
theorem modifyAt_congr {f g : Json → Json} {j : Json} {p : Place}
    (h : ∀ k, j.at? p = some k → f k = g k) : j.modifyAt f p = j.modifyAt g p := by
  induction p generalizing j with
  | nil => exact h j rfl
  | cons i p ih =>
    have hat {x : Json} (hx : j.children[i]? = some x) : x.modifyAt f p = x.modifyAt g p :=
      ih fun k hk => h k (by rw [at?, hx]; exact hk)
    cases j with
    | arr items =>
      have hitem (x : Json) (hx : items[i]? = some x) : x.modifyAt f p = x.modifyAt g p := hat hx
      rw [modifyAt, modifyAt, modify_congr hitem]
    | obj members =>
      have hmember (m : String × Json) (hm : members[i]? = some m) :
          (m.1, m.2.modifyAt f p) = (m.1, m.2.modifyAt g p) := by
        have hx : (obj members).children[i]? = some m.2 := by
          rw [children, List.getElem?_map, hm]
          rfl
        rw [hat hx]
      rw [modifyAt, modifyAt, modify_congr hmember]
    | _ => rfl

/-- Changes right below a place are made at that place. -/
theorem foldl_modifyAt_below (f g : Json → Json) (j : Json) (p : Place) (is : List Nat) :
    is.foldl (fun k i => k.modifyAt f (p ++ [i])) (j.modifyAt g p) =
      j.modifyAt (fun k => is.foldl (fun k i => k.modifyAt f [i]) (g k)) p := by
  induction is generalizing g with
  | nil => rfl
  | cons i is ih =>
    rw [List.foldl_cons, modifyAt_append, modifyAt_modifyAt, ih]
    rfl

/-! ### How many values there are -/

mutual
/-- How many values there are in a value, with itself. -/
def nodes : Json → Nat
  | arr items => nodesItems items + 1
  | obj members => nodesMembers members + 1
  | _ => 1
def nodesItems : List Json → Nat
  | [] => 0
  | x :: r => nodes x + nodesItems r
def nodesMembers : List (String × Json) → Nat
  | [] => 0
  | (_, x) :: r => nodes x + nodesMembers r
end

theorem nodesItems_eq (items : List Json) : nodesItems items = (items.map nodes).sum := by
  induction items with
  | nil => rfl
  | cons x r ih => rw [nodesItems, ih, List.map_cons, List.sum_cons]

theorem nodesMembers_eq (members : List (String × Json)) :
    nodesMembers members = ((members.map Prod.snd).map nodes).sum := by
  induction members with
  | nil => rfl
  | cons m r ih => rw [nodesMembers, ih, List.map_cons, List.map_cons, List.sum_cons]

theorem nodes_eq (j : Json) : j.nodes = (j.children.map nodes).sum + 1 := by
  cases j with
  | arr items => rw [nodes, nodesItems_eq, children]
  | obj members => rw [nodes, nodesMembers_eq, children]
  | _ => rfl

/-- How many values there are at a place, and one where there is none. -/
def nodesAt (j : Json) (p : Place) : Nat := ((j.at? p).map nodes).getD 1

theorem nodesAt_cons (j : Json) (i : Nat) (p : Place) :
    j.nodesAt (i :: p) = (j.children[i]?.map (nodesAt · p)).getD 1 := by
  rw [nodesAt, at?]
  cases j.children[i]? <;> rfl

theorem nodesAt_pos (j : Json) (p : Place) : 1 ≤ j.nodesAt p := by
  rw [nodesAt]
  cases j.at? p with
  | none => exact Nat.le_refl 1
  | some k =>
    show 1 ≤ k.nodes
    rw [nodes_eq]
    omega

theorem nodesAt_modifyAt_append {f : Json → Json} {j k : Json} {p : Place} (h : j.at? p = some k)
    (q : Place) : (j.modifyAt f p).nodesAt (p ++ q) = (f k).nodesAt q := by
  rw [nodesAt, at?_modifyAt, h, nodesAt]
  rfl

theorem sum_range_nodesAt (j : Json) :
    ((List.range j.children.length).map fun i => j.nodesAt [i]).sum + 1 = j.nodes := by
  rw [nodes_eq]
  congr 2
  apply List.ext_getElem
  · simp
  · intro i h _
    have hi : i < j.children.length := by simpa using h
    simp [nodesAt_cons, hi]
    rfl

theorem sum_map_modify_le {w : Json → Nat} {f : Json → Json} (h : ∀ j, w (f j) ≤ w j)
    (js : List Json) (i : Nat) : ((js.modify i f).map w).sum ≤ (js.map w).sum := by
  induction js generalizing i with
  | nil => simp
  | cons j js ih =>
    cases i with
    | zero => simpa using h j
    | succ i => simpa using ih i

/-- What does not grow at any place does not make grow what it is a part of. -/
theorem nodesAt_modifyAt_le {f : Json → Json} (hf : ∀ k q, (f k).nodesAt q ≤ k.nodesAt q)
    (j : Json) (p q : Place) : (j.modifyAt f p).nodesAt q ≤ j.nodesAt q := by
  induction p generalizing j q with
  | nil => exact hf j q
  | cons i p ih =>
    cases q with
    | nil =>
      show (j.modifyAt f (i :: p)).nodes ≤ j.nodes
      rw [nodes_eq, nodes_eq, children_modifyAt]
      exact Nat.succ_le_succ (sum_map_modify_le (fun k => ih k []) _ _)
    | cons k q =>
      rw [nodesAt_cons, nodesAt_cons, children_modifyAt, List.getElem?_modify]
      cases j.children[k]? with
      | none => exact Nat.le_refl _
      | some x =>
        by_cases h : i = k
        · simp only [h, if_true]
          exact ih x q
        · simp [h]

end Json

end ContextServer
