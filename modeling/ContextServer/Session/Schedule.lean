import ContextServer.Session.Step

/-!
One schedule of a session: parts move for as long as any of them can. The supervisor comes first,
then the handlers in the order in which they were started, and last the read loop.
-/

namespace ContextServer.Session

/-- The step of the first handler that has one, of those from handler number `i` on. -/
def firstHandler? (c : Setup) (s : Session) (i : Nat) : List Handler → Option Result
  | [] => none
  | h :: hs =>
    match stepHandler c s i h with
    | some r => some r
    | none => firstHandler? c s (i + 1) hs

def next? (c : Setup) (s : Session) : Option Result :=
  s.stepDrop <|> s.stepJoin <|> stepInterrupt c s <|> s.stepExpire <|>
    firstHandler? c s 0 s.handlers <|> stepLoop c s

theorem exists_of_firstHandler? {c : Setup} {s : Session} {i : Nat} {hs : List Handler}
    {r : Result} (h : firstHandler? c s i hs = some r) :
    ∃ j, hs[j]?.bind (stepHandler c s (i + j)) = some r := by
  induction hs generalizing i with
  | nil => cases h
  | cons x hs ih =>
    unfold firstHandler? at h
    split at h
    · rename_i hx
      exact ⟨0, hx.trans h⟩
    · obtain ⟨j, hj⟩ := ih h
      exact ⟨j + 1, by rwa [List.getElem?_cons_succ, ← Nat.add_assoc, Nat.add_right_comm]⟩

theorem firstHandler?_eq_none {c : Setup} {s : Session} {i : Nat} {hs : List Handler} :
    firstHandler? c s i hs = none ↔ ∀ j, hs[j]?.bind (stepHandler c s (i + j)) = none := by
  refine ⟨fun h j => ?_, fun h => ?_⟩
  · induction hs generalizing i j with
    | nil => rfl
    | cons x hs ih =>
      unfold firstHandler? at h
      split at h
      · cases h
      · rename_i hx
        cases j with
        | zero => exact hx
        | succ j =>
          rw [List.getElem?_cons_succ, ← Nat.add_assoc, Nat.add_right_comm]
          exact ih h j
  · cases hf : firstHandler? c s i hs with
    | none => rfl
    | some r =>
      obtain ⟨j, hj⟩ := exists_of_firstHandler? hf
      exact absurd hj (by rw [h j]; nofun)

/-- What happens next is a step of some part. -/
theorem exists_move_of_next? {c : Setup} {s : Session} {r : Result} (h : next? c s = some r) :
    ∃ m, s.step c m = some r := by
  simp only [next?, Option.orElse_eq_orElse, Option.orElse_eq_or, Option.or_eq_some_iff] at h
  rcases h with h | ⟨-, h | ⟨-, h | ⟨-, h | ⟨-, h | ⟨-, h⟩⟩⟩⟩⟩
  · exact ⟨.drop, h⟩
  · exact ⟨.join, h⟩
  · exact ⟨.interrupt, h⟩
  · exact ⟨.expire, h⟩
  · obtain ⟨j, hj⟩ := exists_of_firstHandler? h
    exact ⟨.handler j, by rwa [Nat.zero_add] at hj⟩
  · exact ⟨.loop, h⟩

/-- Nothing happens only where no part can move. -/
theorem next?_eq_none {c : Setup} {s : Session} :
    next? c s = none ↔ ∀ m, s.step c m = none := by
  simp only [next?, Option.orElse_eq_orElse, Option.orElse_eq_or, Option.or_eq_none_iff,
    firstHandler?_eq_none, Nat.zero_add]
  constructor
  · rintro ⟨h₁, h₂, h₃, h₄, h₅, h₆⟩ m
    cases m with
    | loop => exact h₆
    | handler i => exact h₅ i
    | join => exact h₂
    | interrupt => exact h₃
    | expire => exact h₄
    | drop => exact h₁
  · intro h
    exact ⟨h .drop, h .join, h .interrupt, h .expire, fun j => h (.handler j), h .loop⟩

/-- The effects so far, latest first, and the state in which nothing moves. -/
def settleFrom (c : Setup) : Nat → List Effect → Session → Result
  | 0, effects, s => (effects.reverse, s)
  | fuel + 1, effects, s =>
    match next? c s with
    | some (es, s) => settleFrom c fuel (es.reverse ++ effects) s
    | none => (effects.reverse, s)

/-- More steps than a session can take before the world has to act: each read uses up a byte, and
each handler takes a bounded number of steps. -/
def patience (s : Session) : Nat := 24 * (s.inbound.size + s.handlers.length + 4)

def settle (c : Setup) (s : Session) : Result := settleFrom c s.patience [] s

/-- A session up to the point where it waits for its peer. -/
def opened (c : Setup) : Session := (settle c (start c)).2

/-- A command and all that comes of it. -/
def perform (c : Setup) (s : Session) (k : Command) : Result := settle c (s.obey k)

end ContextServer.Session
