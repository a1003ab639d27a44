import ContextServer.Proofs.Session.Intake

/-!
What the handlers of a session have still to do. A handler starts with all that its envelope asks
for before it. Each of its steps does a part of that and leaves the rest (`Advances`), or nothing
of it, and no step is about the work of another handler. So along a run nothing is done twice or
left out: what has been done and what is pending is what there was to do (`Transition.pending`).
-/

namespace ContextServer.Session

variable {β : Type}

/-- What the handlers have still to do, of which `f` tells for each of them. -/
def pending (f : Handler → List β) (s : Session) : List β := s.handlers.flatMap f

/-- Handler number `i` does `done` of what is before it and goes on, or goes away. -/
def Advances (f : Handler → List β) (s t : Session) (i : Nat) (h : Handler) (done : List β) :
    Prop :=
  (∃ st, t.handlers = s.handlers.set i { h with stage := st } ∧
      done ++ f { h with stage := st } = f h) ∨
    t.handlers = s.handlers.eraseIdx i ∧ done = f h

section

variable {c : Setup} {s t : Session} {a : Action} {fs : List Effect} {i : Nat} {h : Handler}
  {f : Handler → List β} {due : Envelope → List β} {done : List β}

theorem Advances.pending (ha : Advances f s t i h done) (hi : s.handlers[i]? = some h) :
    (done ++ t.pending f).Perm (s.pending f) := by
  have hs := (handlers_perm hi).flatMap_right f
  rw [List.flatMap_cons] at hs
  refine List.Perm.trans ?_ hs.symm
  rcases ha with ⟨st, ht, hd⟩ | ⟨ht, hd⟩
  · have hset := (handlers_setStage_perm hi st).flatMap_right f
    rw [List.flatMap_cons] at hset
    rw [Session.pending, ht, ← hd, List.append_assoc]
    exact hset.append_left done
  · rw [Session.pending, ht, hd]

/-- No handler comes to have work that its envelope does not ask for. -/
theorem Advances.subset (ha : Advances f s t i h done) (hi : s.handlers[i]? = some h)
    (hs : ∀ x ∈ s.handlers, f x ⊆ due x.envelope) : ∀ x ∈ t.handlers, f x ⊆ due x.envelope := by
  rcases ha with ⟨st, ht, hd⟩ | ⟨ht, -⟩
  · intro x hx
    rw [ht] at hx
    rcases List.mem_or_eq_of_mem_set hx with hx | rfl
    · exact hs x hx
    · have hh := hs h (List.mem_of_getElem? hi)
      rw [← hd] at hh
      exact fun b hb => hh (List.mem_append_right done hb)
  · rw [ht]
    exact fun x hx => hs x (List.mem_of_mem_eraseIdx hx)

/-- The loop adds what an envelope asks for, when it starts its handler. -/
theorem LoopStep.pending (hl : LoopStep c s fs t) (hf : ∀ e, f ⟨e, .arrived⟩ = due e) :
    t.pending f = s.pending f ++ (started fs).flatMap due := by
  cases hl with
  | @spawn e hl =>
    show (s.handlers ++ [Handler.mk e .arrived]).flatMap f = _ ++ [e].flatMap due
    rw [List.flatMap_append, List.flatMap_singleton, List.flatMap_singleton, hf]
    rfl
  | reject =>
    rw [started_write]
    exact (List.append_nil _).symm
  | stop | resume | read | grant | wait | pass | close | mark => exact (List.append_nil _).symm

theorem Transition.pending (ht : Transition c s a fs t) (hf : ∀ e, f ⟨e, .arrived⟩ = due e)
    (hstep : ∀ {i h}, a = .move (.handler i) → s.handlers[i]? = some h → HandlerStep c s i h fs t →
      Advances f s t i h done)
    (haside : (∀ i, a ≠ .move (.handler i)) → done = []) :
    (done ++ t.pending f).Perm (s.pending f ++ (started fs).flatMap due) := by
  cases ht with
  | loop hs =>
    rw [haside nofun, hs.pending hf]
    exact .refl _
  | handler hi hs =>
    rw [started_of_isHandlers hs.isHandlers, List.flatMap_nil, List.append_nil]
    exact (hstep rfl hi hs).pending hi
  | join | interrupt | expire | drop =>
    rw [haside nofun]
    exact .of_eq (List.append_nil _).symm
  | @command k =>
    rw [haside nofun]
    cases k <;> exact .of_eq (List.append_nil _).symm

theorem Transition.subset (ht : Transition c s a fs t) (hf : ∀ e, f ⟨e, .arrived⟩ = due e)
    (hstep : ∀ {i h}, a = .move (.handler i) → s.handlers[i]? = some h → HandlerStep c s i h fs t →
      Advances f s t i h done)
    (hs : ∀ x ∈ s.handlers, f x ⊆ due x.envelope) : ∀ x ∈ t.handlers, f x ⊆ due x.envelope := by
  cases ht with
  | loop h =>
    cases h with
    | @spawn e hl =>
      intro x hx
      rcases List.mem_append.mp hx with hx | hx
      · exact hs x hx
      · rw [List.mem_singleton.mp hx, hf]
        exact fun b hb => hb
    | stop | resume | read | reject | grant | wait | pass | close | mark => exact hs
  | handler hi h => exact (hstep rfl hi h).subset hi hs
  | join | interrupt | expire | drop => exact hs
  | @command k => cases k <;> exact hs

/-- What was done before and what is done now, together, against what there was and what came in. -/
theorem perm_next {before now left left' had came came' : List β}
    (h : (before ++ left).Perm (had ++ came)) (h' : (now ++ left').Perm (left ++ came')) :
    ((before ++ now) ++ left').Perm (had ++ (came ++ came')) := by
  rw [List.append_assoc, ← List.append_assoc had]
  refine (h'.append_left before).trans ?_
  rw [← List.append_assoc]
  exact h.append_right came'

end

end ContextServer.Session
