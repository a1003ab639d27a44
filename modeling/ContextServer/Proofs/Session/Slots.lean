import ContextServer.Proofs.Session.Intake

/-!
The slots of a session that counts them. A slot is free, or a handler has it, or the loop has it
for the handler that it is about to start; so what they are together never changes. The barrier
counts a handler for no longer than it has its slot, since a handler leaves the barrier first.
-/

namespace ContextServer.Session

/-- How `n` slots are spent in the state `s` that a session has come to with the effects `es`. -/
structure Admits (n : Nat) (es : List Effect) (s : Session) : Prop where
  /-- Every slot is somewhere: free, at a handler or at the loop. -/
  slots : ∃ free, s.free = some free ∧ free + s.handlers.length + s.loop.slots = n
  /-- The barrier counts the handlers that are still at work, and these are never too many. -/
  counted : s.barrier.count = s.handlers.countP (·.stage.isCounted)
  bounded : s.barrier.count + s.loop.slots ≤ n
  atWork : s.handlers.length ≤ n
  /-- Handlers have been started for all that has been read, in order, but for one envelope at
  most. -/
  pending : ∃ rest, envelopes (reads es) = started es ++ rest ∧ rest.length ≤ 1
  /-- When the handlers are gone and the loop is about to start none, all slots are free. -/
  idle : s.handlers = [] → (∀ e, s.loop ≠ .starting e) → s.free = some n

theorem slots_of_ne_starting {l : Loop} (h : ∀ e, l ≠ .starting e) : l.slots = 0 := by
  cases l with
  | starting e => exact absurd rfl (h e)
  | _ => rfl

theorem admits_of_run {c : Setup} {n : Nat} (pos : 0 < n) {as : List Action} {es : List Effect}
    {s : Session} (hn : c.server.slots = Server.slotsOf (.bounded n pos))
    (h : run c (start c) as = some (es, s)) : Admits n es s := by
  have hs := (supplied_of_run h).slots
  rw [hn, Server.slotsOf] at hs
  obtain ⟨free, hf, hsum⟩ := Option.map_eq_some_iff.mp hs
  have hc := (closing_of_run h).counted
  have hcount : s.barrier.count ≤ s.handlers.length := hc ▸ List.countP_le_length
  constructor
  · exact ⟨free, hf, hsum⟩
  · exact hc
  · omega
  · omega
  · obtain ⟨rest, heq, hr⟩ := intake_of_run h
    exact ⟨rest, heq, hr.length_le⟩
  · intro hh hl
    rw [hh, slots_of_ne_starting hl] at hsum
    exact hf.trans (congrArg some hsum)

/-- A watched server with one slot, whose only tool crashes. -/
def crashing : Setup where
  server := ⟨⟨⟨"crashing", "1"⟩, ⟨some ⟨.value [], fun _ _ => .crash⟩, none, none⟩⟩, some 1⟩
  framing := .line
  limit := 100
  grace := some 5

/-- The lines of a call of a tool and of a response that nobody waits for. -/
def callAndResponse : List UInt8 :=
  Text.Utf8.encode ("\x7b\"jsonrpc\":\"2.0\",\"id\":1,\"method\":\"tools/call\"," ++
    "\"params\":[\"x\"]\x7d\n\x7b\"jsonrpc\":\"2.0\",\"id\":1\x7d\n").toList

/-- The tool crashes while the response waits for the slot, which the response then takes. -/
def crashedThenIgnored : List Action :=
  [.command (.arrive callAndResponse)] ++ .replicate 6 (.move .loop) ++
    .replicate 6 (.move (.handler 0)) ++ .replicate 3 (.move .loop) ++
    .replicate 4 (.move (.handler 0))

theorem admits_of_run_crashedThenIgnored :
    crashing.server.slots = Server.slotsOf (.bounded 1 Nat.one_pos) ∧
      ∃ es s, run crashing (start crashing) crashedThenIgnored = some (es, s) ∧
        (started es).length = 2 ∧ s.handlers.length = 0 ∧ s.free = some 1 ∧ Admits 1 es s := by
  obtain ⟨es, s, h, he⟩ := exists_of_run (c := crashing) (s := start crashing)
    crashedThenIgnored
    (p := fun es s => (started es).length == 2 && s.handlers.length == 0 && s.free == some 1)
    (by decide +kernel)
  simp only [Bool.and_eq_true, beq_iff_eq] at he
  exact ⟨rfl, es, s, h, he.1.1, he.1.2, he.2, admits_of_run Nat.one_pos rfl h⟩

end ContextServer.Session
