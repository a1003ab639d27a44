import Mathlib.Data.List.Perm.Subperm
import ContextServer.Proofs.Session.Account
import ContextServer.Proofs.Session.Intake
import ContextServer.Proofs.Session.Supervision

/-!
What goes on in a session after its supervisor has returned. If the session has ended by itself,
nothing does. If it has been given up, its loop goes away, but nobody gives up the handlers that it
has started: they go on to their replies (`exists_run_handled`). So the stream is not left alone as
long as a handler owes a reply, and when the loop has gone away it is left alone if none does
(`aftermath_of_run`).
-/

namespace ContextServer.Session

variable {c : Setup} {s t : Session} {as bs : List Action} {es fs : List Effect}

/-- From `s` on nothing more is written, and the stream is not shut down. -/
def Silent (c : Setup) (s : Session) : Prop :=
  ∀ bs fs t, run c s bs = some (fs, t) → written fs = [] ∧ .shutDown ∉ fs

/-! ### Nothing happens any more -/

/-- The shutting down of the stream is the last thing that happens. -/
theorem nil_of_hasShutDown (h : run c (start c) as = some (es, s))
    (hl : s.loop.hasShutDown = true) (ht : run c s bs = some (fs, t)) : fs = [] := by
  have hc := closing_of_run (run_trans h ht)
  obtain ⟨pre, rfl, -⟩ := (closing_of_run h).shut hl
  have hmem : Effect.shutDown ∈ pre ++ [.shutDown] := by simp
  have hlt : t.loop.hasShutDown = true := by
    by_contra hn
    exact hc.unshut (Bool.eq_false_iff.mpr hn) (List.mem_append_left fs hmem)
  obtain ⟨before, heq, hnot⟩ := hc.shut hlt
  rcases List.eq_nil_or_concat fs with rfl | ⟨gs, x, rfl⟩
  · rfl
  · rw [List.concat_eq_append, ← List.append_assoc] at heq
    have hbefore := (List.append_inj' heq rfl).1
    rw [← hbefore] at hnot
    exact absurd (List.mem_append_left gs hmem) hnot

/-- Where the loop has gone away only handlers do anything. -/
theorem isHandlers_of_dropped (hl : s.loop = .dropped) (h : run c s bs = some (fs, t)) :
    t.loop = .dropped ∧ ∀ x ∈ fs, x.isHandlers = true := by
  refine run_induction (P := fun _ fs t => t.loop = .dropped ∧ ∀ x ∈ fs, x.isHandlers = true)
    ⟨hl, List.forall_mem_nil _⟩ ?_ h
  rintro as es t a fs u - ⟨hd, he⟩ ht
  have aside : ∀ x ∈ es ++ [], x.isHandlers = true := by
    rw [List.append_nil]
    exact he
  cases ht with
  | loop hs => exact absurd hd hs.ne_dropped
  | handler hi hs =>
    refine ⟨hs.frame.1.trans hd, fun x hx => ?_⟩
    rcases List.mem_append.mp hx with hx | hx
    · exact he x hx
    · exact hs.isHandlers x hx
  | join | interrupt | expire => exact ⟨hd, aside⟩
  | drop => exact ⟨rfl, aside⟩
  | @command k => cases k <;> exact ⟨hd, aside⟩

/-! ### What can still be written -/

/-- Giving the loop up forgives what it had at hand; otherwise debts are paid. -/
theorem Transition.attempted_subperm {a : Action} (h : Transition c s a fs t) :
    (attempted fs ++ t.owed c.server.dispatcher).Subperm
      (s.owed c.server.dispatcher ++ (reads fs).flatMap (answers c.server.dispatcher)) := by
  by_cases ha : a = .move .drop
  · subst ha
    cases h with
    | drop =>
      apply List.Sublist.subperm
      show (s.handlers.flatMap (·.owed c.server.dispatcher)).Sublist _
      rw [Session.owed]
      exact (List.sublist_append_right _ _).trans (List.sublist_append_left _ _)
  · exact (h.owed ha).subperm

/-- From any state on, no write is attempted but those that are owed, and each of them once. -/
theorem attempted_of_run (h : run c s as = some (es, t)) :
    (attempted es ++ t.owed c.server.dispatcher).Subperm
      (s.owed c.server.dispatcher ++ (reads es).flatMap (answers c.server.dispatcher)) := by
  refine run_induction (P := fun _ es t => (attempted es ++ t.owed c.server.dispatcher).Subperm
    (s.owed c.server.dispatcher ++ (reads es).flatMap (answers c.server.dispatcher)))
    (by simpa [attempted, reads] using List.Subperm.refl _) ?_ h
  intro as es t a fs u _ he ht
  rw [attempted_append, reads_append, List.append_assoc, List.flatMap_append]
  refine ((List.subperm_append_left (attempted es)).mpr ht.attempted_subperm).trans ?_
  rw [← List.append_assoc, ← List.append_assoc]
  exact (List.subperm_append_right _).mpr he

/-- A handler can move, at the latest when the gate opens that it waits for. -/
theorem exists_unblocked (c : Setup) (s : Session) (i : Nat) (x : Handler) :
    ∃ bs u r, run c s bs = some ([], u) ∧ u.handlers = s.handlers ∧ u.loop = s.loop ∧
      u.outlet = s.outlet ∧ u.work = s.work ∧ stepHandler c u i x = some r := by
  cases hst : stepHandler c s i x with
  | some r => exact ⟨[], s, r, rfl, rfl, rfl, rfl, rfl, hst⟩
  | none =>
    obtain ⟨g, a, hs, -⟩ := held_of_stuck hst
    have hg : g ∈ (s.obey (.release g)).permits := by simp [obey]
    have hopen : ∃ r, stepHandler c (s.obey (.release g)) i x = some r := by
      simp only [stepHandler, hs, if_pos hg]
      exact ⟨_, rfl⟩
    obtain ⟨r, hr⟩ := hopen
    exact ⟨[.command (.release g)], s.obey (.release g), r, rfl, rfl, rfl, rfl, rfl, hr⟩

/-- On a stream that works, the first handler can be brought forward, and what it writes is what it
owed. -/
theorem exists_forward {x : Handler} {hs : List Handler} (hh : s.handlers = x :: hs)
    (hb : s.outlet.broken = false) :
    ∃ bs fs t, run c s bs = some (fs, t) ∧ t.loop = s.loop ∧ t.outlet.broken = false ∧
      t.work < s.work ∧ (written fs ++ t.owed c.server.dispatcher).Perm
        (s.owed c.server.dispatcher) := by
  obtain ⟨bs, u, ⟨fs, t⟩, hu, hhandlers, hloop, houtlet, hwork, hst⟩ := exists_unblocked c s 0 x
  have hi : u.handlers[0]? = some x := by rw [hhandlers, hh]; rfl
  have hmove : run c u [.move (.handler 0)] = some (fs, t) := by
    simp only [run_cons, run_nil, act, step, hi, Option.bind_some, hst, Option.map_some,
      List.append_nil]
  have hstep := handlerStep_of_stepHandler hst
  have hlost := (Transition.handler hi hstep).lost_notMem (houtlet ▸ hb)
  refine ⟨bs ++ [.move (.handler 0)], fs, t, run_trans hu hmove, hstep.frame.1.trans hloop, ?_,
    hwork ▸ hstep.work_lt hi, ?_⟩
  · rw [hstep.frame.2.2.2.1, houtlet]
    exact hb
  · have howed : u.owed c.server.dispatcher = s.owed c.server.dispatcher := by
      rw [owed, owed, hhandlers, hloop]
    rw [written_eq_attempted hlost, ← howed]
    exact hstep.owed hi

/-- The handlers can all be brought to their ends, wherever the loop stands. -/
theorem exists_run_handled (c : Setup) (n : Nat) (s : Session) (hn : s.work ≤ n)
    (hb : s.outlet.broken = false) :
    ∃ bs fs t, run c s bs = some (fs, t) ∧ t.loop = s.loop ∧ t.handlers = [] ∧
      (written fs ++ t.owed c.server.dispatcher).Perm (s.owed c.server.dispatcher) := by
  -- the induction is on a bound of the work that is left, which every move of a handler uses up
  induction n generalizing s with
  | zero =>
    cases hh : s.handlers with
    | nil => exact ⟨[], [], s, rfl, rfl, hh, .refl _⟩
    | cons x hs =>
      obtain ⟨_, _, t, -, -, -, hlt, -⟩ := exists_forward (c := c) hh hb
      omega
  | succ n ih =>
    cases hh : s.handlers with
    | nil => exact ⟨[], [], s, rfl, rfl, hh, .refl _⟩
    | cons x hs =>
      obtain ⟨bs, fs, t, ht, hloop, hbt, hlt, hperm⟩ := exists_forward (c := c) hh hb
      obtain ⟨bs', fs', u, hu, hloop', hnil, hperm'⟩ := ih t (by omega) hbt
      refine ⟨bs ++ bs', fs ++ fs', u, run_trans ht hu, hloop'.trans hloop, hnil, ?_⟩
      rw [written_append, List.append_assoc]
      exact (hperm'.append_left (written fs)).trans hperm

/-- Wherever the loop stands, the handlers can come to write all that they owe. -/
theorem exists_written_perm (c : Setup) (s : Session) :
    ∃ bs fs t, run c s bs = some (fs, t) ∧
      (written fs).Perm (s.handlers.flatMap (·.owed c.server.dispatcher)) := by
  obtain ⟨bs, fs, t, ht, hloop, hnil, hperm⟩ :=
    exists_run_handled c _ (s.obey .mendWriter) (Nat.le_refl _) rfl
  have hmend : run c s [.command .mendWriter] = some ([], s.obey .mendWriter) := rfl
  -- what the loop has at hand is owed before and after, so it cancels out
  have howed : t.owed c.server.dispatcher = s.loop.owed c.server.dispatcher := by
    rw [owed, hnil, hloop, List.flatMap_nil, List.append_nil]
    rfl
  rw [howed] at hperm
  refine ⟨_, fs, t, run_trans hmend ht, ?_⟩
  exact (List.perm_append_left_iff _).mp (List.perm_append_comm.trans hperm)

/-! ### After the return -/

/-- What goes on after the supervisor has returned in the state `s` that the actions `as` have led
to. -/
structure Aftermath (c : Setup) (as : List Action) (s : Session) : Prop where
  /-- The outcome stays what it is. -/
  told : ∀ bs fs t, run c s bs = some (fs, t) → t.ending? = s.ending?
  /-- A session that ends by itself is shut down when the supervisor returns, -/
  joined : .move .expire ∉ as → s.loop.hasShutDown = true
  /-- and after that nothing happens, neither to the stream nor in the log. -/
  ended : s.loop.hasShutDown = true → ∀ bs fs t, run c s bs = some (fs, t) → fs = []
  /-- A session that has been given up makes one read at most, if that was under way, and writes
  only what it owes for what has been read. -/
  bounded : ∀ bs fs t, run c s bs = some (fs, t) → (reads fs).length ≤ s.loop.readsLeft ∧
    (written fs).Subperm (s.owed c.server.dispatcher ++
      (reads fs).flatMap (answers c.server.dispatcher))
  /-- Once its loop has gone away, nobody reads or shuts the stream down or starts a handler. -/
  dropped : s.loop = .dropped → ∀ bs fs t, run c s bs = some (fs, t) →
    t.loop = .dropped ∧ ∀ x ∈ fs, x.isHandlers = true
  /-- But the handlers that have been started can still write all that they owe, -/
  orphaned : ∃ bs fs t, run c s bs = some (fs, t) ∧
    (written fs).Perm (s.handlers.flatMap (·.owed c.server.dispatcher))
  /-- so the stream is not left alone as long as one of them owes a reply, -/
  owing : Silent c s → ∀ h ∈ s.handlers, h.owed c.server.dispatcher = []
  /-- and it is left alone once none does and the loop is done or has gone away. -/
  silent : s.loop.hasShutDown = true ∨ s.loop = .dropped →
    (∀ h ∈ s.handlers, h.owed c.server.dispatcher = []) → Silent c s

theorem phase_ne_running_of_request {a : Action} (h : run c (start c) as = some (es, s))
    (ha : a ∈ as) (hr : a.request? ≠ none) : s.phase ≠ .running := by
  intro hp
  have hphase := (closing_of_run h).phase (by rw [hp]; nofun)
  rw [hp] at hphase
  cases hf : firstRequest? as with
  | none => exact hr (firstRequest?_eq_none.mp hf a ha)
  | some p =>
    rw [hf, Option.getD_some] at hphase
    rw [← hphase] at hf
    exact firstRequest?_ne_running hf

/-- Whichever way the supervisor has come to its return, the session has been stopped. -/
theorem phase_ne_running_of_returned {e : Ending} (h : run c (start c) as = some (es, s))
    (hw : s.watch = .returned e) : s.phase ≠ .running := by
  have hc := cameTo_of_run h
  rw [hw] at hc
  rcases hc with ⟨hl, -⟩ | ⟨-, hi, -⟩
  · rw [(closing_of_run h).closed.mpr ⟨e, hl⟩]
    nofun
  · exact phase_ne_running_of_request h hi nofun

theorem silent_of_hasShutDown (h : run c (start c) as = some (es, s))
    (hl : s.loop.hasShutDown = true) : Silent c s := by
  intro bs fs t ht
  rw [nil_of_hasShutDown h hl ht]
  exact ⟨rfl, List.not_mem_nil⟩

theorem silent_of_dropped (hl : s.loop = .dropped)
    (ho : ∀ h ∈ s.handlers, h.owed c.server.dispatcher = []) : Silent c s := by
  intro bs fs t ht
  have hh := (isHandlers_of_dropped hl ht).2
  refine ⟨?_, shutDown_notMem_of_isHandlers hh⟩
  have howed : s.owed c.server.dispatcher = [] := by
    rw [owed, hl]
    exact List.flatMap_eq_nil_iff.mpr ho
  have hsub := attempted_of_run ht
  rw [howed, reads_of_isHandlers hh, List.flatMap_nil, List.append_nil] at hsub
  have hnil := (List.append_eq_nil_iff.mp (List.subperm_nil.mp hsub)).1
  exact List.sublist_nil.mp (hnil ▸ written_sublist_attempted fs)

theorem owed_of_silent (hs : Silent c s) :
    ∀ h ∈ s.handlers, h.owed c.server.dispatcher = [] := by
  obtain ⟨bs, fs, t, ht, hperm⟩ := exists_written_perm c s
  rw [(hs bs fs t ht).1] at hperm
  exact List.flatMap_eq_nil_iff.mp hperm.nil_eq.symm

theorem aftermath_of_run (c : Setup) {as : List Action} {es : List Effect} {s : Session}
    {e : Ending} (h : run c (start c) as = some (es, s)) (hw : s.watch = .returned e) :
    Aftermath c as s := by
  constructor
  · intro bs fs t ht
    rw [ending?, ending?, hw, watch_of_returned ht hw]
  · intro hn
    have hc := cameTo_of_run h
    rw [hw] at hc
    rcases hc with ⟨hl, -⟩ | ⟨-, -, hx⟩
    · rw [hl]
      rfl
    · exact absurd hx hn
  · intro hl bs fs t ht
    exact nil_of_hasShutDown h hl ht
  · intro bs fs t ht
    have hreads := reads_of_run ht (phase_ne_running_of_returned h hw)
    refine ⟨by omega, ?_⟩
    have hwritten := (written_sublist_attempted fs).trans
      (List.sublist_append_left _ (t.owed c.server.dispatcher))
    exact hwritten.subperm.trans (attempted_of_run ht)
  · intro hl bs fs t ht
    exact isHandlers_of_dropped hl ht
  · exact exists_written_perm c s
  · exact owed_of_silent
  · rintro (hl | hl) ho
    · exact silent_of_hasShutDown h hl
    · exact silent_of_dropped hl ho

/-- A watched server whose only tool waits at a gate. -/
def gated : Setup where
  server := ⟨⟨⟨"gated", "1"⟩, ⟨some ⟨.value [], fun _ _ => .after "g" (.text "done")⟩, none,
    none⟩⟩, none⟩
  framing := .line
  limit := 100
  grace := some 5

/-- The line of a request that calls a tool. -/
def callLine : List UInt8 :=
  Text.Utf8.encode ("\x7b\"jsonrpc\":\"2.0\",\"id\":1,\"method\":\"tools/call\"," ++
    "\"params\":[\"x\"]\x7d\n").toList

/-- The tool is called and waits when the session is interrupted and given up. -/
def givenUpAtWork : List Action :=
  [.command (.arrive callLine)] ++ .replicate 5 (.move .loop) ++
    .replicate 2 (.move (.handler 0)) ++
    [.command .interrupt, .move .interrupt, .command (.advance 5), .move .expire, .move .drop]

/-- The gate opens, and the handler goes on. -/
def released : List Action := .command (.release "g") :: .replicate 3 (.move (.handler 0))

theorem aftermath_of_run_givenUpAtWork :
    ∃ es s, run gated (start gated) givenUpAtWork = some (es, s) ∧
      s.watch = .returned (.cancelled "interrupted") ∧ s.loop = .dropped ∧
      (s.handlers.flatMap (·.owed gated.server.dispatcher)).length = 1 ∧
      Aftermath gated givenUpAtWork s := by
  obtain ⟨es, s, h, he⟩ := exists_of_run (c := gated) (s := start gated) givenUpAtWork
    (p := fun _ s => s.watch == .returned (.cancelled "interrupted") && s.loop matches .dropped &&
      (s.handlers.flatMap (·.owed gated.server.dispatcher)).length == 1) (by decide +kernel)
  simp only [Bool.and_eq_true, beq_iff_eq] at he
  have hl : s.loop = .dropped := by
    have := he.1.2
    cases hl : s.loop <;> simp_all
  exact ⟨es, s, h, he.1.1, hl, he.2, aftermath_of_run gated h he.1.1⟩

/-- The gate opens after the supervisor has returned, and the reply is written. -/
theorem not_silent_givenUpAtWork :
    ∃ es s, run gated (start gated) givenUpAtWork = some (es, s) ∧
      s.ending? = some (.cancelled "interrupted") ∧ ¬ Silent gated s := by
  obtain ⟨es, s, h, he⟩ := exists_of_run (c := gated) (s := start gated) givenUpAtWork
    (p := fun _ s => s.ending? == some (.cancelled "interrupted") &&
      (run gated s released).any fun r => !(written r.1).isEmpty) (by decide +kernel)
  rw [Bool.and_eq_true, beq_iff_eq] at he
  obtain ⟨fs, t, ht, hw⟩ := exists_of_run released (p := fun fs _ => !(written fs).isEmpty) he.2
  refine ⟨es, s, h, he.1, fun hs => ?_⟩
  rw [(hs _ fs t ht).1] at hw
  cases hw

end ContextServer.Session
