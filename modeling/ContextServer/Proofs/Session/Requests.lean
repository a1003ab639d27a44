import ContextServer.Proofs.Dispatch.Verdict
import ContextServer.Proofs.Session.Account

/-!
What becomes of a request in a session. A handler has at no stage another reply to write than the
one that dispatching its envelope gives (`bound_of_run`), and that one is a well-formed response.
So no reply is ever held back as ill formed.
-/

namespace ContextServer

open Dispatcher

/-- What the handler has still to write is the reply to its envelope. -/
def Handler.Bound (d : Dispatcher) (h : Handler) : Prop :=
  ∀ w, h.stage.reply? d h.envelope = some w → (d.dispatch false h.envelope).reply = some w

namespace Session

variable {c : Setup} {s t : Session} {i : Nat} {h : Handler} {fs : List Effect}

/-- A step of a handler changes its own stage, or takes the handler away. -/
theorem HandlerStep.handlers (hs : HandlerStep c s i h fs t) :
    (∃ st, t.handlers = s.handlers.set i { h with stage := st } ∧
      (st.reply? c.server.dispatcher h.envelope = h.stage.reply? c.server.dispatcher h.envelope ∨
        st.reply? c.server.dispatcher h.envelope = none)) ∨
      t.handlers = s.handlers.eraseIdx i := by
  cases hs with
  | plan hs => exact .inl ⟨_, rfl, .inl (by rw [hs, reply?_planned]; rfl)⟩
  | negotiate hs => exact .inl ⟨_, rfl, .inl (by rw [hs]; rfl)⟩
  | consult hs => exact .inl ⟨_, rfl, .inl (by rw [hs, reply?_consulted]; rfl)⟩
  | pass hs hg => exact .inl ⟨_, rfl, .inl (by rw [hs, reply?_answered]; rfl)⟩
  | conclude hs => exact .inl ⟨_, rfl, .inl (by rw [hs, reply?_concluded]; rfl)⟩
  | reply hs => exact .inl ⟨_, rfl, .inr rfl⟩
  | leave hs => exact .inl ⟨_, rfl, .inr (by split <;> rfl)⟩
  | notify hs => exact .inl ⟨_, rfl, .inr rfl⟩
  | release hs => exact .inr rfl

theorem bound_handler (hs : HandlerStep c s i h fs t) (hi : s.handlers[i]? = some h)
    (hb : ∀ x ∈ s.handlers, x.Bound c.server.dispatcher) :
    ∀ x ∈ t.handlers, x.Bound c.server.dispatcher := by
  rcases hs.handlers with ⟨st, ht, hst⟩ | ht
  · rw [ht]
    intro x hx
    rcases List.mem_or_eq_of_mem_set hx with hx | rfl
    · exact hb x hx
    · intro w hw
      rcases hst with hst | hst
      · exact hb h (List.mem_of_getElem? hi) w (hst ▸ hw)
      · exact absurd (hst ▸ hw) nofun
  · rw [ht]
    exact fun x hx => hb x (List.mem_of_mem_eraseIdx hx)

/-- The loop adds a handler that has yet to do everything. -/
theorem bound_loop (hs : LoopStep c s fs t) (hb : ∀ x ∈ s.handlers, x.Bound c.server.dispatcher) :
    ∀ x ∈ t.handlers, x.Bound c.server.dispatcher := by
  cases hs with
  | spawn hl =>
    intro x hx
    rcases List.mem_append.mp hx with hx | hx
    · exact hb x hx
    · rw [List.mem_singleton.mp hx]
      exact fun w hw => hw
  | stop | resume | read | reject | grant | wait | pass | close | mark => exact hb

theorem bound_of_run {as : List Action} {es : List Effect} (hr : run c (start c) as = some (es, s)) :
    ∀ x ∈ s.handlers, x.Bound c.server.dispatcher := by
  refine run_induction (P := fun _ _ s => ∀ x ∈ s.handlers, x.Bound c.server.dispatcher)
    (List.forall_mem_nil _) ?_ hr
  intro as es t a fs u _ hb ht
  cases ht with
  | loop hs => exact bound_loop hs hb
  | handler hi hs => exact bound_handler hs hi hb
  | join | interrupt | expire | drop => exact hb
  | @command k => cases k <;> exact hb

/-- No reply of a handler is refused when it comes to be written. -/
theorem isWritable_of_run {as : List Action} {es : List Effect} {w : Envelope}
    (hr : run c (start c) as = some (es, s)) (hh : h ∈ s.handlers)
    (hs : h.stage = .replying w) : isWritable w = true := by
  have hw : h.stage.reply? c.server.dispatcher h.envelope = some w := by rw [hs]; rfl
  obtain ⟨id, r, -, rfl⟩ := eq_respond_of_reply (bound_of_run hr h hh w hw)
  cases r <;> rfl

end Session

namespace Dispatcher

/-- Every request whose provider returns gets the reply that its case asks for, and no session
ever refuses to write a reply. -/
theorem verdict_of_request (d : Dispatcher) (hr : d.providers.Returns) (initialized : Bool)
    (id : RequestId) (name : String) (params : Option Json) :
    let reply := (d.dispatch initialized (.request id name params)).reply
    (reply = none ↔ name = "notifications/initialized") ∧
      (∀ w, reply = some w → ∃ r, w = .response r ∧ r.id = some id ∧ r.isWellFormed = true) ∧
      (∀ c : Setup, c.server.dispatcher = d → ∀ as es s, Session.run c (.start c) as = some (es, s) →
        ∀ h ∈ s.handlers, ∀ w, h.stage = .replying w → Session.isWritable w = true) ∧
      ((∃ e, reply = some (.failure id e) ∧ e.code = -32601) ↔ ∀ m : Method, m.name ≠ name) ∧
      (∀ o, reply = o.map (.carrying id) ↔ d.Verdict name params o) ∧
      ∃ ms, d.greeting.member? "capabilities" = some (.obj ms) ∧
        ∀ k, (ms.lookup k).isSome = true ↔ ∃ g, g.name = k ∧ d.providers.Wires g := by
  refine ⟨reply_eq_none_iff hr initialized, fun w => response_of_reply, ?_,
    methodNotFound_iff hr initialized, reply_eq_iff hr initialized, d.advertises_wired⟩
  intro c _ as es s hrun h hh w hw
  exact Session.isWritable_of_run hrun hh hw

/-- A server whose only tool finds fault with whatever it is given. -/
def faultfinding : Dispatcher :=
  ⟨⟨"strict", "1"⟩,
    ⟨some ⟨.value [], fun _ _ => .failure (.badRequest "bad_arguments" "too long")⟩, none, none⟩⟩

/-- Params in an array are params, and what the tool says of them reaches the peer. -/
theorem verdict_of_request_faulted :
    faultfinding.providers.Returns ∧
      (faultfinding.dispatch false
        (.request (.text "a") "tools/call" (some (.arr [.str "measure"])))).reply =
          some (.failure (.text "a") ⟨-32602, "too long", none⟩) := by
  have hr : faultfinding.providers.Returns := by
    refine ⟨fun t h => ?_, nofun, nofun⟩
    obtain rfl := Option.some_inj.mp h
    exact ⟨nofun, nofun⟩
  have hs : CallToolParams.shape.Reads (some (.arr [.str "measure"])) ⟨"measure", none⟩ :=
    ⟨_, rfl, rfl⟩
  have hcase : faultfinding.Verdict "tools/call" (some (.arr [.str "measure"]))
      (some (.error ⟨-32602, "too long", none⟩)) :=
    .failure (f := .badRequest "bad_arguments" "too long") (.callTool rfl hs) rfl
  obtain ⟨-, -, -, -, hverdict, -⟩ :=
    verdict_of_request faultfinding hr false (.text "a") "tools/call" (some (.arr [.str "measure"]))
  exact ⟨hr, (hverdict _).mpr hcase⟩

end Dispatcher

end ContextServer
