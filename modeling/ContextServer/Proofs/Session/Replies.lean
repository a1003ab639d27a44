import ContextServer.Proofs.Dispatch.Events
import ContextServer.Proofs.Session.Account
import ContextServer.Proofs.Session.Slots
import ContextServer.Proofs.Stream.Chunking

/-!
What a session writes, from the stream alone. Whenever the loop comes to read, it gets what it
would get of the whole stream that the peer ever sends, so a session that runs to the end of its
stream writes the replies to the successive readings of that stream: each of them once, whatever
the schedule and the number of slots.
-/

namespace ContextServer

namespace Dispatcher

/-- The operation that the envelope asks for crashes. -/
def Crashes (d : Dispatcher) (e : Envelope) : Prop :=
  ∃ (name : String) (c : ProviderCall) (α : Type) (q : Promise α) (encode : α → Json),
    e.method? = some name ∧ d.providers.Operation e.params? name c q encode ∧ q.answer = .crash

theorem crashes_iff {d : Dispatcher} {e : Envelope} :
    d.Crashes e ↔ ∃ c, d.plan e = .consult c ∧ result? (d.promise c).answer = none := by
  constructor
  · rintro ⟨name, c, α, q, encode, hn, ho, hc⟩
    exact ⟨c, plan_eq_consult.mpr ⟨name, hn, α, q, encode, ho⟩, result?_of_crash ho hc⟩
  · rintro ⟨c, hp, hr⟩
    obtain ⟨name, hn, α, q, encode, ho⟩ := plan_eq_consult.mp hp
    refine ⟨name, c, α, q, encode, hn, ho, Classical.byContradiction fun hne => ?_⟩
    rw [result?_of_operation ho hne] at hr
    cases hr

instance (d : Dispatcher) (e : Envelope) : Decidable (d.Crashes e) :=
  match hp : d.plan e with
  | .consult c => decidable_of_iff ((result? (d.promise c).answer).isNone = true) (by
      rw [crashes_iff, Option.isNone_iff_eq_none]
      refine ⟨fun h => ⟨c, hp, h⟩, ?_⟩
      rintro ⟨b, hb, h⟩
      obtain rfl := Plan.consult.inj (hp.symm.trans hb)
      exact h)
  | .ignore | .answer _ | .negotiate _ => .isFalse (by
      rw [crashes_iff]
      rintro ⟨c, hc, -⟩
      cases hp.symm.trans hc)

theorem reply_of_crashes {d : Dispatcher} {e : Envelope} (h : d.Crashes e) (initialized : Bool) :
    (d.dispatch initialized e).reply =
      e.requestId?.map fun id => .carrying id (.error ⟨-32603, "internal error", none⟩) := by
  obtain ⟨name, c, α, q, encode, hn, ho, hc⟩ := h
  rw [reply_of_operation initialized hn ho, hc]
  rfl

/-- A request is answered, but for the one that is silent. -/
theorem exists_reply (d : Dispatcher) (initialized : Bool) (id : RequestId) {name : String}
    (params : Option Json) (h : name ≠ "notifications/initialized") :
    ∃ r, (d.dispatch initialized (.request id name params)).reply = some (.carrying id r) := by
  have concluded (r : Except ErrorObject Json) :
      (conclude (.request id name params) r).2 = some (.carrying id r) := by
    have hs : (Method.ofName? name).any Method.isSilent = false :=
      Bool.eq_false_iff.mpr fun hs => h (isSilent_ofName?.mp hs)
    simp only [conclude, hs, Bool.false_eq_true, if_false, respond_eq]
  rw [reply_dispatch]
  cases hp : d.plan (.request id name params) with
  | ignore => exact absurd ((plan_spec d _).1.mp hp) (not_passes_request id name params)
  | answer r => exact ⟨r, concluded r⟩
  | negotiate p => exact ⟨_, concluded (.ok d.greeting)⟩
  | consult c =>
    simp only [replyOf]
    cases result? (d.promise c).answer with
    | some r => exact ⟨r, concluded r⟩
    | none => exact ⟨.error (.internal "internal error"), rfl⟩

end Dispatcher

namespace Session

/-- The replies to successive readings, taken one by one in a session that has been negotiated
before, or not. -/
def replies (d : Dispatcher) : Bool → List Reading → List Envelope
  | _, [] => []
  | initialized, .envelope e :: rs =>
    (if d.Crashes e then
      e.requestId?.map fun id => .carrying id (.error ⟨-32603, "internal error", none⟩)
    else (d.dispatch initialized e).reply).toList ++
      replies d (d.dispatch initialized e).initialized rs
  | initialized, .malformed cause :: rs =>
    (cause.recoveredId.map fun id =>
      .carrying id (.error ⟨-32600, "invalid request", none⟩)).toList ++ replies d initialized rs
  | initialized, .ended :: rs => replies d initialized rs
  | initialized, .failed _ :: rs => replies d initialized rs

theorem replies_envelope (d : Dispatcher) (initialized : Bool) (e : Envelope) (rs : List Reading) :
    replies d initialized (.envelope e :: rs) = (d.dispatch initialized e).reply.toList ++
      replies d (d.dispatch initialized e).initialized rs := by
  rw [replies]
  split
  · next h => rw [Dispatcher.reply_of_crashes h]
  · rfl

/-- Every reply is well formed, so that none is held back. -/
theorem filter_isWritable_reply (d : Dispatcher) (initialized : Bool) (e : Envelope) :
    (d.dispatch initialized e).reply.filter isWritable = (d.dispatch initialized e).reply := by
  cases h : (d.dispatch initialized e).reply with
  | none => rfl
  | some w =>
    obtain ⟨id, r, -, rfl⟩ := Dispatcher.eq_respond_of_reply h
    cases r <;> rfl

theorem replies_eq (d : Dispatcher) (initialized : Bool) (rs : List Reading) :
    replies d initialized rs = rs.flatMap (answers d) := by
  induction rs generalizing initialized with
  | nil => rfl
  | cons r rs ih =>
    rw [List.flatMap_cons]
    cases r with
    | envelope e =>
      rw [replies_envelope, ih, answers, filter_isWritable_reply, Dispatcher.reply_dispatch,
        Dispatcher.reply_dispatch]
    | malformed | ended | failed => rw [replies, ih]; rfl

/-! ### What the peer sends -/

/-- Whether an action brings something to the stream of the session. -/
def Action.isDelivery : Action → Bool
  | .command (.arrive _) | .command .hangUp | .command (.failRead _) => true
  | _ => false

/-- Whether an action brings what comes after the last byte. -/
def Action.isLast : Action → Bool
  | .command .hangUp | .command (.failRead _) => true
  | _ => false

def delivered (s : Source) : Action → Source
  | .command (.arrive bs) => s.arrive bs
  | .command .hangUp => s.hangUp
  | .command (.failRead m) => s.failNext m
  | _ => s

/-- The stream after the deliveries among the actions. -/
def deliver (s : Source) (as : List Action) : Source := as.foldl delivered s

/-- All that the peer sends. -/
def stream (as : List Action) : Source := deliver .empty as

/-- Nothing comes after the end of the stream or its fault. -/
def EndsOnce (as : List Action) : Prop :=
  as.Pairwise fun a b => a.isLast = true → b.isDelivery = false

instance (as : List Action) : Decidable (EndsOnce as) :=
  inferInstanceAs (Decidable (as.Pairwise _))

theorem delivered_of_not_isDelivery {a : Action} (h : a.isDelivery = false) (s : Source) :
    delivered s a = s := by
  unfold Action.isDelivery at h
  split at h
  · cases h
  · cases h
  · cases h
  · unfold delivered
    split
    · simp_all
    · simp_all
    · simp_all
    · rfl

theorem deliver_of_not_isDelivery {as : List Action} (h : ∀ a ∈ as, a.isDelivery = false)
    (s : Source) : deliver s as = s := by
  induction as with
  | nil => rfl
  | cons a as ih =>
    rw [deliver, List.foldl_cons, delivered_of_not_isDelivery (h a (by simp))]
    exact ih fun b hb => h b (by simp [hb])

theorem deliver_append (s : Source) (as bs : List Action) :
    deliver s (as ++ bs) = deliver (deliver s as) bs := List.foldl_append

theorem bytes_deliver (s : Source) (as : List Action) :
    (deliver s as).bytes = s.bytes ++ (stream as).bytes := by
  induction as using List.reverseRecOn with
  | nil => simp [deliver, stream, Source.empty, Source.bytes]
  | append_singleton as a ih =>
    rw [stream, deliver_append, deliver_append]
    have arrive (t : Source) (bs : List UInt8) : (t.arrive bs).bytes = t.bytes ++ bs := by
      simp [Source.arrive, Source.bytes]
    show (delivered (deliver s as) a).bytes = s.bytes ++ (delivered (stream as) a).bytes
    unfold delivered
    split
    · rw [arrive, arrive, ih, List.append_assoc]
    · exact ih
    · exact ih
    · exact ih

/-- What comes after the last byte is what has come to one stream as to the other. -/
theorem frame_deliver {s t : Source} (hf : s.fault = t.fault) (he : s.ended = t.ended)
    (as : List Action) :
    (deliver s as).fault = (deliver t as).fault ∧ (deliver s as).ended = (deliver t as).ended := by
  induction as using List.reverseRecOn with
  | nil => exact ⟨hf, he⟩
  | append_singleton as a ih =>
    rw [deliver_append, deliver_append]
    show (delivered (deliver s as) a).fault = (delivered (deliver t as) a).fault ∧
      (delivered (deliver s as) a).ended = (delivered (deliver t as) a).ended
    unfold delivered
    split
    · exact ih
    · exact ⟨ih.1, rfl⟩
    · exact ⟨rfl, ih.2⟩
    · exact ih

/-- A read gives what it would give if all that is still to be delivered were there already. -/
theorem read_deliver {framing : Framing} {limit : Nat} {s t : Source} {r : Reading}
    {as : List Action} (h : Reader.read framing limit s = some (r, t))
    (hs : s.isOpen = true ∨ ∀ a ∈ as, a.isDelivery = false) :
    ∃ u, Reader.read framing limit (deliver s as) = some (r, u) ∧
      ((∀ e, r ≠ .failed e) → u.whole = (deliver t as).whole) := by
  have hg : s.Grown ⟨(stream as).bytes, (deliver s as).fault, (deliver s as).ended⟩
      (deliver s as) := by
    refine ⟨bytes_deliver s as, rfl, rfl, hs.imp_right fun hnone => ?_⟩
    rw [stream, deliver_of_not_isDelivery hnone, deliver_of_not_isDelivery hnone]
    exact ⟨rfl, rfl, rfl⟩
  obtain ⟨u, hu, hgrown⟩ := Reader.read_keeps framing limit hg h
  refine ⟨u, hu, fun hne => ?_⟩
  obtain ⟨hf, he⟩ := Reader.frame_of_read h hne
  obtain ⟨hf', he'⟩ := frame_deliver hf he as
  rw [Source.whole_of_grown (hgrown hne), Source.whole, bytes_deliver, hf', he']

/-! ### What the loop reads -/

/-- Whether one of the readings has ended the stream or found it broken. -/
def hasEnded (rs : List Reading) : Prop := ∃ r ∈ rs, r.ending? ≠ none

/-- The loop has read a part of what the whole stream has to give, whatever the actions to come
deliver of it, and after the last of it the loop does not serve any more. -/
structure Followed (c : Setup) (as : List Action) (es : List Effect) (s : Session) : Prop where
  last : ¬ hasEnded (reads es) → s.inbound.isOpen = true ∨ ∃ a ∈ as, a.isLast = true
  rest : ¬ hasEnded (reads es) → ∀ bs n, EndsOnce (as ++ bs) →
    Reader.readings c.framing c.limit false ((reads es).length + n) (stream (as ++ bs)) =
      reads es ++ Reader.readings c.framing c.limit false n (deliver s.inbound bs)
  all : hasEnded (reads es) → s.loop.isServing = false ∧ ∀ bs n, EndsOnce (as ++ bs) →
    Reader.readings c.framing c.limit false ((reads es).length + n) (stream (as ++ bs)) = reads es

theorem hasEnded_append {rs qs : List Reading} :
    hasEnded (rs ++ qs) ↔ hasEnded rs ∨ hasEnded qs := by
  simp [hasEnded, or_and_right, exists_or]

theorem hasEnded_singleton {r : Reading} : hasEnded [r] ↔ r.ending? ≠ none := by
  simp [hasEnded]

theorem followed_start (c : Setup) : Followed c [] [] (start c) where
  last _ := .inl rfl
  rest _ bs n _ := by
    show Reader.readings _ _ _ (0 + n) _ = _
    rw [Nat.zero_add]
    rfl
  all := by
    rintro ⟨r, hr, -⟩
    cases hr

theorem isOpen_delivered {s : Source} (h : s.isOpen = true) (a : Action) :
    (delivered s a).isOpen = true ∨ a.isLast = true := by
  unfold delivered
  split
  · exact .inl h
  · exact .inr rfl
  · exact .inr rfl
  · exact .inl h

/-- An action that is no read only delivers. -/
theorem followed_delivered {c : Setup} {as : List Action} {es fs : List Effect} {s t : Session}
    {a : Action} (hf : Followed c as es s) (hi : t.inbound = delivered s.inbound a)
    (hr : reads fs = []) (hl : s.loop.isServing = false → t.loop.isServing = false) :
    Followed c (as ++ [a]) (es ++ fs) t := by
  have hreads : reads (es ++ fs) = reads es := by rw [reads_append, hr, List.append_nil]
  constructor
  · rw [hreads, hi]
    intro hne
    rcases hf.last hne with ho | ⟨b, hb, hlast⟩
    · exact (isOpen_delivered ho a).imp_right fun hlast => ⟨a, by simp, hlast⟩
    · exact .inr ⟨b, by simp [hb], hlast⟩
  · rw [hreads, hi]
    intro hne bs n he
    rw [List.append_assoc] at he ⊢
    exact hf.rest hne (a :: bs) n he
  · rw [hreads]
    intro hend
    refine ⟨hl (hf.all hend).1, fun bs n he => ?_⟩
    rw [List.append_assoc] at he ⊢
    exact (hf.all hend).2 (a :: bs) n he

theorem not_isDelivery_of_isLast {as bs : List Action} (he : EndsOnce (as ++ bs)) {a : Action}
    (ha : a ∈ as) (hl : a.isLast = true) : ∀ b ∈ bs, b.isDelivery = false :=
  fun b hb => (List.pairwise_append.mp he).2.2 a ha b hb hl

theorem followed_read {c : Setup} {as : List Action} {es : List Effect} {s : Session}
    {r : Reading} {rest : Source} (hf : Followed c as es s) (hl : s.loop = .reading)
    (hr : Reader.read c.framing c.limit s.inbound = some (r, rest)) :
    Followed c (as ++ [.move .loop]) (es ++ [.read r])
      { s with inbound := rest, loop := afterReading r } := by
  have hserving : s.loop.isServing = true := by rw [hl]; rfl
  have hne : ¬ hasEnded (reads es) := fun h => by
    rw [(hf.all h).1] at hserving
    cases hserving
  have hreads : reads (es ++ [.read r]) = reads es ++ [r] := reads_append es [.read r]
  have hlen (n : Nat) : (reads es ++ [r]).length + n = (reads es).length + (n + 1) := by
    simp only [List.length_append, List.length_singleton]
    omega
  -- the whole stream gives this reading too, and then what the rest of it has to give
  have hread (bs : List Action) (he : EndsOnce (as ++ [.move .loop] ++ bs)) :
      ∃ u, Reader.read c.framing c.limit (deliver s.inbound bs) = some (r, u) ∧
        ((∀ e, r ≠ .failed e) → u.whole = (deliver rest bs).whole) := by
    refine read_deliver hr ((hf.last hne).imp_right ?_)
    rintro ⟨a, ha, hlast⟩
    exact not_isDelivery_of_isLast he (List.mem_append_left _ ha) hlast
  have hwhole (bs : List Action) (n : Nat) (he : EndsOnce (as ++ [.move .loop] ++ bs)) :
      Reader.readings c.framing c.limit false ((reads es ++ [r]).length + n)
        (stream (as ++ [.move .loop] ++ bs)) = reads es ++
          Reader.readings c.framing c.limit false (n + 1) (deliver s.inbound bs) := by
    rw [hlen, List.append_assoc]
    rw [List.append_assoc] at he
    exact hf.rest hne (.move .loop :: bs) (n + 1) he
  constructor <;> intro hend <;> rw [hreads, hasEnded_append, hasEnded_singleton] at hend
  · have hnf (e : TransportError) : r ≠ .failed e := by
      rintro rfl
      exact hend (.inr (Option.some_ne_none _))
    obtain ⟨hfault, hended⟩ := Reader.frame_of_read hr hnf
    rcases hf.last hne with ho | ⟨a, ha, hlast⟩
    · left
      rw [← ho, Source.isOpen, Source.isOpen, hfault, hended]
    · exact .inr ⟨a, by simp [ha], hlast⟩
  · intro bs n he
    obtain ⟨u, hu, hw⟩ := hread bs he
    rw [hreads, hwhole bs n he, List.append_assoc]
    have hr : r.ending? = none := by
      by_contra h
      exact hend (.inr h)
    cases r with
    | ended | failed => cases hr
    | envelope | malformed =>
      simp only [Reader.readings, hu]
      rw [Reader.readings_of_whole_eq (hw (by simp))]
      rfl
  · have hr := hend.resolve_left hne
    constructor
    · show (afterReading r).isServing = false
      cases h : (afterReading r).isServing with
      | false => rfl
      | true => exact absurd (isServing_afterReading h) hr
    · intro bs n he
      obtain ⟨u, hu, -⟩ := hread bs he
      rw [hreads, hwhole bs n he]
      cases r with
      | ended => simp only [Reader.readings, hu]
      | failed => simp only [Reader.readings, hu, Bool.false_eq_true, if_false]
      | envelope | malformed => exact absurd rfl hr

theorem followed_next {c : Setup} {as : List Action} {es fs : List Effect} {s t : Session}
    {a : Action} (hf : Followed c as es s) (ht : Transition c s a fs t) :
    Followed c (as ++ [a]) (es ++ fs) t := by
  cases ht with
  | loop h =>
    cases h with
    | read hl hr => exact followed_read hf hl hr
    | reject hl =>
      exact followed_delivered hf rfl (reads_write s _) fun h => by rw [hl] at h; cases h
    | wait => exact followed_delivered hf rfl rfl id
    | stop | pass | close | mark => exact followed_delivered hf rfl rfl fun _ => rfl
    | resume hl | grant hl | spawn hl =>
      exact followed_delivered hf rfl rfl fun h => by rw [hl] at h; cases h
  | handler hi h =>
    obtain ⟨hl, -, hin, -⟩ := h.frame
    exact followed_delivered hf hin (reads_of_isHandlers h.isHandlers) fun hs => hl ▸ hs
  | join | interrupt | expire => exact followed_delivered hf rfl rfl id
  | drop => exact followed_delivered hf rfl rfl fun _ => rfl
  | @command k => cases k <;> exact followed_delivered hf rfl rfl id

theorem followed_of_run {c : Setup} {as : List Action} {es : List Effect} {s : Session}
    (h : run c (start c) as = some (es, s)) : Followed c as es s :=
  run_induction (followed_start c) (fun _ _ _ _ _ _ _ hf ht => followed_next hf ht) h

/-- A session that has come to its end unasked has read all that its stream has to give. -/
theorem reads_of_finished {c : Setup} {as : List Action} {es : List Effect} {s : Session}
    {e : Ending} {n : Nat} (h : run c (start c) as = some (es, s)) (hl : s.loop = .finished e)
    (hr : firstRequest? as = none) (he : EndsOnce as) (hn : (stream as).size < n) :
    reads es = Reader.readings c.framing c.limit false n (stream as) := by
  have hend : hasEnded (reads es) := by
    have hj := (closing_of_run h).ending e (by rw [hl]; rfl)
    have mem {r : Reading} (hm : .read r ∈ es) : r ∈ reads es :=
      List.mem_filterMap.mpr ⟨_, hm, rfl⟩
    cases e with
    | normal =>
      rcases hj with hm | hm
      · exact ⟨_, mem hm, nofun⟩
      · rw [hr] at hm
        cases hm
    | cancelled reason => cases hr.symm.trans hj
    | failed cause => exact ⟨_, mem hj, nofun⟩
  have hall := ((followed_of_run h).all hend).2 [] n (by rwa [List.append_nil])
  rw [List.append_nil] at hall
  rw [← hall]
  exact Reader.readings_of_size_lt (by omega) hn

/-- At its end a session has written the replies to what its stream holds, each of them once: one to
each request that is not silent, and none to anything else. -/
theorem written_perm_replies (c : Setup) {as : List Action} {es : List Effect} {s : Session}
    {e : Ending} {n : Nat} (h : run c (start c) as = some (es, s)) (hl : s.loop = .finished e)
    (hr : firstRequest? as = none) (hw : .command .breakWriter ∉ as) (he : EndsOnce as)
    (hn : (stream as).size < n) :
    (written es).Perm (replies c.server.dispatcher false
        (Reader.readings c.framing c.limit false n (stream as))) ∧
      (∀ initialized id name params, name ≠ "notifications/initialized" →
        ∃ r, replies c.server.dispatcher initialized [.envelope (.request id name params)] =
          [.carrying id r]) ∧
      ∀ initialized envelope, envelope.isRequest = false →
        replies c.server.dispatcher initialized [.envelope envelope] = [] := by
  refine ⟨?_, fun initialized id name params hne => ?_, fun initialized envelope hne => ?_⟩
  · rw [replies_eq, ← reads_of_finished h hl hr he hn]
    exact written_perm_of_finished h hl hr hw
  · obtain ⟨r, hr⟩ := c.server.dispatcher.exists_reply initialized id params hne
    exact ⟨r, by rw [replies_envelope, hr]; rfl⟩
  · rw [replies_envelope, Dispatcher.reply_of_not_isRequest hne]
    rfl

/-- A call of a tool, a request of another version, and one that asks for nothing. -/
def mixedLines : List UInt8 :=
  Text.Utf8.encode ("\x7b\"jsonrpc\":\"2.0\",\"id\":1,\"method\":\"tools/call\"," ++
    "\"params\":[\"x\"]\x7d\n\x7b\"jsonrpc\":\"1.0\",\"id\":7,\"method\":\"ping\"\x7d\n").toList ++
  pingLine

/-- The second line is refused while the tool is at work on the first, and then the tool crashes. -/
def refusedAndCrashed : List Action :=
  let loop (n : Nat) := List.replicate n (Action.move .loop)
  let work (n : Nat) := List.replicate n (Action.move (.handler 0))
  [.command (.arrive mixedLines)] ++ loop 9 ++ work 6 ++ loop 2 ++ work 6 ++
    [.command .hangUp] ++ loop 6

/-- Both are answered, each with its own identifier, and the session goes on. -/
theorem written_perm_replies_refusedAndCrashed :
    ∃ es s, run crashing (start crashing) refusedAndCrashed = some (es, s) ∧
      ((written es).map fun w => String.ofList w.print).Perm
        ["\x7b\"jsonrpc\":\"2.0\",\"id\":1,\"error\":\x7b\"code\":-32603," ++
            "\"message\":\"internal error\"\x7d\x7d",
          "\x7b\"jsonrpc\":\"2.0\",\"id\":7,\"error\":\x7b\"code\":-32600," ++
            "\"message\":\"invalid request\"\x7d\x7d",
          "\x7b\"jsonrpc\":\"2.0\",\"id\":1,\"result\":\x7b\x7d\x7d"] := by
  obtain ⟨es, s, h, he⟩ := exists_of_run (c := crashing) (s := start crashing) refusedAndCrashed
    (p := fun _ s => s.loop.isFinished) (by decide +kernel)
  obtain ⟨e, hl⟩ := Loop.isFinished_iff.mp he
  have hp := (written_perm_replies crashing (n := 200) h hl (by decide +kernel) (by decide +kernel)
    (by decide +kernel) (by decide +kernel)).1
  exact ⟨es, s, h, (hp.map _).trans (.of_eq (by decide +kernel))⟩

end Session

end ContextServer
