import ContextServer.Proofs.Dispatch.Replies
import ContextServer.Proofs.Envelope.Acceptance
import ContextServer.Proofs.Json.Taken

/-!
Which numbers come back as the identifier of a reply. A request with a number as its identifier
holds a numeral in the last member of this name, and what stands in its place in the reply is a
numeral again. A numeral that is kept comes back with its value, and as it was spelled if it is an
integer of 64 bits (`echoes_identifier`). An integer beyond that is a binary64 number and does not
(`echoes_of_long`).
-/

namespace ContextServer

open Json (Numeral Spelling)

namespace Envelope

/-- What comes before the identifier in a reply. -/
def replyHead : List Char := "\x7b\"jsonrpc\":\"2.0\",\"id\":".toList

/-- The numeral stands for the identifier in the text of a reply. -/
def Echoes (w : Envelope) (y : Numeral) : Prop :=
  ∃ r, w.print = replyHead ++ (y.text ++ ',' :: r)

instance (w : Envelope) (y : Numeral) : Decidable (w.Echoes y) :=
  decidable_of_iff (replyHead ++ (y.text ++ [',']) <+: w.print) (by
    constructor
    · rintro ⟨r, hr⟩
      exact ⟨r, by simp [← hr]⟩
    · rintro ⟨r, hr⟩
      exact ⟨r, by simp [hr]⟩)

theorem Echoes.unique {w : Envelope} {y z : Numeral} (hy : w.Echoes y) (hz : w.Echoes z) :
    y = z := by
  obtain ⟨r, hr⟩ := hy
  obtain ⟨s, hs⟩ := hz
  have hends (r : List Char) := Json.Parser.endsNumber_cons (.inl rfl : ',' = ',' ∨ _) r
  have heq := List.append_cancel_left (hr.symm.trans hs)
  exact (Numeral.eq_of_text_append (hends r) (hends s) heq).1

theorem print_respond (n : Number) (r : Except ErrorObject Json) :
    ∃ t, (Dispatcher.respond (.number n) r).print = replyHead ++ (n.print ++ ',' :: t) := by
  have hhead : '{' :: (Json.printString "jsonrpc" ++ ':' :: (Json.printString "2.0" ++
      ',' :: (Json.printString "id" ++ [':']))) = replyHead := by decide +kernel
  rw [← hhead]
  cases r with
  | ok j =>
    refine ⟨Json.printMembers [("result", j)] ++ ['}'], ?_⟩
    simp [print, toJson, Dispatcher.respond, success, parts, Parts.shape, Shape.wire,
      Fields.members, Field.optional, Codec.option, Codec.string, RequestId.codec, presentCodec,
      Response.success, Json.print, Json.printMembers, rpcVersion]
  | error e =>
    refine ⟨Json.printMembers [("error", e.wire)] ++ ['}'], ?_⟩
    simp [print, toJson, Dispatcher.respond, failure, parts, Parts.shape, Shape.wire,
      Fields.members, Field.optional, Codec.option, Codec.string, RequestId.codec, presentCodec,
      errorCodec, Response.failure, Json.print, Json.printMembers, rpcVersion]

theorem ofJson_ne_malformed (j : Json) : ofJson j ≠ .error .malformed := by
  intro h
  unfold ofJson at h
  split at h
  · split at h
    · split at h <;> cases h
    · cases h
  · cases h

/-- The identifier of a request has been decoded from a member of this name. -/
theorem requestId_of_ofJson {j : Json} {e : Envelope} {id : RequestId} (h : ofJson j = .ok e)
    (hid : e.requestId? = some id) :
    ∃ ms v, j = .obj ms ∧ ("id", v) ∈ ms ∧ RequestId.codec.decode v = .ok id := by
  obtain ⟨ms, rfl, -, -, hmade⟩ := ofJson_eq_ok.mp h
  cases hmade with
  | request i m hi hm =>
    cases hid
    have hlookup := (Members.present?_eq_some.mp hi).1
    exact ⟨ms, _, rfl, Members.mem_of_lookup hlookup, RequestId.codec_lawful id⟩
  | notification | response => cases hid

/-- The bytes are an object whose identifier is the numeral. -/
def SpellsId (bs : List UInt8) (x : Numeral) : Prop :=
  ∃ s : Spelling x, s.key = "id" ∧ Text.Utf8.decode? bs = some s.text

/-- The identifier of a request is the number that the parser has made of the numeral. -/
theorem SpellsId.read?_eq {bs : List UInt8} {x : Numeral} {e : Envelope} {id : RequestId}
    (hx : SpellsId bs x) (h : ofBytes bs = .ok e) (hid : e.requestId? = some id) :
    ∃ n, x.read? = some n ∧ id = .number n := by
  obtain ⟨s, hkey, hdec⟩ := hx
  cases hn : x.read? with
  | none =>
    rw [ofBytes, s.ofBytes?_eq_none hn hdec] at h
    cases h
  | some n =>
    obtain ⟨ms, hms, ha, hl⟩ := s.exists_ofBytes? hn hdec
    rw [ofBytes, hms] at h
    obtain ⟨_, v, heq, hv, hid⟩ := requestId_of_ofJson h hid
    cases heq
    rw [hkey, Members.lookup_of_mem (Members.nodup_of_ascending ha) hv] at hl
    cases hl
    cases hid
    exact ⟨n, rfl, rfl⟩

/-- A request that has a number as its identifier spells a numeral for it. -/
theorem exists_spellsId {bs : List UInt8} {e : Envelope} {n : Number} (h : ofBytes bs = .ok e)
    (hid : e.requestId? = some (.number n)) : ∃ x, SpellsId bs x := by
  unfold ofBytes at h
  split at h
  · rename_i j hj
    obtain ⟨ms, v, rfl, hv, hdec⟩ := requestId_of_ofJson h hid
    have hnodup := Members.nodup_of_ascending (Json.Tidy.obj.mp (Json.tidy_of_ofBytes? hj)).1
    have hvalue : v = .num n := by
      cases v with
      | num m =>
        cases hdec
        rfl
      | _ => cases hdec
    have hl : ms.lookup "id" = some (.num n) := hvalue ▸ Members.lookup_of_mem hnodup hv
    obtain ⟨cs, hcs, hparse⟩ := Option.bind_eq_some_iff.mp hj
    obtain ⟨x, s, hkey, rfl⟩ := Json.exists_spelling hparse hl
    exact ⟨x, s, hkey, hcs⟩
  · cases h

theorem SpellsId.ne_malformed {bs : List UInt8} {x : Numeral} (hx : SpellsId bs x)
    (h : x.IsKept) : ofBytes bs ≠ .error .malformed := by
  intro hmal
  obtain ⟨s, -, hdec⟩ := hx
  obtain ⟨n, hn, -⟩ := h
  obtain ⟨ms, hms, -⟩ := s.exists_ofBytes? hn hdec
  rw [ofBytes, hms] at hmal
  exact ofJson_ne_malformed _ hmal

end Envelope

namespace Dispatcher

/-- `w` is the reply to a request that has the numeral `x` as its identifier. -/
def Answers (d : Dispatcher) (x : Numeral) (w : Envelope) : Prop :=
  ∃ bs initialized e, Envelope.SpellsId bs x ∧ Envelope.ofBytes bs = .ok e ∧
    (d.dispatch initialized e).reply = some w

variable {d : Dispatcher} {x : Numeral} {w : Envelope}

namespace Answers

/-- The reply has the number in it that the parser has made of the numeral. -/
theorem exists_print (h : d.Answers x w) :
    ∃ n, x.read? = some n ∧
      ∃ t, w.print = Envelope.replyHead ++ (n.print ++ ',' :: t) := by
  obtain ⟨bs, initialized, e, hspells, hparsed, hreply⟩ := h
  obtain ⟨id, r, hid, rfl⟩ := eq_respond_of_reply hreply
  obtain ⟨n, hn, rfl⟩ := hspells.read?_eq hparsed hid
  exact ⟨n, hn, Envelope.print_respond n r⟩

/-- Whatever the number is, a numeral comes back. Its value is that of the request's numeral if
this is kept, and no other numerals come back so. -/
theorem exists_echo (h : d.Answers x w) :
    ∃ y, w.Echoes y ∧ (y.value = x.value ↔ x.IsKept) := by
  obtain ⟨n, hn, t, ht⟩ := h.exists_print
  obtain ⟨y, hy, hv⟩ := Numeral.exists_print n
  refine ⟨y, ⟨t, hy ▸ ht⟩, ?_⟩
  rw [hv]
  constructor
  · intro heq
    exact ⟨n, hn, heq⟩
  · rintro ⟨m, hm, heq⟩
    obtain rfl : n = m := Option.some.inj (hn.symm.trans hm)
    exact heq

theorem value_of_echoes (h : d.Answers x w) (hx : x.IsKept) {y : Numeral} (hy : w.Echoes y) :
    y.value = x.value := by
  obtain ⟨z, hz, hv⟩ := h.exists_echo
  obtain rfl := hy.unique hz
  exact hv.mpr hx

theorem echoes_of_isWord (h : d.Answers x w) (hx : x.IsWord) : w.Echoes x := by
  obtain ⟨n, hn, t, ht⟩ := h.exists_print
  exact ⟨t, hx.print_eq hn ▸ ht⟩

end Answers

/-- A request that has a number as its identifier spells a numeral for it. The reply to the request
has a numeral in this place, of the same value exactly if the numeral of the request is kept, and
the very same one if it is an integer of 64 bits. Such an integer is kept, and so is a short
numeral, and neither makes its request malformed. The replies to requests with different numbers
that are kept have different identifiers. -/
theorem echoes_identifier (d : Dispatcher) :
    (∀ bs e n, Envelope.ofBytes bs = .ok e → e.requestId? = some (.number n) →
      ∃ x, Envelope.SpellsId bs x) ∧
    (∀ x w, d.Answers x w →
      ∃ y, w.Echoes y ∧ (y.value = x.value ↔ x.IsKept) ∧ (x.IsWord → y = x)) ∧
    (∀ x : Numeral, x.IsWord ∨ x.IsShort →
      x.IsKept ∧ ∀ bs, Envelope.SpellsId bs x → Envelope.ofBytes bs ≠ .error .malformed) ∧
    ∀ x w x' w', d.Answers x w → d.Answers x' w' → x.IsKept → x'.IsKept → x.value ≠ x'.value →
      ∀ y, w.Echoes y → ¬ w'.Echoes y := by
  refine ⟨?_, ?_, ?_, ?_⟩
  · intro bs e n he hid
    exact Envelope.exists_spellsId he hid
  · intro x w h
    obtain ⟨y, hy, hv⟩ := h.exists_echo
    refine ⟨y, hy, hv, ?_⟩
    intro hw
    exact hy.unique (h.echoes_of_isWord hw)
  · intro x h
    have hx : x.IsKept := h.elim Numeral.IsWord.isKept Numeral.IsShort.isKept
    refine ⟨hx, ?_⟩
    intro bs hbs
    exact hbs.ne_malformed hx
  · intro x w x' w' h h' hx hx' hne y hy hy'
    exact hne ((h.value_of_echoes hx hy).symm.trans (h'.value_of_echoes hx' hy'))

/-- The first reply to a request in bytes. -/
def answer? (d : Dispatcher) (bs : List UInt8) : Option Envelope :=
  match Envelope.ofBytes bs with
  | .ok e => (d.dispatch false e).reply
  | .error _ => none

theorem exists_answers (d : Dispatcher) (s : Spelling x) (hs : s.key = "id") {y : Numeral}
    (h : ∃ w ∈ d.answer? (Text.Utf8.encode s.text), w.Echoes y) :
    ∃ w, d.Answers x w ∧ w.Echoes y := by
  obtain ⟨w, hw, hy⟩ := h
  refine ⟨w, ?_, hy⟩
  unfold answer? at hw
  split at hw
  · rename_i e he
    exact ⟨_, false, e, ⟨s, hs, Text.Utf8.decode?_encode _⟩, he, hw⟩
  · cases hw

/-- A ping with another identifier before the one that counts, whose name is spelled with an
escape, and with blanks. -/
def spelledPing (x : Numeral) : Spelling x where
  lead := [' ']
  trail := ['\n']
  before := [.printed (.printed "id") (.bool true) trivial (by decide),
    .printed (.printed "jsonrpc") (.str "2.0") trivial (by decide)]
  label := ⟨['\t'], ['i', '\\', 'u', '0', '0', '6', '4'], [' '], "id",
    by decide, by decide, by decide⟩
  left := [' ']
  right := ['\n']
  after := [.printed (.printed "method") (.str "ping") trivial (by decide)]
  blank := by decide
  last := by decide

/-- A dispatcher without providers. -/
def bare : Dispatcher := ⟨⟨"s", "1"⟩, .none⟩

/-- The numeral 1.50e1. -/
def fifteen : Numeral where
  negative := false
  whole := .ofNat 1
  fits := Numeral.wholeFits_decimal 1
  fraction := some (.ofNat 50)
  exponent := some ⟨false, none, .ofNat 1⟩

/-- The numeral 15.0. -/
def fifteenPrinted : Numeral where
  negative := false
  whole := .ofNat 15
  fits := Numeral.wholeFits_decimal 15
  fraction := some (.ofNat 0)
  exponent := none

/-- The ping 1.50e1 is answered as 15.0 and the ping 7 as 7. -/
theorem echoes_identifier_fifteen :
    ∃ bs e n w w', Envelope.ofBytes bs = .ok e ∧ e.requestId? = some (.number n) ∧
      (∃ x, Envelope.SpellsId bs x) ∧ Envelope.ofBytes bs ≠ .error .malformed ∧
      bare.Answers fifteen w ∧ bare.Answers (.ofInt 7) w' ∧ w.Echoes fifteenPrinted ∧
      fifteenPrinted.value = fifteen.value ∧ w'.Echoes (.ofInt 7) ∧
      ¬ w'.Echoes fifteenPrinted := by
  obtain ⟨w, hw, hy⟩ := exists_answers bare (spelledPing fifteen) rfl
    (y := fifteenPrinted) (by decide +kernel)
  obtain ⟨w', hw', hy'⟩ := exists_answers bare (spelledPing (.ofInt 7)) rfl
    (y := .ofInt 7) (by decide +kernel)
  obtain ⟨bs, i, e, hspells, he, hreply⟩ := id hw
  obtain ⟨id, r, hid, -⟩ := eq_respond_of_reply hreply
  obtain ⟨n, -, rfl⟩ := hspells.read?_eq he hid
  obtain ⟨hspelled, hecho, hkept, hother⟩ := echoes_identifier bare
  obtain ⟨h, hformed⟩ := hkept fifteen (.inr ⟨by decide, by decide, by decide⟩)
  have hword : (Numeral.ofInt 7).IsWord := ⟨rfl, rfl, by decide⟩
  have hne : fifteen.value ≠ (Numeral.ofInt 7).value := by decide +kernel
  refine ⟨bs, e, n, w, w', he, hid, hspelled bs e n he hid, hformed bs hspells, hw, hw', hy,
    ?_, ?_, ?_⟩
  · obtain ⟨z, hz, hv, -⟩ := hecho fifteen w hw
    obtain rfl := hz.unique hy
    exact hv.mpr h
  · obtain ⟨z, hz, -, hsame⟩ := hecho (.ofInt 7) w' hw'
    obtain rfl := hsame hword
    exact hz
  · exact hother fifteen w _ w' hw hw' h (hkept _ (.inl hword)).1 hne _ hy

/-- The numeral 1.8446744073709552e+19. -/
def longPrinted : Numeral where
  negative := false
  whole := .ofNat 1
  fits := Numeral.wholeFits_decimal 1
  fraction := some (.ofNat 8446744073709552)
  exponent := some ⟨false, some false, .ofNat 19⟩

/-- Two neighbours beyond 64 bits are answered with one identifier, and it is neither of them. -/
theorem echoes_of_long :
    ∃ w w', bare.Answers (.ofInt 18446744073709551617) w ∧
      bare.Answers (.ofInt 18446744073709551616) w' ∧
      w.Echoes longPrinted ∧ w'.Echoes longPrinted ∧
      longPrinted.value ≠ (Numeral.ofInt 18446744073709551617).value ∧
      longPrinted.value ≠ (Numeral.ofInt 18446744073709551616).value ∧
      (Numeral.ofInt 18446744073709551617).value ≠
        (Numeral.ofInt 18446744073709551616).value := by
  obtain ⟨w, hw, hy⟩ := exists_answers bare (spelledPing (.ofInt 18446744073709551617)) rfl
    (y := longPrinted) (by decide +kernel)
  obtain ⟨w', hw', hy'⟩ := exists_answers bare (spelledPing (.ofInt 18446744073709551616)) rfl
    (y := longPrinted) (by decide +kernel)
  exact ⟨w, w', hw, hw', hy, hy', by decide +kernel, by decide +kernel, by decide +kernel⟩

end Dispatcher

end ContextServer
