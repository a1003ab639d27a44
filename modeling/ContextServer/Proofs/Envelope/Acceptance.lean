import ContextServer.Envelope.Wire
import ContextServer.Proofs.Codec.Acceptance

/-!
Which values are envelopes. An object is one exactly if what stands under the names that count is of
the right types and its version is right (`ofJson_eq_ok`); what it is made to depends on which of
identifier and method it has. An object that is refused gives the identifier that it would have had
as an envelope (`recoveredId_of_ofJson`).
-/

namespace ContextServer

theorem RequestId.decode_eq_ok {j : Json} {id : RequestId} :
    RequestId.codec.decode j = .ok id ↔ j = RequestId.codec.encode id := by
  cases j <;> cases id <;> simp [RequestId.codec]

theorem RequestId.encode_injective : Function.Injective RequestId.codec.encode := by
  intro a b h
  rw [← Except.ok.inj ((codec_lawful a).symm.trans (decode_eq_ok.mpr h))]

namespace Envelope

open Members (present?)

variable {ms : List (String × Json)} {p : Parts} {e : Envelope} {id : RequestId}

/-- The members that count are of the right types. Params, result and members of other names may
be anything. -/
structure Typed (ms : List (String × Json)) : Prop where
  version : ∀ j, ("jsonrpc", j) ∈ ms → j = .null ∨ ∃ s, j = .str s
  id : ∀ j, ("id", j) ∈ ms → j = .null ∨ (∃ n, j = .num n) ∨ ∃ s, j = .str s
  method : ∀ j, ("method", j) ∈ ms → j = .null ∨ ∃ s, j = .str s
  error : ∀ j, ("error", j) ∈ ms → j = .null ∨ ∃ e, ErrorObject.shape.decode j = .ok e

def Versioned (ms : List (String × Json)) : Prop := ms.lookup "jsonrpc" = some (.str rpcVersion)

/-- The envelope that the members make, which turns on the identifier and the method that are there
and not `null`. A result may be `null`. -/
inductive Made (ms : List (String × Json)) : Envelope → Prop
  | request (id : RequestId) (method : String)
      (hid : present? "id" ms = some (RequestId.codec.encode id))
      (hmethod : present? "method" ms = some (.str method)) :
      Made ms (.request id method (present? "params" ms))
  | notification (method : String)
      (hid : present? "id" ms = none)
      (hmethod : present? "method" ms = some (.str method)) :
      Made ms (.notification method (present? "params" ms))
  | response (id : Option RequestId) (error : Option ErrorObject)
      (hid : present? "id" ms = id.map RequestId.codec.encode)
      (hmethod : present? "method" ms = none)
      (herror : (present? "error" ms).map ErrorObject.shape.decode = error.map .ok) :
      Made ms (.response ⟨id, ms.lookup "result", error⟩)

/-- The parts are those that the members hold. -/
structure Parts.Held (ms : List (String × Json)) (p : Parts) : Prop where
  version : present? "jsonrpc" ms = p.version.map .str
  id : present? "id" ms = p.id.map RequestId.codec.encode
  method : present? "method" ms = p.method.map .str
  params : p.params = present? "params" ms
  result : p.result = ms.lookup "result"
  error : (present? "error" ms).map ErrorObject.shape.decode = p.error.map .ok

theorem nodup_names : Parts.shape.fields.names.Nodup := by decide

/-- A codec that reads just what it writes. -/
theorem map_decode_eq {α : Type} {c : Codec α} (h : ∀ j a, c.decode j = .ok a ↔ j = c.encode a)
    {x : Option Json} {a : Option α} : x.map c.decode = a.map .ok ↔ x = a.map c.encode := by
  cases x <;> cases a <;> simp [h]

theorem suit_iff_typed : Parts.shape.fields.Suit ms ↔ Typed ms := by
  have hstring (j : Json) : (∃ s, Codec.string.decode j = .ok s) ↔ ∃ s, j = .str s :=
    exists_congr fun _ => Codec.string_decode_eq_ok
  have hid (j : Json) : (∃ id, RequestId.codec.decode j = .ok id) ↔
      (∃ n, j = .num n) ∨ ∃ s, j = .str s := by
    cases j <;> simp [RequestId.codec]
  simp only [Parts.shape, Fields.Suit, Field.suits_optional, hstring, hid]
  constructor
  · rintro ⟨version, id, method, -, -, error, -⟩
    exact ⟨version, id, method, error⟩
  · intro h
    exact ⟨h.version, h.id, h.method, fun j _ => .inr ⟨j, rfl⟩, fun j _ => ⟨some j, rfl⟩, h.error,
      trivial⟩

theorem reads_result {j : Option Json} {get : Parts → Option Json} :
    Field.Reads ms ⟨"result", get, presentCodec, some none, Option.isNone⟩ j ↔
      j = ms.lookup "result" := by
  unfold Field.Reads
  cases ms.lookup "result" <;> cases j <;> simp [presentCodec, eq_comm]

theorem collect_eq_ok :
    Parts.shape.fields.collect ms Parts.shape.make = .ok p ↔ p.Held ms := by
  have hstring {x : Option Json} {a : Option String} :
      x.map Codec.string.decode = a.map .ok ↔ x = a.map .str :=
    map_decode_eq fun _ _ => Codec.string_decode_eq_ok
  have hid {x : Option Json} {a : Option RequestId} :
      x.map RequestId.codec.decode = a.map .ok ↔ x = a.map RequestId.codec.encode :=
    map_decode_eq fun _ _ => RequestId.decode_eq_ok
  have hjson {x a : Option Json} : x.map Codec.json.decode = a.map .ok ↔ a = x := by
    cases x <;> cases a <;> simp [Codec.json, eq_comm]
  simp only [Parts.shape, Fields.collect_field_eq_ok, Field.reads_optional, reads_result, hstring,
    hid, hjson, Fields.collect_done_eq_ok]
  constructor
  · rintro ⟨version, hversion, id, hid, method, hmethod, params, hparams, result, hresult, error,
      herror, rfl⟩
    exact ⟨hversion, hid, hmethod, hparams, hresult, herror⟩
  · intro h
    exact ⟨_, h.version, _, h.id, _, h.method, _, h.params, _, h.result, _, h.error, rfl⟩

theorem decodeMembers_eq_ok :
    Parts.shape.decodeMembers ms = .ok p ↔ Typed ms ∧ p.Held ms := by
  rw [← suit_iff_typed, ← collect_eq_ok]
  exact Fields.decodeMembers_eq_ok nodup_names

theorem exists_decodeMembers (h : Typed ms) : ∃ p, Parts.shape.decodeMembers ms = .ok p := by
  have hsuit := suit_iff_typed.mpr h
  obtain ⟨p, hp⟩ := Fields.exists_collect hsuit ⟨rfl, rfl, rfl, rfl, rfl, rfl, trivial⟩
    Parts.shape.make
  exact ⟨p, (Fields.decodeMembers_eq_ok nodup_names).mpr ⟨hsuit, hp⟩⟩

theorem Parts.Held.versioned_iff (h : p.Held ms) : Versioned ms ↔ p.version = some rpcVersion := by
  have hne : Json.str rpcVersion ≠ .null := nofun
  have hpresent : Versioned ms ↔ present? "jsonrpc" ms = some (.str rpcVersion) := by
    rw [Members.present?_eq_some, and_iff_left hne, Versioned]
  rw [hpresent, h.version]
  simp

/-- A member determines what has been written in it. -/
theorem encode_injective {a b : Option RequestId}
    (h : a.map RequestId.codec.encode = b.map RequestId.codec.encode) : a = b :=
  Option.map_injective RequestId.encode_injective h

theorem str_injective {a b : Option String} (h : a.map Json.str = b.map Json.str) : a = b :=
  Option.map_injective (fun _ _ => Json.str.inj) h

theorem ok_injective {a b : Option ErrorObject}
    (h : a.map (Except.ok : _ → Except DecodeError _) = b.map .ok) : a = b :=
  Option.map_injective (fun _ _ => Except.ok.inj) h

/-- The members make one envelope and no other. -/
theorem Parts.Held.made_iff (h : p.Held ms) : Made ms e ↔ e = ofParts p := by
  obtain ⟨version, id, method, params, result, error⟩ := p
  obtain rfl : params = _ := h.params
  obtain rfl : result = _ := h.result
  constructor
  · intro he
    cases he with
    | request i m hid hmethod =>
      obtain rfl : id = some i := encode_injective (h.id.symm.trans hid)
      obtain rfl : method = some m := str_injective (h.method.symm.trans hmethod)
      rfl
    | notification m hid hmethod =>
      obtain rfl : id = none := encode_injective (h.id.symm.trans hid)
      obtain rfl : method = some m := str_injective (h.method.symm.trans hmethod)
      rfl
    | response i err hid hmethod herror =>
      obtain rfl : id = i := encode_injective (h.id.symm.trans hid)
      obtain rfl : method = none := str_injective (h.method.symm.trans hmethod)
      obtain rfl : error = err := ok_injective (h.error.symm.trans herror)
      cases id <;> rfl
  · rintro rfl
    cases method with
    | some m =>
      cases id with
      | some i => exact .request i m h.id h.method
      | none => exact .notification m h.id h.method
    | none =>
      cases id with
      | some i => exact .response (some i) error h.id h.method h.error
      | none => exact .response none error h.id h.method h.error

/-- An object of the right version whose members are of the right types is an envelope, and nothing
else is one. -/
theorem ofJson_eq_ok {j : Json} :
    ofJson j = .ok e ↔ ∃ ms, j = .obj ms ∧ Typed ms ∧ Versioned ms ∧ Made ms e := by
  constructor
  · intro h
    unfold ofJson at h
    split at h
    · rename_i ms
      split at h
      · rename_i p hp
        obtain ⟨htyped, hheld⟩ := decodeMembers_eq_ok.mp hp
        split at h
        · rename_i hversion
          cases h
          exact ⟨ms, rfl, htyped, hheld.versioned_iff.mpr hversion, hheld.made_iff.mpr rfl⟩
        · cases h
      · cases h
    · cases h
  · rintro ⟨ms, rfl, htyped, hversion, hmade⟩
    obtain ⟨p, hp⟩ := exists_decodeMembers htyped
    have hheld := (decodeMembers_eq_ok.mp hp).2
    rw [ofJson, hp, hheld.made_iff.mp hmade]
    exact if_pos (hheld.versioned_iff.mp hversion)

theorem recoverId_eq_some : recoverId ms = some id ↔
    ms.lookup "id" = some (RequestId.codec.encode id) := by
  unfold recoverId
  cases ms.lookup "id" with
  | none => simp
  | some j =>
    rw [Option.some.injEq, ← RequestId.decode_eq_ok]
    cases hd : RequestId.codec.decode j <;> simp [hd, Except.toOption]

/-- An envelope carries the identifier that would be recovered if it were refused. -/
theorem Made.recoverId_eq (h : Made ms e) : recoverId ms = e.id? := by
  have hid : present? "id" ms = e.id?.map RequestId.codec.encode := by
    cases h <;> assumption
  cases he : e.id? with
  | some id =>
    rw [he] at hid
    exact recoverId_eq_some.mpr (Members.present?_eq_some.mp hid).1
  | none =>
    rw [he] at hid
    refine Option.eq_none_iff_forall_ne_some.mpr fun id h => ?_
    have hne : RequestId.codec.encode id ≠ .null := by cases id <;> nofun
    rw [Members.present?_eq_some.mpr ⟨recoverId_eq_some.mp h, hne⟩] at hid
    cases hid

/-- How an object is refused. -/
theorem ofJson_eq_error {c : EnvelopeError} (h : ofJson (.obj ms) = .error c) :
    (Typed ms ∧ ¬ Versioned ms ∧ c = .unsupportedVersion (recoverId ms)) ∨
      (¬ Typed ms ∧ ∃ cause, c = .badMember (recoverId ms) cause) := by
  rw [ofJson] at h
  split at h
  · rename_i p hp
    obtain ⟨htyped, hheld⟩ := decodeMembers_eq_ok.mp hp
    split at h
    · cases h
    · rename_i hversion
      cases h
      exact .inl ⟨htyped, fun hv => hversion (hheld.versioned_iff.mp hv), rfl⟩
  · rename_i cause hp
    cases h
    refine .inr ⟨fun htyped => ?_, cause, rfl⟩
    obtain ⟨p, hok⟩ := exists_decodeMembers htyped
    rw [hp] at hok
    cases hok

/-- Every value is read as the envelope that its members make, or it is refused: as an object of
another version, if that is all that is wrong, and otherwise for its shape. Either refusal can be
answered under the identifier that the object carries. -/
theorem ofJson_reads (j : Json) :
    (∀ e, ofJson j = .ok e ↔ ∃ ms, j = .obj ms ∧ Typed ms ∧ Versioned ms ∧ Made ms e) ∧
    ((∃ e, ofJson j = .ok e) ↔ ∃ ms, j = .obj ms ∧ Typed ms ∧ Versioned ms) ∧
    ∀ ms, j = .obj ms → ∀ c, ofJson j = .error c →
      ((∃ id, c = .unsupportedVersion id) ↔ Typed ms ∧ ¬ Versioned ms) ∧
      ((∃ id cause, c = .badMember id cause) ↔ ¬ Typed ms) ∧
      (∀ n, c.recoveredId = some (.number n) ↔ ms.lookup "id" = some (.num n)) ∧
      (∀ s, c.recoveredId = some (.text s) ↔ ms.lookup "id" = some (.str s)) ∧
      ∀ ns e, ofJson (.obj ns) = .ok e → ns.lookup "id" = ms.lookup "id" →
        e.id? = c.recoveredId := by
  refine ⟨fun _ => ofJson_eq_ok, ⟨?_, ?_⟩, ?_⟩
  · rintro ⟨e, he⟩
    obtain ⟨ms, hj, htyped, hversion, -⟩ := ofJson_eq_ok.mp he
    exact ⟨ms, hj, htyped, hversion⟩
  · rintro ⟨ms, hj, htyped, hversion⟩
    obtain ⟨p, hp⟩ := exists_decodeMembers htyped
    have hmade := (decodeMembers_eq_ok.mp hp).2.made_iff.mpr rfl
    exact ⟨_, ofJson_eq_ok.mpr ⟨ms, hj, htyped, hversion, hmade⟩⟩
  · rintro ms rfl c hc
    have hrecovered : c.recoveredId = recoverId ms := by
      rcases ofJson_eq_error hc with ⟨-, -, rfl⟩ | ⟨-, cause, rfl⟩ <;> rfl
    refine ⟨?_, ?_, fun n => ?_, fun s => ?_, fun ns e he hid => ?_⟩
    · rcases ofJson_eq_error hc with ⟨htyped, hversion, rfl⟩ | ⟨htyped, cause, rfl⟩
      · exact iff_of_true ⟨_, rfl⟩ ⟨htyped, hversion⟩
      · exact iff_of_false (fun ⟨_, h⟩ => nomatch h) fun h => htyped h.1
    · rcases ofJson_eq_error hc with ⟨htyped, hversion, rfl⟩ | ⟨htyped, cause, rfl⟩
      · exact iff_of_false (fun ⟨_, _, h⟩ => nomatch h) fun h => h htyped
      · exact iff_of_true ⟨_, cause, rfl⟩ htyped
    · rw [hrecovered]
      exact recoverId_eq_some
    · rw [hrecovered]
      exact recoverId_eq_some
    · obtain ⟨ns', hns, -, -, hmade⟩ := ofJson_eq_ok.mp he
      cases hns
      rw [hrecovered, ← hmade.recoverId_eq, recoverId, recoverId, hid]

/-- A request with everything but its version. -/
def outdated : List (String × Json) :=
  [("id", .str "a"), ("jsonrpc", .str "1.0"), ("method", .str "ping"), ("params", .null)]

/-- A response to it whose result is `null`. -/
def current : List (String × Json) :=
  [("id", .str "a"), ("jsonrpc", .str "2.0"), ("method", .null), ("result", .null)]

theorem ofJson_reads_outdated :
    ∃ c, ofJson (.obj outdated) = .error c ∧ (∃ id, c = .unsupportedVersion id) ∧
      c.recoveredId = some (.text "a") ∧
      ofJson (.obj current) = .ok (.response ⟨c.recoveredId, some .null, none⟩) := by
  obtain ⟨haccepted, -, hrefused⟩ := ofJson_reads (.obj outdated)
  have htyped : Typed outdated := by constructor <;> simp [outdated]
  have hversion : ¬ Versioned outdated := fun h =>
    absurd (Json.str.inj (Option.some.inj h)) (by decide)
  obtain ⟨c, hc⟩ : ∃ c, ofJson (.obj outdated) = .error c := by
    match h : ofJson (.obj outdated) with
    | .error c => exact ⟨c, rfl⟩
    | .ok e =>
      obtain ⟨ms, hms, -, hv, -⟩ := (haccepted e).mp h
      cases hms
      exact absurd hv hversion
  obtain ⟨hunsupported, -, -, htext, -⟩ := hrefused outdated rfl c hc
  have hid : c.recoveredId = some (.text "a") := (htext "a").mpr rfl
  refine ⟨c, hc, hunsupported.mpr ⟨htyped, hversion⟩, hid, ?_⟩
  rw [hid]
  refine ((ofJson_reads (.obj current)).1 _).mpr ⟨current, rfl, ?_, rfl, ?_⟩
  · constructor <;> simp [current]
  · exact .response (some (.text "a")) none rfl rfl rfl

end Envelope

end ContextServer
