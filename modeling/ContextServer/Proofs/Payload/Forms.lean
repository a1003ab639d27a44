import ContextServer.Proofs.Codec.Forms
import ContextServer.Proofs.Payload.RoundTrip

/-!
The two forms of a payload. A change of form may be made in any part of a payload, however deep,
and may be made again and again. What the payload is read as follows from what the changed part is
read as (`Recast.decode_same`), so it is enough to compare the two forms at the top, where a
content block has a rule of its own: its kind says which fields it has.
-/

namespace ContextServer

/-! ### Content blocks -/

namespace ContentBlock

/-- The names of the members that some block is read from. -/
def names : List String :=
  "type" :: (TextFields.shape.fields.names ++ ImageFields.shape.fields.names)

/-- The names of the fields that come after this tag. -/
def fieldNames (tag : Json) : List String :=
  match decodeKind tag with
  | .ok .text => TextFields.shape.fields.names
  | .ok .image => ImageFields.shape.fields.names
  | .error _ => []

variable {σ : Type} {ms ns : List (String × Json)} {js : List Json} {tag : Json}

theorem decodeMembers_filter_congr (shape : Shape σ)
    (hsub : ∀ k ∈ shape.fields.names, k ∈ names)
    (h : ms.filter (·.1 ∈ names) = ns.filter (·.1 ∈ names)) :
    shape.decodeMembers (ms.filter (·.1 != "type")) =
      shape.decodeMembers (ns.filter (·.1 != "type")) := by
  have via (l : List (String × Json)) :
      (l.filter (·.1 != "type")).filter (·.1 ∈ shape.fields.names) =
        ((l.filter (·.1 ∈ names)).filter (·.1 != "type")).filter (·.1 ∈ shape.fields.names) := by
    rw [List.filter_filter, List.filter_filter, List.filter_filter]
    refine List.filter_congr fun m _ => ?_
    by_cases hm : m.1 ∈ shape.fields.names
    · simp [hm, hsub m.1 hm]
    · simp [hm]
  exact Fields.decodeMembers_congr (by rw [via, h, ← via]) shape.make

theorem decode_congr (h : ms.filter (·.1 ∈ names) = ns.filter (·.1 ∈ names)) :
    decode (.obj ms) = decode (.obj ns) := by
  have htype : ms.lookup "type" = ns.lookup "type" := by
    have hmem : "type" ∈ names := List.mem_cons_self
    rw [← Members.lookup_filter_mem hmem ms, h, Members.lookup_filter_mem hmem ns]
  have htext := decodeMembers_filter_congr TextFields.shape
    (fun k hk => List.mem_cons_of_mem _ (List.mem_append_left _ hk)) h
  have himage := decodeMembers_filter_congr ImageFields.shape
    (fun k hk => List.mem_cons_of_mem _ (List.mem_append_right _ hk)) h
  simp only [decode, htype, htext, himage]

theorem fieldsOfItems_eq_ok_iff {shape : Shape σ} {s : σ} :
    fieldsOfItems shape js = .ok s ↔ shape.decodeItems js = .ok (s, []) := by
  rw [fieldsOfItems]
  cases shape.decodeItems js with
  | error e => simp
  | ok r =>
    obtain ⟨t, left⟩ := r
    cases left <;> simp

/-- The fields of a kind are read alike from the members and from the items that follow the tag. -/
theorem fields_same (shape : Shape σ) (hn : ("type" :: shape.fields.names).Nodup)
    (hms : (ms.map Prod.fst).Nodup) (hjs : shape.fields.names.map (ms.lookup ·) = js.map some) :
    SameUpTo (fun _ => ()) (shape.decodeMembers (ms.filter (·.1 != "type")))
      (fieldsOfItems shape js) := by
  obtain ⟨htype, hnames⟩ := List.nodup_cons.mp hn
  have hrest : ((ms.filter (·.1 != "type")).map Prod.fst).Nodup :=
    (List.filter_sublist.map Prod.fst).nodup hms
  have hlookup : shape.fields.names.map ((ms.filter (·.1 != "type")).lookup ·) = js.map some := by
    rw [← hjs]
    exact List.map_congr_left fun k hk =>
      Members.lookup_filter_ne (fun heq : k = "type" => htype (heq ▸ hk)) ms
  exact SameUpTo.iff_ok.mpr fun s =>
    (Shape.decodeMembers_eq_ok_iff hnames hrest hlookup).trans fieldsOfItems_eq_ok_iff.symm

theorem decode_same (hms : (ms.map Prod.fst).Nodup) (htag : ms.lookup "type" = some tag)
    (hjs : (fieldNames tag).map (ms.lookup ·) = js.map some) :
    SameUpTo (fun _ => ()) (decode (.obj ms)) (decode (.arr (tag :: js))) := by
  rw [fieldNames] at hjs
  simp only [decode, htag]
  cases hkind : decodeKind tag with
  | error e => exact .refl _
  | ok kind =>
    rw [hkind] at hjs
    cases kind with
    | text => exact (fields_same TextFields.shape (by decide) hms hjs).map _
    | image => exact (fields_same ImageFields.shape (by decide) hms hjs).map _

end ContentBlock

namespace Payload

/-- The record as which a payload is read. -/
def record? : (p : Payload) → Option (Shape p.Value)
  | implementation => some Implementation.shape
  | initializeParams => some InitializeParams.shape
  | listChangedCapability => some ListChangedCapability.shape
  | resourcesCapability => some ResourcesCapability.shape
  | serverCapabilities => some ServerCapabilities.shape
  | initializeResult => some InitializeResult.shape
  | tool => some Tool.shape
  | listToolsResult => some ListToolsResult.shape
  | callToolParams => some CallToolParams.shape
  | callToolResult => some CallToolResult.shape
  | resource => some Resource.shape
  | listResourcesResult => some ListResourcesResult.shape
  | readResourceParams => some ReadResourceParams.shape
  | resourceContents => some ResourceContents.shape
  | readResourceResult => some ReadResourceResult.shape
  | resourceTemplate => some ResourceTemplate.shape
  | listResourceTemplatesResult => some ListResourceTemplatesResult.shape
  | promptArgument => some PromptArgument.shape
  | prompt => some Prompt.shape
  | listPromptsResult => some ListPromptsResult.shape
  | getPromptParams => some GetPromptParams.shape
  | promptMessage => some PromptMessage.shape
  | getPromptResult => some GetPromptResult.shape
  | errorObject => some ErrorObject.shape
  | contentBlock | role | requestId => none

variable {p : Payload} {shape : Shape p.Value}

theorem codec_of_record? (hp : p.record? = some shape) : p.codec = shape.codec := by
  cases p <;> cases hp <;> rfl

theorem nodup_of_record? (hp : p.record? = some shape) : shape.fields.names.Nodup := by
  cases p <;> cases hp <;> decide

/-! ### Changes of form -/

/-- Two objects with the same members of the names that the payload knows. The other members are as
they may be. -/
inductive SameKnown : Payload → Json → Json → Prop
  | record {p : Payload} {shape : Shape p.Value} {ms ns : List (String × Json)}
      (hp : p.record? = some shape)
      (h : ms.filter (·.1 ∈ shape.fields.names) = ns.filter (·.1 ∈ shape.fields.names)) :
      SameKnown p (.obj ms) (.obj ns)
  | block {ms ns : List (String × Json)}
      (h : ms.filter (·.1 ∈ ContentBlock.names) = ns.filter (·.1 ∈ ContentBlock.names)) :
      SameKnown contentBlock (.obj ms) (.obj ns)

/-- An object that has all the fields, and the array of their values in the order of declaration. In
that of a block the tag comes first. -/
inductive Listed : Payload → Json → Json → Prop
  | record {p : Payload} {shape : Shape p.Value} {ms : List (String × Json)} {js : List Json}
      (hp : p.record? = some shape) (hms : (ms.map Prod.fst).Nodup)
      (hjs : shape.fields.names.map (ms.lookup ·) = js.map some) :
      Listed p (.obj ms) (.arr js)
  | block {ms : List (String × Json)} {tag : Json} {js : List Json} (hms : (ms.map Prod.fst).Nodup)
      (htag : ms.lookup "type" = some tag)
      (hjs : (ContentBlock.fieldNames tag).map (ms.lookup ·) = js.map some) :
      Listed contentBlock (.obj ms) (.arr (tag :: js))

/-- Either change. -/
def SameFields (p : Payload) (j k : Json) : Prop := SameKnown p j k ∨ Listed p j k

/-- One value that `c` reads is another with a change `form` in one payload that is a part of it, or
that it is. -/
inductive Recast (form : Payload → Json → Json → Prop) : {α : Type} → Codec α → Json → Json → Prop
  | here {p : Payload} {j k : Json} (h : form p j k) : Recast form p.codec j k
  | member {p : Payload} {shape : Shape p.Value} {α : Type} {c : Codec α} {name : String}
      {j k : Json} {before after : List (String × Json)} (hp : p.record? = some shape)
      (hc : shape.fields.Has name c) (h : Recast form c j k) :
      Recast form p.codec (.obj (before ++ (name, j) :: after))
        (.obj (before ++ (name, k) :: after))
  | field {p : Payload} {shape : Shape p.Value} {α : Type} {c : Codec α} {name : String}
      {j k : Json} {before after : List Json} (hp : p.record? = some shape)
      (hc : shape.fields.Has name c) (hn : shape.fields.names[before.length]? = some name)
      (h : Recast form c j k) :
      Recast form p.codec (.arr (before ++ j :: after)) (.arr (before ++ k :: after))
  | item {α : Type} {c : Codec α} {j k : Json} {before after : List Json} (h : Recast form c j k) :
      Recast form c.list (.arr (before ++ j :: after)) (.arr (before ++ k :: after))
  | option {α : Type} {c : Codec α} {j k : Json} (hj : j ≠ .null) (hk : k ≠ .null)
      (h : Recast form c j k) : Recast form c.option j k

theorem SameKnown.decode_eq {j k : Json} (h : SameKnown p j k) :
    p.codec.decode j = p.codec.decode k := by
  cases h with
  | record hp h =>
    rw [codec_of_record? hp]
    exact Fields.decodeMembers_congr h _
  | block h => exact ContentBlock.decode_congr h

theorem Listed.decode_same {j k : Json} (h : Listed p j k) :
    SameUpTo (fun _ => ()) (p.codec.decode j) (p.codec.decode k) := by
  cases h with
  | record hp hms hjs =>
    rw [codec_of_record? hp]
    exact SameUpTo.iff_ok.mpr fun v =>
      (Shape.decodeMembers_eq_ok_iff (nodup_of_record? hp) hms hjs).trans
        Shape.decode_arr_eq_ok_iff.symm
  | block hms htag hjs => exact ContentBlock.decode_same hms htag hjs

theorem SameFields.decode_same {j k : Json} (h : SameFields p j k) :
    SameUpTo (fun _ => ()) (p.codec.decode j) (p.codec.decode k) := by
  rcases h with h | h
  · rw [h.decode_eq]
    exact .refl _
  · exact h.decode_same

section

variable {β : Type} {g : DecodeError → β} {form : Payload → Json → Json → Prop}

/-- Of the whole nothing else is read anew, so it is read as it was, as far as `g` tells, if that
holds of the part with the change. -/
theorem Recast.decode_same
    (hform : ∀ p j k, form p j k → SameUpTo g (p.codec.decode j) (p.codec.decode k))
    {α : Type} {c : Codec α} {j k : Json} (h : Recast form c j k) :
    SameUpTo g (c.decode j) (c.decode k) := by
  induction h with
  | here h => exact hform _ _ _ h
  | member hp hc h ih =>
    rw [codec_of_record? hp]
    exact Fields.decodeMembers_same (hc.readsSame (nodup_of_record? hp) ih) _
  | field hp hc hn h ih =>
    rw [codec_of_record? hp]
    refine Shape.decode_arr_same (by simp) ?_
    exact Fields.decodeItems_same (hc.readsSame (nodup_of_record? hp) ih) hn _
  | item h ih => exact Codec.list_same ih
  | option hj hk h ih => exact Codec.option_same hj hk ih

theorem decode_same_of_eqvGen
    (hform : ∀ p j k, form p j k → SameUpTo g (p.codec.decode j) (p.codec.decode k))
    {j k : Json} (h : Relation.EqvGen (Recast form p.codec) j k) :
    SameUpTo g (p.codec.decode j) (p.codec.decode k) := by
  induction h with
  | rel j k h => exact h.decode_same hform
  | refl j => exact .refl _
  | symm j k h ih => exact ih.symm
  | trans j k l h h' ih ih' => exact ih.trans ih'

end

/-- Members of other names, in a payload or in any part of it, change neither the value nor the
error. A payload with records or blocks, or lists of them, in the other form has the same value,
if any. -/
theorem decode_forms (p : Payload) (j k : Json) :
    (Relation.EqvGen (Recast SameKnown p.codec) j k → p.codec.decode j = p.codec.decode k) ∧
      (Relation.EqvGen (Recast SameFields p.codec) j k →
        ∀ v, p.codec.decode j = .ok v ↔ p.codec.decode k = .ok v) := by
  constructor
  · intro h
    refine SameUpTo.eq (decode_same_of_eqvGen (fun p j k h => ?_) h)
    rw [h.decode_eq]
    exact .refl _
  · intro h
    exact SameUpTo.iff_ok.mp (decode_same_of_eqvGen (fun _ _ _ h => h.decode_same) h)

/-- The block within has a member that none knows, or stands in an array within an array. -/
theorem decode_forms_callToolResult :
    let result (block : Json) := Json.obj [("content", .arr [block]), ("isError", .bool false)]
    let plain := result (.obj [("text", .str "hello"), ("type", .str "text")])
    let noted := result (.obj [("note", .null), ("text", .str "hello"), ("type", .str "text")])
    let listed := Json.arr [.arr [.arr [.str "text", .str "hello"]], .bool false]
    Relation.EqvGen (Recast SameKnown callToolResult.codec) plain noted ∧
      callToolResult.codec.decode plain = callToolResult.codec.decode noted ∧
      Relation.EqvGen (Recast SameFields callToolResult.codec) plain listed ∧
      ∀ v, callToolResult.codec.decode plain = .ok v ↔
        callToolResult.codec.decode listed = .ok v := by
  intro result plain noted listed
  have within {form : Payload → Json → Json → Prop} {j k : Json} (h : form contentBlock j k) :
      Recast form callToolResult.codec (result j) (result k) := by
    have hitem : Recast form ContentBlock.codec.list (.arr ([] ++ j :: []))
        (.arr ([] ++ k :: [])) := .item (.here h)
    have hmember : Recast form callToolResult.codec
        (.obj ([] ++ ("content", .arr [j]) :: [("isError", .bool false)]))
        (.obj ([] ++ ("content", .arr [k]) :: [("isError", .bool false)])) :=
      .member rfl (.head rfl rfl) hitem
    exact hmember
  have hnoted : Relation.EqvGen (Recast SameKnown callToolResult.codec) plain noted :=
    .rel _ _ (within (.block rfl))
  have hlisted : Relation.EqvGen (Recast SameFields callToolResult.codec) plain listed :=
    .trans _ _ _ (.rel _ _ (within (.inr (.block (by decide) rfl rfl))))
      (.rel _ _ (.here (.inr (.record rfl (by decide) rfl))))
  exact ⟨hnoted, (decode_forms callToolResult plain noted).1 hnoted, hlisted,
    (decode_forms callToolResult plain listed).2 hlisted⟩

end Payload

end ContextServer
