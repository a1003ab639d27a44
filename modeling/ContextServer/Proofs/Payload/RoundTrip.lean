import ContextServer.Envelope.Basic
import ContextServer.Payload.Negotiation
import ContextServer.Payload.Prompt
import ContextServer.Payload.Resource
import ContextServer.Payload.Tool
import ContextServer.Proofs.Codec.Lawful

/-!
Payloads read back as they are written. All results are, whatever is in them. Of the params three
kinds have values that are no reading of any JSON value, such as a call with the arguments `null`
or a prompt with its arguments out of order; every one that has been read, from an object or from
an array, is read back as well (`Payload.decode_written`).
-/

namespace ContextServer

namespace ContentBlock

/-- The kind that is written with the fields of a block is found again, and the fields are read
from what is left. -/
theorem decodeMembers_tagged {σ : Type} (shape : Shape σ) (s : σ) (tag : Json)
    {ms : List (String × Json)}
    (hms : ms = Members.sorted (("type", tag) :: shape.fields.members s))
    (hn : ("type" :: shape.fields.names).Nodup) (h : shape.fields.Returns id s) :
    ms.lookup "type" = some tag ∧
      shape.decodeMembers (ms.filter (·.1 != "type")) =
        .ok (shape.fields.remake s shape.make) := by
  have hnames : ((("type", tag) :: shape.fields.members s).map Prod.fst).Nodup :=
    ((Fields.sublist_names shape.fields).cons_cons "type").nodup hn
  have hlookup (k : String) :
      ms.lookup k = (("type", tag) :: shape.fields.members s).lookup k :=
    hms ▸ Members.lookup_sorted hnames k
  have hrest : ((ms.filter (·.1 != "type")).map Prod.fst).Nodup := by
    refine (List.filter_sublist.map Prod.fst).nodup ?_
    rw [hms]
    exact Members.nodup_of_ascending (Members.ascending_sorted _)
  obtain ⟨htype, hfields⟩ := List.nodup_cons.mp hn
  refine ⟨by rw [hlookup, Members.lookup_head (m := ("type", tag)) rfl], ?_⟩
  refine Fields.decodeMembers_of_carried hrest ?_ shape.make
  refine Fields.carried_of_returns hfields h fun k hk => ?_
  have hne : k ≠ "type" := fun heq => htype (heq ▸ hk)
  rw [Members.lookup_filter_ne hne, hlookup, Members.lookup_tail (m := ("type", tag)) hne,
    Option.map_id_fun, id]

theorem codec_lawful : codec.Lawful := by
  intro b
  cases b with
  | text t =>
    obtain ⟨htag, hfields⟩ := decodeMembers_tagged TextFields.shape ⟨t⟩ (.str Kind.text.name)
      rfl (by decide) ⟨rfl, trivial⟩
    show decode (.obj _) = _
    simp only [decode, htag, hfields]
    rfl
  | image d m =>
    obtain ⟨htag, hfields⟩ := decodeMembers_tagged ImageFields.shape ⟨d, m⟩
      (.str Kind.image.name) rfl (by decide) ⟨rfl, rfl, trivial⟩
    show decode (.obj _) = _
    simp only [decode, htag, hfields]
    rfl

end ContentBlock

theorem Role.codec_lawful : Role.codec.Lawful := by
  intro r
  cases r <;> rfl

/-! ### Records of lawful fields -/

section

open ContextServer.Codec ContextServer.Field

/-- A text that is left out when there is none. -/
theorem Field.optional_string_lawful {σ : Type} {name : String} {get : σ → Option String} :
    (optional name get .string).Lawful :=
  optional_lawful string_lawful nofun

theorem Implementation.codec_lawful : Implementation.shape.codec.Lawful :=
  Shape.lawful (by decide)
    ⟨required_lawful string_lawful, omitted_lawful string_lawful fun _ => eq_of_beq, trivial⟩
    fun _ => rfl

theorem InitializeParams.codec_lawful : InitializeParams.shape.codec.Lawful :=
  Shape.lawful (by decide)
    ⟨defaulted_lawful string_lawful, defaulted_lawful json_lawful,
      defaulted_lawful (option_lawful Implementation.codec_lawful Shape.encode_ne_null), trivial⟩
    fun _ => rfl

theorem ListChangedCapability.codec_lawful : ListChangedCapability.shape.codec.Lawful :=
  Shape.lawful (by decide) ⟨flag_lawful, trivial⟩ fun _ => rfl

theorem ResourcesCapability.codec_lawful : ResourcesCapability.shape.codec.Lawful :=
  Shape.lawful (by decide) ⟨flag_lawful, flag_lawful, trivial⟩ fun _ => rfl

theorem ServerCapabilities.codec_lawful : ServerCapabilities.shape.codec.Lawful :=
  Shape.lawful (by decide)
    ⟨optional_lawful ListChangedCapability.codec_lawful Shape.encode_ne_null,
      optional_lawful ResourcesCapability.codec_lawful Shape.encode_ne_null,
      optional_lawful ListChangedCapability.codec_lawful Shape.encode_ne_null, trivial⟩
    fun _ => rfl

theorem InitializeResult.codec_lawful : InitializeResult.shape.codec.Lawful :=
  Shape.lawful (by decide)
    ⟨required_lawful string_lawful, required_lawful ServerCapabilities.codec_lawful,
      required_lawful Implementation.codec_lawful, trivial⟩
    fun _ => rfl

theorem Tool.codec_lawful : Tool.shape.codec.Lawful :=
  Shape.lawful (by decide)
    ⟨required_lawful string_lawful, optional_string_lawful, required_lawful json_lawful, trivial⟩
    fun _ => rfl

theorem ListToolsResult.codec_lawful : ListToolsResult.shape.codec.Lawful :=
  Shape.lawful (by decide) ⟨required_lawful (list_lawful Tool.codec_lawful), trivial⟩
    fun _ => rfl

theorem CallToolResult.codec_lawful : CallToolResult.shape.codec.Lawful :=
  Shape.lawful (by decide)
    ⟨required_lawful (list_lawful ContentBlock.codec_lawful), flag_lawful, trivial⟩
    fun _ => rfl

theorem Resource.codec_lawful : Resource.shape.codec.Lawful :=
  Shape.lawful (by decide)
    ⟨required_lawful string_lawful, required_lawful string_lawful, optional_string_lawful,
      optional_string_lawful, trivial⟩
    fun _ => rfl

theorem ListResourcesResult.codec_lawful : ListResourcesResult.shape.codec.Lawful :=
  Shape.lawful (by decide) ⟨required_lawful (list_lawful Resource.codec_lawful), trivial⟩
    fun _ => rfl

theorem ReadResourceParams.codec_lawful : ReadResourceParams.shape.codec.Lawful :=
  Shape.lawful (by decide) ⟨required_lawful string_lawful, trivial⟩ fun _ => rfl

theorem ResourceContents.codec_lawful : ResourceContents.shape.codec.Lawful :=
  Shape.lawful (by decide)
    ⟨required_lawful string_lawful, optional_string_lawful, optional_string_lawful,
      optional_string_lawful, trivial⟩
    fun _ => rfl

theorem ReadResourceResult.codec_lawful : ReadResourceResult.shape.codec.Lawful :=
  Shape.lawful (by decide) ⟨required_lawful (list_lawful ResourceContents.codec_lawful), trivial⟩
    fun _ => rfl

theorem ResourceTemplate.codec_lawful : ResourceTemplate.shape.codec.Lawful :=
  Shape.lawful (by decide)
    ⟨required_lawful string_lawful, required_lawful string_lawful, optional_string_lawful,
      optional_string_lawful, trivial⟩
    fun _ => rfl

theorem ListResourceTemplatesResult.codec_lawful : ListResourceTemplatesResult.shape.codec.Lawful :=
  Shape.lawful (by decide) ⟨required_lawful (list_lawful ResourceTemplate.codec_lawful), trivial⟩
    fun _ => rfl

theorem PromptArgument.codec_lawful : PromptArgument.shape.codec.Lawful :=
  Shape.lawful (by decide)
    ⟨required_lawful string_lawful, optional_string_lawful, flag_lawful, trivial⟩
    fun _ => rfl

theorem Prompt.codec_lawful : Prompt.shape.codec.Lawful :=
  Shape.lawful (by decide)
    ⟨required_lawful string_lawful, optional_string_lawful,
      omitted_lawful (list_lawful PromptArgument.codec_lawful) fun _ => List.isEmpty_iff.mp,
      trivial⟩
    fun _ => rfl

theorem ListPromptsResult.codec_lawful : ListPromptsResult.shape.codec.Lawful :=
  Shape.lawful (by decide) ⟨required_lawful (list_lawful Prompt.codec_lawful), trivial⟩
    fun _ => rfl

theorem PromptMessage.codec_lawful : PromptMessage.shape.codec.Lawful :=
  Shape.lawful (by decide)
    ⟨required_lawful Role.codec_lawful, required_lawful ContentBlock.codec_lawful, trivial⟩
    fun _ => rfl

theorem GetPromptResult.codec_lawful : GetPromptResult.shape.codec.Lawful :=
  Shape.lawful (by decide)
    ⟨optional_string_lawful, required_lawful (list_lawful PromptMessage.codec_lawful), trivial⟩
    fun _ => rfl

end

/-! ### Records of which only those that have been read are read back -/

theorem ErrorObject.codec_faithful : ErrorObject.shape.codec.Faithful := by
  intro j e h
  obtain ⟨code, -, message, -, data, hdata, rfl⟩ := Shape.found_of_decode h
  exact Shape.decode_encode (by decide) ⟨Codec.int64_lawful code, Codec.string_lawful message,
    hdata.returns_optional_json, trivial⟩

theorem CallToolParams.codec_faithful : CallToolParams.shape.codec.Faithful := by
  intro j c h
  obtain ⟨name, -, arguments, harguments, rfl⟩ := Shape.found_of_decode h
  exact Shape.decode_encode (by decide)
    ⟨Codec.string_lawful name, harguments.returns_optional_json, trivial⟩

/-- The arguments of a prompt are in ascending order because the members of a JSON object are. -/
theorem GetPromptParams.decode_encode_of_decode {j : Json} {g : GetPromptParams}
    (hj : j.Canonical) (h : shape.decode j = .ok g) :
    shape.codec.decode (shape.codec.encode g) = .ok g := by
  obtain ⟨name, -, arguments, harguments, rfl⟩ := Shape.found_of_decode h
  have hascending : Members.Ascending arguments := by
    rcases harguments with ⟨k, hk, hd⟩ | ha
    · have ht : j.Tidy (j.depth + 1) := ⟨hj, Nat.le_succ _⟩
      exact Codec.ascending_of_decode_table (ht.of_mem_children hk).canonical hd
    · cases ha
      exact List.Pairwise.nil
  exact Shape.decode_encode (by decide) ⟨Codec.string_lawful name,
    Codec.decode_encode_table Codec.string_lawful hascending, trivial⟩

/-! ### All payloads -/

/-- The types of payloads and of their parts. -/
inductive Payload
  | implementation | initializeParams | listChangedCapability | resourcesCapability
  | serverCapabilities | initializeResult
  | contentBlock | tool | listToolsResult | callToolParams | callToolResult
  | resource | listResourcesResult | readResourceParams | resourceContents | readResourceResult
  | resourceTemplate | listResourceTemplatesResult
  | promptArgument | prompt | listPromptsResult | getPromptParams | role | promptMessage
  | getPromptResult
  | errorObject | requestId
  deriving DecidableEq, Repr

namespace Payload

def Value : Payload → Type
  | implementation => Implementation
  | initializeParams => InitializeParams
  | listChangedCapability => ListChangedCapability
  | resourcesCapability => ResourcesCapability
  | serverCapabilities => ServerCapabilities
  | initializeResult => InitializeResult
  | contentBlock => ContentBlock
  | tool => Tool
  | listToolsResult => ListToolsResult
  | callToolParams => CallToolParams
  | callToolResult => CallToolResult
  | resource => Resource
  | listResourcesResult => ListResourcesResult
  | readResourceParams => ReadResourceParams
  | resourceContents => ResourceContents
  | readResourceResult => ReadResourceResult
  | resourceTemplate => ResourceTemplate
  | listResourceTemplatesResult => ListResourceTemplatesResult
  | promptArgument => PromptArgument
  | prompt => Prompt
  | listPromptsResult => ListPromptsResult
  | getPromptParams => GetPromptParams
  | role => Role
  | promptMessage => PromptMessage
  | getPromptResult => GetPromptResult
  | errorObject => ErrorObject
  | requestId => RequestId

def codec : (p : Payload) → Codec p.Value
  | implementation => Implementation.shape.codec
  | initializeParams => InitializeParams.shape.codec
  | listChangedCapability => ListChangedCapability.shape.codec
  | resourcesCapability => ResourcesCapability.shape.codec
  | serverCapabilities => ServerCapabilities.shape.codec
  | initializeResult => InitializeResult.shape.codec
  | contentBlock => ContentBlock.codec
  | tool => Tool.shape.codec
  | listToolsResult => ListToolsResult.shape.codec
  | callToolParams => CallToolParams.shape.codec
  | callToolResult => CallToolResult.shape.codec
  | resource => Resource.shape.codec
  | listResourcesResult => ListResourcesResult.shape.codec
  | readResourceParams => ReadResourceParams.shape.codec
  | resourceContents => ResourceContents.shape.codec
  | readResourceResult => ReadResourceResult.shape.codec
  | resourceTemplate => ResourceTemplate.shape.codec
  | listResourceTemplatesResult => ListResourceTemplatesResult.shape.codec
  | promptArgument => PromptArgument.shape.codec
  | prompt => Prompt.shape.codec
  | listPromptsResult => ListPromptsResult.shape.codec
  | getPromptParams => GetPromptParams.shape.codec
  | role => Role.codec
  | promptMessage => PromptMessage.shape.codec
  | getPromptResult => GetPromptResult.shape.codec
  | errorObject => ErrorObject.shape.codec
  | requestId => RequestId.codec

/-- The payloads that a provider returns or that the server lists. -/
def isResult : Payload → Bool
  | initializeResult | listToolsResult | callToolResult | listResourcesResult
  | readResourceResult | listResourceTemplatesResult | listPromptsResult | getPromptResult => true
  | _ => false

/-- The payloads of which every value is a reading of some JSON value. -/
def isExact : Payload → Bool
  | callToolParams | getPromptParams | errorObject => false
  | _ => true

theorem isExact_of_isResult {p : Payload} (h : p.isResult = true) : p.isExact = true := by
  cases p <;> first | rfl | cases h

theorem codec_lawful (p : Payload) (h : p.isExact = true) : p.codec.Lawful := by
  cases p with
  | implementation => exact Implementation.codec_lawful
  | initializeParams => exact InitializeParams.codec_lawful
  | listChangedCapability => exact ListChangedCapability.codec_lawful
  | resourcesCapability => exact ResourcesCapability.codec_lawful
  | serverCapabilities => exact ServerCapabilities.codec_lawful
  | initializeResult => exact InitializeResult.codec_lawful
  | contentBlock => exact ContentBlock.codec_lawful
  | tool => exact Tool.codec_lawful
  | listToolsResult => exact ListToolsResult.codec_lawful
  | callToolResult => exact CallToolResult.codec_lawful
  | resource => exact Resource.codec_lawful
  | listResourcesResult => exact ListResourcesResult.codec_lawful
  | readResourceParams => exact ReadResourceParams.codec_lawful
  | resourceContents => exact ResourceContents.codec_lawful
  | readResourceResult => exact ReadResourceResult.codec_lawful
  | resourceTemplate => exact ResourceTemplate.codec_lawful
  | listResourceTemplatesResult => exact ListResourceTemplatesResult.codec_lawful
  | promptArgument => exact PromptArgument.codec_lawful
  | prompt => exact Prompt.codec_lawful
  | listPromptsResult => exact ListPromptsResult.codec_lawful
  | role => exact Role.codec_lawful
  | promptMessage => exact PromptMessage.codec_lawful
  | getPromptResult => exact GetPromptResult.codec_lawful
  | requestId => exact RequestId.codec_lawful
  | callToolParams | getPromptParams | errorObject => cases h

/-- A payload that has been read is read back from what is written for it, in whichever form it
stood before, and so is every result. The members of an object that a JSON value holds are in
ascending order of their names. -/
theorem decode_written (p : Payload) :
    (∀ j v, j.Canonical → p.codec.decode j = .ok v → p.codec.decode (p.codec.encode v) = .ok v) ∧
      (p.isResult = true → ∀ v, p.codec.decode (p.codec.encode v) = .ok v) := by
  refine ⟨fun j v hj h => ?_, fun h => p.codec_lawful (isExact_of_isResult h)⟩
  cases he : p.isExact with
  | true => exact p.codec_lawful he v
  | false =>
    cases p with
    | callToolParams => exact CallToolParams.codec_faithful j v h
    | getPromptParams => exact GetPromptParams.decode_encode_of_decode hj h
    | errorObject => exact ErrorObject.codec_faithful j v h
    | _ => cases he

/-- A prompt asked for by position, with an argument, and the result of a call that failed. -/
theorem decode_written_positional :
    let asked := Json.arr [.str "greeting", .obj [("name", .str "Ada")]]
    asked.Canonical ∧
      getPromptParams.codec.decode asked = .ok ⟨"greeting", [("name", "Ada")]⟩ ∧
      getPromptParams.codec.decode (getPromptParams.codec.encode
        ⟨"greeting", [("name", "Ada")]⟩) = .ok ⟨"greeting", [("name", "Ada")]⟩ ∧
      callToolResult.codec.decode (callToolResult.codec.encode
        (CallToolResult.error "unknown tool: missing")) =
          .ok (CallToolResult.error "unknown tool: missing") := by
  intro asked
  have hc : asked.Canonical := ⟨trivial, ⟨List.pairwise_singleton _ _, trivial, trivial⟩, trivial⟩
  have hd : getPromptParams.codec.decode asked = .ok ⟨"greeting", [("name", "Ada")]⟩ := rfl
  exact ⟨hc, hd, (decode_written getPromptParams).1 asked _ hc hd,
    (decode_written callToolResult).2 rfl (CallToolResult.error "unknown tool: missing")⟩

end Payload

end ContextServer
