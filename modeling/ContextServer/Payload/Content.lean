import ContextServer.Codec.Record

/-!
Content blocks. A block carries the name of its kind in the member `type`, or, in the positional
form, as its first item; the fields of that kind are read from what is left.
-/

namespace ContextServer

inductive ContentBlock
  | text (text : String)
  | image (data mimeType : String)
  deriving DecidableEq, Repr

namespace ContentBlock

inductive Kind
  | text
  | image
  deriving DecidableEq, Repr

def Kind.name : Kind → String
  | .text => "text"
  | .image => "image"

def Kind.ofName? : String → Option Kind
  | "text" => some .text
  | "image" => some .image
  | _ => none

/-- The fields of a text block. -/
structure TextFields where
  text : String
  deriving DecidableEq, Repr

/-- The fields of an image block; `data` is base64. -/
structure ImageFields where
  data : String
  mimeType : String
  deriving DecidableEq, Repr

def TextFields.shape : Shape TextFields where
  title := "struct variant ContentBlock::Text"
  τ := _
  make := TextFields.mk
  fields := .field (.required "text" (·.text) .string) .done

def ImageFields.shape : Shape ImageFields where
  title := "struct variant ContentBlock::Image"
  τ := _
  make := ImageFields.mk
  fields :=
    .field (.required "data" (·.data) .string)
      (.field (.required "mimeType" (·.mimeType) .string) .done)

def decodeKind : Json → Except DecodeError Kind
  | .str s =>
    match Kind.ofName? s with
    | some k => .ok k
    | none => .error (.unknownVariant s [Kind.text.name, Kind.image.name])
  | j => .error (.wrongType j "variant identifier")

/-- Reads the fields of a block from the items after its kind. -/
def fieldsOfItems {σ : Type} (shape : Shape σ) (js : List Json) : Except DecodeError σ :=
  match shape.decodeItems js with
  | .ok (s, []) => .ok s
  | .ok (_, _ :: _) => .error (.tooLongFor js.length shape.size)
  | .error e => .error e

def ofText (f : TextFields) : ContentBlock := .text f.text

def ofImage (f : ImageFields) : ContentBlock := .image f.data f.mimeType

def decode : Json → Except DecodeError ContentBlock
  | .obj ms =>
    match ms.lookup "type" with
    | none => .error (.missing "type")
    | some t =>
      let rest := ms.filter (·.1 != "type")
      match decodeKind t with
      | .ok .text => (TextFields.shape.decodeMembers rest).map ofText
      | .ok .image => (ImageFields.shape.decodeMembers rest).map ofImage
      | .error e => .error e
  | .arr [] => .error (.missing "type")
  | .arr (t :: js) =>
    match decodeKind t with
    | .ok .text => (fieldsOfItems TextFields.shape js).map ofText
    | .ok .image => (fieldsOfItems ImageFields.shape js).map ofImage
    | .error e => .error e
  | j => .error (.wrongType j "internally tagged enum ContentBlock")

def encode : ContentBlock → Json
  | text t =>
    .object (("type", .str Kind.text.name) :: TextFields.shape.fields.members ⟨t⟩)
  | image d m =>
    .object (("type", .str Kind.image.name) :: ImageFields.shape.fields.members ⟨d, m⟩)

def codec : Codec ContentBlock := ⟨encode, decode⟩

end ContentBlock

end ContextServer
