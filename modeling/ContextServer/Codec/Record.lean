import ContextServer.Codec.Basic

/-!
Records as JSON. A record has two written forms: an object with a member for each field, and an
array of the fields in the order of their declaration. Both forms are read, the first is written.

An object is read member by member, in the order in which it lists them, and the first one that is
no value of its field decides; only then a missing field does. Members of other names are passed
over.
-/

namespace ContextServer

/-- A field of the record type `σ`. -/
structure Field (σ α : Type) where
  name : String
  get : σ → α
  codec : Codec α
  /-- the value that the field has when it is not written -/
  absent : Option α
  /-- which values are not written -/
  omits : α → Bool

namespace Field

variable {σ α : Type}

def required (name : String) (get : σ → α) (codec : Codec α) : Field σ α :=
  ⟨name, get, codec, none, fun _ => false⟩

/-- A field that may be absent, but is always written. -/
def defaulted (name : String) (get : σ → α) (codec : Codec α) (value : α) : Field σ α :=
  ⟨name, get, codec, some value, fun _ => false⟩

def optional (name : String) (get : σ → Option α) (codec : Codec α) : Field σ (Option α) :=
  ⟨name, get, codec.option, some none, Option.isNone⟩

def flag (name : String) (get : σ → Bool) : Field σ Bool :=
  ⟨name, get, .bool, some false, not⟩

end Field

/-- The fields of `σ` in the order of their declaration, for a constructor of type `τ`. -/
inductive Fields (σ : Type) : Type → Type 1
  | done : Fields σ σ
  | field {α τ : Type} (f : Field σ α) (rest : Fields σ τ) : Fields σ (α → τ)

namespace Fields

variable {σ : Type}

def names : {τ : Type} → Fields σ τ → List String
  | _, done => []
  | _, field f rest => f.name :: names rest

/-- The members to write. -/
def members (s : σ) : {τ : Type} → Fields σ τ → List (String × Json)
  | _, done => []
  | _, field f rest =>
    if f.omits (f.get s) then members s rest
    else (f.name, f.codec.encode (f.get s)) :: members s rest

/-- The fault of a member that is no value of the field of its name. -/
def fault? (m : String × Json) : {τ : Type} → Fields σ τ → Option DecodeError
  | _, done => none
  | _, field f rest =>
    if m.1 = f.name then
      match f.codec.decode m.2 with
      | .error e => some e
      | .ok _ => none
    else fault? m rest

def collect (ms : List (String × Json)) :
    {τ : Type} → Fields σ τ → τ → Except DecodeError σ
  | _, done, s => .ok s
  | _, field f rest, make =>
    match ms.lookup f.name with
    | some j =>
      match f.codec.decode j with
      | .ok a => collect ms rest (make a)
      | .error e => .error e
    | none =>
      match f.absent with
      | some a => collect ms rest (make a)
      | none => .error (.missing f.name)

def decodeMembers {τ : Type} (fields : Fields σ τ) (make : τ) (ms : List (String × Json)) :
    Except DecodeError σ :=
  match ms.findSome? (fields.fault? ·) with
  | some e => .error e
  | none => fields.collect ms make

/-- Reads the fields in order and returns what items are left. `fail n` is the fault of an array
that ends before field `n`. -/
def decodeItems (fail : Nat → DecodeError) :
    {τ : Type} → Fields σ τ → τ → Nat → List Json → Except DecodeError (σ × List Json)
  | _, done, s, _, js => .ok (s, js)
  | _, field f rest, make, n, j :: js =>
    match f.codec.decode j with
    | .ok a => decodeItems fail rest (make a) (n + 1) js
    | .error e => .error e
  | _, field f rest, make, n, [] =>
    match f.absent with
    | some a => decodeItems fail rest (make a) (n + 1) []
    | none => .error (fail n)

/-- The record made from the fields of `s`. -/
def remake (s : σ) : {τ : Type} → Fields σ τ → τ → σ
  | _, done, t => t
  | _, field f rest, make => remake s rest (make (f.get s))

end Fields

/-- A record type with the name that diagnostics give it. -/
structure Shape (σ : Type) where
  title : String
  τ : Type
  make : τ
  fields : Fields σ τ

namespace Shape

variable {σ : Type}

def size (shape : Shape σ) : Nat := shape.fields.names.length

def decodeMembers (shape : Shape σ) (ms : List (String × Json)) : Except DecodeError σ :=
  shape.fields.decodeMembers shape.make ms

def decodeItems (shape : Shape σ) (js : List Json) : Except DecodeError (σ × List Json) :=
  shape.fields.decodeItems (.tooShort · shape.title shape.size) shape.make 0 js

def decode (shape : Shape σ) : Json → Except DecodeError σ
  | .obj ms => shape.decodeMembers ms
  | .arr js =>
    match shape.decodeItems js with
    | .ok (s, []) => .ok s
    | .ok (_, _ :: _) => .error (.tooLong js.length)
    | .error e => .error e
  | j => .error (.wrongType j shape.title)

/-- The members in the order of their declaration. -/
def wire (shape : Shape σ) (s : σ) : Json := .obj (shape.fields.members s)

def codec (shape : Shape σ) : Codec σ where
  encode s := .object (shape.fields.members s)
  decode := shape.decode

end Shape

end ContextServer
