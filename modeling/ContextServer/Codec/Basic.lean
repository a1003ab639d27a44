import ContextServer.Json.Printer
import ContextServer.Text.Quoted

/-!
Typed values as JSON. A `Codec` writes a value of its type and reads one back, or says why a JSON
value is none.
-/

namespace ContextServer

/-- Why a JSON value is no value of the type that was expected. -/
inductive DecodeError
  | wrongType (found : Json) (expected : String)
  | outOfRange (n : Number) (expected : String)
  | notOneKey
  | missing (field : String)
  | tooShort (length : Nat) (shape : String) (size : Nat)
  | tooLong (length : Nat)
  | tooLongFor (length : Nat) (size : Nat)
  | unknownVariant (name : String) (known : List String)
  | noIdentifier
  deriving Repr, Inhabited

namespace Json

/-- What a value is, in the words of a diagnostic. -/
def description : Json → String
  | null => "null"
  | bool b => "boolean `" ++ (if b then "true" else "false") ++ "`"
  | num (.int n h) => "integer `" ++ String.ofList (Number.int n h).print ++ "`"
  | num (.float x) => "floating point `" ++ String.ofList (x.text floatStyle) ++ "`"
  | str s => "string " ++ Text.Quoted.quote s
  | arr _ => "sequence"
  | obj _ => "map"

end Json

namespace DecodeError

def number (n : Nat) : String := String.ofList (Text.decimal n)

def elements (n : Nat) : String := if n = 1 then "1 element" else number n ++ " elements"

def ticked (s : String) : String := "`" ++ s ++ "`"

def choice : List String → String
  | [] => "no variants"
  | [a] => ticked a
  | [a, b] => ticked a ++ " or " ++ ticked b
  | as => "one of " ++ String.intercalate ", " (as.map ticked)

def message : DecodeError → String
  | wrongType found expected => "invalid type: " ++ found.description ++ ", expected " ++ expected
  | outOfRange n expected =>
    "invalid value: " ++ (Json.num n).description ++ ", expected " ++ expected
  | notOneKey => "invalid value: map, expected map with a single key"
  | missing field => "missing field " ++ ticked field
  | tooShort length shape size =>
    "invalid length " ++ number length ++ ", expected " ++ shape ++ " with " ++ elements size
  | tooLong length =>
    "invalid length " ++ number length ++ ", expected fewer elements in array"
  | tooLongFor length size =>
    "invalid length " ++ number length ++ ", expected " ++ elements size ++ " in sequence"
  | unknownVariant name known =>
    "unknown variant " ++ ticked name ++ ", expected " ++ choice known
  | noIdentifier => "data did not match any variant of untagged enum RequestId"

end DecodeError

structure Codec (α : Type) where
  encode : α → Json
  decode : Json → Except DecodeError α

namespace Codec

/-- Every value is read back as it was written. -/
def Lawful {α : Type} (c : Codec α) : Prop := ∀ a, c.decode (c.encode a) = .ok a

/-- Every value that was read is read back as it is written, though it may have been written in
another form before. -/
def Faithful {α : Type} (c : Codec α) : Prop :=
  ∀ j a, c.decode j = .ok a → c.decode (c.encode a) = .ok a

def json : Codec Json := ⟨id, .ok⟩

def string : Codec String where
  encode := .str
  decode
    | .str s => .ok s
    | j => .error (.wrongType j "a string")

def bool : Codec Bool where
  encode := .bool
  decode
    | .bool b => .ok b
    | j => .error (.wrongType j "a boolean")

def int64 : Codec Int64 where
  encode n := .num (.int n.toInt ⟨n.le_toInt, by have := n.toInt_lt; omega⟩)
  decode
    | .num (.int n h) =>
      if n < 9223372036854775808 then .ok (Int64.ofInt n)
      else .error (.outOfRange (.int n h) "i64")
    | j => .error (.wrongType j "i64")

/-- A value that may be `null` instead. -/
def option {α : Type} (c : Codec α) : Codec (Option α) where
  encode
    | some a => c.encode a
    | none => .null
  decode
    | .null => .ok none
    | j => (c.decode j).map some

def list {α : Type} (c : Codec α) : Codec (List α) where
  encode as := .arr (as.map c.encode)
  decode
    | .arr js => js.mapM c.decode
    | j => .error (.wrongType j "a sequence")

/-- An object all of whose members are of one type, whatever their names. -/
def table {α : Type} (c : Codec α) : Codec (List (String × α)) where
  encode ms := .object (ms.map fun m => (m.1, c.encode m.2))
  decode
    | .obj ms => ms.mapM fun m => (c.decode m.2).map (m.1, ·)
    | j => .error (.wrongType j "a map")

theorem json_lawful : json.Lawful := fun _ => rfl

theorem string_lawful : string.Lawful := fun _ => rfl

theorem bool_lawful : bool.Lawful := fun _ => rfl

theorem int64_lawful : int64.Lawful := fun n => by
  have h : n.toInt < 9223372036854775808 := n.toInt_lt
  simp only [int64]
  rw [if_pos h, Int64.ofInt_toInt]

end Codec

end ContextServer
