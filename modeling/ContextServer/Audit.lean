import ContextServer.Json.Basic
import ContextServer.Text.Blank

/-!
Params as the audit log shows them: the value of every member whose name is sensitive is masked as
a whole, at any depth, and all else stays as it is.
-/

namespace ContextServer.Audit

def mask : Json := .str "[REDACTED]"

/-- Names that are sensitive as they stand. -/
def exactNames : List (List Char) :=
  ["authorization", "bearer", "api_key", "apikey"].map String.toList

/-- Texts that make every name sensitive in which they occur. -/
def fragments : List (List Char) :=
  ["token", "secret", "password", "credential"].map String.toList

/-- Whether a text occurs within another. -/
def occursIn (part : List Char) : List Char → Bool
  | [] => part.isEmpty
  | c :: r => part.isPrefixOf (c :: r) || occursIn part r

/-- Letter case of ASCII and blanks at either end do not matter. -/
def isSensitive (name : String) : Bool :=
  let key := Text.lower (Text.trim name.toList)
  exactNames.contains key || fragments.any (occursIn · key)

mutual
def masked : Json → Json
  | .arr items => .arr (maskedItems items)
  | .obj members => .obj (maskedMembers members)
  | j => j
def maskedItems : List Json → List Json
  | [] => []
  | x :: r => masked x :: maskedItems r
def maskedMembers : List (String × Json) → List (String × Json)
  | [] => []
  | (k, x) :: r => (k, if isSensitive k then mask else masked x) :: maskedMembers r
end

/-- Absent params are shown as `null`. -/
def shown (params : Option Json) : Json := (params.map masked).getD .null

end ContextServer.Audit
