import ContextServer.Json.Basic
import ContextServer.Binary64.Shortest

/-!
The compact text of a JSON value: no blanks, members in the order in which an object lists them,
and escapes only where the grammar asks for one.
-/

namespace ContextServer.Json

/-- Floats are positional from 10⁻⁵ to below 10¹⁶. -/
def floatStyle : Binary64.Style := ⟨-5, 15⟩

def escapeChar (c : Char) : List Char :=
  match c with
  | '"' => ['\\', '"']
  | '\\' => ['\\', '\\']
  | '\n' => ['\\', 'n']
  | '\r' => ['\\', 'r']
  | '\t' => ['\\', 't']
  | _ =>
    if c.toNat = 8 then ['\\', 'b']
    else if c.toNat = 12 then ['\\', 'f']
    else if c.toNat < 16 then '\\' :: 'u' :: '0' :: '0' :: '0' :: Text.hexadecimal c.toNat
    else if c.toNat < 32 then '\\' :: 'u' :: '0' :: '0' :: Text.hexadecimal c.toNat
    else [c]

def printString (s : String) : List Char := '"' :: (s.toList.flatMap escapeChar ++ ['"'])

end Json

def Number.print : Number → List Char
  | int n _ => Text.decimalInt n
  | float x => x.text Json.floatStyle

namespace Json

mutual
def print : Json → List Char
  | null => ['n', 'u', 'l', 'l']
  | bool true => ['t', 'r', 'u', 'e']
  | bool false => ['f', 'a', 'l', 's', 'e']
  | num n => n.print
  | str s => printString s
  | arr items => '[' :: (printItems items ++ [']'])
  | obj members => '{' :: (printMembers members ++ ['}'])
def printItems : List Json → List Char
  | [] => []
  | [x] => print x
  | x :: r => print x ++ ',' :: printItems r
def printMembers : List (String × Json) → List Char
  | [] => []
  | [(k, x)] => printString k ++ ':' :: print x
  | (k, x) :: r => printString k ++ ':' :: (print x ++ ',' :: printMembers r)
end

def text (j : Json) : String := String.ofList j.print

end ContextServer.Json
