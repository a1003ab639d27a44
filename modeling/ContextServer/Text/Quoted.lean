import ContextServer.Text.Numeral
import ContextServer.Text.Visible

/-!
Text quoted for a diagnostic: what the reader could not see, or could mistake for the end of the
quotation, is written as an escape.
-/

namespace ContextServer.Text.Quoted

def escapeChar (c : Char) : List Char :=
  match c with
  | '"' => ['\\', '"']
  | '\\' => ['\\', '\\']
  | '\n' => ['\\', 'n']
  | '\r' => ['\\', 'r']
  | '\t' => ['\\', 't']
  | _ =>
    if c.toNat = 0 then ['\\', '0']
    else if isVisible c then [c]
    else '\\' :: 'u' :: '{' :: (hexadecimal c.toNat ++ ['}'])

def encode (cs : List Char) : List Char := '"' :: (cs.flatMap escapeChar ++ ['"'])

def quote (s : String) : String := String.ofList (encode s.toList)

end ContextServer.Text.Quoted
