/-!
The White_Space property of Unicode, and the removal of white space from both ends of a text.
-/

namespace ContextServer.Text

def isBlank (c : Char) : Bool :=
  let n := c.toNat
  (0x9 ≤ n && n ≤ 0xD) || n == 0x20 || n == 0x85 || n == 0xA0 || n == 0x1680
    || (0x2000 ≤ n && n ≤ 0x200A) || n == 0x2028 || n == 0x2029 || n == 0x202F || n == 0x205F
    || n == 0x3000

def trim (cs : List Char) : List Char :=
  ((cs.dropWhile isBlank).reverse.dropWhile isBlank).reverse

/-- The five blanks that ASCII text may hold between its tokens: space, tab, line feed, form feed
and carriage return. -/
def isBlankByte (b : UInt8) : Bool := b == 32 || b == 9 || b == 10 || b == 12 || b == 13

/-- Capital letters of ASCII become small ones; nothing else changes. -/
def lower (cs : List Char) : List Char := cs.map Char.toLower

def trimString (s : String) : String := String.ofList (trim s.toList)

end ContextServer.Text
