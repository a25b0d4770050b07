/-
  Converge.Text.Quoted — a text in quotes, for people.

  Quotes and backslashes are escaped, line ends and tabs have their short names,
  and whatever would not show, or would join its neighbour, is written by its
  code point: `"a\u{301}"`.
-/
import Converge.Text.Extender
import Converge.Text.Ignorable
import Converge.Text.Printable

namespace Converge.Text

/-- A number in lower-case hexadecimal, without leading zeros. -/
def hex (n : Nat) : String := String.ofList (Nat.toDigits 16 n)

/-- A character by its code point. -/
def codePoint (c : Char) : String := "\\u\x7b" ++ hex c.toNat ++ "\x7d"

/-- The halfwidth marks of voicing extend the character before them, and yet take
    room of their own. -/
def isSpacing (c : Char) : Bool := c == '\uff9e' || c == '\uff9f'

/-- Whether a character shows, and apart from its neighbours. -/
def isPlain (c : Char) : Bool :=
  isPrintable c && !isIgnorable c && (!isExtender c || isSpacing c)

/-- A character inside quotes. -/
def quotedChar (c : Char) : String :=
  match c with
  | '\x00' => "\\0"
  | '\t' => "\\t"
  | '\r' => "\\r"
  | '\n' => "\\n"
  | '\\' => "\\\\"
  | '"' => "\\\""
  | c => if isPlain c then c.toString else codePoint c

/-- A text in quotes. -/
def quoted (s : String) : String :=
  "\"" ++ String.join (s.toList.map quotedChar) ++ "\""

end Converge.Text
