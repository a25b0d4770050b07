/-
  Converge.Yaml.Scalar — how a text is written as a scalar of a document.

  A text stands plain where it can.  A text of several lines is a block; a text
  that would be read as something else, or begins or goes on like syntax, is put
  in single quotes; what neither form can hold is put in double quotes.
-/
import Converge.Text.Split

namespace Converge.Yaml

/-! ## §1. What plain text may be -/

/-- The texts that are read as truth values or as nothing. -/
def reservedWords : List String :=
  ["", "~", "null", "Null", "NULL", "true", "True", "TRUE", "false", "False", "FALSE",
    "y", "Y", "yes", "Yes", "YES", "n", "N", "no", "No", "NO",
    "on", "On", "ON", "off", "Off", "OFF",
    ".inf", ".Inf", ".INF", "+.inf", "+.Inf", "+.INF", "-.inf", "-.Inf", "-.INF",
    ".nan", ".NaN", ".NAN"]

/-- The characters of numbers in any base, the sign apart. -/
def numeralChars : List Char := "0123456789._+-eExoabcdfABCDF".toList

/-- Whether a text begins like a number and goes on with characters of numbers only. -/
def isNumeric (s : String) : Bool :=
  let cs := match s.toList with
    | '+' :: rest => rest
    | '-' :: rest => rest
    | cs => cs
  cs.any Char.isDigit && (cs.head?.any fun c => c.isDigit || c == '.')
    && cs.all numeralChars.contains

/-- The characters that mean something at the start of a text. -/
def leadingSyntax : List Char := "#,[]&*!|>'\"%@".toList ++ ['\x7b', '\x7d', Char.ofNat 0x60]

/-- Whether the text begins like syntax. -/
def beginsLikeSyntax : List Char → Bool
  | [] => false
  | [c] => leadingSyntax.contains c || c == '-' || c == '?' || c == ':'
  | c :: d :: _ => leadingSyntax.contains c || ((c == '-' || c == '?' || c == ':') && d == ' ')

/-- Whether a colon before a blank, or a number sign after one, stands in the text. -/
def hasSyntaxInside : List Char → Bool
  | [] => false
  | [c] => c == ':'
  | c :: d :: rest => (c == ':' && d == ' ') || (c == ' ' && d == '#') || hasSyntaxInside (d :: rest)

/-- Whether a character shows, or ends a line. -/
def showsInBlock (c : Char) : Bool := c == '\n' || (decide (0x20 ≤ c.toNat) && c.toNat != 0x7f)

/-- Whether a blank stands before the end of a line or of the text. -/
def hasBlankBeforeEnd : List Char → Bool
  | [] => false
  | [c] => c == ' '
  | c :: d :: rest => (c == ' ' && d == '\n') || hasBlankBeforeEnd (d :: rest)

/-! ## §2. Styles -/

/-- The forms of a scalar. -/
inductive Style where
  | plain
  | singleQuoted
  | doubleQuoted
  | literal
deriving DecidableEq, Repr, Inhabited

/-- The form of a text. -/
def styleOf (s : String) : Style :=
  let cs := s.toList
  if !cs.all showsInBlock then .doubleQuoted
  else if cs.contains '\n' then if hasBlankBeforeEnd cs then .doubleQuoted else .literal
  else if reservedWords.contains s || isNumeric s || beginsLikeSyntax cs || hasSyntaxInside cs
      || cs.head? == some ' ' || cs.getLast? == some ' ' || s.startsWith "---"
      || s.startsWith "..." then .singleQuoted
  else .plain

/-! ## §3. Writing -/

/-- A character in single quotes: a quote is written twice. -/
def singleQuotedChar (c : Char) : List Char := if c == '\'' then ['\'', '\''] else [c]

/-- Two hexadecimal digits. -/
def hexPair (n : Nat) : List Char :=
  let digit (k : Nat) : Char := "0123456789ABCDEF".toList.getD k '0'
  [digit (n / 16 % 16), digit (n % 16)]

/-- A character in double quotes. -/
def doubleQuotedChar (c : Char) : List Char :=
  match c with
  | '"' => ['\\', '"']
  | '\\' => ['\\', '\\']
  | '\n' => ['\\', 'n']
  | '\t' => ['\\', 't']
  | '\r' => ['\\', 'r']
  | c => if showsInBlock c then [c] else ['\\', 'x'] ++ hexPair c.toNat

/-- The mark of a block: what happens to the ends of line after its last line. -/
def blockMark (s : String) : String :=
  if s.endsWith "\n\n" || s = "\n" then "|+"
  else if s.endsWith "\n" then "|"
  else "|-"

/-- The lines of a block. -/
def blockLines (s : String) : List String :=
  let body := if s.endsWith "\n" then String.ofList s.toList.dropLast else s
  Text.split '\n' body

/-- A scalar: what stands on the line it begins on, and the lines below. -/
def scalar (s : String) : String × List String :=
  match styleOf s with
  | .plain => (s, [])
  | .singleQuoted => ("'" ++ String.ofList (s.toList.flatMap singleQuotedChar) ++ "'", [])
  | .doubleQuoted => ("\"" ++ String.ofList (s.toList.flatMap doubleQuotedChar) ++ "\"", [])
  | .literal => (blockMark s, blockLines s)

end Converge.Yaml
