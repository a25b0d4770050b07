/-
  Converge.Json.Writer — values as JSON text, on one line and without blanks.
-/
import Converge.Double.Numeral
import Converge.Json.Basic

namespace Converge.Json

/-! ## §1. Scalars -/

/-- One hexadecimal digit. -/
def hexChar (n : Nat) : Char := "0123456789abcdef".toList.getD n '0'

/-- A character inside quotes: quotes, backslashes and control characters are escaped. -/
def quoteChar (c : Char) : List Char :=
  match c with
  | '"' => ['\\', '"']
  | '\\' => ['\\', '\\']
  | '\n' => ['\\', 'n']
  | '\r' => ['\\', 'r']
  | '\t' => ['\\', 't']
  | '\x08' => ['\\', 'b']
  | '\x0c' => ['\\', 'f']
  | c =>
    if c.toNat < 0x20 then ['\\', 'u', '0', '0', hexChar (c.toNat / 16), hexChar (c.toNat % 16)]
    else [c]

/-- A string in quotes. -/
def quote (s : String) : String :=
  "\"" ++ String.ofList (s.toList.flatMap quoteChar) ++ "\""

/-! ## §2. Values -/

mutual

/-- The text of a value, pieces in order. -/
def pieces : Json → List String
  | .null => ["null"]
  | .bool b => [if b then "true" else "false"]
  | .int n => [toString n]
  | .double x => [x.text]
  | .str s => [quote s]
  | .arr xs => "[" :: itemPieces xs ++ ["]"]
  | .obj ms => "\x7b" :: memberPieces ms ++ ["\x7d"]
termination_by structural v => v

/-- The items of a list, separated by commas. -/
def itemPieces : List Json → List String
  | [] => []
  | v :: rest => pieces v ++ (if rest.isEmpty then [] else [","]) ++ itemPieces rest
termination_by structural xs => xs

/-- The members of an object, separated by commas. -/
def memberPieces : List (String × Json) → List String
  | [] => []
  | (k, v) :: rest =>
    (quote k :: ":" :: pieces v) ++ (if rest.isEmpty then [] else [","]) ++ memberPieces rest
termination_by structural ms => ms

end

/-- The text of a value. -/
def write (v : Json) : String := String.join (pieces v)

end Converge.Json
