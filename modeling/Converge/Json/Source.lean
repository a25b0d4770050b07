/-
  Converge.Json.Source — JSON text, taken apart but not yet understood.

  A source keeps what a value no longer shows: the order of members and members
  of one name, how a number is written, and strings whose escapes name no
  character.  So a reader may pass over a part that it does not use, whatever
  that part would mean.

  The depth of recursion is bounded by the length of the text.
-/
import Converge.Double.Numeral

namespace Converge

/-- The parts of a JSON text. -/
inductive Source where
  | null
  | bool (b : Bool)
  | number (n : Numeral)
  /-- A string; none when an escape in it names no character. -/
  | str (s : Option String)
  | arr (xs : List Source)
  | obj (ms : List (Option String × Source))
deriving Inhabited

namespace Source

/-! ## §1. Characters and numbers -/

/-- JSON's white space. -/
def isSpace (c : Char) : Bool := c == ' ' || c == '\n' || c == '\r' || c == '\t'

/-- The text after its leading white space. -/
def skipSpace (cs : List Char) : List Char := cs.dropWhile isSpace

/-- The values of decimal digits. -/
def digitValues (cs : List Char) : List Nat := cs.map fun c => c.toNat - '0'.toNat

/-- The number written by decimal digits, most significant first. -/
def digitsToNat (cs : List Char) : Nat := (digitValues cs).foldl (fun n d => 10 * n + d) 0

/-- The value of a hexadecimal digit. -/
def hexDigit? (c : Char) : Option Nat :=
  if '0' ≤ c ∧ c ≤ '9' then some (c.toNat - '0'.toNat)
  else if 'a' ≤ c ∧ c ≤ 'f' then some (c.toNat - 'a'.toNat + 10)
  else if 'A' ≤ c ∧ c ≤ 'F' then some (c.toNat - 'A'.toNat + 10)
  else none

/-- The 16-bit unit written by four hexadecimal digits. -/
def readUnit (cs : List Char) : Option (Nat × List Char) :=
  match cs with
  | a :: b :: c :: d :: rest => do
    let a ← hexDigit? a
    let b ← hexDigit? b
    let c ← hexDigit? c
    let d ← hexDigit? d
    pure (((a * 16 + b) * 16 + c) * 16 + d, rest)
  | _ => none

/-- At least one decimal digit, and the text after the digits. -/
def readDigits (cs : List Char) : Option (List Char × List Char) :=
  let ds := cs.takeWhile Char.isDigit
  if ds.isEmpty then none else some (ds, cs.dropWhile Char.isDigit)

/-- The fraction of a number, if one is written. -/
def readFraction : List Char → Option (List Char × List Char)
  | '.' :: rest => readDigits rest
  | rest => some ([], rest)

/-- The exponent of a number after its letter. -/
def readExponent (cs : List Char) : Option (Int × List Char) :=
  match cs with
  | '+' :: rest => (readDigits rest).map fun r => ((digitsToNat r.1 : Int), r.2)
  | '-' :: rest => (readDigits rest).map fun r => (-(digitsToNat r.1 : Int), r.2)
  | rest => (readDigits rest).map fun r => ((digitsToNat r.1 : Int), r.2)

/-- A number without its sign.  No zero comes before other digits. -/
def readUnsigned (negative : Bool) (cs : List Char) : Option (Source × List Char) := do
  let (whole, rest) ← readDigits cs
  if whole.length > 1 && whole.head? == some '0' then none
  let (fraction, rest) ← readFraction rest
  let numeral : Numeral := { negative, whole := digitValues whole, fraction := digitValues fraction }
  match rest with
  | 'e' :: more | 'E' :: more => do
    let (exponent, rest) ← readExponent more
    pure (number { numeral with exponent }, rest)
  | rest => pure (number numeral, rest)

/-- A number. -/
def readNumber : List Char → Option (Source × List Char)
  | '-' :: rest => readUnsigned true rest
  | cs => readUnsigned false cs

/-! ## §2. Strings -/

/-- A character that an escape stands for by its letter. -/
def escaped? : Char → Option Char
  | '"' => some '"'
  | '\\' => some '\\'
  | '/' => some '/'
  | 'b' => some '\x08'
  | 'f' => some '\x0c'
  | 'n' => some '\n'
  | 'r' => some '\r'
  | 't' => some '\t'
  | _ => none

/-- Whether a unit is the first half of a pair. -/
def isHigh (u : Nat) : Bool := decide (0xD800 ≤ u ∧ u < 0xDC00)

/-- Whether a unit is the second half of a pair. -/
def isLow (u : Nat) : Bool := decide (0xDC00 ≤ u ∧ u < 0xE000)

/-- The character of a pair of units. -/
def pairChar (high low : Nat) : Char :=
  Char.ofNat (0x10000 + (high - 0xD800) * 0x400 + (low - 0xDC00))

/-- The characters of a string up to its closing quote, after those in `acc`
    (latest first), and whether every escape so far names a character. -/
def readChars : Nat → Bool → List Char → List Char → Option (Option (List Char) × List Char)
  | 0, _, _, _ => none
  | fuel + 1, good, acc, cs => match cs with
    | [] => none
    | '"' :: rest => some (if good then some acc.reverse else none, rest)
    | '\\' :: 'u' :: rest => do
      let (unit, rest) ← readUnit rest
      if isHigh unit then
        -- the second half must be escaped as well, or the first one stands alone
        match rest with
        | '\\' :: 'u' :: more => match readUnit more with
          | some (low, more) =>
            if isLow low then readChars fuel good (pairChar unit low :: acc) more
            -- the other escape is read again by itself
            else readChars fuel false acc rest
          | none => none
        | _ => readChars fuel false acc rest
      else if isLow unit then readChars fuel false acc rest
      else readChars fuel good (Char.ofNat unit :: acc) rest
    | '\\' :: c :: rest => (escaped? c).bind fun c => readChars fuel good (c :: acc) rest
    | c :: rest => if c.toNat < 0x20 then none else readChars fuel good (c :: acc) rest

/-- A string after its opening quote. -/
def readString (cs : List Char) : Option (Option String × List Char) :=
  (readChars (cs.length + 1) true [] cs).map fun r => (r.1.map String.ofList, r.2)

/-! ## §3. Values -/

/-- The rest of the text after a literal word. -/
def readWord (word : String) (cs : List Char) : Option (List Char) :=
  let w := word.toList
  if cs.take w.length = w then some (cs.drop w.length) else none

mutual

/-- One value, white space before it skipped. -/
def readValue : Nat → List Char → Option (Source × List Char)
  | 0, _ => none
  | fuel + 1, cs => match skipSpace cs with
    | '\x7b' :: rest => match skipSpace rest with
      | '\x7d' :: rest => some (obj [], rest)
      | rest => readMembers fuel [] rest
    | '[' :: rest => match skipSpace rest with
      | ']' :: rest => some (arr [], rest)
      | rest => readItems fuel [] rest
    | '"' :: rest => (readString rest).map fun r => (str r.1, r.2)
    | 't' :: rest => (readWord "rue" rest).map fun r => (bool true, r)
    | 'f' :: rest => (readWord "alse" rest).map fun r => (bool false, r)
    | 'n' :: rest => (readWord "ull" rest).map fun r => (null, r)
    | rest => readNumber rest

/-- The items of a list from the first one on, after those in `acc` (latest first). -/
def readItems : Nat → List Source → List Char → Option (Source × List Char)
  | 0, _, _ => none
  | fuel + 1, acc, cs => do
    let (v, rest) ← readValue fuel cs
    match skipSpace rest with
    | ',' :: rest => readItems fuel (v :: acc) rest
    | ']' :: rest => some (arr (v :: acc).reverse, rest)
    | _ => none

/-- The members of an object from the first one on, after those in `acc` (latest first). -/
def readMembers : Nat → List (Option String × Source) → List Char → Option (Source × List Char)
  | 0, _, _ => none
  | fuel + 1, acc, cs => match skipSpace cs with
    | '"' :: rest => do
      let (k, rest) ← readString rest
      match skipSpace rest with
      | ':' :: rest => do
        let (v, rest) ← readValue fuel rest
        match skipSpace rest with
        | ',' :: rest => readMembers fuel ((k, v) :: acc) rest
        | '\x7d' :: rest => some (obj ((k, v) :: acc).reverse, rest)
        | _ => none
      | _ => none
    | _ => none

end

/-- The parts of a text, with nothing but white space around its value. -/
def ofText? (text : String) : Option Source := do
  let cs := text.toList
  let (v, rest) ← readValue (cs.length + 1) cs
  if (skipSpace rest).isEmpty then some v else none

end Source

end Converge
