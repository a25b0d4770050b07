/-
  Converge.Text.Percent — names and values in the query of a request.

  Letters, digits and `*`, `-`, `.`, `_` stay, a blank becomes a plus sign, and
  every other byte of the text's UTF-8 form is written by two upper-case
  hexadecimal digits.
-/

namespace Converge.Text

/-- Whether a byte stands for itself in a query. -/
def isQuerySafe (b : UInt8) : Bool :=
  let n := b.toNat
  (0x30 ≤ n && n ≤ 0x39) || (0x41 ≤ n && n ≤ 0x5a) || (0x61 ≤ n && n ≤ 0x7a)
    || n == 0x2a || n == 0x2d || n == 0x2e || n == 0x5f

/-- One upper-case hexadecimal digit. -/
def upperHex (n : Nat) : Char := "0123456789ABCDEF".toList.getD n '0'

/-- A byte in a query. -/
def percentByte (b : UInt8) : List Char :=
  if isQuerySafe b then [Char.ofNat b.toNat]
  else if b.toNat = 0x20 then ['+']
  else ['%', upperHex (b.toNat / 16), upperHex (b.toNat % 16)]

/-- A text in a query. -/
def percent (s : String) : String :=
  String.ofList (s.toUTF8.toList.flatMap percentByte)

end Converge.Text
