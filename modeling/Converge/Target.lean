/-
  Converge.Target — what a request is aimed at.

  A target is written as a text: a path, then a query after the first question
  mark.  A number sign starts a fragment, which is not part of the target.  Some
  characters must not be there as they are, and a text may be too long.
-/
import Converge.Text.Split

namespace Converge

/-- The target of a request. -/
structure Target where
  path : String
  query : String := ""
deriving DecidableEq, Repr, Inhabited

/-- Why a text is no target. -/
inductive TargetFault where
  | tooLong
  | badChar
deriving DecidableEq, Repr, Inhabited

/-- The text of a fault. -/
def TargetFault.message : TargetFault → String
  | tooLong => "uri too long"
  | badChar => "invalid uri character"

namespace Target

/-! ## §1. Targets on the server that is asked -/

/-- The target of characters without a fragment. -/
def ofChars (cs : List Char) : Target :=
  match Text.cut? '?' cs with
  | some (path, query) => ⟨String.ofList path, String.ofList query⟩
  | none => { path := String.ofList cs }

/-- The target a text writes. -/
def ofText (text : String) : Target := ofChars (text.toList.takeWhile (· ≠ '#'))

/-- Whether a character needs no escape anywhere: it is no blank, control or
    angle bracket. -/
def isUsable (c : Char) : Bool :=
  decide (0x20 < c.toNat) && c.toNat != 0x7f && c != '<' && c != '>'

/-- Whether a path may have a character. -/
def isPathChar (c : Char) : Bool := isUsable c && c.toNat != 0x60

/-- Whether a query may have a character. -/
def isQueryChar (c : Char) : Bool := isUsable c && c != '"'

/-- The longest text of a target, in bytes. -/
def longest : Nat := 65534

/-- Why a text is no target. -/
def fault? (text : String) : Option TargetFault :=
  if longest < text.utf8ByteSize then some .tooLong
  else
    let t := ofText text
    if t.path.toList.all isPathChar && t.query.toList.all isQueryChar then none else some .badChar

/-- Path and query as they are shown, without the ampersands at the start of the query. -/
def display (t : Target) : String :=
  match t.query.toList.dropWhile (· == '&') with
  | [] => t.path
  | query => t.path ++ "?" ++ String.ofList query

/-! ## §2. Targets with a server -/

/-- Whether a character may be in the name of a scheme. -/
def isSchemeChar (c : Char) : Bool :=
  c.isAlphanum || c == '+' || c == '-' || c == '.' || c == '~'

/-- What follows a scheme and the server, if a text starts with them. -/
def afterServer? (cs : List Char) : Option (List Char) :=
  match cs.dropWhile isSchemeChar with
  | ':' :: '/' :: '/' :: rest => some (rest.dropWhile fun c => !(c == '/' || c == '?' || c == '#'))
  | _ => none

/-- The target of a text that may name the server as well.  The path of a server
    alone is its root, and a text of another form has no path. -/
def ofFullText (text : String) : Target :=
  if text.toList.head? = some '/' then ofText text
  else match afterServer? text.toList with
    | none => { path := "" }
    | some rest =>
      let t := ofText (String.ofList rest)
      if t.path = "" then { t with path := "/" } else t

end Target

end Converge
