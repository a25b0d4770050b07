/-
  Converge.Text.Mask — texts whose end is not told.
-/

namespace Converge.Text

/-- Characters with a star for all that follows the first mark. -/
def maskChars (mark : List Char) : List Char → List Char
  | [] => []
  | c :: rest => if mark.isPrefixOf (c :: rest) then mark ++ ['*'] else c :: maskChars mark rest

/-- A text with a star for all that follows the first mark; all of it when there is no mark. -/
def maskAfter (mark s : String) : String := String.ofList (maskChars mark.toList s.toList)

end Converge.Text
