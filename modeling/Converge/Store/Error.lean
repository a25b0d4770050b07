/-
  Converge.Store.Error — why a call to the object store fails.
-/
import Converge.Key
import Converge.Text.Mask

namespace Converge

/-- The fault of a store call. -/
inductive StoreError where
  | notFound (key : Key)
  | conflict (key : Key)
  | api (key : Key) (detail : String)
  /-- An object could not be written or read; what was wrong with it is not told. -/
  | serialization
deriving DecidableEq, Repr, Inhabited

namespace StoreError

/-- How the text of a serialization fault starts. -/
def serializationMark : String := "serialization error: "

/-- A text that does not tell what was wrong with a serialization. -/
def discreet (s : String) : String := Text.maskAfter serializationMark s

/-- The text of a fault. -/
def message : StoreError → String
  | notFound key => key.display ++ " not found"
  | conflict key => "conflicting write to " ++ key.display
  | api key detail => "api error on " ++ key.display ++ ": " ++ detail
  | serialization => serializationMark ++ "*"

end StoreError

end Converge
