/-
  Converge.Spec.Error — why a spec is refused, and the checks that refuse it.
-/
import Converge.Text.Quoted

namespace Converge

/-- The fault of a spec.  Fields are named by their path in the wire form. -/
inductive SpecError where
  | missing (field : String)
  | notPositive (field : String) (value : Int32)
  | portOutOfRange (field : String) (value : Int32)
  | unsupported (field value allowed : String)
deriving DecidableEq, Repr, Inhabited

namespace SpecError

/-- The text of a fault. -/
def message : SpecError → String
  | missing field => field ++ " is required"
  | notPositive field value => field ++ " must be positive, got " ++ toString value.toInt
  | portOutOfRange field value => field ++ " must be a valid port, got " ++ toString value.toInt
  | unsupported field value allowed =>
    field ++ " does not support " ++ Text.quoted value ++ " (expected one of " ++ allowed ++ ")"

end SpecError

namespace Check

/-- The value is above zero. -/
def positive (field : String) (value : Int32) : Except SpecError Unit :=
  if value ≤ 0 then .error (.notPositive field value) else .ok ()

/-- The value is a port. -/
def port (field : String) (value : Int32) : Except SpecError Unit := do
  positive field value
  if 65535 < value then .error (.portOutOfRange field value) else .ok ()

/-- The value is one of those allowed. -/
def oneOf (field value : String) (allowed : List String) : Except SpecError Unit :=
  if allowed.contains value then .ok ()
  else .error (.unsupported field value (String.intercalate ", " allowed))

/-- The check of a block that is there. -/
def each {α : Type} (check : α → Except SpecError Unit) : Option α → Except SpecError Unit
  | some v => check v
  | none => .ok ()

end Check

end Converge
