/-
  Converge.Key — the identity of a stored object.

  Keys sort by kind, then namespace, then name.
-/
import Converge.Kind

namespace Converge

/-- The identity of one object. -/
structure Key where
  kind : Kind
  ns : String
  name : String
deriving DecidableEq, Repr, Inhabited

namespace Key

/-- A key in messages: `Kind namespace/name`. -/
def display (k : Key) : String := k.kind.name ++ " " ++ k.ns ++ "/" ++ k.name

/-- Kind first, then namespace, then name. -/
def Before (a b : Key) : Prop :=
  a.kind < b.kind ∨ (a.kind = b.kind ∧
    (a.ns < b.ns ∨ (a.ns = b.ns ∧ a.name < b.name)))

instance : LT Key := ⟨Before⟩

instance : DecidableLT Key := fun a b =>
  inferInstanceAs (Decidable (a.kind < b.kind ∨ (a.kind = b.kind ∧
    (a.ns < b.ns ∨ (a.ns = b.ns ∧ a.name < b.name)))))

end Key

end Converge
