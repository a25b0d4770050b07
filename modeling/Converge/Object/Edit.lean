/-
  Converge.Object.Edit — edits by path.

  A path is a list of member names and list positions.  Writing at a path, and
  removing a member at a path, makes an object of every parent that is missing
  or null.
-/
import Converge.Object.Basic

namespace Converge

/-- One step of a path. -/
inductive PathStep where
  | member (name : String)
  | index (i : Nat)
deriving DecidableEq, Repr, Inhabited

namespace Json

/-- Change the value at the end of a path. -/
def editAt (f : Json → Json) : List PathStep → Json → Json
  | [], v => f v
  | .member k :: rest, v => match v with
    | .obj ms => .obj (Table.insert ms k (editAt f rest ((Table.get? ms k).getD .null)))
    | .null => .obj [(k, editAt f rest .null)]
    | v => v
  | .index i :: rest, v => match v with
    | .arr xs => match xs[i]? with
      | some x => .arr (xs.set i (editAt f rest x))
      | none => .arr xs
    | v => v

/-- Drop the last step of a path from the value it leads to. -/
def dropAt (path : List PathStep) (v : Json) : Json :=
  match path.getLast? with
  | none => v
  | some (.member k) =>
    editAt (fun parent => match parent with
      | .null => .obj []
      | parent => parent.dropMember k) path.dropLast v
  | some (.index i) =>
    editAt (fun parent => match parent with
      | .arr xs => .arr (xs.eraseIdx i)
      | parent => parent) path.dropLast v

end Json

/-- A list of values to write by path, then a list of paths to remove. -/
structure Edit where
  set : List (List PathStep × Json) := []
  unset : List (List PathStep) := []
deriving Inhabited

namespace Edit

/-- Apply an edit to a wire form. -/
def apply (e : Edit) (v : Json) : Json :=
  let v := e.set.foldl (fun v s => Json.editAt (fun _ => s.2) s.1 v) v
  e.unset.foldl (fun v p => Json.dropAt p v) v

/-- Edit a whole object, metadata included; `none` when the result is no object. -/
def applyTo? (e : Edit) (o : Object) : Option Object := Object.ofJson? (e.apply o.toJson)

end Edit

end Converge
