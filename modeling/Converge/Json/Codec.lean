/-
  Converge.Json.Codec — how typed records are read from and written to objects.

  A record is written as a concatenation of members in key order, each of them
  left out when the record's rule says so, and read by looking its members up by
  name.  A reader therefore depends on nothing but those look-ups: members it
  does not name are ignored.  A list is read as well: its items are the members
  in the order in which the record has them.

  Main statements: what a look-up finds among written members, and that lists
  are read back item by item.
-/
import Converge.Json.Basic

namespace Converge.Json

/-! ## §1. Reading -/

/-- The members of a record: those of an object, or the items of a list, which are
    the members `names` in this order.  The last ones may be missing. -/
def record? (names : List String) : Json → Option (Table String Json)
  | .obj ms => some ms
  | .arr xs => if xs.length ≤ names.length then some (names.zip xs) else none
  | _ => none

/-- The members of a record of which a list must have all. -/
def fullRecord? (names : List String) : Json → Option (Table String Json)
  | .arr xs => if xs.length = names.length then some (names.zip xs) else none
  | v => v.members?

/-- The member `k`, read with `f`; `absent` is the reading of a missing member. -/
def field {α : Type} (ms : Table String Json) (k : String) (absent : Option α)
    (f : Json → Option α) : Option α :=
  match Table.get? ms k with
  | none => absent
  | some v => f v

/-- A truth value. -/
def bool? : Json → Option Bool
  | .bool b => some b
  | _ => none

/-- Every item of a list, read with `f`. -/
def items? {α : Type} (f : Json → Option α) : List Json → Option (List α)
  | [] => some []
  | v :: rest => do
    let x ← f v
    let xs ← items? f rest
    pure (x :: xs)

/-- A list, its items read with `f`. -/
def listOf? {α : Type} (f : Json → Option α) : Json → Option (List α)
  | .arr xs => items? f xs
  | _ => none

/-- The members of an object, all of them strings. -/
def textMembers? : List (String × Json) → Option (Table String String)
  | [] => some []
  | (k, v) :: rest => do
    let s ← v.text?
    let m ← textMembers? rest
    pure ((k, s) :: m)

/-- An object whose members are all strings. -/
def texts? : Json → Option (Table String String)
  | .obj ms => textMembers? ms
  | _ => none

/-- `null` for nothing, otherwise as `f` reads it. -/
def nullable {α : Type} (f : Json → Option α) : Json → Option (Option α)
  | .null => some none
  | v => (f v).map some

/-- A member that may be missing or `null`. -/
def optional {α : Type} (ms : Table String Json) (k : String) (f : Json → Option α) :
    Option (Option α) :=
  field ms k (some none) (nullable f)

/-- A member that must be there. -/
def required {α : Type} (ms : Table String Json) (k : String) (f : Json → Option α) : Option α :=
  field ms k none f

/-- A string member, empty when missing. -/
def textField (ms : Table String Json) (k : String) : Option String :=
  field ms k (some "") text?

/-- A number member, zero when missing. -/
def numberField (ms : Table String Json) (k : String) : Option Int32 :=
  field ms k (some 0) int32?

/-- A truth value member, false when missing. -/
def boolField (ms : Table String Json) (k : String) : Option Bool :=
  field ms k (some false) bool?

/-! ## §2. Writing -/

/-- A member that is written when `keep` holds. -/
def memberIf (keep : Bool) (k : String) (v : Json) : List (String × Json) :=
  if keep then [(k, v)] else []

/-- A string member, left out when empty. -/
def textMember (k s : String) : List (String × Json) := memberIf (decide (s ≠ "")) k (.str s)

/-- A member that is left out when there is no value. -/
def memberOf {α : Type} (k : String) (f : α → Json) : Option α → List (String × Json)
  | some v => [(k, f v)]
  | none => []

/-- A list member, left out when empty. -/
def listMember {α : Type} (k : String) (f : α → Json) (xs : List α) : List (String × Json) :=
  memberIf (!xs.isEmpty) k (.arr (xs.map f))

/-! ## §3. Looking up written members -/

theorem get?_append (a b : Table String Json) (k : String) :
    Table.get? (a ++ b) k = (Table.get? a k).or (Table.get? b k) := Table.get?_append a b k

@[simp] theorem get?_memberIf (keep : Bool) (k l : String) (v : Json) :
    Table.get? (memberIf keep k v) l = if keep ∧ k = l then some v else none := by
  by_cases hk : keep <;> by_cases h : k = l <;> simp [memberIf, Table.get?, hk, h]

@[simp] theorem get?_memberOf {α : Type} (k l : String) (f : α → Json) (o : Option α) :
    Table.get? (memberOf k f o) l = if k = l then o.map f else none := by
  cases o <;> by_cases h : k = l <;> simp [memberOf, Table.get?, h]

theorem items?_map {α : Type} {f : Json → Option α} {g : α → Json}
    (back : ∀ x, f (g x) = some x) (xs : List α) : items? f (xs.map g) = some xs := by
  induction xs with
  | nil => rfl
  | cons x rest ih => simp [items?, back, ih]

theorem texts?_ofTexts (m : Table String String) : texts? (ofTexts m) = some m := by
  show textMembers? _ = _
  induction m with
  | nil => rfl
  | cons e rest ih => simp [textMembers?, text?, ih]

end Converge.Json
