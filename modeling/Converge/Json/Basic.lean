/-
  Converge.Json.Basic — the dynamic value of the wire format.

  Objects are tables of members.  Whole numbers and floating-point numbers are
  different values: `1` and `1.0` are unequal.  Equality is decided structurally, so that
  closed facts about values compute.
-/
import Converge.Double.Basic
import Converge.Table

namespace Converge

/-! ## §1. Values -/

/-- A JSON value. -/
inductive Json where
  | null
  | bool (b : Bool)
  | int (n : Int)
  | double (x : Double)
  | str (s : String)
  | arr (xs : List Json)
  | obj (ms : List (String × Json))
deriving Inhabited

namespace Json

/-! ## §2. Equality -/

mutual

/-- Decides equality of two values. -/
def decideEq : (a b : Json) → Decidable (a = b)
  | .null, b => match b with
    | .null => isTrue rfl
    | .bool _ | .int _ | .double _ | .str _ | .arr _ | .obj _ => isFalse nofun
  | .bool a, b => match b with
    | .bool b => if h : a = b then isTrue (h ▸ rfl) else isFalse fun e => h (Json.bool.inj e)
    | .null | .int _ | .double _ | .str _ | .arr _ | .obj _ => isFalse nofun
  | .int a, b => match b with
    | .int b => if h : a = b then isTrue (h ▸ rfl) else isFalse fun e => h (Json.int.inj e)
    | .null | .bool _ | .double _ | .str _ | .arr _ | .obj _ => isFalse nofun
  | .double a, b => match b with
    | .double b => if h : a = b then isTrue (h ▸ rfl) else isFalse fun e => h (Json.double.inj e)
    | .null | .bool _ | .int _ | .str _ | .arr _ | .obj _ => isFalse nofun
  | .str a, b => match b with
    | .str b => if h : a = b then isTrue (h ▸ rfl) else isFalse fun e => h (Json.str.inj e)
    | .null | .bool _ | .int _ | .double _ | .arr _ | .obj _ => isFalse nofun
  | .arr a, b => match b with
    | .arr b => match decideEqItems a b with
      | isTrue h => isTrue (h ▸ rfl)
      | isFalse h => isFalse fun e => h (Json.arr.inj e)
    | .null | .bool _ | .int _ | .double _ | .str _ | .obj _ => isFalse nofun
  | .obj a, b => match b with
    | .obj b => match decideEqMembers a b with
      | isTrue h => isTrue (h ▸ rfl)
      | isFalse h => isFalse fun e => h (Json.obj.inj e)
    | .null | .bool _ | .int _ | .double _ | .str _ | .arr _ => isFalse nofun
termination_by structural a => a

/-- Decides equality of two lists of values. -/
def decideEqItems : (a b : List Json) → Decidable (a = b)
  | [], b => match b with
    | [] => isTrue rfl
    | _ :: _ => isFalse nofun
  | x :: a, b => match b with
    | [] => isFalse nofun
    | y :: b => match decideEq x y, decideEqItems a b with
      | isTrue h, isTrue h' => isTrue (h ▸ h' ▸ rfl)
      | isFalse h, _ => isFalse fun e => h (List.cons.inj e).1
      | _, isFalse h => isFalse fun e => h (List.cons.inj e).2
termination_by structural a => a

/-- Decides equality of two lists of members. -/
def decideEqMembers : (a b : List (String × Json)) → Decidable (a = b)
  | [], b => match b with
    | [] => isTrue rfl
    | _ :: _ => isFalse nofun
  | (k, x) :: a, b => match b with
    | [] => isFalse nofun
    | (l, y) :: b => match decEq k l, decideEq x y, decideEqMembers a b with
      | isTrue h, isTrue h', isTrue h'' => isTrue (h ▸ h' ▸ h'' ▸ rfl)
      | isFalse h, _, _ => isFalse fun e => h (Prod.mk.inj (List.cons.inj e).1).1
      | _, isFalse h, _ => isFalse fun e => h (Prod.mk.inj (List.cons.inj e).1).2
      | _, _, isFalse h => isFalse fun e => h (List.cons.inj e).2
termination_by structural a => a

end

instance : DecidableEq Json := decideEq

/-! ## §3. Reading parts -/

/-- Whether the value is an object. -/
def isObject : Json → Bool
  | .obj _ => true
  | _ => false

/-- The members of an object. -/
def members? : Json → Option (Table String Json)
  | .obj ms => some ms
  | _ => none

/-- The member `k` of an object. -/
def get? : Json → String → Option Json
  | .obj ms, k => Table.get? ms k
  | _, _ => none

/-- The text of a string value. -/
def text? : Json → Option String
  | .str s => some s
  | _ => none

/-- The member at the end of a path of member names; `null` where the path stops. -/
def follow (v : Json) (path : List String) : Json :=
  path.foldl (fun v k => (v.get? k).getD .null) v

/-- A whole number in the range of signed 64-bit words. -/
def int64? : Json → Option Int64
  | .int n => if Int64.minValue.toInt ≤ n ∧ n ≤ Int64.maxValue.toInt then some (Int64.ofInt n) else none
  | _ => none

/-- A whole number in the range of signed 32-bit words. -/
def int32? : Json → Option Int32
  | .int n => if Int32.minValue.toInt ≤ n ∧ n ≤ Int32.maxValue.toInt then some (Int32.ofInt n) else none
  | _ => none

/-! ## §4. Writing parts -/

/-- Give the member `k` the value `v`: in an object it is inserted, anything but
    an object is taken for the empty object.  On arrays and scalars the modelled program
    stops with a fault instead; the data of a stored root is never one of these. -/
def setMember (o : Json) (k : String) (v : Json) : Json :=
  match o with
  | .obj ms => .obj (Table.insert ms k v)
  | _ => .obj [(k, v)]

/-- Drop the member `k` of an object; any other value is left alone. -/
def dropMember : Json → String → Json
  | .obj ms, k => .obj (Table.erase ms k)
  | v, _ => v

/-- Replace the value of the member `k` of an object, when it has one. -/
def mapMember (f : Json → Json) : Json → String → Json
  | .obj ms, k => match Table.get? ms k with
    | some v => .obj (Table.insert ms k (f v))
    | none => .obj ms
  | v, _ => v

/-- The object with the given members, in key order. -/
def ofMembers (ms : List (String × Json)) : Json := .obj (Table.ofEntries ms)

/-- A 32-bit word as a number. -/
def ofInt32 (n : Int32) : Json := .int n.toInt

/-- A list of strings. -/
def ofStrings (xs : List String) : Json := .arr (xs.map .str)

/-- An object whose members are strings. -/
def ofTexts (m : Table String String) : Json := .obj (m.map fun e => (e.1, .str e.2))

end Json

end Converge
