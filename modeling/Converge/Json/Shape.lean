/-
  Converge.Json.Shape — values read from JSON text in view of what is expected.

  A shape says which values a reader takes.  Members that a record does not know
  are passed over without being understood, unless the record is open; all else
  must be readable as a value.  Nesting is limited wherever a text is understood.

  A strict record takes each of its members once; unless it is open it may also
  be a list, whose items are the members in order.  A lenient one takes them as
  often as they come, every time of the expected shape; the last one counts, and
  `null` stands for none.
-/
import Converge.Json.Basic
import Converge.Json.Source

namespace Converge

/-! ## §1. Shapes -/

/-- What a record expects under one name. -/
structure Expected (σ : Type) where
  name : String
  shape : σ
  /-- `null` is taken, too. -/
  nullable : Bool := false
  /-- A record without it is refused. -/
  isNeeded : Bool := false

/-- How a record treats the members it knows. -/
inductive Manners where
  | strict
  | lenient
deriving DecidableEq, Repr, Inhabited

/-- What a reader takes. -/
inductive Shape where
  /-- Any value. -/
  | any
  | flag
  /-- A whole number between two bounds. -/
  | whole (least most : Int)
  /-- A text that fits. -/
  | text (fits : String → Bool)
  /-- One of some names, or an object with one of them for its only member and `null` under it. -/
  | choice (names : List String)
  | list (item : Shape)
  /-- An object whose members are all texts. -/
  | texts
  /-- An object with the expected members; an open one keeps the others as well. -/
  | record (manners : Manners) (isOpen : Bool) (members : List (Expected Shape))
deriving Inhabited

namespace Shape

/-- Any text. -/
def anyText : Shape := .text fun _ => true

/-- One text only. -/
def word (s : String) : Shape := .text (· == s)

/-- Numbers of 16 bits without a sign. -/
def word16 : Shape := .whole 0 0xFFFF

/-- Numbers of 32 bits without a sign. -/
def word32 : Shape := .whole 0 0xFFFFFFFF

/-- Numbers of 32 bits with a sign. -/
def int32 : Shape := .whole Int32.minValue.toInt Int32.maxValue.toInt

/-- Numbers of 64 bits with a sign. -/
def int64 : Shape := .whole Int64.minValue.toInt Int64.maxValue.toInt

end Shape

namespace Expected

/-- A member that may be missing or `null`. -/
def optional (name : String) (shape : Shape) : Expected Shape := { name, shape, nullable := true }

/-- A member that may be missing, but is not `null`. -/
def plain (name : String) (shape : Shape) : Expected Shape := { name, shape }

/-- A member that must be there. -/
def needed (name : String) (shape : Shape) : Expected Shape := { name, shape, isNeeded := true }

end Expected

/-! ## §2. Numbers and members -/

/-- The value of a numeral: a whole number of 64 bits where it can be one. -/
def Numeral.value? (n : Numeral) : Option Json :=
  match n.int? with
  | some i => some (.int i)
  | none => n.double?.map .double

/-- What becomes of a member. -/
inductive Slot where
  /-- It is passed over. -/
  | ignored
  | read (nullable : Bool) (shape : Shape)
deriving Inhabited

namespace Shape

/-- The slots of the members of an object of a shape, unless no object fits. -/
def slots? : Shape → Option (String → Slot)
  | .any => some fun _ => .read false .any
  | .texts => some fun _ => .read false anyText
  | .choice names => some fun k => if names.contains k then .read false .any else .ignored
  | .record _ isOpen members => some fun k =>
    match members.find? fun m => m.name == k with
    | some m => .read m.nullable m.shape
    | none => if isOpen then .read false .any else .ignored
  | .flag | .whole _ _ | .text _ | .list _ => none

/-- The shape of the items of a list of a shape, unless no list fits. -/
def item? : Shape → Option Shape
  | .any => some .any
  | .list item => some item
  | .flag | .whole _ _ | .text _ | .choice _ | .texts | .record _ _ _ => none

/-- The members in the order of a list, when a list fits that has a record's members
    for its items. -/
def places? : Shape → Option (List (Expected Shape))
  | .record .strict false members => some members
  | _ => none

/-- Give a member its latest value; `null` takes it away. -/
def latest (ms : Table String Json) (m : String × Json) : Table String Json :=
  if m.2 = .null then Table.erase ms m.1 else Table.insert ms m.1 m.2

/-- Whether every needed member is there. -/
def complete (members : List (Expected Shape)) (ms : List (String × Json)) : Bool :=
  members.all fun m => !m.isNeeded || Table.has ms m.name

/-- Whether no member that a record knows comes twice. -/
def unrepeated (members : List (Expected Shape)) (ms : List (String × Json)) : Bool :=
  members.all fun m => decide ((ms.filter fun e => e.1 == m.name).length ≤ 1)

/-- The object of a shape with the given members, in the order of the text; `mentioned`
    counts those passed over as well. -/
def close? (mentioned : Nat) (ms : List (String × Json)) : Shape → Option Json
  | .any | .texts => some (Json.ofMembers ms)
  | .choice _ => match ms with
    | [(k, .null)] => if mentioned = 1 then some (.str k) else none
    | _ => none
  | .record .strict _ members =>
    if unrepeated members ms && complete members ms then some (.obj ms) else none
  | .record .lenient _ members =>
    let ms := ms.foldl latest []
    if complete members ms then some (.obj ms) else none
  | .flag | .whole _ _ | .text _ | .list _ => none

end Shape

/-! ## §3. Reading -/

namespace Source

mutual

/-- The value of a source of a shape; `depth` is one more than the nesting left. -/
def value? (depth : Nat) (shape : Shape) : Source → Option Json
  | .null => match shape with
    | .any => some .null
    | _ => none
  | .bool b => match shape with
    | .any | .flag => some (.bool b)
    | _ => none
  | .number n => match shape with
    | .any => n.value?
    | .whole least most =>
      n.int?.bind fun i => if least ≤ i ∧ i ≤ most then some (.int i) else none
    | _ => none
  | .str s => match shape with
    | .any => s.map .str
    | .text fits => s.bind fun s => if fits s then some (.str s) else none
    | .choice names => s.bind fun s => if names.contains s then some (.str s) else none
    | _ => none
  | .arr xs =>
    if depth ≤ 1 then none
    else match shape.places? with
      | some members => (placed? (depth - 1) members xs).map .obj
      | none => shape.item?.bind fun item => (items? (depth - 1) item xs).map .arr
  | .obj ms =>
    if depth ≤ 1 then none
    else shape.slots?.bind fun slots =>
      (members? (depth - 1) slots ms).bind fun read => shape.close? ms.length read
termination_by structural source => source

/-- The members that the items of a list stand for, in the order of the record. -/
def placed? (depth : Nat) (members : List (Expected Shape)) :
    List Source → Option (List (String × Json))
  | [] => if members.all fun m => !m.isNeeded then some [] else none
  | x :: rest => match members with
    | [] => none
    | m :: members => match placed? depth members rest with
      | none => none
      | some ms => match m.nullable, x with
        | true, .null => some ((m.name, .null) :: ms)
        | _, x => match value? depth m.shape x with
          | some v => some ((m.name, v) :: ms)
          | none => none
termination_by structural xs => xs

/-- The values of the items of a list. -/
def items? (depth : Nat) (item : Shape) : List Source → Option (List Json)
  | [] => some []
  | x :: rest => match value? depth item x, items? depth item rest with
    | some v, some vs => some (v :: vs)
    | _, _ => none
termination_by structural xs => xs

/-- The members that are not passed over, in the order of the text. -/
def members? (depth : Nat) (slots : String → Slot) :
    List (Option String × Source) → Option (List (String × Json))
  | [] => some []
  | (none, _) :: _ => none
  | (some k, x) :: rest => match slots k, members? depth slots rest with
    | _, none => none
    | .ignored, some ms => some ms
    | .read nullable shape, some ms => match nullable, x with
      | true, .null => some ((k, .null) :: ms)
      | _, x => match value? depth shape x with
        | some v => some ((k, v) :: ms)
        | none => none
termination_by structural ms => ms

end

end Source

namespace Json

/-- Values nest less than this. -/
def depthLimit : Nat := 128

/-- The value of a shape that a text writes. -/
def readAs? (shape : Shape) (text : String) : Option Json :=
  (Source.ofText? text).bind fun source => source.value? depthLimit shape

/-- The value that a text writes.  Of two members with one name the later one
    wins, and members are kept in key order. -/
def read? (text : String) : Option Json := readAs? .any text

end Json

end Converge
