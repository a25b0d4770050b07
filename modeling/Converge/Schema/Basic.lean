/-
  Converge.Schema.Basic — descriptions of the values a wire form may hold.

  A schema has the shape of the values it describes, and remarks for people and
  for the server that fills in defaults.
-/
import Converge.Json.Basic
import Converge.Json.Codec

namespace Converge

/-- What a schema says beside the shape of its values. -/
structure Remarks where
  title : Option String := none
  description : Option String := none
  /-- The value of a missing member. -/
  default : Option Json := none
  /-- Whether the value may be null. -/
  nullable : Bool := false
deriving DecidableEq, Inhabited

/-- A schema, by the shape of its values. -/
inductive Schema where
  | text (r : Remarks)
  /-- One of some texts. -/
  | choice (names : List String) (r : Remarks)
  | flag (r : Remarks)
  /-- A whole number of a format. -/
  | integer (format : String) (r : Remarks)
  | list (item : Schema) (r : Remarks)
  /-- An object whose members all have one schema. -/
  | table (value : Schema) (r : Remarks)
  /-- An object with the members named. -/
  | record (members : List (String × Schema)) (required : List String) (r : Remarks)
deriving Inhabited

namespace Schema

/-! ## §1. Common schemas -/

/-- A text member. -/
def string : Schema := text {}

/-- A text member with a description. -/
def describedString (description : String) : Schema := text { description := some description }

/-- A text member that may be null. -/
def nullableString : Schema := text { nullable := true }

/-- A truth value, false when missing. -/
def switch : Schema := flag { default := some (.bool false) }

/-- A number of 32 bits, zero when missing. -/
def number (description : Option String := none) : Schema :=
  integer "int32" { default := some (.int 0), description }

/-- A block that may be left out. -/
def block (members : List (String × Schema)) (description : Option String := none) : Schema :=
  record members [] { nullable := true, description }

/-! ## §2. Writing -/

/-- The remarks that come before the members `enum` to `items`. -/
def leading (r : Remarks) : List (String × Json) :=
  Json.memberOf "default" id r.default ++ Json.memberOf "description" .str r.description

/-- The mark of values that may be null. -/
def nullMark (r : Remarks) : List (String × Json) :=
  Json.memberIf r.nullable "nullable" (.bool true)

/-- The title, and the name of the shape. -/
def trailing (r : Remarks) (type : String) : List (String × Json) :=
  Json.memberOf "title" .str r.title ++ [("type", .str type)]

mutual

/-- The wire form of a schema. -/
def toJson : Schema → Json
  | text r => .obj (leading r ++ nullMark r ++ trailing r "string")
  | choice names r =>
    .obj (leading r ++ [("enum", .ofStrings names)] ++ nullMark r ++ trailing r "string")
  | flag r => .obj (leading r ++ nullMark r ++ trailing r "boolean")
  | integer format r =>
    .obj (leading r ++ [("format", .str format)] ++ nullMark r ++ trailing r "integer")
  | list item r =>
    .obj (leading r ++ [("items", item.toJson)] ++ nullMark r ++ trailing r "array")
  | table value r =>
    .obj ([("additionalProperties", value.toJson)] ++ leading r ++ nullMark r
      ++ trailing r "object")
  | record members required r =>
    .obj (leading r ++ nullMark r
      ++ Json.memberIf (!members.isEmpty) "properties" (.obj (membersJson members))
      ++ Json.memberIf (!required.isEmpty) "required" (.ofStrings required)
      ++ trailing r "object")

/-- The wire forms of the schemas of members. -/
def membersJson : List (String × Schema) → List (String × Json)
  | [] => []
  | (k, s) :: rest => (k, s.toJson) :: membersJson rest

end

end Schema

end Converge
