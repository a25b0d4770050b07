/-
  Converge.Yaml.Writer — values as documents in block style.

  Members stand one below the other, nested ones two columns further right;
  the items of a list stand in the column of the member that holds it, each
  after a dash.  Empty objects and lists are written in place.
-/
import Converge.Json.Writer
import Converge.Yaml.Scalar

namespace Converge.Yaml

/-- A line two columns further right; an empty line stays empty. -/
def shift (line : String) : String := if line.isEmpty then line else "  " ++ line

/-- Lines after a dash: the first follows it, the others stand below the first. -/
def afterDash : List String → List String
  | [] => ["-"]
  | first :: rest => ("- " ++ first) :: rest.map shift

/-- A scalar on the line that `head` begins. -/
def attach (head s : String) : List String :=
  let (first, below) := scalar s
  (head ++ " " ++ first) :: below.map shift

mutual

/-- The lines of a value that stand by themselves. -/
def lines : Json → List String
  | .null => ["null"]
  | .bool b => [if b then "true" else "false"]
  | .int n => [toString n]
  | .double x => [x.text]
  | .str s =>
    let (first, below) := scalar s
    first :: below.map shift
  | .arr [] => ["[]"]
  | .arr (x :: xs) => itemLines (x :: xs)
  | .obj [] => ["\x7b\x7d"]
  | .obj (m :: ms) => memberLines (m :: ms)

/-- The lines of the items of a list. -/
def itemLines : List Json → List String
  | [] => []
  | x :: rest => afterDash (lines x) ++ itemLines rest

/-- The lines of the members of an object. -/
def memberLines : List (String × Json) → List String
  | [] => []
  | (k, v) :: rest =>
    let below := lines v
    let head := (scalar k).1 ++ ":"
    let own := match v with
      | .obj (_ :: _) => head :: below.map shift
      | .arr (_ :: _) => head :: below
      | .str s => attach head s
      | _ => [head ++ " " ++ String.join below]
    own ++ memberLines rest

end

/-- The document of a value; every line is ended. -/
def document (v : Json) : String := String.join ((lines v).map (· ++ "\n"))

end Converge.Yaml
