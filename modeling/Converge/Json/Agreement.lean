/-
  Converge.Json.Agreement — values that count as the same.

  Two values agree when they are equal up to the signs of zeros.

  Main statement: `agrees_refl`, every value agrees with itself.
-/
import Converge.Json.Basic

namespace Converge.Json

mutual

/-- Whether two values agree. -/
def agrees : Json → Json → Bool
  | .double x, w => match w with
    | .double y => x.agrees y
    | _ => false
  | .arr xs, w => match w with
    | .arr ys => agreeItems xs ys
    | _ => false
  | .obj ms, w => match w with
    | .obj ns => agreeMembers ms ns
    | _ => false
  | .null, w => decide (w = .null)
  | .bool b, w => decide (w = .bool b)
  | .int n, w => decide (w = .int n)
  | .str s, w => decide (w = .str s)
termination_by structural v => v

/-- Whether two lists agree item by item. -/
def agreeItems : List Json → List Json → Bool
  | [], ys => ys.isEmpty
  | x :: xs, ys => match ys with
    | [] => false
    | y :: ys => agrees x y && agreeItems xs ys
termination_by structural xs => xs

/-- Whether two lists of members agree in order. -/
def agreeMembers : List (String × Json) → List (String × Json) → Bool
  | [], ns => ns.isEmpty
  | (k, v) :: ms, ns => match ns with
    | [] => false
    | (l, w) :: ns => k == l && agrees v w && agreeMembers ms ns
termination_by structural ms => ms

end

mutual

/-- Every value agrees with itself. -/
theorem agrees_refl : (v : Json) → agrees v v = true
  | .null | .bool _ | .int _ | .str _ => by simp [agrees]
  | .double x => by simpa [agrees] using x.agrees_refl
  | .arr xs => by simpa [agrees] using agreeItems_refl xs
  | .obj ms => by simpa [agrees] using agreeMembers_refl ms
termination_by structural v => v

theorem agreeItems_refl : (xs : List Json) → agreeItems xs xs = true
  | [] => by simp [agreeItems]
  | x :: xs => by simp [agreeItems, agrees_refl x, agreeItems_refl xs]
termination_by structural xs => xs

theorem agreeMembers_refl : (ms : List (String × Json)) → agreeMembers ms ms = true
  | [] => by simp [agreeMembers]
  | (k, v) :: ms => by simp [agreeMembers, agrees_refl v, agreeMembers_refl ms]
termination_by structural ms => ms

end

end Converge.Json
