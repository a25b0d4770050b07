/-
  Converge.Roster — finite sets as lists in ascending order.

  A roster built with `insert`, `union` and `ofList` holds each member once.
  Namespaces, missing kinds and the keys a deletion removes are rosters: their
  order is the order in which requests are made and answers are listed.

  Main statements: what is a member after each operation.
-/

namespace Converge

/-- A finite set: the list of its members. -/
abbrev Roster (α : Type) := List α

namespace Roster

/-- Whether every member of `s` is one of `t`. -/
def subset {α : Type} [DecidableEq α] (s t : Roster α) : Bool := s.all (fun x => decide (x ∈ t))

theorem subset_eq_true_iff {α : Type} [DecidableEq α] (s t : Roster α) :
    subset s t = true ↔ ∀ x ∈ s, x ∈ t := by
  simp [subset]

variable {α : Type} [DecidableEq α] [LT α] [DecidableLT α]

/-- Add one member, before the first greater one. -/
def insert : Roster α → α → Roster α
  | [], x => [x]
  | a :: rest, x =>
    if x = a then a :: rest
    else if x < a then x :: a :: rest
    else a :: insert rest x

/-- Add all members of `extra`. -/
def union (s extra : Roster α) : Roster α := extra.foldl insert s

/-- The set of the members of a list. -/
def ofList (xs : List α) : Roster α := union [] xs

/-! ## Membership -/

@[simp] theorem mem_insert (s : Roster α) (x y : α) : y ∈ insert s x ↔ y = x ∨ y ∈ s := by
  induction s with
  | nil => simp [insert]
  | cons a rest ih =>
    unfold insert
    split
    · rename_i h; subst h; simp
    · split
      · simp
      · simp only [List.mem_cons, ih]; exact or_left_comm

@[simp] theorem mem_union (s extra : Roster α) (y : α) :
    y ∈ union s extra ↔ y ∈ s ∨ y ∈ extra := by
  unfold union
  induction extra generalizing s with
  | nil => simp
  | cons x rest ih => simp [ih]; grind

@[simp] theorem mem_ofList (xs : List α) (y : α) : y ∈ ofList xs ↔ y ∈ xs := by
  simp [ofList]

end Roster

end Converge
