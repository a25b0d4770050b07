/-
  Converge.Text.Split — cutting texts at a mark and joining the pieces again.

  `splitAt` has one piece more than there are marks, so an empty text is one
  empty piece; `join` with the same mark puts the pieces together again.

  Main statements: `splitAt_join` and `cut?_append`.
-/

namespace Converge.Text

/-! ## §1. Cutting at every mark -/

/-- The pieces between the marks. -/
def splitAt (mark : Char) : List Char → List (List Char)
  | [] => [[]]
  | c :: rest =>
    if c = mark then [] :: splitAt mark rest
    else match splitAt mark rest with
      | [] => [[c]]
      | piece :: more => (c :: piece) :: more

/-- The pieces with a mark between every two. -/
def join (mark : Char) : List (List Char) → List Char
  | [] => []
  | [piece] => piece
  | piece :: more => piece ++ mark :: join mark more

theorem splitAt_ne_nil (mark : Char) (cs : List Char) : splitAt mark cs ≠ [] := by
  cases cs with
  | nil => simp [splitAt]
  | cons c rest =>
    unfold splitAt
    split
    · simp
    · split <;> simp

/-- A text without the mark goes in front of the first piece of what follows. -/
theorem splitAt_append {mark : Char} {start rest piece : List Char} {more : List (List Char)}
    (free : mark ∉ start) (pieces : splitAt mark rest = piece :: more) :
    splitAt mark (start ++ rest) = (start ++ piece) :: more := by
  induction start with
  | nil => exact pieces
  | cons c start ih =>
    obtain ⟨hc, hstart⟩ := not_or.mp (mt List.mem_cons.mpr free)
    simp [splitAt, Ne.symm hc, ih hstart]

theorem splitAt_append_mark (mark : Char) (piece rest : List Char) (free : mark ∉ piece) :
    splitAt mark (piece ++ mark :: rest) = piece :: splitAt mark rest := by
  have hrest : splitAt mark (mark :: rest) = [] :: splitAt mark rest := by simp [splitAt]
  rw [splitAt_append free hrest, List.append_nil]

theorem splitAt_of_free (mark : Char) (piece : List Char) (free : mark ∉ piece) :
    splitAt mark piece = [piece] := by
  have hend : splitAt mark [] = [[]] := rfl
  have hpiece := splitAt_append free hend
  rwa [List.append_nil] at hpiece

/-- Pieces without the mark come back from their joined text. -/
theorem splitAt_join (mark : Char) (pieces : List (List Char)) (some_piece : pieces ≠ [])
    (free : ∀ p ∈ pieces, mark ∉ p) : splitAt mark (join mark pieces) = pieces := by
  induction pieces with
  | nil => exact absurd rfl some_piece
  | cons p more ih =>
    cases more with
    | nil => simpa [join] using splitAt_of_free mark p (free p (by simp))
    | cons q more =>
      simp only [join]
      rw [splitAt_append_mark mark p _ (free p (by simp)), ih (by simp) (fun r hr => free r (by simp_all))]

/-! ## §2. Cutting at the first mark -/

/-- The parts before and after the first mark, if there is one. -/
def cut? (mark : Char) : List Char → Option (List Char × List Char)
  | [] => none
  | c :: rest =>
    if c = mark then some ([], rest)
    else (cut? mark rest).map fun r => (c :: r.1, r.2)

theorem cut?_append (mark : Char) (left right : List Char) (free : mark ∉ left) :
    cut? mark (left ++ mark :: right) = some (left, right) := by
  induction left with
  | nil => simp [cut?]
  | cons c left ih =>
    have hc : c ≠ mark := by intro h; simp [h] at free
    have hl : mark ∉ left := by intro h; simp [h] at free
    simp [cut?, hc, ih hl]

/-! ## §3. The same on texts -/

/-- The pieces of a text between the marks. -/
def split (mark : Char) (s : String) : List String :=
  (splitAt mark s.toList).map String.ofList

/-- Texts with a mark between every two. -/
def joinWith (mark : Char) (pieces : List String) : String :=
  String.ofList (join mark (pieces.map String.toList))

end Converge.Text
