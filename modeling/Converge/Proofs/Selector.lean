/-
  Converge.Proofs.Selector — what the selector of a table of labels selects.

  The text of a selector is cut at its commas, and each term at its first equals sign.  Keys
  without both, and values without commas, come back from it.

  Main statements:
    * `Selector.parse_print` — the terms of the selector of a table.
    * `Selector.accepts_print` — it selects exactly what carries every label of the table.
    * `Selector.asks_first` — even with commas in the values it asks for the first label.
-/
import Converge.Selector

namespace Converge

/-- What comes before the first mark is the start of the first piece. -/
theorem Text.exists_splitAt_append (mark : Char) {start : List Char} (rest : List Char)
    (free : mark ∉ start) :
    ∃ piece more, splitAt mark (start ++ rest) = (start ++ piece) :: more := by
  cases hrest : splitAt mark rest with
  | nil => exact absurd hrest (splitAt_ne_nil mark rest)
  | cons piece more => exact ⟨piece, more, splitAt_append free hrest⟩

namespace Selector

/-- The label comes back from the selector it is printed in. -/
structure Writable (e : String × String) : Prop where
  key_uncut : '=' ∉ e.1.toList
  key_free : ',' ∉ e.1.toList
  value_free : ',' ∉ e.2.toList

/-- The characters of a term. -/
def chars (e : String × String) : List Char := e.1.toList ++ '=' :: e.2.toList

theorem toList_term (e : String × String) : (e.1 ++ "=" ++ e.2).toList = chars e := by
  simp [chars]

theorem termOf_chars {e : String × String} (h : Writable e) :
    termOf (chars e) = .equals e.1 e.2 := by
  unfold termOf chars
  rw [Text.cut?_append '=' _ _ h.key_uncut]
  show SelectorTerm.equals (String.ofList e.1.toList) (String.ofList e.2.toList) = _
  rw [String.ofList_toList, String.ofList_toList]

theorem free_chars {e : String × String} (h : Writable e) : ',' ∉ chars e := by
  intro hmem
  rcases List.mem_append.mp hmem with hmem | hmem
  · exact h.key_free hmem
  · rcases List.mem_cons.mp hmem with hmem | hmem
    · exact absurd hmem (by decide)
    · exact h.value_free hmem

/-- The terms of the selector of a table ask for its labels. -/
theorem parse_print {labels : Table String String} (writable : ∀ e ∈ labels, Writable e) :
    parse (print labels) = labels.map fun e => .equals e.1 e.2 := by
  -- the text is the terms, joined by commas
  have hprint : (print labels).toList = Text.join ',' (labels.map chars) := by
    unfold print Text.joinWith
    rw [String.toList_ofList, List.map_map]
    exact congrArg (Text.join ',') (List.map_congr_left fun e _ => toList_term e)
  unfold parse
  rw [hprint]
  cases labels with
  | nil => rfl
  | cons e rest =>
    -- no term has a comma, and none is empty
    have hfree : ∀ piece ∈ (e :: rest).map chars, ',' ∉ piece := by
      intro piece hpiece
      obtain ⟨d, hd, rfl⟩ := List.mem_map.mp hpiece
      exact free_chars (writable d hd)
    have hsome : ∀ piece ∈ (e :: rest).map chars, (!piece.isEmpty) = true := by
      intro piece hpiece
      obtain ⟨d, _, rfl⟩ := List.mem_map.mp hpiece
      simp [chars]
    rw [Text.splitAt_join ',' _ (by simp) hfree, List.filter_eq_self.mpr hsome, List.map_map]
    exact List.map_congr_left fun d hd => termOf_chars (writable d hd)

/-- The selector of a table accepts labels that have all of the table. -/
theorem accepts_print {labels : Table String String} (writable : ∀ e ∈ labels, Writable e)
    (found : Table String String) :
    accepts (print labels) found = true ↔ ∀ e ∈ labels, Table.get? found e.1 = some e.2 := by
  unfold accepts
  rw [parse_print writable]
  simp [admits]

/-- Whatever the values are, the first label of the table is asked for. -/
theorem asks_first {k v : String} {rest found : Table String String} (uncut : '=' ∉ k.toList)
    (free : ',' ∉ k.toList) (accepted : accepts (print ((k, v) :: rest)) found = true) :
    ∃ w, Table.get? found k = some w := by
  -- a comma can come no earlier than in the value
  obtain ⟨tail, htail⟩ : ∃ tail, (print ((k, v) :: rest)).toList = k.toList ++ '=' :: tail := by
    unfold print Text.joinWith
    rw [String.toList_ofList, List.map_cons, List.map_cons, toList_term]
    cases rest with
    | nil => exact ⟨v.toList, rfl⟩
    | cons e rest =>
      refine ⟨v.toList ++ ',' ::
        Text.join ',' (((e :: rest).map fun e => e.1 ++ "=" ++ e.2).map String.toList), ?_⟩
      show (k.toList ++ '=' :: v.toList) ++ ',' :: _ = _
      rw [List.append_assoc, List.cons_append]
  have hfree : ',' ∉ k.toList ++ ['='] := by simp [free]
  obtain ⟨piece, more, hsplit⟩ := Text.exists_splitAt_append ',' tail hfree
  rw [List.append_assoc, List.singleton_append] at hsplit
  have hterm : termOf (k.toList ++ '=' :: piece) = .equals k (String.ofList piece) := by
    unfold termOf
    rw [Text.cut?_append '=' _ _ uncut]
    show SelectorTerm.equals (String.ofList k.toList) _ = _
    rw [String.ofList_toList]
  have hfirst : SelectorTerm.equals k (String.ofList piece) ∈ parse (print ((k, v) :: rest)) := by
    unfold parse
    rw [htail, hsplit, List.append_assoc, List.singleton_append]
    refine List.mem_map.mpr ⟨k.toList ++ '=' :: piece, List.mem_filter.mpr ⟨?_, ?_⟩, hterm⟩
    · exact List.mem_cons_self
    · simp
  have hadmits := List.all_eq_true.mp accepted _ hfirst
  exact ⟨_, eq_of_beq hadmits⟩

end Selector

end Converge
