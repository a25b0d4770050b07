/-
  Converge.Proofs.Pass.Held — a root that was held is held.

  The namespaces on record are the trimmed pieces of a text between commas.  A namespace without
  commas that is trimmed already comes back from the text it was printed in, so that holding a
  root a second time finds nothing to do.

  Main statements:
    * `Finalizer.parseRecord_printRecord` — plain namespaces come back.
    * `Finalizer.recorded_held_eq` — a root that was held has the new namespaces on record, too.
    * `Finalizer.hold?_held` — a root that was held for namespaces is held for them.
-/
import Converge.Pass.Finalizer
import Converge.Proofs.Roster
import Converge.Text.Split

namespace Converge

/-! ## §1. Trimming -/

namespace Text

theorem dropWhile_dropWhile {α : Type} (p : α → Bool) (xs : List α) :
    (xs.dropWhile p).dropWhile p = xs.dropWhile p := by
  induction xs with
  | nil => rfl
  | cons x xs ih =>
    cases hx : p x with
    | true => rw [List.dropWhile_cons_of_pos hx, ih]
    | false =>
      have hkeep : (x :: xs).dropWhile p = x :: xs := List.dropWhile_cons_of_neg (by simp [hx])
      rw [hkeep, hkeep]

/-- Dropping at the end does not uncover anything to drop at the start. -/
theorem dropWhile_reverse_dropWhile {α : Type} (p : α → Bool) {xs : List α}
    (fixed : xs.dropWhile p = xs) :
    (xs.reverse.dropWhile p).reverse.dropWhile p = (xs.reverse.dropWhile p).reverse := by
  have hprefix : (xs.reverse.dropWhile p).reverse <+: xs := by
    have h := List.reverse_prefix.mpr (List.dropWhile_suffix p (l := xs.reverse))
    rwa [List.reverse_reverse] at h
  generalize (xs.reverse.dropWhile p).reverse = ys at hprefix
  obtain ⟨zs, rfl⟩ := hprefix
  cases ys with
  | nil => rfl
  | cons y ys =>
    cases hy : p y with
    | false => exact List.dropWhile_cons_of_neg (by simp [hy])
    | true =>
      -- then something was dropped at the start of the whole
      rw [List.cons_append, List.dropWhile_cons_of_pos hy] at fixed
      have hle := (List.dropWhile_sublist p (l := ys ++ zs)).length_le
      rw [fixed] at hle
      exact absurd hle (by simp)

theorem trimChars_trimChars (cs : List Char) : trimChars (trimChars cs) = trimChars cs := by
  unfold trimChars
  rw [dropWhile_reverse_dropWhile isBlank (dropWhile_dropWhile isBlank cs), List.reverse_reverse,
    dropWhile_dropWhile]

theorem trim_trim (s : String) : trim (trim s) = trim s := by
  unfold trim
  rw [String.toList_ofList, trimChars_trimChars]

theorem mem_of_mem_trimChars {c : Char} {cs : List Char} (h : c ∈ trimChars cs) : c ∈ cs := by
  have hin : c ∈ cs.dropWhile isBlank :=
    List.mem_reverse.mp ((List.dropWhile_sublist isBlank).subset (List.mem_reverse.mp h))
  exact (List.dropWhile_sublist isBlank).subset hin

/-! ## §2. Pieces -/

/-- The pieces between marks have no mark. -/
theorem free_of_mem_splitAt {mark : Char} {cs piece : List Char}
    (h : piece ∈ splitAt mark cs) : mark ∉ piece := by
  induction cs generalizing piece with
  | nil =>
    rw [List.mem_singleton.mp h]
    exact List.not_mem_nil
  | cons c rest ih =>
    unfold splitAt at h
    by_cases hc : c = mark
    · -- a mark starts a new piece
      rw [if_pos hc] at h
      rcases List.mem_cons.mp h with rfl | h
      · exact List.not_mem_nil
      · exact ih h
    · rw [if_neg hc] at h
      cases hs : splitAt mark rest with
      | nil => exact absurd hs (splitAt_ne_nil mark rest)
      | cons first more =>
        rw [hs] at h ih
        rcases List.mem_cons.mp h with rfl | h
        · -- any other character goes to the first piece
          intro hmem
          rcases List.mem_cons.mp hmem with hmark | hmem
          · exact hc hmark.symm
          · exact ih (by simp) hmem
        · exact ih (List.mem_cons_of_mem _ h)

/-- Texts without the mark come back from their joined text. -/
theorem split_joinWith {mark : Char} {pieces : List String} (some_piece : pieces ≠ [])
    (free : ∀ p ∈ pieces, mark ∉ p.toList) : split mark (joinWith mark pieces) = pieces := by
  unfold split joinWith
  rw [String.toList_ofList, splitAt_join mark _ (by simpa using some_piece), List.map_map]
  · have hid : (String.ofList ∘ String.toList) = id := by
      funext s
      exact String.ofList_toList
    rw [hid, List.map_id]
  · intro p hp
    obtain ⟨s, hs, rfl⟩ := List.mem_map.mp hp
    exact free s hs

end Text

namespace Finalizer

/-! ## §3. The record -/

/-- A namespace that can be put on record: it is not empty, has no comma and is trimmed. -/
structure Plain (ns : String) : Prop where
  free : ',' ∉ ns.toList
  trimmed : Text.trim ns = ns
  named : ns ≠ ""

theorem mem_parseRecord {ns s : String} :
    ns ∈ parseRecord s ↔ (∃ piece ∈ Text.split ',' s, Text.trim piece = ns) ∧ ns ≠ "" := by
  unfold parseRecord
  simp

/-- All namespaces read from a record are plain. -/
theorem plain_of_mem_parseRecord {ns s : String} (h : ns ∈ parseRecord s) : Plain ns := by
  obtain ⟨⟨piece, hpiece, rfl⟩, hne⟩ := mem_parseRecord.mp h
  obtain ⟨cs, hcs, rfl⟩ := List.mem_map.mp hpiece
  refine ⟨?_, Text.trim_trim _, hne⟩
  intro hcomma
  unfold Text.trim at hcomma
  rw [String.toList_ofList] at hcomma
  have hin := Text.mem_of_mem_trimChars hcomma
  rw [String.toList_ofList] at hin
  exact Text.free_of_mem_splitAt hcs hin

/-- Plain namespaces come back from the record they are printed in. -/
theorem parseRecord_printRecord {xs : Roster String} (plain : ∀ ns ∈ xs, Plain ns)
    (ascending : xs.Ascending) : parseRecord (printRecord xs) = xs := by
  cases xs with
  | nil => rfl
  | cons ns rest =>
    have hback : Text.split ',' (printRecord (ns :: rest)) = ns :: rest :=
      Text.split_joinWith (List.cons_ne_nil ns rest) fun p hp => (plain p hp).free
    have htrim : (ns :: rest).map Text.trim = ns :: rest := by
      rw [List.map_congr_left fun p hp => (plain p hp).trimmed, List.map_id']
    have hnamed : (ns :: rest).filter (fun p => p ≠ "") = ns :: rest :=
      List.filter_eq_self.mpr fun p hp => decide_eq_true (plain p hp).named
    unfold parseRecord
    rw [hback, htrim, hnamed, Roster.ofList_of_ascending ascending]

theorem plain_recorded {m : Metadata} {ns : String} (h : ns ∈ recorded m) : Plain ns := by
  unfold recorded at h
  cases ha : Table.get? (m.annotations.getD []) recordKey with
  | none =>
    rw [ha] at h
    exact absurd h List.not_mem_nil
  | some s =>
    rw [ha] at h
    exact plain_of_mem_parseRecord h

theorem ascending_recorded (m : Metadata) : (recorded m).Ascending := by
  unfold recorded
  split
  · exact Roster.ascending_ofList _
  · exact Roster.ascending_nil

/-- The record of an object is read from the text that was written last. -/
theorem recorded_printed (m : Metadata) (annotations : Table String String)
    (all : Roster String) :
    recorded { m with
      annotations := some (Table.insert annotations recordKey (printRecord all)) }
      = parseRecord (printRecord all) := by
  unfold recorded
  rw [Option.getD_some, Table.get?_insert, if_pos rfl]

/-! ## §4. Holding -/

/-- The metadata of a root that is held for namespaces. -/
def held (m : Metadata) (linked : Roster String) : Metadata := (hold? m linked).getD m

theorem held_of_some {m next : Metadata} {linked : Roster String}
    (h : hold? m linked = some next) : held m linked = next := by
  unfold held
  rw [h]
  rfl

theorem held_of_none {m : Metadata} {linked : Roster String} (h : hold? m linked = none) :
    held m linked = m := by
  unfold held
  rw [h]
  rfl

/-- The metadata with the finalizer. -/
def finalized (m : Metadata) : Metadata :=
  if holds m then m else { m with finalizers := some (m.finalizers.getD [] ++ [name]) }

theorem holds_finalized (m : Metadata) : holds (finalized m) = true := by
  unfold finalized
  by_cases h : holds m = true
  · rw [if_pos h]
    exact h
  · rw [if_neg h]
    simp [holds]

theorem annotations_finalized (m : Metadata) : (finalized m).annotations = m.annotations := by
  unfold finalized
  split <;> rfl

/-- Exactly the metadata with the finalizer and with the namespaces on record is left alone. -/
theorem hold?_eq_none_iff {m : Metadata} {linked : Roster String} :
    hold? m linked = none ↔ holds m = true ∧ ∀ ns ∈ linked, ns ∈ recorded m := by
  rw [← Roster.subset_eq_true_iff]
  unfold hold?
  cases holds m <;> cases Roster.subset linked (recorded m) <;> simp

theorem held_eq (m : Metadata) (linked : Roster String) :
    held m linked = if Roster.subset linked (recorded m) then finalized m
      else { finalized m with annotations := some (Table.insert (m.annotations.getD []) recordKey
        (printRecord (Roster.union (recorded m) linked))) } := by
  unfold held hold? finalized
  by_cases hsubset : Roster.subset linked (recorded m) = true <;> by_cases h : holds m = true <;>
    simp only [hsubset, h, if_true, if_false, Bool.false_eq_true] <;> rfl

theorem holds_held (m : Metadata) (linked : Roster String) : holds (held m linked) = true := by
  rw [held_eq]
  split
  · exact holds_finalized m
  · exact holds_finalized m

/-- What is on record of a root that was held: what was there before, and the namespaces it was
    held for. -/
theorem recorded_held_eq {m : Metadata} {linked : Roster String}
    (plain : ∀ ns ∈ linked, Plain ns) :
    recorded (held m linked) = Roster.union (recorded m) linked := by
  rw [held_eq]
  by_cases hsubset : Roster.subset linked (recorded m) = true
  · have hknown := (Roster.subset_eq_true_iff linked (recorded m)).mp hsubset
    rw [if_pos hsubset, Roster.union_of_subset (ascending_recorded m) hknown]
    unfold recorded
    rw [annotations_finalized]
  · -- what was on record was read from a text, and so is as plain as what is added
    have hall : ∀ n ∈ Roster.union (recorded m) linked, Plain n := by
      intro n hn
      rcases (Roster.mem_union _ _ n).mp hn with h | h
      · exact plain_recorded h
      · exact plain n h
    rw [if_neg hsubset, recorded_printed]
    exact parseRecord_printRecord hall ((ascending_recorded m).union linked)

/-- A root that was held for plain namespaces is held for them. -/
theorem hold?_held {m : Metadata} {linked : Roster String} (plain : ∀ ns ∈ linked, Plain ns) :
    hold? (held m linked) linked = none := by
  refine hold?_eq_none_iff.mpr ⟨holds_held m linked, fun ns hns => ?_⟩
  rw [recorded_held_eq plain]
  exact (Roster.mem_union _ _ ns).mpr (.inr hns)

theorem held_resourceVersion (m : Metadata) (linked : Roster String) :
    (held m linked).resourceVersion = m.resourceVersion := by
  have hfinalized : (finalized m).resourceVersion = m.resourceVersion := by
    unfold finalized
    split <;> rfl
  rw [held_eq]
  split <;> exact hfinalized

theorem hold?_resourceVersion {m next : Metadata} {linked : Roster String}
    (h : hold? m linked = some next) : next.resourceVersion = m.resourceVersion := by
  rw [← held_of_some h]
  exact held_resourceVersion m linked

theorem finalized_version (m : Metadata) (v : Option String) :
    finalized { m with resourceVersion := v } = { finalized m with resourceVersion := v } := by
  show (if holds m then ({ m with resourceVersion := v } : Metadata) else _) = _
  unfold finalized
  cases holds m <;> rfl

/-- Holding does not look at the version of a root, nor change it. -/
theorem held_version (m : Metadata) (linked : Roster String) (v : Option String) :
    held { m with resourceVersion := v } linked = { held m linked with resourceVersion := v } := by
  rw [held_eq, held_eq, finalized_version]
  show (if Roster.subset linked (recorded m) then _ else _) = _
  cases Roster.subset linked (recorded m) <;> rfl

end Finalizer

end Converge
