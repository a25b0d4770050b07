/-
  Converge.Proofs.Status.Conditions — what becomes of conditions when others are put in turn.

  Every pass puts a condition, and the controllers of other conditions put theirs.  What is kept of
  a type is its last condition, but with the time at which its truth value last flipped.  That time
  is not in the last condition: it hangs on all that was put of the type, and on the condition that
  was there at first.  So the whole history of a type is followed, one condition after the other.

  Main statements:
    * `Condition.find?_put`, `Condition.types_put`, `Condition.getElem?_put` — one condition.
    * `Condition.find?_foldl_put` — what is kept of a type is told by its history alone.
    * `Condition.foldl_put_inTurn` — any number of conditions.
-/
import Converge.Status.Condition
import Mathlib.Data.List.DropRight

namespace Converge.Condition

/-! ## §1. One condition -/

/-- What is kept of `next` where `prior` was kept of its type before. -/
def renewed (prior : Option Condition) (next : Condition) : Condition :=
  match prior with
  | some c =>
    if c.status = next.status then { next with lastTransitionTime := c.lastTransitionTime } else next
  | none => next

theorem renewed_of_status {c next : Condition} (same : c.status = next.status) :
    renewed (some c) next = { next with lastTransitionTime := c.lastTransitionTime } := if_pos same

theorem renewed_of_flip {c next : Condition} (flip : c.status ≠ next.status) :
    renewed (some c) next = next := if_neg flip

/-- What is kept is the condition that was put, with some time. -/
theorem exists_renewed (prior : Option Condition) (next : Condition) :
    ∃ t, renewed prior next = { next with lastTransitionTime := t } := by
  unfold renewed
  split
  · split
    · exact ⟨_, rfl⟩
    · exact ⟨next.lastTransitionTime, rfl⟩
  · exact ⟨next.lastTransitionTime, rfl⟩

@[simp] theorem type_renewed (prior : Option Condition) (next : Condition) :
    (renewed prior next).type = next.type := by
  obtain ⟨t, h⟩ := exists_renewed prior next
  rw [h]

theorem put_cons (d c : Condition) (rest : List Condition) :
    put (d :: rest) c = if d.type = c.type then renewed (some d) c :: rest else d :: put rest c :=
  rfl

/-- What is kept of the type that is put is renewed, and what is kept of others stays. -/
theorem find?_put (cs : List Condition) (c : Condition) (t : String) :
    find? (put cs c) t = if c.type = t then some (renewed (find? cs t) c) else find? cs t := by
  unfold find?
  induction cs with
  | nil =>
    show [c].find? _ = _
    rw [List.find?_singleton]
    simp only [decide_eq_true_eq]
    rfl
  | cons d rest ih =>
    by_cases htype : d.type = c.type
    · rw [put_cons, if_pos htype, List.find?_cons, List.find?_cons, type_renewed, htype]
      by_cases ht : c.type = t <;> simp only [ht, decide_true, decide_false, if_true, if_false]
    · rw [put_cons, if_neg htype, List.find?_cons, List.find?_cons, ih]
      by_cases hd : d.type = t
      · -- it comes first, and is of another type than the one that is put
        have ht : c.type ≠ t := fun h => htype (hd.trans h.symm)
        simp only [hd, ht, decide_true, if_false]
      · simp only [hd, decide_false]

/-- A condition stays where it is, and a new type comes last. -/
theorem types_put (cs : List Condition) (c : Condition) :
    (put cs c).map type
      = if c.type ∈ cs.map type then cs.map type else cs.map type ++ [c.type] := by
  induction cs with
  | nil => rfl
  | cons d rest ih =>
    by_cases htype : d.type = c.type
    · rw [put_cons, if_pos htype, List.map_cons, List.map_cons, type_renewed, htype,
        if_pos List.mem_cons_self]
    · have hmem : c.type ∈ d.type :: rest.map type ↔ c.type ∈ rest.map type := by
        simp [Ne.symm htype]
      rw [put_cons, if_neg htype, List.map_cons, List.map_cons, ih]
      simp only [hmem]
      split <;> rfl

/-- Conditions of other types are left alone. -/
theorem getElem?_put {cs : List Condition} {c d : Condition} {i : Nat} (h : cs[i]? = some d)
    (other : d.type ≠ c.type) : (put cs c)[i]? = some d := by
  induction cs generalizing i with
  | nil => exact absurd h nofun
  | cons e rest ih =>
    cases i with
    | zero =>
      obtain rfl : e = d := Option.some.inj h
      rw [put_cons, if_neg other]
      rfl
    | succ i =>
      by_cases htype : e.type = c.type
      · rw [put_cons, if_pos htype]
        exact h
      · rw [put_cons, if_neg htype]
        exact ih h

theorem nodup_put {cs : List Condition} (once : (cs.map type).Nodup) (c : Condition) :
    ((put cs c).map type).Nodup := by
  rw [types_put]
  split
  · exact once
  · rename_i fresh
    refine List.nodup_append.mpr ⟨once, List.pairwise_singleton _ _, ?_⟩
    rintro t ht u hu rfl
    exact fresh (List.mem_singleton.mp hu ▸ ht)

/-! ## §2. Histories -/

/-- What there was of a type: the first condition of a list, then all that were put. -/
def history (before puts : List Condition) (t : String) : List Condition :=
  (find? before t).toList ++ puts.filter fun c => c.type = t

/-- The last conditions of a history, as far back as they have one truth value. -/
def lastRun (status : Truth) (h : List Condition) : List Condition :=
  h.rtakeWhile fun c => c.status = status

/-- What is kept of a history: the last condition, with the time of the first in the run of equal
    truth values that it ends. -/
def outcome? (h : List Condition) : Option Condition :=
  h.getLast?.map fun last =>
    { last with lastTransitionTime := (lastRun last.status h).head?.bind (·.lastTransitionTime) }

theorem history_concat (before puts : List Condition) (c : Condition) (t : String) :
    history before (puts ++ [c]) t
      = if c.type = t then history before puts t ++ [c] else history before puts t := by
  unfold history
  rw [List.filter_append]
  split
  · rename_i ht
    rw [List.filter_cons_of_pos (by simpa using ht), List.filter_nil, List.append_assoc]
  · rename_i ht
    rw [List.filter_cons_of_neg (by simpa using ht), List.filter_nil, List.append_nil]

/-- A run goes on with one more condition of its truth value. -/
theorem lastRun_concat (h : List Condition) (c : Condition) :
    lastRun c.status (h ++ [c]) = lastRun c.status h ++ [c] :=
  List.rtakeWhile_concat_pos _ _ _ (by simp)

/-- A run is over where the last condition has another truth value. -/
theorem lastRun_concat_of_ne {status : Truth} {c : Condition} (flip : c.status ≠ status)
    (h : List Condition) : lastRun status (h ++ [c]) = [] :=
  List.rtakeWhile_concat_neg _ _ _ (by simpa using flip)

theorem outcome?_last (h : List Condition) (c : Condition) :
    outcome? (h ++ [c]) = some { c with
      lastTransitionTime := (lastRun c.status h ++ [c]).head?.bind (·.lastTransitionTime) } := by
  unfold outcome?
  rw [List.getLast?_concat, Option.map_some, lastRun_concat]

/-- What is kept after one more condition is told by what was kept before it. -/
theorem outcome?_concat (h : List Condition) (c : Condition) :
    outcome? (h ++ [c]) = some (renewed (outcome? h) c) := by
  rw [outcome?_last]
  rcases List.eq_nil_or_concat h with rfl | ⟨earlier, d, rfl⟩
  · rfl
  · rw [List.concat_eq_append, outcome?_last]
    let kept : Condition := { d with
      lastTransitionTime := (lastRun d.status earlier ++ [d]).head?.bind (·.lastTransitionTime) }
    show _ = some (renewed (some kept) c)
    have hkept : kept.status = d.status := rfl
    by_cases hstatus : d.status = c.status
    · -- the run that `d` ends goes on, and starts where it started
      have hrun : lastRun c.status (earlier ++ [d]) = lastRun d.status earlier ++ [d] := by
        rw [← hstatus, lastRun_concat]
      rw [renewed_of_status (hkept.trans hstatus), hrun]
      dsimp only [kept]
      cases lastRun d.status earlier <;> rfl
    · -- the truth value flips, so that a run starts with `c`
      rw [renewed_of_flip (fun h => hstatus (hkept.symm.trans h)), lastRun_concat_of_ne hstatus]
      rfl

/-- However many conditions are put, what is kept of a type is what is kept of its history. -/
theorem find?_foldl_put (before puts : List Condition) (t : String) :
    find? (puts.foldl put before) t = outcome? (history before puts t) := by
  induction puts using List.reverseRecOn with
  | nil =>
    show find? before t = outcome? ((find? before t).toList ++ [])
    rw [List.append_nil]
    cases find? before t with
    | none => rfl
    | some c =>
      have hrun : lastRun c.status [c] = [c] := lastRun_concat [] c
      show some c = some { c with
        lastTransitionTime := (lastRun c.status [c]).head?.bind (·.lastTransitionTime) }
      rw [hrun]
      rfl
  | append_singleton puts c ih =>
    rw [List.foldl_concat, find?_put, ih, history_concat]
    split
    · rw [outcome?_concat]
    · rfl

/-- The start of the run that a history ends is in it. -/
theorem exists_of_outcome? {h : List Condition} {last : Condition} (ends : h.getLast? = some last) :
    ∃ first, (lastRun last.status h).head? = some first ∧
      outcome? h = some { last with lastTransitionTime := first.lastTransitionTime } := by
  obtain ⟨earlier, rfl⟩ := List.getLast?_eq_some_iff.mp ends
  obtain ⟨first, hfirst⟩ : ∃ first, (lastRun last.status (earlier ++ [last])).head? = some first := by
    rw [lastRun_concat]
    cases lastRun last.status earlier with
    | nil => exact ⟨last, rfl⟩
    | cons first rest => exact ⟨first, rfl⟩
  refine ⟨first, hfirst, ?_⟩
  unfold outcome?
  rw [ends, Option.map_some, hfirst]
  rfl

/-! ## §3. Any number of conditions -/

theorem eraseDups_concat (ts : List String) (t : String) :
    (ts ++ [t]).eraseDups = if t ∈ ts then ts.eraseDups else ts.eraseDups ++ [t] := by
  have hsingle : [t].eraseDups = [t] := rfl
  rw [List.eraseDups_append]
  by_cases known : t ∈ ts <;> simp [List.removeAll, known, hsingle]

/-- Types come in the order in which they were first put, after those that were there. -/
theorem types_foldl_put (before puts : List Condition) :
    (puts.foldl put before).map type = before.map type
      ++ ((puts.map type).filter fun t => t ∉ before.map type).eraseDups := by
  induction puts using List.reverseRecOn with
  | nil => exact (List.append_nil _).symm
  | append_singleton puts c ih =>
    rw [List.foldl_concat, types_put, ih, List.map_append, List.filter_append,
      List.map_singleton]
    by_cases old : c.type ∈ before.map type
    · rw [if_pos (List.mem_append_left _ old), List.filter_cons_of_neg (by simpa using old),
        List.filter_nil, List.append_nil]
    · rw [List.filter_cons_of_pos (by simpa using old), List.filter_nil, eraseDups_concat]
      -- it is known where it was put before
      have hknown {ts : List String} : c.type ∈ before.map type ++ ts.eraseDups ↔ c.type ∈ ts := by
        rw [List.mem_append, or_iff_right old, List.mem_eraseDups]
      simp only [hknown]
      split
      · rfl
      · rw [List.append_assoc]

/-- What becomes of conditions when others are put in turn. -/
structure InTurn (before puts after : List Condition) : Prop where
  /-- There is one condition of a type at most. -/
  once : (after.map type).Nodup
  /-- All conditions are where they were, and new types follow in the order in which they were
      first put. -/
  types : after.map type = before.map type
    ++ ((puts.map type).filter fun t => t ∉ before.map type).eraseDups
  /-- Conditions of types that were not put are as before. -/
  others : ∀ (i : Nat) (c : Condition), before[i]? = some c → c.type ∉ puts.map type →
    after[i]? = some c
  /-- Of a type that was put the last condition is kept.  Its time is that of the first condition
      in the longest run at the end of the type's history that has the last truth value: one that
      was put, or the one that was there at first, if the run reaches back to it. -/
  latest : ∀ t ∈ puts.map type, ∃ c last first,
    find? after t = some c ∧
    (puts.filter fun c => c.type = t).getLast? = some last ∧
    (((find? before t).toList ++ puts.filter fun c => c.type = t).rtakeWhile
      fun c => c.status = last.status).head? = some first ∧
    c = { last with lastTransitionTime := first.lastTransitionTime }

/-- Conditions, none of a type that another one has, are followed through any number of others that
    are put in turn, of whatever types, truth values and times. -/
theorem foldl_put_inTurn {before : List Condition} (once : (before.map type).Nodup)
    (puts : List Condition) : InTurn before puts (puts.foldl put before) where
  once := by
    induction puts using List.reverseRecOn with
    | nil => exact once
    | append_singleton puts c ih =>
      rw [List.foldl_concat]
      exact nodup_put ih c
  types := types_foldl_put before puts
  others := by
    intro i c hc other
    induction puts using List.reverseRecOn with
    | nil => exact hc
    | append_singleton puts d ih =>
      rw [List.map_append, List.mem_append, not_or] at other
      rw [List.foldl_concat]
      exact getElem?_put (ih other.1) fun h => other.2 (List.mem_singleton.mpr h)
  latest := by
    intro t ht
    obtain ⟨d, hd, rfl⟩ := List.mem_map.mp ht
    have hmem : d ∈ puts.filter fun c => c.type = d.type := List.mem_filter.mpr ⟨hd, by simp⟩
    obtain ⟨last, hlast⟩ : ∃ last, (puts.filter fun c => c.type = d.type).getLast? = some last :=
      ⟨_, List.getLast?_eq_some_getLast (List.ne_nil_of_mem hmem)⟩
    -- what was put of the type ends its history
    have ends : (history before puts d.type).getLast? = some last := by
      unfold history
      rw [List.getLast?_append, hlast]
      rfl
    obtain ⟨first, hfirst, houtcome⟩ := exists_of_outcome? ends
    exact ⟨_, last, first, (find?_foldl_put before puts d.type).trans houtcome, hlast, hfirst, rfl⟩

/-- Conditions of two controllers.  The first has no time. -/
def writtenConditions : List Condition :=
  [{ type := "Ready", status := .yes, reason := "Reconciled" },
    { type := "Synced", status := .no, lastTransitionTime := some "t0" }]

/-- What is put into them: the first type keeps its truth value, the second one is not put, and a
    third type is new and flips twice. -/
def putConditions : List Condition :=
  [{ type := "Stalled", status := .no, lastTransitionTime := some "t1" },
    { type := "Ready", status := .yes, reason := "Again", lastTransitionTime := some "t2" },
    { type := "Stalled", status := .yes, lastTransitionTime := some "t3" },
    { type := "Stalled", status := .no, lastTransitionTime := some "t4" },
    { type := "Ready", status := .yes, reason := "Still", lastTransitionTime := some "t5" },
    { type := "Stalled", status := .no, reason := "Later", lastTransitionTime := some "t6" }]

/-- The run of the first type reaches back to the condition without a time, and that of the third
    to its second flip. -/
theorem foldl_put_inTurn_written :
    (writtenConditions.map type).Nodup ∧
      InTurn writtenConditions putConditions (putConditions.foldl put writtenConditions) ∧
      putConditions.foldl put writtenConditions =
        [{ type := "Ready", status := .yes, reason := "Still" },
          { type := "Synced", status := .no, lastTransitionTime := some "t0" },
          { type := "Stalled", status := .no, reason := "Later",
            lastTransitionTime := some "t4" }] := by
  have once : (writtenConditions.map type).Nodup := by decide
  exact ⟨once, foldl_put_inTurn once putConditions, by decide⟩

end Converge.Condition
