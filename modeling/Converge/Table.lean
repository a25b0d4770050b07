/-
  Converge.Table — finite maps as association lists.

  A table is the list of its entries.  New keys are placed in ascending key
  order, a known key keeps its place, so two tables that were built by these
  operations and answer every look-up alike are the same list.  JSON objects,
  labels, annotations, the object store and the ownership ledger are tables.

  Main statements: what `get?` answers after each operation.
-/

namespace Converge

/-- A finite map: the list of its entries. -/
abbrev Table (α β : Type) := List (α × β)

namespace Table

variable {α β : Type} [DecidableEq α]

/-! ## §1. Reading -/

/-- The value of the first entry with key `k`. -/
def get? : Table α β → α → Option β
  | [], _ => none
  | (a, v) :: rest, k => if a = k then some v else get? rest k

/-- Whether some entry has key `k`. -/
def has (m : Table α β) (k : α) : Bool := (get? m k).isSome

/-- The keys, in the order of the entries. -/
def keys (m : Table α β) : List α := m.map Prod.fst

/-! ## §2. Writing -/

/-- Give the first entry with key `k` the value `v`; other entries stay. -/
def replace : Table α β → α → β → Table α β
  | [], _, _ => []
  | (a, w) :: rest, k, v => if a = k then (k, v) :: rest else (a, w) :: replace rest k v

/-- Put a new entry before the first entry with a greater key. -/
def place [LT α] [DecidableLT α] : Table α β → α → β → Table α β
  | [], k, v => [(k, v)]
  | (a, w) :: rest, k, v => if k < a then (k, v) :: (a, w) :: rest else (a, w) :: place rest k v

/-- Give `k` the value `v`, in its old place or in key order. -/
def insert [LT α] [DecidableLT α] (m : Table α β) (k : α) (v : β) : Table α β :=
  if has m k then replace m k v else place m k v

/-- Drop every entry with key `k`. -/
def erase : Table α β → α → Table α β
  | [], _ => []
  | (a, w) :: rest, k => if a = k then erase rest k else (a, w) :: erase rest k

/-- Insert all entries of `extra`, a later one winning over an earlier one. -/
def insertAll [LT α] [DecidableLT α] (m extra : Table α β) : Table α β :=
  extra.foldl (fun acc e => insert acc e.1 e.2) m

/-- The table of a list of entries, a later one winning over an earlier one. -/
def ofEntries [LT α] [DecidableLT α] (entries : List (α × β)) : Table α β :=
  insertAll [] entries

/-! ## §3. What a look-up sees -/

@[simp] theorem get?_nil (k : α) : get? ([] : Table α β) k = none := rfl

theorem get?_cons (a : α) (v : β) (rest : Table α β) (k : α) :
    get? ((a, v) :: rest) k = if a = k then some v else get? rest k := rfl

/-- In entries one after the other the earlier ones come first. -/
theorem get?_append (m n : Table α β) (k : α) :
    get? (m ++ n) k = (get? m k).or (get? n k) := by
  induction m with
  | nil => simp
  | cons e rest ih =>
    obtain ⟨a, v⟩ := e
    by_cases h : a = k <;> simp [get?, h, ih]

theorem get?_replace (m : Table α β) (k k' : α) (v : β) :
    get? (replace m k v) k' = if k = k' ∧ has m k then some v else get? m k' := by
  induction m with
  | nil => simp [replace, has]
  | cons e rest ih =>
    obtain ⟨a, w⟩ := e
    by_cases ha : a = k <;> by_cases hk : k = k' <;> by_cases hak : a = k' <;>
      simp_all [replace, get?, has]

theorem get?_place [LT α] [DecidableLT α] (m : Table α β) (k k' : α) (v : β)
    (fresh : get? m k = none) :
    get? (place m k v) k' = if k = k' then some v else get? m k' := by
  induction m with
  | nil => simp [place, get?]
  | cons e rest ih =>
    obtain ⟨a, w⟩ := e
    have hak : a ≠ k := by intro h; simp [get?, h] at fresh
    have hr : get? rest k = none := by simpa [get?, hak] using fresh
    by_cases hlt : k < a
    · simp [place, hlt, get?]
    · by_cases hk : k = k'
      · subst hk; simp [place, hlt, get?, hak, ih hr]
      · simp [place, hlt, get?, ih hr, hk]

/-- After an insertion the new key has the new value and all else is as before. -/
@[simp] theorem get?_insert [LT α] [DecidableLT α] (m : Table α β) (k k' : α) (v : β) :
    get? (insert m k v) k' = if k = k' then some v else get? m k' := by
  unfold insert
  by_cases h : has m k
  · simp [h, get?_replace]
  · simp only [h, Bool.false_eq_true, ↓reduceIte]
    exact get?_place m k k' v (by simpa [has] using h)

/-- After an erasure the key is absent and all else is as before. -/
@[simp] theorem get?_erase (m : Table α β) (k k' : α) :
    get? (erase m k) k' = if k = k' then none else get? m k' := by
  induction m with
  | nil => simp [erase]
  | cons e rest ih =>
    obtain ⟨a, w⟩ := e
    by_cases ha : a = k <;> by_cases hk : k = k' <;> by_cases hak : a = k' <;>
      simp_all [erase, get?]

/-- Writing the value that is already there leaves the table as it is. -/
theorem insert_of_get? [LT α] [DecidableLT α] {m : Table α β} {k : α} {v : β}
    (h : get? m k = some v) : insert m k v = m := by
  have hr : ∀ n : Table α β, get? n k = some v → replace n k v = n := by
    intro n
    induction n with
    | nil => simp
    | cons e rest ih =>
      obtain ⟨a, w⟩ := e
      by_cases ha : a = k
      · simp_all [replace, get?]
      · simpa [replace, get?, ha] using ih
  simp [insert, has, h, hr m h]

/-- Erasing an absent key leaves the table as it is. -/
theorem erase_of_get?_none {m : Table α β} {k : α} (h : get? m k = none) : erase m k = m := by
  induction m with
  | nil => rfl
  | cons e rest ih =>
    obtain ⟨a, w⟩ := e
    by_cases ha : a = k
    · simp [get?, ha] at h
    · simp_all [erase, get?]

end Table

end Converge
