/-
  Converge.Proofs.Amend.InLine — when an object is left as it is, and what it is brought to.

  An object is in line with a child when it carries the child's labels, its data covers the
  body less the members that are never changed, and the members the tables name are as the
  body has them.

  Main statements:
    * `Child.amend?_none` — exactly the objects in line are left as they are.
    * `Child.inLine_amend?` — what is written back is in line.
  Both are for regular bodies, in which all but the replaced members is orderly.
-/
import Converge.Proofs.Amend.Cleared

namespace Converge

open Json (Covers OrderlyBut)

/-! ## §1. In line with a body -/

/-- The value has all the desired value asks for, and the members the tables name for the
    kind are as desired. -/
structure Amend.Settled (kind : Kind) (cur want : Json) : Prop where
  covers : Covers cur want
  replaced : ∀ row ∈ Amend.replaced, row.kind = kind → row.Replaced cur want
  cleared : ∀ row ∈ Amend.cleared, row.kind = kind → row.Cleared cur want

/-- What an object is to have in the end: all of the body that may be changed. -/
def Body.wanted (b : Body) : Json := Amend.withoutImmutable b.kind b.toJson

/-- The object carries the labels of the child and is settled on its body. -/
structure Child.InLine (c : Child) (o : Object) : Prop where
  labels : ∀ k v, Table.get? c.managedLabels k = some v →
    Table.get? (o.metadata.labels.getD []) k = some v
  settled : Amend.Settled c.body.kind o.data c.body.wanted

/-- The row of replaced members of a kind, without members if the table has none. -/
def Amend.replacedRow (kind : Kind) : OwnedMembers :=
  (replaced.find? fun row => row.kind = kind).getD ⟨kind, [], []⟩

/-- All of the body but its replaced members is orderly. -/
def Body.Regular (b : Body) : Prop :=
  OrderlyBut (Amend.replacedRow b.kind).keys (Amend.replacedRow b.kind).parent b.wanted

theorem Body.isObject_wanted (b : Body) : b.wanted.isObject = true := by
  cases b <;> rfl

namespace Amend

/-! ## §2. The rows of a kind -/

/-- The rows of cleared members of a kind. -/
def clearedRows (kind : Kind) : List OwnedMembers := cleared.filter fun row => row.kind = kind

/-- The table has at most one row for each kind. -/
theorem filter_replaced (kind : Kind) :
    (replaced.filter fun row => row.kind = kind) = [replacedRow kind]
      ∨ (replaced.filter fun row => row.kind = kind) = [] ∧ replacedRow kind = ⟨kind, [], []⟩ := by
  cases kind <;> first | exact .inl rfl | exact .inr ⟨rfl, rfl⟩

theorem alongRows_replaced (kind : Kind) (cur want : Json) :
    alongRows replaceMember replaced kind cur want
      = Json.zipAlong (replaceMembers (replacedRow kind).keys) (replacedRow kind).parent cur
          want := by
  unfold alongRows
  rcases filter_replaced kind with h | ⟨h, hrow⟩
  · rw [h]
    rfl
  · rw [h, hrow, Json.zipAlong_nil]
    rfl

theorem alongRows_cleared (kind : Kind) (cur want : Json) :
    alongRows clearMember cleared kind cur want = clearRows (clearedRows kind) cur want := rfl

theorem replacedRow_of_mem {row : OwnedMembers} {kind : Kind} (h : row ∈ replaced)
    (hk : row.kind = kind) : row = replacedRow kind := by
  have hmem : row ∈ replaced.filter fun row => row.kind = kind :=
    List.mem_filter.mpr ⟨h, by simpa using hk⟩
  rcases filter_replaced kind with hf | ⟨hf, _⟩
  · rw [hf] at hmem
    exact List.mem_singleton.mp hmem
  · rw [hf] at hmem
    cases hmem

/-- The row of a kind is one of the table, or has no members. -/
theorem replacedRow_cases (kind : Kind) :
    replacedRow kind ∈ replaced ∧ (replacedRow kind).kind = kind
      ∨ replacedRow kind = ⟨kind, [], []⟩ := by
  rcases filter_replaced kind with hf | ⟨_, hrow⟩
  · have hmem : replacedRow kind ∈ replaced.filter fun row => row.kind = kind := by
      rw [hf]
      exact List.mem_singleton.mpr rfl
    obtain ⟨hin, hk⟩ := List.mem_filter.mp hmem
    exact .inl ⟨hin, by simpa using hk⟩
  · exact .inr hrow

theorem replaced_of_settled {kind : Kind} {cur want : Json} (h : Settled kind cur want) :
    (replacedRow kind).Replaced cur want := by
  rcases replacedRow_cases kind with ⟨hin, hk⟩ | hrow
  · exact h.replaced _ hin hk
  · rw [hrow]
    intro c d _ k hk
    cases hk

/-! ## §3. The data -/

/-- The object a body is laid over. -/
def start (cur : Json) : Json := if cur.isObject then cur else .obj []

theorem data_eq (b : Body) (cur : Json) :
    data b.kind b.toJson cur = clearRows (clearedRows b.kind)
      (Json.zipAlong (replaceMembers (replacedRow b.kind).keys) (replacedRow b.kind).parent
        (Json.overlay (start cur) b.wanted).1 b.wanted) b.wanted := by
  rw [← alongRows_replaced, ← alongRows_cleared]
  rfl

/-- Whatever the data was, it is settled on a regular body afterwards. -/
theorem settled_data {b : Body} (hb : b.Regular) (cur : Json) :
    Settled b.kind (data b.kind b.toJson cur) b.wanted := by
  rw [data_eq]
  refine ⟨?_, ?_, ?_⟩
  · exact covers_clearRows (OrderlyBut.covers hb _) _
  · -- what the first two steps achieved outlasts the clearing
    intro row hrow hk
    rw [replacedRow_of_mem hrow hk]
    exact replaced_clearRows (fun c d part => OrderlyBut.replaced hb _ part) _
  · intro row hrow hk
    exact cleared_clearRows (List.mem_filter.mpr ⟨hrow, by simpa using hk⟩) _ _

/-- Settled data stays as it is. -/
theorem data_of_settled {b : Body} (hb : b.Regular) {cur : Json}
    (h : Settled b.kind cur b.wanted) : data b.kind b.toJson cur = cur := by
  have hstart : start cur = cur := if_pos (h.covers.isObject b.isObject_wanted)
  have hlaid := OrderlyBut.fixed hb cur h.covers (replaced_of_settled h)
  rw [data_eq, hstart, hlaid]
  refine clearRows_fixed ?_
  intro row hrow
  obtain ⟨hin, hk⟩ := List.mem_filter.mp hrow
  exact h.cleared row hin (by simpa using hk)

/-! ## §4. The labels -/

/-- One managed label is written. -/
def relabel (acc : Table String String × Bool) (e : String × String) :
    Table String String × Bool :=
  if Table.get? acc.1 e.1 = some e.2 then acc else (Table.insert acc.1 e.1 e.2, true)

theorem labels_eq_foldl (managed cur : Table String String) :
    labels managed cur = managed.foldl relabel (cur, false) := rfl

/-- Labels that are there already are left as they are. -/
theorem labels_of_carried {managed cur : Table String String}
    (h : ∀ e ∈ managed, Table.get? cur e.1 = some e.2) : labels managed cur = (cur, false) := by
  rw [labels_eq_foldl]
  induction managed with
  | nil => rfl
  | cons e rest ih =>
    have hstep : relabel (cur, false) e = (cur, false) := if_pos (h e (by simp))
    rw [List.foldl_cons, hstep]
    exact ih fun f hf => h f (List.mem_cons_of_mem _ hf)

theorem foldl_relabel_marked (managed cur : Table String String) :
    (managed.foldl relabel (cur, true)).2 = true := by
  induction managed generalizing cur with
  | nil => rfl
  | cons e rest ih =>
    rw [List.foldl_cons]
    unfold relabel
    split <;> exact ih _

/-- No label was written exactly when all were there. -/
theorem labels_snd_eq_false_iff {managed cur : Table String String} :
    (labels managed cur).2 = false ↔ ∀ e ∈ managed, Table.get? cur e.1 = some e.2 := by
  constructor
  · rw [labels_eq_foldl]
    intro h
    induction managed with
    | nil => simp
    | cons e rest ih =>
      rw [List.foldl_cons] at h
      -- the first label that is not there sets the mark for good
      by_cases he : Table.get? cur e.1 = some e.2
      · have hstep : relabel (cur, false) e = (cur, false) := if_pos he
        rw [hstep] at h
        intro f hf
        rcases List.mem_cons.mp hf with rfl | hf
        · exact he
        · exact ih h f hf
      · have hstep : relabel (cur, false) e = (Table.insert cur e.1 e.2, true) := if_neg he
        rw [hstep, foldl_relabel_marked] at h
        exact Bool.noConfusion h
  · intro h
    rw [labels_of_carried h]

/-- Afterwards managed labels have their values, and all others are as before. -/
theorem get?_labels {managed : Table String String} (once : (Table.keys managed).Nodup)
    (cur : Table String String) (k : String) :
    Table.get? (labels managed cur).1 k = (Table.get? managed k).or (Table.get? cur k) := by
  -- for any labels written so far, whatever the mark
  have hfold : ∀ acc : Table String String × Bool,
      Table.get? (managed.foldl relabel acc).1 k
        = (Table.get? managed k).or (Table.get? acc.1 k) := by
    induction managed with
    | nil => intro acc; rfl
    | cons e rest ih =>
      intro acc
      obtain ⟨a, v⟩ := e
      obtain ⟨hna, hrest⟩ := List.nodup_cons.mp once
      have hstep : Table.get? (relabel acc (a, v)).1 k
          = if a = k then some v else Table.get? acc.1 k := by
        unfold relabel
        split
        · rename_i hc
          by_cases hak : a = k
          · subst hak
            rw [hc, if_pos rfl]
          · rw [if_neg hak]
        · exact Table.get?_insert acc.1 a k v
      rw [List.foldl_cons, ih hrest, hstep, Table.get?_cons]
      by_cases hak : a = k
      · subst hak
        simp [Table.get?_of_not_mem hna]
      · simp [hak]
  exact hfold (cur, false)

end Amend

/-! ## §5. The object -/

/-- Whether an object is out of line with the child. -/
def Child.differs (c : Child) (o : Object) : Bool :=
  (Amend.labels c.managedLabels (o.metadata.labels.getD [])).2
    || decide (Amend.data c.body.kind c.body.toJson o.data ≠ o.data)

/-- The object with the labels and the body of the child. -/
def Child.amended (c : Child) (o : Object) : Object :=
  { o with
    metadata := { o.metadata with
      labels := some (Amend.labels c.managedLabels (o.metadata.labels.getD [])).1 }
    data := Amend.data c.body.kind c.body.toJson o.data }

theorem Child.amend?_eq (c : Child) (o : Object) :
    c.amend? o = if c.differs o then some (c.amended o) else none := rfl

theorem Child.amend?_eq_none {c : Child} {o : Object} : c.amend? o = none ↔
    (Amend.labels c.managedLabels (o.metadata.labels.getD [])).2 = false ∧
      Amend.data c.body.kind c.body.toJson o.data = o.data := by
  rw [Child.amend?_eq]
  simp [Child.differs]

theorem Child.carried_iff {c : Child} (once : (Table.keys c.managedLabels).Nodup)
    (cur : Table String String) :
    (∀ e ∈ c.managedLabels, Table.get? cur e.1 = some e.2) ↔
      ∀ k v, Table.get? c.managedLabels k = some v → Table.get? cur k = some v := by
  constructor
  · intro h k v hk
    exact h (k, v) (Table.mem_of_get? hk)
  · intro h e he
    exact h e.1 e.2 (Table.get?_of_mem once he)

/-- Exactly the objects in line are left as they are. -/
theorem Child.amend?_none {c : Child} (hb : c.body.Regular)
    (once : (Table.keys c.managedLabels).Nodup) (cur : Object) :
    c.amend? cur = none ↔ c.InLine cur := by
  rw [Child.amend?_eq_none, Amend.labels_snd_eq_false_iff, Child.carried_iff once]
  constructor
  · -- data that stays as it is comes out of the steps, and what comes out of them is settled
    rintro ⟨hl, hd⟩
    refine ⟨hl, ?_⟩
    have hset := Amend.settled_data hb cur.data
    rw [hd] at hset
    exact hset
  · rintro ⟨hl, hset⟩
    exact ⟨hl, Amend.data_of_settled hb hset⟩

/-- What is written back is the object with new labels and data. -/
theorem Child.amend?_some {c : Child} {cur next : Object} (h : c.amend? cur = some next) :
    next = c.amended cur := by
  rw [Child.amend?_eq] at h
  split at h
  · exact (Option.some.inj h).symm
  · exact absurd h nofun

/-- What is written back is in line. -/
theorem Child.inLine_amend? {c : Child} (hb : c.body.Regular)
    (once : (Table.keys c.managedLabels).Nodup) {cur next : Object}
    (h : c.amend? cur = some next) : c.InLine next := by
  rw [Child.amend?_some h]
  refine ⟨?_, Amend.settled_data hb cur.data⟩
  intro k v hk
  show Table.get? (Amend.labels c.managedLabels (cur.metadata.labels.getD [])).1 k = some v
  rw [Amend.get?_labels once, hk]
  rfl

end Converge
