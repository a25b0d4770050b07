/-
  Converge.Proofs.Schema.Widened — values with members that a schema does not name.

  A server keeps what newer versions have written, so that a record may have members that its schema
  does not name, at every depth.  Such a value is wider than the one without them.  A reader keeps
  to a schema when no such member makes a difference to it; a reader of a record does when it reads
  the members it looks up by readers that keep to their schemas.

  Main statements:
    * `Schema.Widens.insert`, `Schema.Widens.member` — a record becomes wider by a member that is
      not named, or by a wider member.
    * `Schema.keeps_record`, `Schema.keeps_list` — readers of records and of lists.
    * `Schema.RoundTrips.of_keeps` — a codec whose reader keeps to the schema reads back wider
      values too.
-/
import Converge.Proofs.Json.Records
import Converge.Schema.Basic

namespace Converge.Schema

/-! ## §1. Wider values -/

/-- The second value is the first one with members added, in any of its records, that the schema
    does not name. -/
inductive Widens : Schema → Json → Json → Prop
  | same {σ : Schema} {v : Json} : Widens σ v v
  | list {item : Schema} {r : Remarks} {xs ys : List Json} (length : xs.length = ys.length)
      (each : ∀ (i : Nat) (x y : Json), xs[i]? = some x → ys[i]? = some y → Widens item x y) :
      Widens (.list item r) (.arr xs) (.arr ys)
  | record {members : List (String × Schema)} {required : List String} {r : Remarks}
      {ms ns : Table String Json}
      (known : ∀ k σ, Table.get? members k = some σ → Table.has ns k = Table.has ms k)
      (each : ∀ k σ v w, Table.get? members k = some σ → Table.get? ms k = some v →
        Table.get? ns k = some w → Widens σ v w) :
      Widens (.record members required r) (.obj ms) (.obj ns)

theorem Widens.insert {members : List (String × Schema)} {required : List String} {r : Remarks}
    {ms : Table String Json} {k : String} (unknown : Table.get? members k = none) (v : Json) :
    Widens (.record members required r) (.obj ms) (.obj (Table.insert ms k v)) := by
  have hkept : ∀ l σ, Table.get? members l = some σ →
      Table.get? (Table.insert ms k v) l = Table.get? ms l := by
    intro l σ named
    have hne : k ≠ l := by
      rintro rfl
      rw [unknown] at named
      exact absurd named nofun
    rw [Table.get?_insert, if_neg hne]
  refine .record ?known ?each
  case known =>
    intro l σ named
    unfold Table.has
    rw [hkept l σ named]
  case each =>
    intro l σ x y named hx hy
    rw [hkept l σ named, hx] at hy
    obtain rfl := Option.some.inj hy
    exact .same

theorem Widens.trans {σ : Schema} {u v w : Json} (h : σ.Widens u v) (g : σ.Widens v w) :
    σ.Widens u w := by
  induction h generalizing w with
  | same => exact g
  | list length each ih =>
    cases g with
    | same => exact .list length each
    | list length' each' =>
      refine .list (length.trans length') fun i x z hx hz => ?_
      have hi : i < _ := length ▸ (List.getElem?_eq_some_iff.mp hx).1
      have hy := List.getElem?_eq_getElem hi
      exact ih i x _ hx hy (each' i _ z hy hz)
  | record known each ih =>
    cases g with
    | same => exact .record known each
    | record known' each' =>
      refine .record (fun k σ named => (known' k σ named).trans (known k σ named)) ?_
      intro k σ x z named hx hz
      obtain ⟨y, hy⟩ := Option.isSome_iff_exists.mp
        ((known k σ named).trans (Option.isSome_of_mem hx))
      exact ih k σ x y named hx hy (each' k σ y z named hy hz)

/-- A record is wider when one of its members is. -/
theorem Widens.member {members : List (String × Schema)} {required : List String} {r : Remarks}
    {ms : Table String Json} {k : String} {σ : Schema} {v w : Json}
    (named : Table.get? members k = some σ) (here : Table.get? ms k = some v)
    (h : σ.Widens v w) :
    Widens (.record members required r) (.obj ms) (.obj (Table.insert ms k w)) := by
  refine .record ?known ?each
  case known =>
    intro l _ _
    unfold Table.has
    rw [Table.get?_insert]
    split
    · rename_i hl
      rw [← hl, here]
      rfl
    · rfl
  case each =>
    intro l τ x y hτ hx hy
    rw [Table.get?_insert] at hy
    split at hy
    · rename_i hl
      subst hl
      obtain rfl := Option.some.inj (named.symm.trans hτ)
      obtain rfl := Option.some.inj (here.symm.trans hx)
      obtain rfl := Option.some.inj hy
      exact h
    · obtain rfl := Option.some.inj (hx.symm.trans hy)
      exact .same

/-! ## §2. Readers that keep to a schema -/

/-- Members that the schema does not name make no difference to the reader. -/
def Keeps {α : Type} (σ : Schema) (read : Json → Option α) : Prop :=
  ∀ v w, σ.Widens v w → read w = read v

/-- A schema of values without records in them. -/
def isPlain : Schema → Bool
  | text _ | choice _ _ | flag _ | integer _ _ | table _ _ => true
  | list item _ => item.isPlain
  | record _ _ _ => false

theorem Widens.eq_of_isPlain {σ : Schema} {v w : Json} (h : σ.Widens v w) :
    σ.isPlain = true → w = v := by
  induction h with
  | same => exact fun _ => rfl
  | list length _ ih =>
    intro plain
    refine congrArg Json.arr (List.ext_getElem length.symm fun i hy hx => ?_)
    exact ih i _ _ (List.getElem?_eq_getElem hx) (List.getElem?_eq_getElem hy) plain
  | record => exact nofun

variable {α : Type} {σ : Schema} {read : Json → Option α}

theorem keeps_of_isPlain (plain : σ.isPlain = true) : σ.Keeps read := by
  intro v w h
  rw [h.eq_of_isPlain plain]

/-- Nothing is wider than `null` but `null`, and it is not wider than anything else. -/
theorem Widens.null_iff {v w : Json} (h : σ.Widens v w) : w = .null ↔ v = .null := by
  cases h with
  | same => exact Iff.rfl
  | list | record => simp only [reduceCtorEq]

theorem keeps_nullable (keeps : σ.Keeps read) : σ.Keeps (Json.nullable read) := by
  intro v w h
  by_cases hv : v = .null
  · rw [h.null_iff.mpr hv, hv]
  · have hw : w ≠ .null := mt h.null_iff.mp hv
    have hread : ∀ u : Json, u ≠ .null → Json.nullable read u = (read u).map some := by
      intro u hu
      cases u with
      | null => exact absurd rfl hu
      | bool | int | double | str | arr | obj => rfl
    rw [hread v hv, hread w hw, keeps v w h]

theorem items?_keeps (keeps : σ.Keeps read) {xs ys : List Json} (length : xs.length = ys.length)
    (each : ∀ (i : Nat) (x y : Json), xs[i]? = some x → ys[i]? = some y → σ.Widens x y) :
    Json.items? read ys = Json.items? read xs := by
  induction xs generalizing ys with
  | nil => rw [List.length_eq_zero_iff.mp length.symm]
  | cons x xs ih =>
    obtain ⟨y, ys, rfl⟩ := List.exists_cons_of_length_eq_add_one length.symm
    have hhead : read y = read x := keeps x y (each 0 x y rfl rfl)
    have hrest : Json.items? read ys = Json.items? read xs :=
      ih (Nat.succ.inj length) fun i => each (i + 1)
    simp only [Json.items?, hhead, hrest]

theorem keeps_list (keeps : σ.Keeps read) (r : Remarks) :
    (list σ r).Keeps (Json.listOf? read) := by
  intro v w h
  cases h with
  | same => rfl
  | list length each => exact items?_keeps keeps length each

/-! ## §3. Readers of records -/

/-- The members of a wider record: those the schema names are as before, or wider. -/
structure Kept (members : List (String × Schema)) (ms ns : Table String Json) : Prop where
  known : ∀ k σ, Table.get? members k = some σ → Table.has ns k = Table.has ms k
  each : ∀ k σ v w, Table.get? members k = some σ → Table.get? ms k = some v →
    Table.get? ns k = some w → σ.Widens v w

/-- A reader of a record keeps to its schema if it does not tell such members apart. -/
theorem keeps_record {members : List (String × Schema)} {required : List String} {r : Remarks}
    (h : ∀ ms ns, Kept members ms ns → read (.obj ns) = read (.obj ms)) :
    (record members required r).Keeps read := by
  intro v w hwider
  cases hwider with
  | same => rfl
  | record known each => exact h _ _ ⟨known, each⟩

section Kept

variable {members : List (String × Schema)} {ms ns : Table String Json} {k : String}

/-- A member that the schema names is read as before. -/
theorem Kept.field (kept : Kept members ms ns) (named : Table.get? members k = some σ)
    (keeps : σ.Keeps read) (absent : Option α) :
    Json.field ns k absent read = Json.field ms k absent read := by
  have hknown := kept.known k σ named
  unfold Table.has at hknown
  unfold Json.field
  cases hm : Table.get? ms k with
  | none =>
    rw [hm] at hknown
    have hn : Table.get? ns k = none :=
      Option.not_isSome_iff_eq_none.mp (Bool.eq_false_iff.mp hknown)
    rw [hn]
  | some v =>
    rw [hm] at hknown
    obtain ⟨w, hw⟩ := Option.isSome_iff_exists.mp hknown
    rw [hw]
    exact keeps v w (kept.each k σ v w named hm hw)

theorem Kept.optional (kept : Kept members ms ns) (named : Table.get? members k = some σ)
    (keeps : σ.Keeps read) : Json.optional ns k read = Json.optional ms k read :=
  kept.field named (keeps_nullable keeps) _

/-- Whether the schema names a member of plain values. -/
def namesPlain (members : List (String × Schema)) (k : String) : Bool :=
  (Table.get? members k).any isPlain

/-- A member of plain values is the same. -/
theorem Kept.plain (kept : Kept members ms ns) (k : String) (named : namesPlain members k = true)
    (absent : Option α) (f : Json → Option α) :
    Json.field ns k absent f = Json.field ms k absent f := by
  obtain ⟨σ, hσ, plain⟩ := (Option.any_eq_true _ _).mp named
  exact kept.field hσ (keeps_of_isPlain plain) absent

theorem Kept.text (kept : Kept members ms ns) (k : String) (named : namesPlain members k = true) :
    Json.textField ns k = Json.textField ms k := kept.plain k named _ _

theorem Kept.number (kept : Kept members ms ns) (k : String)
    (named : namesPlain members k = true) : Json.numberField ns k = Json.numberField ms k :=
  kept.plain k named _ _

theorem Kept.flag (kept : Kept members ms ns) (k : String) (named : namesPlain members k = true) :
    Json.boolField ns k = Json.boolField ms k := kept.plain k named _ _

end Kept

/-! ## §4. Codecs -/

/-- What is written is read back, and so is every value that is wider. -/
def RoundTrips (σ : Schema) (write : α → Json) (read : Json → Option α) : Prop :=
  ∀ x, read (write x) = some x ∧ ∀ v, σ.Widens (write x) v → read v = some x

theorem RoundTrips.of_keeps {write : α → Json} (keeps : σ.Keeps read)
    (back : ∀ x, read (write x) = some x) : σ.RoundTrips write read :=
  fun x => ⟨back x, fun v h => (keeps _ v h).trans (back x)⟩

end Converge.Schema
