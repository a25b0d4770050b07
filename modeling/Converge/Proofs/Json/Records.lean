/-
  Converge.Proofs.Json.Records — written records and lists of them.

  Records are written member by member in key order, some members only now and then, so that
  their keys are among a fixed ascending list.

  Main statements:
    * `ascending_of_keys` — the members of such a record ascend.
    * `forall_memberOf`, `forall_memberIf`, `forall_listMember` — what holds of all members.
    * `orderly_named` — a list of orderly records with distinct names is orderly.
-/
import Converge.Json.Codec
import Converge.Proofs.Json.Orderly

namespace Converge

/-! ## §1. Keys -/

namespace Table

variable {β : Type}

/-- Members whose keys are among an ascending list ascend. -/
theorem ascending_of_keys (ks : List String) {m : Table String β}
    (sub : List.Sublist (keys m) ks) (order : ks.Pairwise (· < ·)) : Ascending m :=
  List.Pairwise.sublist sub order

theorem keys_append_sublist {a b : Table String β} {ka kb : List String}
    (ha : List.Sublist (keys a) ka) (hb : List.Sublist (keys b) kb) :
    List.Sublist (keys (a ++ b)) (ka ++ kb) := by
  unfold keys
  rw [List.map_append]
  exact ha.append hb

end Table

namespace Json

theorem keys_memberIf_sublist (keep : Bool) (k : String) (v : Json) :
    List.Sublist (Table.keys (memberIf keep k v)) [k] := by
  cases keep with
  | true => exact List.Sublist.refl _
  | false => exact List.nil_sublist _

theorem keys_memberOf_sublist {α : Type} (k : String) (f : α → Json) (o : Option α) :
    List.Sublist (Table.keys (memberOf k f o)) [k] := by
  cases o with
  | some v => exact List.Sublist.refl _
  | none => exact List.nil_sublist _

theorem keys_listMember_sublist {α : Type} (k : String) (f : α → Json) (xs : List α) :
    List.Sublist (Table.keys (listMember k f xs)) [k] :=
  keys_memberIf_sublist _ k _

/-! ## §2. Members -/

theorem forall_nil {P : String × Json → Prop} :
    (∀ e ∈ ([] : List (String × Json)), P e) ↔ True := by
  simp

theorem forall_memberIf {P : String × Json → Prop} {keep : Bool} {k : String} {v : Json} :
    (∀ e ∈ memberIf keep k v, P e) ↔ (keep = true → P (k, v)) := by
  cases keep <;> simp [memberIf]

theorem forall_memberOf {α : Type} {P : String × Json → Prop} {k : String} {f : α → Json}
    {o : Option α} : (∀ e ∈ memberOf k f o, P e) ↔ ∀ x, o = some x → P (k, f x) := by
  cases o <;> simp [memberOf]

theorem forall_listMember {α : Type} {P : String × Json → Prop} {k : String} {f : α → Json}
    {xs : List α} :
    (∀ e ∈ listMember k f xs, P e) ↔ (xs ≠ [] → P (k, .arr (xs.map f))) := by
  unfold listMember
  rw [forall_memberIf]
  cases xs <;> simp

@[simp] theorem get?_listMember {α : Type} (k l : String) (f : α → Json) (xs : List α) :
    Table.get? (listMember k f xs) l
      = if xs ≠ [] ∧ k = l then some (.arr (xs.map f)) else none := by
  unfold listMember
  rw [get?_memberIf]
  cases xs <;> simp

@[simp] theorem get?_textMember (k l s : String) :
    Table.get? (textMember k s) l = if s ≠ "" ∧ k = l then some (.str s) else none := by
  unfold textMember
  rw [get?_memberIf]
  simp

/-! ## §3. Orderly records -/

/-- A record is orderly when its members are, and ascend. -/
theorem orderly_record (ks : List String) {ms : Table String Json}
    (sub : List.Sublist (Table.keys ms) ks) (order : ks.Pairwise (· < ·))
    (each : ∀ e ∈ ms, Orderly e.2) : Orderly (.obj ms) :=
  .obj (Table.ascending_of_keys ks sub order) each

theorem orderly_single {k : String} {v : Json} (hv : Orderly v) : Orderly (.obj [(k, v)]) := by
  refine .obj (List.pairwise_singleton _ _) ?_
  intro e he
  rw [List.mem_singleton.mp he]
  exact hv

theorem map_nameOf? {α : Type} {f : α → Json} {name : α → String}
    (named : ∀ x, nameOf? (f x) = some (name x)) (xs : List α) :
    (xs.map f).map nameOf? = (xs.map name).map some := by
  rw [List.map_map, List.map_map]
  exact List.map_congr_left fun x _ => named x

/-- A list of records is laid over entry by entry unless it is empty. -/
theorem isEntryList_map {α : Type} {f : α → Json} (objects : ∀ x, (f x).isObject = true)
    {xs : List α} (some : xs ≠ []) : isEntryList (xs.map f) = true := by
  unfold isEntryList
  rw [Bool.and_eq_true, List.all_eq_true]
  refine ⟨by simpa using some, ?_⟩
  intro v hv
  obtain ⟨x, _, rfl⟩ := List.mem_map.mp hv
  exact objects x

/-- Distinct names are distinct in the wire form. -/
theorem nodup_names {α : Type} {f : α → Json} {name : α → String}
    (named : ∀ x, nameOf? (f x) = some (name x)) {xs : List α} (once : (xs.map name).Nodup) :
    ((xs.map f).map nameOf?).Nodup := by
  rw [map_nameOf? named]
  exact List.Pairwise.map some (fun a b hne heq => hne (Option.some.inj heq)) once

/-- A list of orderly records with distinct names is orderly. -/
theorem orderly_named {α : Type} {f : α → Json} {name : α → String}
    (named : ∀ x, nameOf? (f x) = some (name x)) {xs : List α} (once : (xs.map name).Nodup)
    (each : ∀ x ∈ xs, Orderly (f x)) : Orderly (.arr (xs.map f)) := by
  refine .arr (fun _ => nodup_names named once) ?_
  intro v hv
  obtain ⟨x, hx, rfl⟩ := List.mem_map.mp hv
  exact each x hx

/-- A list of orderly records without names is orderly. -/
theorem orderly_nameless {α : Type} {f : α → Json} (nameless : ∀ x, nameOf? (f x) = none)
    {xs : List α} (each : ∀ x ∈ xs, Orderly (f x)) : Orderly (.arr (xs.map f)) := by
  refine orderly_unnamed ?_ ?_
  · intro v hv
    obtain ⟨x, _, rfl⟩ := List.mem_map.mp hv
    exact nameless x
  · intro v hv
    obtain ⟨x, hx, rfl⟩ := List.mem_map.mp hv
    exact each x hx

end Json

end Converge
