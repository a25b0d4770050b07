/-
  Converge.Proofs.Amend.Spared — what an amendment leaves to other actors.

  Users, the server and other controllers write to the same objects.  Wherever the desired body
  and the data meet, members that the body does not name stay as they are, at any depth, unless
  the tables give them to the controller.

  Main statements:
    * `OrderlyBut.onceAlong` — outside its replaced members a regular body has no member twice.
    * `Amend.part?_data` — replacing and clearing leave what the tables do not own.
    * `RootSpec.amend?_sparesForeign` — what survives when an object is written back.
-/
import Converge.Proofs.Json.Meets
import Converge.Proofs.Children.Proper

namespace Converge

open Json (Step Meets OnceAlong Confined OrderlyBut part?)

/-! ## §1. Members once -/

namespace Json

theorem Orderly.part? {path : List PathStep} {w d : Json} (h : Orderly w)
    (there : Json.part? path w = some d) : Orderly d := by
  induction path generalizing w with
  | nil => exact Option.some.inj there ▸ h
  | cons step path ih =>
    cases step with
    | member k =>
      obtain ⟨y, hy, hd⟩ := exists_of_part?_member there
      obtain ⟨ws, rfl⟩ := exists_obj_of_get? hy
      cases h with
      | obj _ each => exact ih (each (k, y) (Table.mem_of_get? hy)) hd
    | index i =>
      obtain ⟨ws, y, rfl, hy, hd⟩ := exists_of_part?_index there
      cases h with
      | arr _ each => exact ih (each y (List.mem_of_getElem? hy)) hd

theorem Orderly.nodup_part? {path : List PathStep} {w : Json} {ms : Table String Json}
    (h : Orderly w) (there : Json.part? path w = some (.obj ms)) : (Table.keys ms).Nodup := by
  cases h.part? there with
  | obj order _ => exact order.nodup

theorem OrderlyBut.nodup_part? {keys : List String} {walk : List Step} {w : Json}
    (h : OrderlyBut keys walk w) {path : List PathStep} {ms : Table String Json}
    (there : Json.part? path w = some (.obj ms))
    (apart : ∀ key ∈ keys, ¬ walk ++ [.member key] <+: path.map PathStep.shape) :
    (Table.keys ms).Nodup := by
  -- by induction on the walk: the path goes with it, or leads into something orderly
  induction h generalizing path with
  | @here ws order each =>
    cases path with
    | nil => cases there; exact order.nodup
    | cons step path =>
      cases step with
      | member k =>
        obtain ⟨y, hy, hd⟩ := exists_of_part?_member there
        refine (each (k, y) (Table.mem_of_get? hy) fun hk => apart k hk ?_).nodup_part? hd
        exact List.cons_prefix_cons.mpr ⟨rfl, List.nil_prefix⟩
      | index i => cases there
  | @member k walk ws order inner each ih =>
    cases path with
    | nil => cases there; exact order.nodup
    | cons step path =>
      cases step with
      | member l =>
        obtain ⟨y, hy, hd⟩ := exists_of_part?_member there
        by_cases hlk : l = k
        · subst hlk
          exact ih y hy hd fun key hkey below =>
            apart key hkey (List.cons_prefix_cons.mpr ⟨rfl, below⟩)
        · exact (each (l, y) (Table.mem_of_get? hy) hlk).nodup_part? hd
      | index i => cases there
  | @entries walk ws entries names each ih =>
    cases path with
    | nil => cases there
    | cons step path =>
      cases step with
      | member l => cases there
      | index i =>
        obtain ⟨zs, y, hzs, hy, hd⟩ := exists_of_part?_index there
        cases hzs
        exact ih y (List.mem_of_getElem? hy) hd fun key hkey below =>
          apart key hkey (List.cons_prefix_cons.mpr ⟨rfl, below⟩)

/-- Outside its replaced members the value has no member twice. -/
theorem OrderlyBut.onceAlong {keys : List String} {walk : List Step} {w : Json}
    (h : OrderlyBut keys walk w) {path : List PathStep}
    (apart : ∀ key ∈ keys, ¬ walk ++ [.member key] <+: path.map PathStep.shape) :
    OnceAlong path w := by
  intro p ms hp there
  exact h.nodup_part? there fun key hkey below =>
    apart key hkey (below.trans (hp.map PathStep.shape))

end Json

namespace Amend

/-! ## §2. What the tables own -/

/-- The tables of replaced and cleared members give the controller what is at the path, or above
    it. -/
def Owns (kind : Kind) (path : List Step) : Prop :=
  ∃ row ∈ replaced ++ cleared, row.kind = kind ∧
    ∃ key ∈ row.keys, row.parent ++ [.member key] <+: path

instance (kind : Kind) (path : List Step) : Decidable (Owns kind path) :=
  inferInstanceAs (Decidable (∃ row ∈ replaced ++ cleared, row.kind = kind ∧
    ∃ key ∈ row.keys, row.parent ++ [.member key] <+: path))

theorem owns_of_replacedRow {kind : Kind} {path : List Step} {key : String}
    (hkey : key ∈ (replacedRow kind).keys)
    (below : (replacedRow kind).parent ++ [.member key] <+: path) : Owns kind path := by
  rcases replacedRow_cases kind with ⟨hin, hk⟩ | hrow
  · exact ⟨_, List.mem_append_left _ hin, hk, key, hkey, below⟩
  · rw [hrow] at hkey
    exact absurd hkey List.not_mem_nil

theorem owns_of_clearedRows {kind : Kind} {path : List Step} {row : OwnedMembers}
    (hrow : row ∈ clearedRows kind) {key : String} (hkey : key ∈ row.keys)
    (below : row.parent ++ [.member key] <+: path) : Owns kind path := by
  obtain ⟨hin, hk⟩ := List.mem_filter.mp hrow
  exact ⟨row, List.mem_append_right _ hin, by simpa using hk, key, hkey, below⟩

theorem confined_replaceMembers (keys : List String) : Confined keys (replaceMembers keys) where
  members := by
    intro c d k hk
    cases c with
    | obj ms =>
      obtain ⟨ns, hns, hget⟩ := exists_replaceMembers keys d ms
      rw [hns]
      show Table.get? ns k = Table.get? ms k
      rw [hget, if_neg hk]
    | null | bool _ | int _ | double _ | str _ | arr _ => rw [replaceMembers_of_not_object rfl]
  lists := fun _ d => replaceMembers_of_not_object rfl keys d

theorem confined_clearMembers (keys : List String) : Confined keys (clearMembers keys) where
  members := by
    intro c d k hk
    rw [get?_clearMembers, if_neg fun h => hk h.1]
  lists := fun _ _ => clearMembers_fixed fun _ _ _ => rfl

/-! ## §3. The data -/

variable {kind : Kind} {b : Body} {path : List PathStep} {cur want a d y : Json} {k : String}

theorem part?_clearRows {rows : List OwnedMembers} (here : part? path cur = some a)
    (unnamed : ∀ d, part? path want = some d → d.get? k = none)
    (apart : ∀ row ∈ rows, ∀ key ∈ row.keys,
      ¬ row.parent ++ [.member key] <+: path.map PathStep.shape ++ [.member k]) :
    ∃ z, part? path (clearRows rows cur want) = some z ∧ z.get? k = a.get? k := by
  induction rows generalizing cur a with
  | nil => exact ⟨a, here, rfl⟩
  | cons row rows ih =>
    obtain ⟨x, hx, hxa⟩ := (confined_clearMembers row.keys).part?_zipAlong here unnamed
      (apart row List.mem_cons_self)
    obtain ⟨z, hz, hzx⟩ := ih hx fun r hr => apart r (List.mem_cons_of_mem _ hr)
    exact ⟨z, hz, hzx.trans hxa⟩

/-- After laying over, replacing and clearing leave what the tables do not own. -/
theorem part?_data (laid : part? path (Json.overlay (start cur) b.wanted).1 = some y)
    (unnamed : ∀ d, part? path b.wanted = some d → d.get? k = none)
    (apart : ¬ Owns b.kind (path.map PathStep.shape ++ [.member k])) :
    ∃ z, part? path (data b.kind b.toJson cur) = some z ∧ z.get? k = y.get? k := by
  -- the two passes one after the other, each confined to what the tables own
  obtain ⟨x, hx, hxy⟩ := (confined_replaceMembers (replacedRow b.kind).keys).part?_zipAlong laid
    unnamed fun key hkey below => apart (owns_of_replacedRow hkey below)
  obtain ⟨z, hz, hzx⟩ := part?_clearRows hx unnamed fun row hrow key hkey below =>
    apart (owns_of_clearedRows hrow hkey below)
  rw [data_eq]
  exact ⟨z, hz, hzx.trans hxy⟩

theorem onceAlong_wanted (hb : b.Regular)
    (apart : ¬ Owns b.kind (path.map PathStep.shape ++ [.member k])) :
    OnceAlong path b.wanted :=
  OrderlyBut.onceAlong hb fun _ hkey below =>
    apart (owns_of_replacedRow hkey (below.trans (List.prefix_append _ _)))

/-- Where data and what is wanted meet, members that are not wanted stay. -/
theorem part?_data_of_meets (hb : b.Regular) (meets : Meets path (start cur) b.wanted a d)
    (object : d.isObject = true) (unnamed : d.get? k = none)
    (apart : ¬ Owns b.kind (path.map PathStep.shape ++ [.member k])) :
    ∃ z, part? path (data b.kind b.toJson cur) = some z ∧ z.get? k = a.get? k := by
  have once : OnceAlong path b.wanted := onceAlong_wanted hb apart
  have hlast : OnceAlong [] d := by
    intro p ms hp hms
    obtain rfl := List.prefix_nil.mp hp
    refine once path ms List.prefix_rfl (meets.part?.trans hms)
  obtain ⟨z, hz, hza⟩ := part?_data (meets.part?_overlay once)
    (fun e he => Option.some.inj (meets.part?.symm.trans he) ▸ unnamed) apart
  exact ⟨z, hz, hza.trans (Json.get?_overlay hlast object unnamed a)⟩

/-- The body of a child does not reach the status of an object. -/
theorem data_status (hb : b.Regular) (cur : Json) :
    (data b.kind b.toJson cur).get? "status" = cur.get? "status" := by
  have hstart : (start cur).get? "status" = cur.get? "status" := by
    cases cur <;> rfl
  have hfree : ¬ Owns b.kind [.member "status"] := by
    cases b.kind <;> decide
  have hunnamed : b.wanted.get? "status" = none := by
    cases b <;> rfl
  obtain ⟨z, hz, hsame⟩ :=
    part?_data_of_meets hb (.here (start cur) b.wanted) b.isObject_wanted hunnamed hfree
  rw [Option.some.inj hz, hsame, hstart]

/-! ## §4. What is never changed -/

/-- What is wanted is the body, or the body without a member that is never changed. -/
theorem wanted_cases (b : Body) : b.wanted = b.toJson ∨
    ∃ names, (b.kind, names) ∈ immutable ∧ b.wanted = Json.dropAlong names b.toJson := by
  cases b with
  | deployment d => exact .inr ⟨["spec", "selector"], List.mem_cons_self, rfl⟩
  | roleBinding r =>
    exact .inr ⟨["roleRef"], List.mem_cons_of_mem _ List.mem_cons_self, rfl⟩
  | serviceAccount | role | configMap | service | gateway | httpRoute | referenceGrant
  | destinationRule => exact .inl rfl

/-- What is never changed is neither replaced nor cleared. -/
theorem not_owns_immutable : ∀ row ∈ immutable, ¬ Owns row.1 (row.2.map Step.member) := by
  decide

/-- A member that is never changed is missing in an object of what is wanted. -/
theorem exists_parent_of_immutable {names : List String} (h : (b.kind, names) ∈ immutable) :
    ∃ parent last d, names = parent ++ [last] ∧
      part? (parent.map .member) b.wanted = some d ∧ d.isObject = true ∧
      d.get? last = none := by
  cases b with
  | deployment d =>
    obtain rfl : names = ["spec", "selector"] := by simpa [immutable, Body.kind] using h
    exact ⟨["spec"], "selector", _, rfl, rfl, rfl, rfl⟩
  | roleBinding r =>
    obtain rfl : names = ["roleRef"] := by simpa [immutable, Body.kind] using h
    exact ⟨[], "roleRef", _, rfl, rfl, rfl, rfl⟩
  | serviceAccount | role | configMap | service | gateway | httpRoute | referenceGrant
  | destinationRule => exact absurd h (by simp [immutable, Body.kind])

/-- What the body has where nothing is ever changed has no lists in it. -/
theorem noLists_immutable {names : List String} (h : (b.kind, names) ∈ immutable)
    (there : part? (names.map .member) b.toJson = some y) : Json.NoLists y := by
  cases b with
  | deployment d =>
    obtain rfl : names = ["spec", "selector"] := by simpa [immutable, Body.kind] using h
    obtain rfl := Option.some.inj there
    refine Json.noLists_obj ?_
    simp only [List.forall_mem_singleton]
    exact Json.noLists_ofTexts d.selector
  | roleBinding r =>
    obtain rfl : names = ["roleRef"] := by simpa [immutable, Body.kind] using h
    obtain rfl := Option.some.inj there
    refine Json.noLists_obj ?_
    simp only [List.forall_mem_cons, Json.forall_nil, and_true]
    exact ⟨Json.noLists_str _, Json.noLists_str _, Json.noLists_str _⟩
  | serviceAccount | role | configMap | service | gateway | httpRoute | referenceGrant
  | destinationRule => exact absurd h (by simp [immutable, Body.kind])

/-- What is never changed is as before, or missing as before. -/
theorem part?_data_immutable (hb : b.Regular) {names : List String}
    (h : (b.kind, names) ∈ immutable) (cur : Json) :
    part? (names.map .member) (data b.kind b.toJson cur)
      = part? (names.map .member) (start cur) := by
  have hfree := not_owns_immutable _ h
  obtain ⟨parent, last, d, rfl, hd, object, hlast⟩ := exists_parent_of_immutable h
  have apart : ¬ Owns b.kind
      ((parent.map PathStep.member).map PathStep.shape ++ [.member last]) := by
    rw [List.map_append] at hfree
    rw [List.map_map]
    exact hfree
  obtain ⟨y, hy, hunnamed⟩ :=
    Json.exists_part?_overlay hd object (onceAlong_wanted hb apart) (start cur)
  obtain ⟨z, hz, hsame⟩ :=
    part?_data hy (fun e he => Option.some.inj (hd.symm.trans he) ▸ hlast) apart
  rw [List.map_append, Json.part?_append, Json.part?_append, hz]
  show (z.get? last).bind (part? []) = _
  rw [hsame, hunnamed last hlast]
  cases part? (parent.map .member) (start cur) with
  | none => rfl
  | some x => rfl

/-- Where data and the body meet, members that the body does not name stay. -/
theorem part?_data_of_body (hb : b.Regular) (data : cur.isObject = true)
    (meets : Meets path cur b.toJson a d) (object : d.isObject = true)
    (unnamed : d.get? k = none)
    (apart : ¬ Owns b.kind (path.map PathStep.shape ++ [.member k])) :
    ∃ z, part? path (Amend.data b.kind b.toJson cur) = some z ∧ z.get? k = a.get? k := by
  have hstart : start cur = cur := if_pos data
  rcases wanted_cases b with hw | ⟨names, hrow, hw⟩
  · refine part?_data_of_meets hb ?_ object unnamed apart
    rw [hstart, hw]
    exact meets
  · by_cases below : names.map PathStep.member <+: path
    · -- nothing is changed here, and nothing has moved
      obtain ⟨rest, rfl⟩ := below
      obtain ⟨x, y, hx, hy, hmeets⟩ := meets.of_members
      refine ⟨a, ?_, rfl⟩
      rw [Json.part?_append, part?_data_immutable hb hrow, hstart, hx]
      exact hmeets.part?_of_noLists (noLists_immutable hrow hy)
    · obtain ⟨e, he, hobject, hnames⟩ := meets.exists_dropAlong below
      refine part?_data_of_meets hb ?_ (hobject.trans object) (hnames k unnamed) apart
      rw [hstart, hw]
      exact he

end Amend

/-! ## §5. What survives -/

/-- What other actors wrote survives: the type, all metadata but managed labels, what is never
    changed, the status, and wherever the body and the data meet the members that the body does
    not name and the tables do not own. -/
structure Child.SparesForeign (c : Child) (cur next : Object) : Prop where
  types : next.types = cur.types
  metadata : { next.metadata with labels := cur.metadata.labels } = cur.metadata
  labels : ∀ k, Table.get? c.managedLabels k = none →
    Table.get? (next.metadata.labels.getD []) k = Table.get? (cur.metadata.labels.getD []) k
  immutable : ∀ names, (c.body.kind, names) ∈ Amend.immutable →
    part? (names.map .member) next.data = part? (names.map .member) cur.data
  status : next.data.get? "status" = cur.data.get? "status"
  members : ∀ path a d k, Meets path cur.data c.body.toJson a d → d.isObject = true →
    d.get? k = none → ¬ Amend.Owns c.body.kind (path.map PathStep.shape ++ [.member k]) →
    ∃ b, part? path next.data = some b ∧ b.get? k = a.get? k

/-- When a child of any spec is written over an object, what other actors wrote survives. -/
theorem RootSpec.amend?_sparesForeign (root : Root) (caps : Capabilities) (s : RootSpec)
    {c : Child} (hc : c ∈ s.children root caps) {cur next : Object}
    (data : cur.data.isObject = true) (hnext : c.amend? cur = some next) :
    c.SparesForeign cur next := by
  have hproper := s.children_proper root caps c hc
  have hb := hproper.body.regular
  have hstart : Amend.start cur.data = cur.data := if_pos data
  rw [Child.amend?_some hnext]
  refine ⟨rfl, rfl, ?labels, ?immutable, Amend.data_status hb cur.data, ?members⟩
  case labels =>
    intro k hk
    show Table.get? (Amend.labels c.managedLabels (cur.metadata.labels.getD [])).1 k = _
    rw [Amend.get?_labels hproper.managed.nodup, hk, Option.none_or]
  case immutable =>
    intro names h
    exact (Amend.part?_data_immutable hb h cur.data).trans (by rw [hstart])
  case members =>
    intro path a d k meets object unnamed apart
    exact Amend.part?_data_of_body hb data meets object unnamed apart

/-- A workload that others have written to: labels, a flag of the deployment, one of its
    container, a container before it, and the status. -/
def sharedWorkload : Object where
  metadata := { name := some "sim", labels := some [("team", "edge")], generation := some 4 }
  data := .obj [
    ("spec", .obj [
      ("paused", .bool true),
      ("selector", .obj [("matchLabels", .obj [("app", .str "old")])]),
      ("template", .obj [("spec", .obj [("containers", .arr [
        .obj [("name", .str "sidecar")],
        .obj [("name", .str "decode"), ("tty", .bool true)]])])])]),
    ("status", .obj [("replicas", .int 3)])]

/-- Where the container of the workload is to be. -/
def workloadContainer : List PathStep :=
  [.member "spec", .member "template", .member "spec", .member "containers", .index 0]

theorem amend?_sparesForeign_sharedWorkload :
    ∃ c next, c ∈ (repeatedClaims.withDefaults "sim" "default").children repeatedClaimsRoot {} ∧
      c.amend? sharedWorkload = some next ∧ c.SparesForeign sharedWorkload next ∧
      (part? workloadContainer next.data).bind (·.get? "tty") = some (.bool true) := by
  let s := repeatedClaims.withDefaults "sim" "default"
  let c := (s.children repeatedClaimsRoot {}).headD default
  have hc : c ∈ s.children repeatedClaimsRoot {} := List.mem_cons_self
  cases hnext : c.amend? sharedWorkload with
  | none => exact absurd hnext (by decide +kernel)
  | some next =>
    have hspared := RootSpec.amend?_sparesForeign repeatedClaimsRoot {} s hc rfl hnext
    refine ⟨c, next, hc, hnext, hspared, ?_⟩
    -- the container meets the second one of the data, which has its name
    obtain ⟨b, hb, hsame⟩ := hspared.members workloadContainer
      (.obj [("name", .str "decode"), ("tty", .bool true)]) _ "tty"
      (.member rfl rfl (.member rfl rfl (.member rfl rfl (.member rfl rfl
        (.named rfl rfl rfl rfl (.here _ _)))))) rfl rfl (by decide +kernel)
    rw [hb]
    exact hsame

end Converge
