/-
  Converge.Proofs.Json.Meets — parts that meet, and what is left of them.

  Laying a value over another leads, member by member and entry by entry, to parts that meet.
  The outcome has the desired entries, so that a part is found where its desired counterpart
  stands.  A walk changes members at the end of its path only.

  Main statements:
    * `Meets.part?_overlay` — where two parts meet, the outcome has one laid over the other.
    * `get?_overlay` — what the desired value does not name is left in place.
    * `Confined.part?_zipAlong` — a walk leaves what is not at the end of its path.
-/
import Converge.Object.Edit
import Converge.Proofs.Json.Along

namespace Converge

/-- The step of a walk that this step of a path is a case of. -/
def PathStep.shape : PathStep → Json.Step
  | .member k => .member k
  | .index _ => .entries

namespace Json

variable {path : List PathStep} {v w x y a d : Json} {xs ws : List Json} {k : String} {i : Nat}

/-! ## §1. Parts -/

/-- The part of a value at the end of a path. -/
def part? : List PathStep → Json → Option Json
  | [], v => some v
  | .member k :: path, v => (v.get? k).bind (part? path)
  | .index i :: path, v => match v with
    | .arr xs => xs[i]?.bind (part? path)
    | _ => none

theorem part?_member (hx : v.get? k = some x) : part? (.member k :: path) v = part? path x := by
  rw [part?, hx, Option.bind_some]

theorem part?_index (hx : xs[i]? = some x) :
    part? (.index i :: path) (.arr xs) = part? path x := by
  rw [part?]
  simp only [hx, Option.bind_some]

theorem exists_of_part?_member (h : part? (.member k :: path) v = some a) :
    ∃ x, v.get? k = some x ∧ part? path x = some a :=
  Option.bind_eq_some_iff.mp h

theorem exists_of_part?_index (h : part? (.index i :: path) v = some a) :
    ∃ xs x, v = .arr xs ∧ xs[i]? = some x ∧ part? path x = some a := by
  cases v with
  | arr xs =>
    obtain ⟨x, hx, ha⟩ := Option.bind_eq_some_iff.mp h
    exact ⟨xs, x, rfl, hx, ha⟩
  | null | bool _ | int _ | double _ | str _ | obj _ => cases h

/-- Every object on the path has each of its members once. -/
def OnceAlong (path : List PathStep) (w : Json) : Prop :=
  ∀ p ms, p <+: path → part? p w = some (.obj ms) → (Table.keys ms).Nodup

theorem OnceAlong.head {ms : Table String Json} (h : OnceAlong path (.obj ms)) :
    (Table.keys ms).Nodup :=
  h [] ms List.nil_prefix rfl

theorem OnceAlong.member (h : OnceAlong (.member k :: path) w) (hy : w.get? k = some y) :
    OnceAlong path y := by
  intro p ms hp hms
  refine h (.member k :: p) ms (List.cons_prefix_cons.mpr ⟨rfl, hp⟩) ?_
  rw [part?_member hy]
  exact hms

theorem OnceAlong.index (h : OnceAlong (.index i :: path) (.arr ws)) (hy : ws[i]? = some y) :
    OnceAlong path y := by
  intro p ms hp hms
  refine h (.index i :: p) ms (List.cons_prefix_cons.mpr ⟨rfl, hp⟩) ?_
  rw [part?_index hy]
  exact hms

/-! ## §2. Parts that meet -/

/-- `Meets path v w a d`: when `w` is laid over `v`, the part `a` of `v` and the part `d` of `w`
    meet, and the path leads to where they are in the outcome.  Entries meet the first current
    one with their name when all desired ones have names, and otherwise the one at their
    position. -/
inductive Meets : List PathStep → Json → Json → Json → Json → Prop
  | here (a d : Json) : Meets [] a d a d
  | member {k : String} {path : List PathStep} {v w x y a d : Json} (hx : v.get? k = some x)
      (hy : w.get? k = some y) (rest : Meets path x y a d) : Meets (.member k :: path) v w a d
  | named {i : Nat} {path : List PathStep} {xs ws : List Json} {x y a d : Json}
      (entries : isEntryList ws = true) (named : allNamed ws = true) (hy : ws[i]? = some y)
      (hx : xs.find? (fun c => nameOf? c == nameOf? y) = some x) (rest : Meets path x y a d) :
      Meets (.index i :: path) (.arr xs) (.arr ws) a d
  | placed {i : Nat} {path : List PathStep} {xs ws : List Json} {x y a d : Json}
      (entries : isEntryList ws = true) (unnamed : allNamed ws = false) (hy : ws[i]? = some y)
      (hx : xs[i]? = some x) (rest : Meets path x y a d) :
      Meets (.index i :: path) (.arr xs) (.arr ws) a d

/-- The path leads to the desired part. -/
theorem Meets.part? (h : Meets path v w a d) : part? path w = some d := by
  induction h with
  | here => rfl
  | member _ hy _ ih => rw [part?_member hy]; exact ih
  | named _ _ hy _ _ ih => rw [part?_index hy]; exact ih
  | placed _ _ hy _ _ ih => rw [part?_index hy]; exact ih

/-- The first entry with the name of a desired one is its partner. -/
theorem beneath_of_find? (hx : xs.find? (fun c => nameOf? c == nameOf? y) = some x) :
    beneath xs true i y = x := by
  obtain ⟨hname, p, hp, rfl, hfirst⟩ := List.find?_eq_some_iff_getElem.mp hx
  have hpart : partner? xs true i y = some p := by
    unfold partner?
    rw [if_pos rfl, List.findIdx?_eq_some_iff_getElem]
    refine ⟨hp, hname, fun j hj => ?_⟩
    simpa using hfirst j hj
  unfold beneath
  rw [hpart]
  exact (List.getElem_eq_getD Json.null).symm

/-- Without names the partner is the entry at the position. -/
theorem beneath_of_getElem? (hx : xs[i]? = some x) : beneath xs false i y = x := by
  have hi : i < xs.length := (List.getElem?_eq_some_iff.mp hx).1
  have hpart : partner? xs false i y = some i := by
    unfold partner?
    rw [if_neg (by decide), if_pos hi]
  unfold beneath
  rw [hpart]
  show xs.getD i .null = x
  rw [List.getD_eq_getElem?_getD, hx, Option.getD_some]

/-- Where two parts meet, the outcome has one laid over the other. -/
theorem Meets.part?_overlay (h : Meets path v w a d) (once : OnceAlong path w) :
    Json.part? path (overlay v w).1 = some (overlay a d).1 := by
  -- by induction on the way; a partner lands at the place of its desired entry
  induction h with
  | here => rfl
  | @member k path v w x y a d hx hy rest ih =>
    obtain ⟨ws, rfl⟩ := exists_obj_of_get? hy
    have hlaid : (overlay v (.obj ws)).1.get? k = some (overlay x y).1 := by
      rw [get?_overlay_obj once.head, show Table.get? ws k = some y from hy, hx]
      rfl
    rw [part?_member hlaid]
    exact ih (once.member hy)
  | @named i path xs ws x y a d entries named hy hx rest ih =>
    have hlaid : (overlayItems xs (allNamed ws) 0 ws).1[i]? = some (overlay x y).1 := by
      rw [getElem?_overlayItems, hy, named, Option.map_some, beneath_of_find? hx]
    rw [overlay_entries xs entries, part?_index hlaid]
    exact ih (once.index hy)
  | @placed i path xs ws x y a d entries unnamed hy hx rest ih =>
    have hlaid : (overlayItems xs (allNamed ws) 0 ws).1[i]? = some (overlay x y).1 := by
      rw [getElem?_overlayItems, hy, unnamed, Option.map_some, Nat.zero_add,
        beneath_of_getElem? hx]
    rw [overlay_entries xs entries, part?_index hlaid]
    exact ih (once.index hy)

/-- What the desired object does not name is left in place, and nothing comes under its name. -/
theorem get?_overlay (once : OnceAlong [] d) (object : d.isObject = true)
    (unnamed : d.get? k = none) (a : Json) : (overlay a d).1.get? k = a.get? k := by
  obtain ⟨ws, rfl⟩ := exists_obj_of_isObject object
  have hnone : Table.get? ws k = none := unnamed
  rw [get?_overlay_obj once.head, hnone]

/-- Down a path of members the outcome has the desired objects; the members that these do not
    name are as before, or missing as before. -/
theorem exists_part?_overlay {names : List String}
    (there : Json.part? (names.map .member) w = some d) (object : d.isObject = true)
    (once : OnceAlong (names.map .member) w) (v : Json) :
    ∃ y, Json.part? (names.map .member) (overlay v w).1 = some y ∧
      ∀ k, d.get? k = none →
        y.get? k = (Json.part? (names.map .member) v).bind (·.get? k) := by
  induction names generalizing v w with
  | nil =>
    obtain rfl := Option.some.inj there
    exact ⟨_, rfl, fun k hk => get?_overlay once object hk v⟩
  | cons name names ih =>
    obtain ⟨y, hy, hd⟩ := exists_of_part?_member there
    obtain ⟨ws, rfl⟩ := exists_obj_of_get? hy
    have hlaid : (overlay v (.obj ws)).1.get? name = some (laid (v.get? name) y) := by
      rw [get?_overlay_obj once.head, show Table.get? ws name = some y from hy]
    rw [List.map_cons, part?_member hlaid]
    cases hx : v.get? name with
    | some x =>
      rw [part?_member hx]
      exact ih hd (once.member hy) x
    | none =>
      -- what was missing is written as desired, so that nothing else is in it
      refine ⟨d, hd, fun k hk => ?_⟩
      rw [hk, part?, hx]
      rfl

/-! ## §3. What a walk leaves -/

/-- A step that changes these members of objects, and nothing else. -/
structure Confined (keys : List String) (f : Json → Json → Json) : Prop where
  members : ∀ c d k, k ∉ keys → (f c d).get? k = c.get? k
  lists : ∀ xs d, f (.arr xs) d = .arr xs

variable {keys : List String} {f : Json → Json → Json}

/-- A walk that does not lead to a member, nor ends beside it, leaves it. -/
theorem Confined.get?_zipAlong (hf : Confined keys f) {walk : List Step} (v : Json)
    (beside : walk = [] → k ∉ keys) (away : walk.head? = some (.member k) → w.get? k = none) :
    (zipAlong f walk v w).get? k = v.get? k := by
  cases walk with
  | nil =>
    rw [zipAlong_nil]
    exact hf.members v w k (beside rfl)
  | cons step walk =>
    cases step with
    | member m =>
      cases hx : v.get? m with
      | none => rw [zipAlong_member_left hx]
      | some x =>
        cases hy : w.get? m with
        | none => rw [zipAlong_member_right hy]
        | some y =>
          have hne : m ≠ k := by
            rintro rfl
            exact absurd ((away rfl).symm.trans hy) nofun
          rw [zipAlong_member hx hy, get?_setMember, if_neg hne]
    | entries =>
      by_cases hv : ∃ xs, v = .arr xs
      · by_cases hw : ∃ ws, w = .arr ws
        · obtain ⟨xs, rfl⟩ := hv
          obtain ⟨ws, rfl⟩ := hw
          rw [zipAlong_entries]
          rfl
        · rw [zipAlong_entries_right fun ws h => hw ⟨ws, h⟩]
      · rw [zipAlong_entries_left fun xs h => hv ⟨xs, h⟩]

/-- A walk leaves an entry, or it goes on from there. -/
theorem Confined.getElem?_zipAlong (hf : Confined keys f) (walk : List Step) (xs : List Json)
    (w : Json) (i : Nat) : ∃ zs, zipAlong f walk (.arr xs) w = .arr zs ∧ (zs[i]? = xs[i]? ∨
      ∃ rest ws y, walk = .entries :: rest ∧ w = .arr ws ∧ ws[i]? = some y ∧
        zs[i]? = xs[i]?.map (zipAlong f rest · y)) := by
  cases walk with
  | nil => exact ⟨xs, (zipAlong_nil _ w).trans (hf.lists xs w), .inl rfl⟩
  | cons step rest =>
    cases step with
    | member m => exact ⟨xs, zipAlong_member_left rfl, .inl rfl⟩
    | entries =>
      by_cases hw : ∃ ws, w = .arr ws
      · obtain ⟨ws, rfl⟩ := hw
        refine ⟨_, zipAlong_entries rest xs ws, ?_⟩
        cases hy : ws[i]? with
        | none => exact .inl (getElem?_zipWith_append_drop_of_none hy)
        | some y => exact .inr ⟨rest, ws, y, rfl, rfl, hy, getElem?_zipWith_append_drop hy⟩
      · exact ⟨xs, zipAlong_entries_right fun ws h => hw ⟨ws, h⟩, .inl rfl⟩

/-- A walk leaves a member that is neither at nor below the end of its path, in a part whose
    counterpart does not name it. -/
theorem Confined.part?_zipAlong (hf : Confined keys f) {walk : List Step}
    (here : Json.part? path v = some a)
    (unnamed : ∀ d, Json.part? path w = some d → d.get? k = none)
    (apart : ∀ key ∈ keys, ¬ walk ++ [.member key] <+: path.map PathStep.shape ++ [.member k]) :
    ∃ b, Json.part? path (zipAlong f walk v w) = some b ∧ b.get? k = a.get? k := by
  -- by induction on the path, which the walk follows until it turns away or ends
  induction path generalizing walk v w with
  | nil =>
    obtain rfl := Option.some.inj here
    refine ⟨_, rfl, hf.get?_zipAlong v ?_ fun _ => unnamed w rfl⟩
    rintro rfl hk
    exact apart k hk List.prefix_rfl
  | cons step path ih =>
    cases step with
    | member l =>
      obtain ⟨x, hx, ha⟩ := exists_of_part?_member here
      by_cases hon : walk.head? = some (.member l) ∧ ∃ y, w.get? l = some y
      · obtain ⟨hhead, y, hy⟩ := hon
        obtain ⟨rest, rfl⟩ := List.head?_eq_some_iff.mp hhead
        obtain ⟨b, hb, hsame⟩ := ih ha (fun d hd => unnamed d ((part?_member hy).trans hd))
          fun key hkey below => apart key hkey (List.cons_prefix_cons.mpr ⟨rfl, below⟩)
        refine ⟨b, ?_, hsame⟩
        rw [zipAlong_member hx hy, part?_member ((get?_setMember v l l _).trans (if_pos rfl))]
        exact hb
      · have hl : (zipAlong f walk v w).get? l = v.get? l := by
          refine hf.get?_zipAlong v ?_ fun hhead => ?_
          · rintro rfl hl
            exact apart l hl (List.cons_prefix_cons.mpr ⟨rfl, List.nil_prefix⟩)
          · exact Option.eq_none_iff_forall_ne_some.mpr fun y hy => hon ⟨hhead, y, hy⟩
        exact ⟨a, (part?_member (hl.trans hx)).trans ha, rfl⟩
    | index i =>
      -- a position of the path is one of the entries that the walk goes through
      obtain ⟨xs, x, rfl, hx, ha⟩ := exists_of_part?_index here
      obtain ⟨zs, hzs, hi | ⟨rest, ws, y, rfl, rfl, hy, hi⟩⟩ := hf.getElem?_zipAlong walk xs w i
      · exact ⟨a, by rw [hzs, part?_index (hi.trans hx), ha], rfl⟩
      · obtain ⟨b, hb, hsame⟩ := ih ha (fun d hd => unnamed d ((part?_index hy).trans hd))
          fun key hkey below => apart key hkey (List.cons_prefix_cons.mpr ⟨rfl, below⟩)
        refine ⟨b, ?_, hsame⟩
        rw [hx, Option.map_some] at hi
        rw [hzs, part?_index hi]
        exact hb

/-! ## §4. Without the member at the end of a path -/

theorem get?_mapMember (f : Json → Json) (v : Json) (k l : String) :
    (v.mapMember f k).get? l = if k = l then (v.get? l).map f else v.get? l := by
  cases v with
  | obj ms =>
    cases hx : Table.get? ms k with
    | none =>
      rw [mapMember_of_get?_none hx]
      by_cases hkl : k = l
      · subst hkl
        rw [if_pos rfl, show (Json.obj ms).get? k = none from hx]
        rfl
      · rw [if_neg hkl]
    | some x =>
      rw [mapMember_of_get? hx]
      show Table.get? (Table.insert ms k (f x)) l = _
      rw [Table.get?_insert]
      by_cases hkl : k = l
      · subst hkl
        rw [if_pos rfl, if_pos rfl, show (Json.obj ms).get? k = some x from hx]
        rfl
      · rw [if_neg hkl, if_neg hkl]
        rfl
  | null | bool _ | int _ | double _ | str _ | arr _ =>
    show none = if k = l then none else none
    rw [ite_self]

theorem dropAlong_arr (names : List String) (xs : List Json) :
    dropAlong names (.arr xs) = .arr xs := by
  match names with
  | [] | [_] | _ :: _ :: _ => rfl

theorem isObject_dropAlong (names : List String) (v : Json) :
    (dropAlong names v).isObject = v.isObject := by
  match names with
  | [] => rfl
  | [name] => exact isObject_dropMember v name
  | name :: next :: names =>
    show (v.mapMember (dropAlong (next :: names)) name).isObject = v.isObject
    cases v with
    | obj ms =>
      cases hx : Table.get? ms name with
      | none => rw [mapMember_of_get?_none hx]
      | some x => rw [mapMember_of_get? hx]; rfl
    | null | bool _ | int _ | double _ | str _ | arr _ => rfl

theorem get?_dropAlong (name : String) (names : List String) (v : Json) (k : String) :
    (dropAlong (name :: names) v).get? k = if name = k then
      if names = [] then none else (v.get? k).map (dropAlong names) else v.get? k := by
  cases names with
  | nil => exact get?_dropMember v name k
  | cons next names =>
    rw [if_neg (List.cons_ne_nil next names)]
    exact get?_mapMember _ v name k

/-- Parts that are not at the end of a path, nor below it, still meet where the desired value
    lost the member there, and the desired part names no more than before. -/
theorem Meets.exists_dropAlong {names : List String} (h : Meets path v w a d)
    (off : ¬ names.map PathStep.member <+: path) :
    ∃ e, Meets path v (dropAlong names w) a e ∧ e.isObject = d.isObject ∧
      ∀ k, d.get? k = none → e.get? k = none := by
  induction h generalizing names with
  | here a d =>
    refine ⟨_, .here a _, isObject_dropAlong names d, fun k hk => ?_⟩
    cases names with
    | nil => exact hk
    | cons name names =>
      rw [get?_dropAlong, hk, Option.map_none, ite_self, ite_self]
  | @member k path v w x y a d hx hy rest ih =>
    cases names with
    | nil => exact absurd List.nil_prefix off
    | cons name names =>
      by_cases hname : name = k
      · -- the names lead further in than this member, as they do not end on the path
        subst hname
        have hdeep : names ≠ [] := by
          rintro rfl
          exact off (List.cons_prefix_cons.mpr ⟨rfl, List.nil_prefix⟩)
        have hoff : ¬ names.map PathStep.member <+: path := fun below =>
          off (List.cons_prefix_cons.mpr ⟨rfl, below⟩)
        obtain ⟨e, he, hobject, hnames⟩ := ih hoff
        have hdropped : (dropAlong (name :: names) w).get? name = some (dropAlong names y) := by
          rw [get?_dropAlong, if_pos rfl, if_neg hdeep, hy, Option.map_some]
        exact ⟨e, .member hx hdropped he, hobject, hnames⟩
      · have hsame : (dropAlong (name :: names) w).get? k = some y := by
          rw [get?_dropAlong, if_neg hname, hy]
        exact ⟨d, .member hx hsame rest, rfl, fun _ hk => hk⟩
  -- nothing is dropped from lists
  | @named i path xs ws x y a d entries named hy hx rest ih =>
    rw [dropAlong_arr]
    exact ⟨d, .named entries named hy hx rest, rfl, fun _ hk => hk⟩
  | @placed i path xs ws x y a d entries unnamed hy hx rest ih =>
    rw [dropAlong_arr]
    exact ⟨d, .placed entries unnamed hy hx rest, rfl, fun _ hk => hk⟩

/-! ## §5. Where nothing is a list -/

/-- Nothing in the value is a list. -/
def NoLists (v : Json) : Prop := ∀ path xs, part? path v ≠ some (.arr xs)

theorem noLists_str (s : String) : NoLists (.str s) := by
  intro path xs h
  cases path with
  | nil => cases h
  | cons step path => cases step <;> cases h

theorem noLists_obj {ms : Table String Json} (each : ∀ e ∈ ms, NoLists e.2) :
    NoLists (.obj ms) := by
  intro path xs h
  cases path with
  | nil => cases h
  | cons step path =>
    cases step with
    | member k =>
      obtain ⟨x, hx, hpart⟩ := exists_of_part?_member h
      exact each (k, x) (Table.mem_of_get? hx) path xs hpart
    | index i => cases h

theorem noLists_ofTexts (m : Table String String) : NoLists (ofTexts m) := by
  refine noLists_obj fun e he => ?_
  obtain ⟨d, _, rfl⟩ := List.mem_map.mp he
  exact noLists_str d.2

/-- Without lists parts meet at one path. -/
theorem Meets.part?_of_noLists (h : Meets path v w a d) (plain : NoLists w) :
    Json.part? path v = some a := by
  induction h with
  | here => rfl
  | @member k path v w x y a d hx hy rest ih =>
    rw [part?_member hx]
    exact ih fun p zs hp => plain (.member k :: p) zs ((part?_member hy).trans hp)
  | named | placed => exact absurd rfl (plain [] _)

theorem part?_append (p q : List PathStep) (v : Json) :
    part? (p ++ q) v = (part? p v).bind (part? q) := by
  induction p generalizing v with
  | nil => rfl
  | cons step p ih =>
    cases step with
    | member k =>
      show (v.get? k).bind (part? (p ++ q)) = ((v.get? k).bind (part? p)).bind (part? q)
      cases v.get? k with
      | none => rfl
      | some x => exact ih x
    | index i =>
      cases v with
      | arr xs =>
        show xs[i]?.bind (part? (p ++ q)) = (xs[i]?.bind (part? p)).bind (part? q)
        cases xs[i]? with
        | none => rfl
        | some x => exact ih x
      | null | bool _ | int _ | double _ | str _ | obj _ => rfl

/-- Down a path of members parts meet at one path. -/
theorem Meets.of_members {names : List String} (h : Meets (names.map .member ++ path) v w a d) :
    ∃ x y, Json.part? (names.map .member) v = some x ∧
      Json.part? (names.map .member) w = some y ∧ Meets path x y a d := by
  induction names generalizing v w with
  | nil => exact ⟨v, w, rfl, rfl, h⟩
  | cons name names ih =>
    cases h with
    | member hx hy rest =>
      obtain ⟨x, y, hv, hw, hmeets⟩ := ih rest
      exact ⟨x, y, (part?_member hx).trans hv, (part?_member hy).trans hw, hmeets⟩

end Json

end Converge
