/-
  Converge.Proofs.Store.Acts — what versions tell of a store, whatever was done to it.

  Other actors place, change and delete objects, and callers write objects that they have read long
  ago or never read.  Still a version names one write of one key: no other write takes it, and it
  is in the store just as long as nothing writes that key again.  So a caller who carries the
  version of an earlier read is let through if and only if the key was not written since.

  Main statements:
    * `Store.turn_act` — all that one act can do to what a store holds.
    * `Store.since_after` — what a run leaves under each key, by whether it was written.
    * `Store.dated_after` — what versions tell of every store that was made by acts.
-/
import Converge.Proofs.Store.Versions

namespace Converge.Store

/-! ## §1. Acts -/

/-- One thing that is done to a store: another actor places or changes an object, or a call is
    made. -/
inductive Act where
  | seed (key : Key) (o : Object)
  | modify (key : Key) (f : Object → Object)
  | call (c : StoreCall)

/-- The data of the objects that an act brings are JSON objects. -/
def Act.Sound : Act → Prop
  | .seed _ o => o.data.isObject = true
  | .modify _ f => ∀ o, o.data.isObject = true → (f o).data.isObject = true
  | .call (.create _ o) => o.data.isObject = true
  | .call (.update _ o) => o.data.isObject = true
  | .call _ => True

/-- The store after an act. -/
def act (s : Store) : Act → Store
  | .seed key o => s.seed key o
  | .modify key f => s.modify key f
  | .call c => (s.perform c).2

/-- The store after acts in turn. -/
def after (s : Store) (acts : List Act) : Store := acts.foldl act s

/-- The key that an act writes; a call has written when it is logged. -/
def written? (s : Store) : Act → Option Key
  | .seed key _ => some key
  | .modify key _ => if Table.has s.objects key then some key else none
  | .call c => if (s.perform c).2.writes = s.writes then none else some c.key

theorem written?_call (s : Store) (c : StoreCall) : s.written? (.call c)
    = if (s.perform c).2.writes = s.writes then none else some c.key := rfl

/-- The keys that acts write in turn. -/
def written (s : Store) : List Act → List Key
  | [] => []
  | a :: later => (s.written? a).toList ++ (s.act a).written later

/-! ## §2. One act -/

/-- What an act may do that writes a key or none: it leaves all objects, it puts one under the next
    version, or it takes one away. -/
inductive Turn (s t : Store) : Option Key → Prop
  | rest (objects : t.objects = s.objects) (version : t.version = s.version) : Turn s t none
  | put {key : Key} (o : Object) (data : o.data.isObject = true)
      (objects : t.objects = Table.insert s.objects key (s.stamped o))
      (version : t.version = s.version + 1) : Turn s t (some key)
  | drop {key : Key} (objects : t.objects = Table.erase s.objects key)
      (version : t.version = s.version) : Turn s t (some key)

/-- What is true of every store that was made by acts. -/
structure Made (s : Store) : Prop where
  /-- The counter has given out all versions. -/
  counted : ∀ key o, Table.get? s.objects key = some o →
    ∃ n, n ≤ s.version ∧ o.metadata.resourceVersion = some (toString n)
  distinct : ∀ key l o p, Table.get? s.objects key = some o → Table.get? s.objects l = some p →
    o.metadata.resourceVersion = p.metadata.resourceVersion → key = l
  data : ∀ key o, Table.get? s.objects key = some o → o.data.isObject = true

variable {s t u : Store}

theorem made_empty : Made {} := by
  have hnone : ∀ {key o}, Table.get? ({} : Store).objects key ≠ some o := nofun
  exact ⟨fun _ _ h => absurd h hnone, fun _ _ _ _ h => absurd h hnone,
    fun _ _ h => absurd h hnone⟩

theorem isObject_withStatusOf {stored o : Object} (object : o.data.isObject = true) :
    (withStatusOf stored o).data.isObject = true := by
  unfold withStatusOf
  cases stored.data.get? "status" with
  | none =>
    show (o.data.dropMember "status").isObject = true
    rw [Json.isObject_dropMember, object]
  | some v =>
    show (o.data.setMember "status" v).isObject = true
    cases o.data <;> rfl

theorem isObject_withNewStatus (stored o : Object) :
    (withNewStatus stored o).data.isObject = true := by
  show (stored.data.setMember "status" _).isObject = true
  cases stored.data <;> rfl

section Calls

variable {c : StoreCall} {reply : Except StoreError c.Reply}

/-- A call that leaves the store as it is, or is a mere read. -/
theorem turn_aside (answer : s.perform c = (reply, t)) (objects : t.objects = s.objects)
    (version : t.version = s.version) (writes : t.writes = s.writes) :
    Turn s (s.act (.call c)) (s.written? (.call c)) := by
  have hact : s.act (.call c) = t := congrArg Prod.snd answer
  have hnone : s.written? (.call c) = none := by
    rw [written?_call, answer]
    exact if_pos writes
  rw [hact, hnone]
  exact .rest objects version

/-- A call that is logged writes its key. -/
theorem written?_of_log {op : WriteOp} (answer : s.perform c = (reply, t.log op c.key))
    (writes : t.writes = s.writes) : s.written? (.call c) = some c.key := by
  rw [written?_call, answer]
  refine if_neg ?_
  show ¬ t.writes ++ [_] = s.writes
  rw [writes]
  simp

theorem turn_put {o : Object} {op : WriteOp}
    (answer : s.perform c = (reply, (s.put c.key o).log op c.key))
    (data : o.data.isObject = true) : Turn s (s.act (.call c)) (s.written? (.call c)) := by
  rw [written?_of_log answer rfl, show s.act (.call c) = _ from congrArg Prod.snd answer]
  exact .put o data rfl rfl

end Calls

/-- All that one act can do. -/
theorem turn_act (made : Made s) {a : Act} (sound : a.Sound) :
    Turn s (s.act a) (s.written? a) := by
  cases a with
  | seed key o =>
    -- a uid is given at most, and the data stay
    have hseed : ∃ p, p.data = o.data ∧ s.seed key o = s.put key p := by
      unfold seed
      cases o.metadata.uid with
      | some _ => exact ⟨o, rfl, rfl⟩
      | none => exact ⟨withUid o (uidOf key), rfl, rfl⟩
    obtain ⟨p, hdata, hput⟩ := hseed
    show Turn s (s.seed key o) (some key)
    rw [hput]
    exact .put p (hdata ▸ sound) rfl rfl
  | modify key f =>
    show Turn s (s.modify key f) (if (Table.get? s.objects key).isSome then some key else none)
    unfold Store.modify
    cases hg : Table.get? s.objects key with
    | none => exact .rest rfl rfl
    | some o => exact .put (f o) (sound o (made.data key o hg)) rfl rfl
  | call c =>
    cases c with
    | get key | list kind ns selector => exact turn_aside rfl rfl rfl rfl
    | create key o =>
      rcases s.perform_create_cases key o with ⟨_, hok⟩ | herror
      · exact turn_put hok sound
      · exact turn_aside herror rfl rfl rfl
    | update key o =>
      rcases s.perform_update_cases key o with ⟨_, _, _, hok⟩ | ⟨_, _, herror⟩
      · exact turn_put hok (isObject_withStatusOf sound)
      · exact turn_aside herror rfl rfl rfl
    | updateStatus key o =>
      rcases s.perform_updateStatus_cases key o with ⟨_, _, _, hok⟩ | ⟨_, _, herror⟩
      · exact turn_put hok (isObject_withNewStatus _ o)
      · exact turn_aside herror rfl rfl rfl
    | delete key =>
      rcases s.perform_delete_cases key with hok | ⟨_, hgone⟩
      · rw [written?_of_log hok rfl, show s.act (.call (.delete key)) = _ from
          congrArg Prod.snd hok]
        exact .drop rfl rfl
      · exact turn_aside hgone rfl rfl rfl

/-! ## §3. Acts in turn -/

/-- What is under each key later, by whether it was written meanwhile. -/
structure Since (s t : Store) (keys : List Key) : Prop where
  version : s.version ≤ t.version
  still : ∀ key, key ∉ keys → Table.get? t.objects key = Table.get? s.objects key
  /-- What was written carries a version that was not in use before. -/
  fresh : ∀ key ∈ keys, ∀ o, Table.get? t.objects key = some o →
    ∃ n, s.version < n ∧ n ≤ t.version ∧ o.metadata.resourceVersion = some (toString n)

theorem Since.refl (s : Store) : Since s s [] :=
  ⟨Nat.le_refl _, fun _ _ => rfl, fun _ h => absurd h List.not_mem_nil⟩

theorem Since.trans {ks ls : List Key} (h : Since s t ks) (g : Since t u ls) :
    Since s u (ks ++ ls) where
  version := Nat.le_trans h.version g.version
  still := by
    intro key hkey
    rw [List.mem_append, not_or] at hkey
    rw [g.still key hkey.2, h.still key hkey.1]
  fresh := by
    intro key hkey o ho
    by_cases hlate : key ∈ ls
    · obtain ⟨n, hlow, hhigh, hn⟩ := g.fresh key hlate o ho
      exact ⟨n, Nat.lt_of_le_of_lt h.version hlow, hhigh, hn⟩
    · -- it was written on the first way, and not on the second
      rw [g.still key hlate] at ho
      have hearly : key ∈ ks := (List.mem_append.mp hkey).resolve_right hlate
      obtain ⟨n, hlow, hhigh, hn⟩ := h.fresh key hearly o ho
      exact ⟨n, hlow, Nat.le_trans hhigh g.version, hn⟩

theorem Turn.since {key? : Option Key} (h : Turn s t key?) : Since s t key?.toList := by
  cases h with
  | rest objects version =>
    refine ⟨Nat.le_of_eq version.symm, fun _ _ => by rw [objects], ?_⟩
    exact fun _ h => absurd h List.not_mem_nil
  | @put key o _ objects version =>
    refine ⟨by omega, fun k hk => ?_, fun k hk p hp => ?_⟩
    · rw [objects, Table.get?_insert, if_neg (Ne.symm (List.ne_of_not_mem_cons hk))]
    · obtain rfl := List.mem_singleton.mp hk
      rw [objects, Table.get?_insert, if_pos rfl] at hp
      rw [← Option.some.inj hp]
      exact ⟨s.version + 1, Nat.lt_succ_self _, Nat.le_of_eq version.symm, rfl⟩
  | @drop key objects version =>
    refine ⟨Nat.le_of_eq version.symm, fun k hk => ?_, fun k hk p hp => ?_⟩
    · rw [objects, Table.get?_erase, if_neg (Ne.symm (List.ne_of_not_mem_cons hk))]
    · obtain rfl := List.mem_singleton.mp hk
      rw [objects, Table.get?_erase, if_pos rfl] at hp
      exact absurd hp nofun

theorem Made.turn (made : Made s) {key? : Option Key} (h : Turn s t key?) : Made t where
  counted := by
    intro key o ho
    by_cases hkey : key ∈ key?.toList
    · obtain ⟨n, _, hhigh, hn⟩ := h.since.fresh key hkey o ho
      exact ⟨n, hhigh, hn⟩
    · rw [h.since.still key hkey] at ho
      obtain ⟨n, hhigh, hn⟩ := made.counted key o ho
      exact ⟨n, Nat.le_trans hhigh h.since.version, hn⟩
  distinct := by
    -- what was just written carries a version above all others
    have happart : ∀ key l o p, key ∈ key?.toList → l ∉ key?.toList →
        Table.get? t.objects key = some o → Table.get? t.objects l = some p →
        o.metadata.resourceVersion ≠ p.metadata.resourceVersion := by
      intro key l o p hkey hl ho hp heq
      obtain ⟨n, hlow, _, hn⟩ := h.since.fresh key hkey o ho
      rw [h.since.still l hl] at hp
      obtain ⟨m, hm, hversion⟩ := made.counted l p hp
      rw [hn, hversion] at heq
      have hnm : n = m := Nat.repr_inj.mp (Option.some.inj heq)
      omega
    intro key l o p ho hp heq
    by_cases hkey : key ∈ key?.toList <;> by_cases hl : l ∈ key?.toList
    · exact Option.some.inj ((Option.mem_toList.mp hkey).symm.trans (Option.mem_toList.mp hl))
    · exact absurd heq (happart key l o p hkey hl ho hp)
    · exact absurd heq.symm (happart l key p o hl hkey hp ho)
    · rw [h.since.still key hkey] at ho
      rw [h.since.still l hl] at hp
      exact made.distinct key l o p ho hp heq
  data := by
    intro key o ho
    cases h with
    | rest objects _ => exact made.data key o (objects ▸ ho)
    | put q data objects _ =>
      rw [objects] at ho
      rcases Table.get?_of_insert ho with ⟨_, rfl⟩ | ⟨_, hbefore⟩
      · exact data
      · exact made.data key o hbefore
    | drop objects _ =>
      rw [objects] at ho
      exact made.data key o (Table.get?_of_erase ho).2

section Runs

variable {acts : List Act}

theorem Made.after (made : Made s) (sound : ∀ a ∈ acts, a.Sound) : Made (s.after acts) := by
  induction acts generalizing s with
  | nil => exact made
  | cons a acts ih =>
    obtain ⟨ha, hacts⟩ := List.forall_mem_cons.mp sound
    exact ih (made.turn (turn_act made ha)) hacts

/-- What a run leaves under each key, by whether it was written. -/
theorem since_after (made : Made s) (sound : ∀ a ∈ acts, a.Sound) :
    Since s (s.after acts) (s.written acts) := by
  induction acts generalizing s with
  | nil => exact .refl s
  | cons a acts ih =>
    obtain ⟨ha, hacts⟩ := List.forall_mem_cons.mp sound
    have hturn := turn_act made ha
    exact hturn.since.trans (ih (made.turn hturn) hacts)

/-- An object that carries the version of one that was there earlier is that one, under the same
    key, and nothing has written it since. -/
theorem Made.once (made : Made s) (sound : ∀ a ∈ acts, a.Sound) {key l : Key} {o p : Object}
    (earlier : Table.get? s.objects key = some o)
    (later : Table.get? (s.after acts).objects l = some p)
    (same : p.metadata.resourceVersion = o.metadata.resourceVersion) :
    l = key ∧ p = o ∧ key ∉ s.written acts := by
  have hsince := since_after made sound
  have hl : l ∉ s.written acts := by
    intro hl
    -- a version that was given out since is not that of the earlier object
    obtain ⟨n, hlow, _, hn⟩ := hsince.fresh l hl p later
    obtain ⟨m, hm, hversion⟩ := made.counted key o earlier
    rw [hn, hversion] at same
    have hnm : n = m := Nat.repr_inj.mp (Option.some.inj same)
    omega
  rw [hsince.still l hl] at later
  obtain rfl := made.distinct l key p o later earlier same
  rw [earlier] at later
  exact ⟨rfl, (Option.some.inj later).symm, hl⟩

/-- A write that carries the version of an earlier object is taken just as long as nothing has
    written its key. -/
theorem Made.taken_iff (made : Made s) (sound : ∀ a ∈ acts, a.Sound) {key : Key} {o q : Object}
    (earlier : Table.get? s.objects key = some o)
    (carried : q.metadata.resourceVersion = o.metadata.resourceVersion) {c : StoreCall}
    (revise : c = .update key q ∨ c = .updateStatus key q) :
    (∃ a t, (s.after acts).perform c = (.ok a, t)) ↔ key ∉ s.written acts := by
  constructor
  · rintro ⟨a, t, hok⟩
    rcases (s.after acts).perform_revise_cases revise with
      ⟨stored, hstored, hversion, _⟩ | ⟨f, _, herror⟩
    · exact (made.once sound earlier hstored (hversion.trans carried)).2.2
    · exact absurd (congrArg Prod.fst (hok.symm.trans herror)) nofun
  · intro hkey
    -- the object that was read is still there
    have hstill := (since_after made sound).still key hkey
    rw [earlier] at hstill
    rcases revise with rfl | rfl
    · exact ⟨_, _, (perform_update_eq _ key q).trans (revise_current _ _ hstill carried)⟩
    · exact ⟨_, _, (perform_updateStatus_eq _ key q).trans (revise_current _ _ hstill carried)⟩

end Runs

/-! ## §4. What calls answer -/

/-- What versions tell of a store, and what its calls keep. -/
structure Dated (s : Store) : Prop where
  /-- Objects under different keys carry different versions. -/
  distinct : ∀ key l o p, Table.get? s.objects key = some o → Table.get? s.objects l = some p →
    o.metadata.resourceVersion = p.metadata.resourceVersion → key = l
  /-- No version is above the counter. -/
  counted : ∀ key o, Table.get? s.objects key = some o →
    ∃ n, n ≤ s.version ∧ o.metadata.resourceVersion = some (toString n)
  /-- However long acts go on, a version that is in use now is that of the same write. -/
  once : ∀ acts : List Act, (∀ a ∈ acts, a.Sound) → ∀ key l o p,
    Table.get? s.objects key = some o → Table.get? (s.after acts).objects l = some p →
      p.metadata.resourceVersion = o.metadata.resourceVersion →
        l = key ∧ p = o ∧ key ∉ s.written acts
  /-- A write with the version of an earlier read is taken if and only if nothing wrote the key
      since the read. -/
  taken : ∀ key o t, s.perform (.get key) = (.ok (some o), t) →
    ∀ acts : List Act, (∀ a ∈ acts, a.Sound) →
      ∀ q : Object, q.metadata.resourceVersion = o.metadata.resourceVersion →
        ∀ c, c = .update key q ∨ c = .updateStatus key q →
          ((∃ a u, (t.after acts).perform c = (.ok a, u)) ↔ key ∉ t.written acts)
  /-- An update leaves the stored status as it was, present or absent. -/
  update : ∀ key q a t, s.perform (.update key q) = (.ok a, t) →
    ∃ stored, Table.get? s.objects key = some stored ∧ Table.get? t.objects key = some a ∧
      a.data.get? "status" = stored.data.get? "status"
  /-- An update of the status changes nothing but the status and the version. -/
  updateStatus : ∀ key q a t, s.perform (.updateStatus key q) = (.ok a, t) →
    ∃ stored, Table.get? s.objects key = some stored ∧
      t.objects = Table.insert s.objects key a ∧
      a.data.get? "status" = some ((q.data.get? "status").getD .null) ∧
      { a with
        metadata := { a.metadata with resourceVersion := stored.metadata.resourceVersion }
        data := a.data.dropMember "status" }
        = { stored with data := stored.data.dropMember "status" }
  /-- A call that is refused changes nothing. -/
  refused : ∀ c e t, s.perform c = (.error e, t) → t = s

theorem get?_status_withStatusOf (stored o : Object) :
    (withStatusOf stored o).data.get? "status" = stored.data.get? "status" := by
  unfold withStatusOf
  cases stored.data.get? "status" <;> simp

theorem Made.dated (made : Made s) : Dated s where
  distinct := made.distinct
  counted := made.counted
  once acts sound _ _ _ _ := made.once sound
  taken := by
    intro key o t hread acts sound q carried c revise
    -- a read leaves the objects and the counter
    have hget := Prod.mk.inj hread
    have hmade : Made t := by
      rw [← hget.2]
      exact ⟨made.counted, made.distinct, made.data⟩
    have hthere : Table.get? t.objects key = some o := by
      rw [← hget.2]
      exact Except.ok.inj hget.1
    exact hmade.taken_iff sound hthere carried revise
  update := by
    intro key q a t hok
    rcases s.perform_update_cases key q with ⟨stored, hstored, _, htaken⟩ | ⟨_, _, herror⟩
    · obtain ⟨ha, rfl⟩ := Prod.mk.inj (hok.symm.trans htaken)
      obtain rfl := Except.ok.inj ha
      refine ⟨stored, hstored, ?_, get?_status_withStatusOf stored q⟩
      show Table.get? (Table.insert s.objects key _) key = _
      rw [Table.get?_insert, if_pos rfl]
    · exact absurd (congrArg Prod.fst (hok.symm.trans herror)) nofun
  updateStatus := by
    intro key q a t hok
    rcases s.perform_updateStatus_cases key q with ⟨stored, hstored, _, htaken⟩ | ⟨_, _, herror⟩
    · obtain ⟨ha, rfl⟩ := Prod.mk.inj (hok.symm.trans htaken)
      obtain rfl := Except.ok.inj ha
      refine ⟨stored, hstored, rfl, ?_, ?_⟩
      · show (stored.data.setMember "status" _).get? "status" = _
        rw [Json.get?_setMember, if_pos rfl]
      · show ({ stored with data := (stored.data.setMember "status" _).dropMember "status" }
          : Object) = _
        rw [Json.dropMember_setMember (made.data key stored hstored)]
    · exact absurd (congrArg Prod.fst (hok.symm.trans herror)) nofun
  refused _ _ _ h := perform_error h

/-- Every store that is made by acts, in any number and order, on objects whose data are JSON
    objects: different objects carry different versions and none is above the counter; no version
    is given out twice, not even for a key that was deleted and created again; a write that carries
    the version of an earlier read is taken if and only if its key was not written since; an update
    keeps the status, and an update of the status all else; and a refused call changes nothing. -/
theorem dated_after {acts : List Act} (sound : ∀ a ∈ acts, a.Sound) :
    Dated (({} : Store).after acts) :=
  (made_empty.after sound).dated

/-- The key of a deployment. -/
def recreatedKey : Key := ⟨.deployment, "default", "pool"⟩

/-- That deployment is created, deleted and created again. -/
def recreation : List Act :=
  [.call (.create recreatedKey { data := .obj [] }), .call (.delete recreatedKey),
    .call (.create recreatedKey { data := .obj [("status", .null)] })]

/-- The deployment carries the second version, and a caller who has read the first one is
    refused. -/
theorem dated_after_recreation :
    (∀ a ∈ recreation, a.Sound) ∧ Dated (({} : Store).after recreation) ∧
      (Table.get? (({} : Store).after recreation).objects recreatedKey).map
        (·.metadata.resourceVersion) = some (some "2") ∧
      ((({} : Store).after recreation).perform
        (.update recreatedKey { metadata := { resourceVersion := some "1" }, data := .obj [] })).1
          = .error (.conflict recreatedKey) := by
  have hsound : ∀ a ∈ recreation, a.Sound := by
    simp [recreation, Act.Sound, Json.isObject]
  exact ⟨hsound, dated_after hsound, by decide, by decide⟩

end Converge.Store
