/-
  Converge.Proofs.Body.Frame — bodies that can follow each other without a trace.

  The frame of a body is what remains when all that is surely overwritten is blanked out:
  numbers, images, arguments, resources, backends and the like.  It keeps what is never
  changed, and which optional parts there are.

  Main statement: `Body.data_of_frame` — laying a body over the wire form of a body with the
  same frame gives its own wire form, with nothing left of the other.
-/
import Converge.Proofs.Body.WellNamed
import Converge.Proofs.Json.Fits

namespace Converge

open Json (Orderly OrderlyBut Fits FitsBut)

/-! ## §1. Frames -/

/-- A container without its image, arguments, resources and port numbers. -/
def Container.frame (c : Container) : Container :=
  { c with
    image := ""
    pullPolicy := ""
    args := []
    resources := none
    ports := c.ports.map fun p => { p with port := 0 } }

/-- A deployment without its size, with the frames of its containers. -/
def Deployment.frame (d : Deployment) : Deployment :=
  { d with replicas := 0, containers := d.containers.map Container.frame }

/-- The names of a service's ports. -/
def Service.frame (s : Service) : Service := ⟨"", [], s.ports.map fun p => ⟨p.name, 0, 0⟩⟩

/-- The names of a gateway's listeners. -/
def Gateway.frame (g : Gateway) : Gateway := ⟨"", g.listeners.map fun l => ⟨l.name, 0, ""⟩⟩

/-- A rule without its backends. -/
def RouteRule.frame (r : RouteRule) : RouteRule := { r with backends := [] }

/-- A route without its parents, with the frames of its rules. -/
def HttpRoute.frame (r : HttpRoute) : HttpRoute := ⟨[], r.rules.map RouteRule.frame⟩

/-- What a body has that is not overwritten by just any body of the kind. -/
def Body.frame : Body → Body
  | .serviceAccount => .serviceAccount
  | .role _ => .role ⟨[]⟩
  | .roleBinding b => .roleBinding ⟨b.role, "", ""⟩
  | .configMap _ => .configMap []
  | .deployment d => .deployment d.frame
  | .service s => .service s.frame
  | .gateway g => .gateway g.frame
  | .httpRoute r => .httpRoute r.frame
  | .referenceGrant _ => .referenceGrant ⟨[], []⟩
  | .destinationRule d => .destinationRule ⟨"", "", d.pool.map fun _ => {}⟩

/-! ## §2. Parts without optional members -/

theorem Json.Orderly.ascending {ms : Table String Json} (h : Orderly (.obj ms)) :
    Table.Ascending ms := by
  cases h with
  | obj order _ => exact order

/-- An orderly object fits over another when every member of that one is desired and fits. -/
theorem Json.Orderly.fits {ms ws : Table String Json} (hms : Orderly (.obj ms))
    (hws : Orderly (.obj ws))
    (each : ∀ e ∈ ms, ∃ y, Table.get? ws e.1 = some y ∧ Fits e.2 y) :
    Fits (.obj ms) (.obj ws) :=
  Json.fits_obj hms.ascending hws.ascending each

theorem ContainerPort.fits (p q : ContainerPort) : Fits p.toJson q.toJson := by
  refine Json.Orderly.fits p.orderly q.orderly ?_
  simp only [List.forall_mem_cons, Json.forall_nil, and_true]
  exact ⟨⟨_, rfl, Json.fits_int _ _⟩, ⟨_, rfl, Json.fits_str _ _⟩, ⟨_, rfl, Json.fits_str _ _⟩⟩

theorem ServicePort.fits (p q : ServicePort) : Fits p.toJson q.toJson := by
  refine Json.Orderly.fits p.orderly q.orderly ?_
  simp only [List.forall_mem_cons, Json.forall_nil, and_true]
  exact ⟨⟨_, rfl, Json.fits_str _ _⟩, ⟨_, rfl, Json.fits_int _ _⟩, ⟨_, rfl, Json.fits_str _ _⟩,
    ⟨_, rfl, Json.fits_int _ _⟩⟩

theorem Listener.fits (l m : Listener) : Fits l.toJson m.toJson := by
  refine Json.Orderly.fits l.orderly m.orderly ?_
  simp only [List.forall_mem_cons, Json.forall_nil, and_true]
  exact ⟨⟨_, rfl, Json.fits_str _ _⟩, ⟨_, rfl, Json.fits_int _ _⟩, ⟨_, rfl, Json.fits_str _ _⟩⟩

theorem AccessRule.fits (r s : AccessRule) : Fits r.toJson s.toJson := by
  refine Json.Orderly.fits r.orderly s.orderly ?_
  simp only [List.forall_mem_cons, Json.forall_nil, and_true]
  exact ⟨⟨_, rfl, Json.fits_ofStrings _ _⟩, ⟨_, rfl, Json.fits_ofStrings _ _⟩,
    ⟨_, rfl, Json.fits_ofStrings _ _⟩⟩

theorem GrantFrom.fits (g h : GrantFrom) : Fits g.toJson h.toJson := by
  refine Json.Orderly.fits g.orderly h.orderly ?_
  simp only [List.forall_mem_cons, Json.forall_nil, and_true]
  exact ⟨⟨_, rfl, Json.fits_str _ _⟩, ⟨_, rfl, Json.fits_str _ _⟩, ⟨_, rfl, Json.fits_str _ _⟩⟩

theorem GrantTo.fits (g h : GrantTo) : Fits g.toJson h.toJson := by
  refine Json.Orderly.fits g.orderly h.orderly ?_
  simp only [List.forall_mem_cons, Json.forall_nil, and_true]
  exact ⟨⟨_, rfl, Json.fits_str _ _⟩, ⟨_, rfl, Json.fits_str _ _⟩⟩

theorem PoolLimits.fits (p q : PoolLimits) : Fits p.toJson q.toJson := by
  refine Json.Orderly.fits p.orderly q.orderly ?_
  simp only [List.forall_mem_cons, Json.forall_nil, and_true]
  exact ⟨⟨_, rfl, Json.fits_int _ _⟩, ⟨_, rfl, Json.fits_int _ _⟩⟩

/-- A parent fits when it has a namespace. -/
theorem ParentRef.fits (p : ParentRef) {q : ParentRef} (hq : q.ns.isSome = true) :
    Fits p.toJson q.toJson := by
  obtain ⟨ns, hns⟩ := Option.isSome_iff_exists.mp hq
  refine Json.Orderly.fits p.orderly q.orderly ?_
  simp only [List.forall_mem_append, Json.forall_memberOf, List.forall_mem_cons,
    Json.forall_nil, and_true]
  refine ⟨⟨⟨_, rfl, Json.fits_str _ _⟩, ⟨_, rfl, Json.fits_str _ _⟩, ⟨_, rfl, Json.fits_str _ _⟩⟩,
    ?ns⟩
  intro s _
  refine ⟨.str ns, ?_, Json.fits_str _ _⟩
  simp [Table.get?_cons, hns]

/-! ## §3. Deployments -/

theorem Json.OrderlyBut.ascending {keys : List String} {ms : Table String Json}
    (h : OrderlyBut keys [] (.obj ms)) : Table.Ascending ms := by
  cases h with
  | here order _ => exact order

theorem Json.OrderlyBut.ascending_member {keys : List String} {k : String}
    {path : List Json.Step} {ms : Table String Json}
    (h : OrderlyBut keys (.member k :: path) (.obj ms)) : Table.Ascending ms := by
  cases h with
  | member order _ _ => exact order

/-- A container fits over one with the same frame. -/
theorem Container.fits {b c : Container} (hb : b.WellNamed) (hc : c.WellNamed)
    (same : b.frame = c.frame) : FitsBut ["resources", "args"] [] b.toJson c.toJson := by
  have henv : b.env = c.env := by
    show b.frame.env = c.frame.env
    rw [same]
  have hports : b.ports.map (·.name) = c.ports.map (·.name) := by
    have h := congrArg (fun c => c.ports.map (·.name)) same
    simpa [frame, List.map_map, Function.comp_def] using h
  have hlive : b.liveness = c.liveness := by
    show b.frame.liveness = c.frame.liveness
    rw [same]
  have hready : b.readiness = c.readiness := by
    show b.frame.readiness = c.frame.readiness
    rw [same]
  have hstart : b.startup = c.startup := by
    show b.frame.startup = c.frame.startup
    rw [same]
  have hmounts : b.mounts = c.mounts := by
    show b.frame.mounts = c.frame.mounts
    rw [same]
  refine Json.fitsBut_here hb.orderlyBut.ascending hc.orderlyBut.ascending ?_
  simp only [List.forall_mem_append, Json.forall_memberOf, Json.forall_listMember,
    List.forall_mem_cons, Json.forall_nil, and_true]
  -- arguments and resources are replaced, texts take the place of texts, and what else there is
  -- the frame has as well
  refine ⟨⟨⟨⟨⟨⟨⟨⟨⟨?args, ?env⟩, ?image, ?policy⟩, ?liveness⟩, ?name⟩, ?ports⟩, ?readiness⟩,
    ?resources⟩, ?startup⟩, ?mounts⟩
  case args => exact fun hno => absurd (by simp) hno
  case env =>
    rw [henv]
    intro hne _
    refine ⟨.arr (c.env.map EnvVar.toJson), ?_, Json.Orderly.fits_self ?_⟩
    · simp [Json.get?_append, Table.get?_cons, hne]
    · exact Json.orderly_named EnvVar.nameOf?_toJson hc.env fun e _ => e.orderly
  case image =>
    refine fun _ => ⟨.str c.image, ?_, Json.fits_str _ _⟩
    simp [Json.get?_append, Table.get?_cons]
  case policy =>
    refine fun _ => ⟨.str c.pullPolicy, ?_, Json.fits_str _ _⟩
    simp [Json.get?_append, Table.get?_cons]
  case liveness =>
    rw [hlive]
    intro p hp _
    refine ⟨p.toJson, ?_, p.orderly.fits_self⟩
    simp [Json.get?_append, Table.get?_cons, hp]
  case name =>
    refine fun _ => ⟨.str c.name, ?_, Json.fits_str _ _⟩
    simp [Json.get?_append, Table.get?_cons]
  case ports =>
    -- ports have the same names, so that they are paired and only numbers differ
    intro hne _
    have hne' : c.ports ≠ [] := by
      intro hnil
      rw [hnil] at hports
      exact hne (List.map_eq_nil_iff.mp hports)
    refine ⟨.arr (c.ports.map ContainerPort.toJson), ?_, ?_⟩
    · simp [Json.get?_append, Table.get?_cons, hne']
    · exact Json.fits_named ContainerPort.nameOf?_toJson (fun _ => rfl) hports hc.ports
        fun _ p q _ _ => p.fits q
  case readiness =>
    rw [hready]
    intro p hp _
    refine ⟨p.toJson, ?_, p.orderly.fits_self⟩
    simp [Json.get?_append, Table.get?_cons, hp]
  case resources => exact fun _ _ hno => absurd (by simp) hno
  case startup =>
    rw [hstart]
    intro p hp _
    refine ⟨p.toJson, ?_, p.orderly.fits_self⟩
    simp [Json.get?_append, Table.get?_cons, hp]
  case mounts =>
    rw [hmounts]
    intro hne _
    refine ⟨.arr (c.mounts.map VolumeMount.toJson), ?_, Json.Orderly.fits_self ?_⟩
    · simp [Json.get?_append, Table.get?_cons, hne]
    · exact Json.orderly_named VolumeMount.nameOf?_toJson hc.mounts fun m _ => m.orderly

/-- What deployments with the same frame have in common. -/
structure Deployment.Alike (b d : Deployment) : Prop where
  selector : b.selector = d.selector
  labels : b.podLabels = d.podLabels
  annotations : b.podAnnotations = d.podAnnotations
  account : b.serviceAccount = d.serviceAccount
  volumes : b.volumes = d.volumes
  containers : b.containers.map Container.frame = d.containers.map Container.frame

theorem Deployment.alike_of_frame {b d : Deployment} (same : b.frame = d.frame) : b.Alike d := by
  have hselector : b.frame.selector = d.frame.selector := by rw [same]
  have hlabels : b.frame.podLabels = d.frame.podLabels := by rw [same]
  have hnotes : b.frame.podAnnotations = d.frame.podAnnotations := by rw [same]
  have haccount : b.frame.serviceAccount = d.frame.serviceAccount := by rw [same]
  have hvolumes : b.frame.volumes = d.frame.volumes := by rw [same]
  have hcontainers : b.frame.containers = d.frame.containers := by rw [same]
  exact ⟨hselector, hlabels, hnotes, haccount, hvolumes, hcontainers⟩

theorem Deployment.Alike.names {b d : Deployment} (h : b.Alike d) :
    b.containers.map (·.name) = d.containers.map (·.name) := by
  have h := congrArg (List.map Container.name) h.containers
  simpa [List.map_map, Function.comp_def, Container.frame] using h

theorem Deployment.Alike.fits_containers {b d : Deployment} (h : b.Alike d) (hb : b.WellNamed)
    (hd : d.WellNamed) : FitsBut ["resources", "args"] [.entries]
      (.arr (b.containers.map Container.toJson)) (.arr (d.containers.map Container.toJson)) := by
  refine Json.fitsBut_aligned (Json.isEntryList_map (fun _ => rfl) hd.some) ?_
    (fun _ => Json.nodup_names Container.nameOf?_toJson hd.containers) ?_
  · rw [Json.map_nameOf? Container.nameOf?_toJson, Json.map_nameOf? Container.nameOf?_toJson,
      h.names]
  · -- the containers at one position have the same frame
    intro i x w hx hw
    rw [List.getElem?_map] at hx hw
    obtain ⟨p, hp, rfl⟩ := Option.map_eq_some_iff.mp hx
    obtain ⟨c, hc, rfl⟩ := Option.map_eq_some_iff.mp hw
    have hframe : p.frame = c.frame := by
      have h := congrArg (fun l => l[i]?) h.containers
      simpa [List.getElem?_map, hp, hc] using h
    exact Container.fits (hb.each p (List.mem_of_getElem? hp))
      (hd.each c (List.mem_of_getElem? hc)) hframe

theorem Deployment.Alike.fits_pod {b d : Deployment} (h : b.Alike d) (hb : b.WellNamed)
    (hd : d.WellNamed) : FitsBut ["resources", "args"] [.member "containers", .entries]
      b.podJson d.podJson := by
  refine Json.fitsBut_member hb.orderlyBut_pod.ascending_member
    hd.orderlyBut_pod.ascending_member ?containers ?_
  case containers =>
    intro x y hx hy
    have hx : Json.arr (b.containers.map Container.toJson) = x := Option.some.inj hx
    have hy : Json.arr (d.containers.map Container.toJson) = y := Option.some.inj hy
    subst hx hy
    exact h.fits_containers hb hd
  simp only [List.forall_mem_append, Json.forall_memberOf, Json.forall_listMember,
    List.forall_mem_cons, Json.forall_nil, and_true]
  -- besides containers, a pod has only what the frame keeps
  refine ⟨⟨⟨_, rfl, fun hno => absurd rfl hno⟩, ?account⟩, ?volumes⟩
  case account =>
    rw [h.account]
    intro s hs
    refine ⟨.str s, ?_, fun _ => Json.fits_str _ _⟩
    simp [Json.get?_append, Table.get?_cons, hs]
  case volumes =>
    rw [h.volumes]
    intro hne
    refine ⟨.arr (d.volumes.map Volume.toJson), ?_, fun _ => Json.Orderly.fits_self ?_⟩
    · simp [Json.get?_append, Table.get?_cons, hne]
    · exact Json.orderly_named Volume.nameOf?_toJson hd.volumes fun v _ => v.orderly

theorem Deployment.Alike.fits_template {b d : Deployment} (h : b.Alike d) (hb : b.WellNamed)
    (hd : d.WellNamed) :
    FitsBut ["resources", "args"] [.member "spec", .member "containers", .entries]
      b.templateJson d.templateJson := by
  have hkeys : (["metadata", "spec"] : List String).Pairwise (· < ·) := by decide
  refine Json.fitsBut_member (Table.ascending_of_keys _ (List.Sublist.refl _) hkeys)
    (Table.ascending_of_keys _ (List.Sublist.refl _) hkeys) ?pod ?_
  case pod =>
    intro x y hx hy
    injection hx with hx
    injection hy with hy
    subst hx hy
    exact h.fits_pod hb hd
  simp only [List.forall_mem_cons, Json.forall_nil, and_true]
  refine ⟨⟨_, rfl, fun _ => ?metadata⟩, ⟨_, rfl, fun hno => absurd rfl hno⟩⟩
  case metadata =>
    rw [h.labels, h.annotations]
    exact hd.orderly_metadata.fits_self

/-- A deployment fits over one with the same frame. -/
theorem Deployment.Alike.fits {b d : Deployment} (h : b.Alike d) (hb : b.WellNamed)
    (hd : d.WellNamed) :
    FitsBut ["resources", "args"] Amend.containers (.obj [("spec", b.specJson)])
      (.obj [("spec", d.specJson)]) := by
  rw [Deployment.specJson_eq, Deployment.specJson_eq]
  refine Json.fitsBut_member (Table.ascending_of_keys ["spec"] (List.Sublist.refl _) (by decide))
    (Table.ascending_of_keys ["spec"] (List.Sublist.refl _) (by decide)) ?spec ?_
  case spec =>
    intro x y hx hy
    injection hx with hx
    injection hy with hy
    subst hx hy
    refine Json.fitsBut_member b.ascending_spec d.ascending_spec ?template ?_
    case template =>
      intro x y hx hy
      injection hx with hx
      injection hy with hy
      subst hx hy
      exact h.fits_template hb hd
    simp only [Deployment.specMembers, List.forall_mem_cons, Json.forall_nil, and_true]
    refine ⟨⟨_, rfl, fun _ => Json.fits_int _ _⟩, ⟨_, rfl, fun _ => ?selector⟩,
      ⟨_, rfl, fun hno => absurd rfl hno⟩⟩
    case selector =>
      rw [h.selector]
      exact (Json.orderly_single (Json.orderly_ofTexts hd.selector)).fits_self
  simp only [List.forall_mem_cons, Json.forall_nil, and_true]
  exact ⟨_, rfl, fun hno => absurd rfl hno⟩

/-! ## §4. The other kinds -/

theorem Json.fits_single {k : String} {v w : Json} (h : Fits v w) :
    Fits (.obj [(k, v)]) (.obj [(k, w)]) := by
  refine Json.fits_obj (List.pairwise_singleton _ _) (List.pairwise_singleton _ _) ?_
  simp only [List.forall_mem_cons, Json.forall_nil, and_true]
  exact ⟨w, by simp [Table.get?_cons], h⟩

theorem Role.fits (r s : Role) : Fits r.bodyJson s.bodyJson := by
  refine Json.fits_single (Json.fits_each (fun _ => rfl) ?_)
  intro w _
  exact ⟨Json.fits_empty w.orderly.ascending, fun x _ => x.fits w⟩

theorem RoleBinding.subject_fits (b c : RoleBinding) : Fits b.subjectJson c.subjectJson := by
  refine Json.Orderly.fits b.orderly_subject c.orderly_subject ?_
  simp only [List.forall_mem_cons, Json.forall_nil, and_true]
  exact ⟨⟨_, rfl, Json.fits_str _ _⟩, ⟨_, rfl, Json.fits_str _ _⟩, ⟨_, rfl, Json.fits_str _ _⟩⟩

theorem RoleBinding.roleJson_congr {b c : RoleBinding} (same : b.role = c.role) :
    b.roleJson = c.roleJson := by
  unfold roleJson
  rw [same]

theorem RoleBinding.fits {b c : RoleBinding} (same : b.role = c.role) :
    Fits b.bodyJson c.bodyJson := by
  rw [bodyJson_eq, bodyJson_eq]
  refine Json.fits_obj b.ascending_members c.ascending_members ?_
  simp only [members, List.forall_mem_cons, Json.forall_nil, and_true]
  refine ⟨⟨c.roleJson, rfl, ?role⟩, ⟨_, rfl, ?subjects⟩⟩
  case role =>
    rw [roleJson_congr same]
    exact c.orderly_role.fits_self
  case subjects =>
    show Fits (.arr ([b].map subjectJson)) (.arr ([c].map subjectJson))
    refine Json.fits_each (fun _ => rfl) ?_
    intro w _
    exact ⟨Json.fits_empty w.orderly_subject.ascending, fun x _ => x.subject_fits w⟩

/-- A config map's data is replaced as a whole. -/
theorem configMap_fits (data more : Table String String) :
    FitsBut ["data"] [] (Body.configMap data).toJson (Body.configMap more).toJson := by
  refine Json.fitsBut_here (List.pairwise_singleton _ _) (List.pairwise_singleton _ _) ?_
  simp only [List.forall_mem_cons, Json.forall_nil, and_true]
  exact fun hno => absurd (by simp) hno

theorem Service.fits {r s : Service} (hs : (s.ports.map (·.name)).Nodup)
    (same : r.frame = s.frame) :
    FitsBut ["selector"] [.member "spec"] (.obj [("spec", r.specJson)])
      (.obj [("spec", s.specJson)]) := by
  have hports : r.ports.map (·.name) = s.ports.map (·.name) := by
    have h := congrArg (fun s => s.ports.map (·.name)) same
    simpa [frame, List.map_map, Function.comp_def] using h
  refine Json.fitsBut_member (List.pairwise_singleton _ _) (List.pairwise_singleton _ _) ?spec ?_
  case spec =>
    intro x y hx hy
    injection hx with hx
    injection hy with hy
    subst hx hy
    have hkeys : (["ports", "selector", "type"] : List String).Pairwise (· < ·) := by decide
    refine Json.fitsBut_here (Table.ascending_of_keys _ (List.Sublist.refl _) hkeys)
      (Table.ascending_of_keys _ (List.Sublist.refl _) hkeys) ?_
    simp only [List.forall_mem_cons, Json.forall_nil, and_true]
    -- the selector is replaced
    refine ⟨fun _ => ⟨_, rfl, ?ports⟩, fun hno => absurd (by simp) hno,
      fun _ => ⟨_, rfl, Json.fits_str _ _⟩⟩
    exact Json.fits_named ServicePort.nameOf?_toJson (fun _ => rfl) hports hs
      fun _ p q _ _ => p.fits q
  simp only [List.forall_mem_cons, Json.forall_nil, and_true]
  exact ⟨_, rfl, fun hno => absurd rfl hno⟩

theorem Gateway.fits {g h : Gateway} (hh : (h.listeners.map (·.name)).Nodup)
    (same : g.frame = h.frame) : Fits g.toJson h.toJson := by
  have hnames : g.listeners.map (·.name) = h.listeners.map (·.name) := by
    have h := congrArg (fun g => g.listeners.map (·.name)) same
    simpa [frame, List.map_map, Function.comp_def] using h
  have hkeys : (["gatewayClassName", "listeners"] : List String).Pairwise (· < ·) := by decide
  refine Json.fits_obj (Table.ascending_of_keys _ (List.Sublist.refl _) hkeys)
    (Table.ascending_of_keys _ (List.Sublist.refl _) hkeys) ?_
  simp only [List.forall_mem_cons, Json.forall_nil, and_true]
  refine ⟨⟨_, rfl, Json.fits_str _ _⟩, ⟨_, rfl, ?listeners⟩⟩
  exact Json.fits_named Listener.nameOf?_toJson (fun _ => rfl) hnames hh fun _ l m _ _ => l.fits m

/-- A rule fits over one with the same frame. -/
theorem RouteRule.fits {q r : RouteRule} (same : q.frame = r.frame) :
    FitsBut ["backendRefs"] [] q.toJson r.toJson := by
  have hpaths : q.frame.paths = r.frame.paths := by rw [same]
  have htimeouts : q.frame.timeouts = r.frame.timeouts := by rw [same]
  have hpaths : q.paths = r.paths := hpaths
  have htimeouts : q.timeouts = r.timeouts := htimeouts
  refine Json.fitsBut_here q.orderlyBut.ascending r.orderlyBut.ascending ?_
  simp only [List.forall_mem_append, Json.forall_memberOf, List.forall_mem_cons,
    Json.forall_nil, and_true]
  refine ⟨⟨fun hno => absurd (by simp) hno, fun _ => ⟨_, rfl, ?paths⟩⟩, ?timeouts⟩
  case paths =>
    rw [hpaths]
    exact (Json.orderly_nameless (f := PathMatch.toJson) (fun _ => rfl)
      fun m _ => m.orderly).fits_self
  case timeouts =>
    rw [htimeouts]
    intro t ht _
    refine ⟨t.toJson, ?_, t.orderly.fits_self⟩
    simp [Table.get?_cons, ht]

theorem HttpRoute.fits {q r : HttpRoute} (hr : r.WellNamed) (same : q.frame = r.frame) :
    FitsBut ["backendRefs"] Amend.routeRules (.obj [("spec", q.toJson)])
      (.obj [("spec", r.toJson)]) := by
  have hrules : q.frame.rules = r.frame.rules := by rw [same]
  have hrules : q.rules.map RouteRule.frame = r.rules.map RouteRule.frame := hrules
  have hlen : q.rules.length = r.rules.length := by
    have h := congrArg List.length hrules
    simpa using h
  refine Json.fitsBut_member (List.pairwise_singleton _ _) (List.pairwise_singleton _ _) ?spec ?_
  case spec =>
    intro x y hx hy
    injection hx with hx
    injection hy with hy
    subst hx hy
    have hkeys : (["parentRefs", "rules"] : List String).Pairwise (· < ·) := by decide
    refine Json.fitsBut_member (Table.ascending_of_keys _ (List.Sublist.refl _) hkeys)
      (Table.ascending_of_keys _ (List.Sublist.refl _) hkeys) ?rules ?_
    case rules =>
      intro x y hx hy
      have hx : Json.arr (q.rules.map RouteRule.toJson) = x := Option.some.inj hx
      have hy : Json.arr (r.rules.map RouteRule.toJson) = y := Option.some.inj hy
      subst hx hy
      refine Json.fitsBut_aligned (Json.isEntryList_map (fun _ => rfl) hr.some) ?_ ?_ ?_
      · rw [RouteRule.map_nameOf?, RouteRule.map_nameOf?, hlen]
      · exact RouteRule.names hr.some
      · intro i x w hx hw
        rw [List.getElem?_map] at hx hw
        obtain ⟨a, ha, rfl⟩ := Option.map_eq_some_iff.mp hx
        obtain ⟨b, hb, rfl⟩ := Option.map_eq_some_iff.mp hw
        have hframe : a.frame = b.frame := by
          have h := congrArg (fun l => l[i]?) hrules
          simpa [List.getElem?_map, ha, hb] using h
        exact RouteRule.fits hframe
    simp only [List.forall_mem_cons, Json.forall_nil, and_true]
    refine ⟨⟨_, rfl, fun _ => ?parents⟩, ⟨_, rfl, fun hno => absurd rfl hno⟩⟩
    -- the parents may be quite others, and then one fits over any
    refine Json.fits_each (fun _ => rfl) ?_
    intro p hp
    exact ⟨Json.fits_empty p.orderly.ascending, fun x _ => x.fits (hr.spaced p hp)⟩
  simp only [List.forall_mem_cons, Json.forall_nil, and_true]
  exact ⟨_, rfl, fun hno => absurd rfl hno⟩

theorem ReferenceGrant.fits (g h : ReferenceGrant) : Fits g.toJson h.toJson := by
  have hkeys : (["from", "to"] : List String).Pairwise (· < ·) := by decide
  refine Json.fits_obj (Table.ascending_of_keys _ (List.Sublist.refl _) hkeys)
    (Table.ascending_of_keys _ (List.Sublist.refl _) hkeys) ?_
  simp only [List.forall_mem_cons, Json.forall_nil, and_true]
  refine ⟨⟨_, rfl, Json.fits_each (fun _ => rfl) fun w _ => ?_⟩,
    ⟨_, rfl, Json.fits_each (fun _ => rfl) fun w _ => ?_⟩⟩
  · exact ⟨Json.fits_empty w.orderly.ascending, fun x _ => x.fits w⟩
  · exact ⟨Json.fits_empty w.orderly.ascending, fun x _ => x.fits w⟩

theorem DestinationRule.fits {c d : DestinationRule}
    (same : c.pool.isSome = d.pool.isSome) : Fits c.toJson d.toJson := by
  have hkeys : (["host", "trafficPolicy"] : List String).Pairwise (· < ·) := by decide
  refine Json.fits_obj (Table.ascending_of_keys _ (List.Sublist.refl _) hkeys)
    (Table.ascending_of_keys _ (List.Sublist.refl _) hkeys) ?_
  simp only [List.forall_mem_cons, Json.forall_nil, and_true]
  refine ⟨⟨_, rfl, Json.fits_str _ _⟩, ⟨_, rfl, ?policy⟩⟩
  refine Json.fits_obj c.orderly_policy.ascending d.orderly_policy.ascending ?_
  simp only [List.forall_mem_append, Json.forall_memberOf, List.forall_mem_cons,
    Json.forall_nil, and_true]
  refine ⟨?pool, ⟨_, ?balancer, Json.fits_single (Json.fits_str _ d.algorithm)⟩⟩
  case pool =>
    -- a pool stays a pool; one that is left out is cleared, which is not seen here
    intro p hp
    rw [hp] at same
    obtain ⟨q, hq⟩ := Option.isSome_iff_exists.mp same.symm
    refine ⟨.obj [("http", q.toJson)], ?_, Json.fits_single (p.fits q)⟩
    simp [Json.get?_append, hq]
  case balancer => simp [Json.get?_append, Table.get?_cons]

/-! ## §5. What is never changed -/

/-- Leaving out what is never changed makes no difference over a body with the same frame. -/
theorem Deployment.Alike.overlay_wanted {b d : Deployment} (h : b.Alike d) (hd : d.WellNamed) :
    (Json.overlay (.obj [("spec", b.specJson)]) (Body.deployment d).wanted).1
      = (Json.overlay (.obj [("spec", b.specJson)]) (.obj [("spec", d.specJson)])).1 := by
  have hhere : Table.get? b.specMembers "selector"
      = some (.obj [("matchLabels", .ofTexts d.selector)]) := by
    rw [← h.selector]
    rfl
  have hsel : Fits (.obj [("matchLabels", .ofTexts d.selector)])
      (.obj [("matchLabels", .ofTexts d.selector)]) :=
    (Json.orderly_single (Json.orderly_ofTexts hd.selector)).fits_self
  have herase := Json.overlay_erase b.ascending_spec d.ascending_spec hhere rfl hsel
  have hsingle : ∀ x y : Json, (Json.overlay (.obj [("spec", x)]) (.obj [("spec", y)])).1
      = .obj [("spec", (Json.overlay x y).1)] := by
    intro x y
    rfl
  rw [Deployment.wanted, hsingle, hsingle]
  exact congrArg (fun v => Json.obj [("spec", v)]) herase

/-- A walk into the template does not see the selector. -/
theorem Deployment.zipAlong_wanted {f : Json → Json → Json} (d : Deployment)
    (path : List Json.Step) (v : Json) :
    Json.zipAlong f (.member "spec" :: .member "template" :: path) v (Body.deployment d).wanted
      = Json.zipAlong f (.member "spec" :: .member "template" :: path) v
          (.obj [("spec", d.specJson)]) := by
  rw [Deployment.wanted, Deployment.specJson_eq]
  cases hx : v.get? "spec" with
  | none => rw [Json.zipAlong_member_left hx, Json.zipAlong_member_left hx]
  | some x =>
    rw [Json.zipAlong_member hx rfl, Json.zipAlong_member hx rfl]
    refine congrArg (v.setMember "spec") ?_
    cases hz : x.get? "template" with
    | none => rw [Json.zipAlong_member_left hz, Json.zipAlong_member_left hz]
    | some z => rw [Json.zipAlong_member hz rfl, Json.zipAlong_member hz rfl]

theorem RoleBinding.overlay_wanted {b c : RoleBinding} (same : b.role = c.role) :
    (Json.overlay b.bodyJson (Body.roleBinding c).wanted).1
      = (Json.overlay b.bodyJson c.bodyJson).1 := by
  have hhere : Table.get? b.members "roleRef" = some c.roleJson := by
    rw [← roleJson_congr same]
    rfl
  rw [bodyJson_eq, bodyJson_eq]
  exact Json.overlay_erase b.ascending_members c.ascending_members hhere rfl
    c.orderly_role.fits_self

/-! ## §6. No trace -/

/-- Where a body fits, clearing has nothing to do. -/
theorem Amend.data_of_fits {b : Body} {cur : Json} (object : cur.isObject = true)
    (whole : b.wanted = b.toJson)
    (fits : FitsBut (Amend.replacedRow b.kind).keys (Amend.replacedRow b.kind).parent cur
      b.toJson) :
    Amend.data b.kind b.toJson cur = b.toJson := by
  have hstart : Amend.start cur = cur := if_pos object
  rw [Amend.data_eq, hstart, whole, fits]
  exact Amend.clearRows_fixed fun row _ c d part k _ hk => part.eq_of_self ▸ hk

theorem Amend.clearedRows_deployment {row : OwnedMembers}
    (h : row ∈ Amend.clearedRows .deployment) :
    ∃ path, row.parent = .member "spec" :: .member "template" :: path := by
  rcases List.mem_cons.mp h with rfl | h
  · exact ⟨_, rfl⟩
  · rcases List.mem_cons.mp h with rfl | h
    · exact ⟨_, rfl⟩
    · rw [List.mem_singleton.mp h]
      exact ⟨_, rfl⟩

theorem Deployment.Alike.data {b d : Deployment} (h : b.Alike d) (hb : b.WellNamed)
    (hd : d.WellNamed) :
    Amend.data .deployment (Body.deployment d).toJson (Body.deployment b).toJson
      = (Body.deployment d).toJson := by
  -- the selector is not laid over, but it is there already
  have hlaid : (Json.overlay (Amend.start (Body.deployment b).toJson)
      (Body.deployment d).wanted).1
      = (Json.overlay (.obj [("spec", b.specJson)]) (.obj [("spec", d.specJson)])).1 :=
    h.overlay_wanted hd
  have hfits : Json.zipAlong (Amend.replaceMembers ["resources", "args"]) Amend.containers
      (Json.overlay (.obj [("spec", b.specJson)]) (.obj [("spec", d.specJson)])).1
      (Body.deployment d).wanted = (Body.deployment d).toJson :=
    (d.zipAlong_wanted _ _).trans (h.fits hb hd)
  -- replacing and clearing work inside the template, and do not see it either
  have hclear : ∀ v, Amend.clearRows (Amend.clearedRows .deployment) v (Body.deployment d).wanted
      = Amend.clearRows (Amend.clearedRows .deployment) v (Body.deployment d).toJson := by
    refine Amend.clearRows_congr ?_
    intro row hrow v
    obtain ⟨path, hpath⟩ := Amend.clearedRows_deployment hrow
    rw [hpath]
    exact d.zipAlong_wanted path v
  have hdata := Amend.data_eq (.deployment d) (Body.deployment b).toJson
  rw [hlaid] at hdata
  refine hdata.trans ?_
  show Amend.clearRows (Amend.clearedRows .deployment) (Json.zipAlong
    (Amend.replaceMembers ["resources", "args"]) Amend.containers _ _) _ = _
  rw [hfits, hclear]
  exact Amend.clearRows_fixed fun row _ c e part k _ hk => part.eq_of_self ▸ hk

theorem RoleBinding.data {b c : RoleBinding} (same : b.role = c.role) :
    Amend.data .roleBinding c.bodyJson b.bodyJson = c.bodyJson := by
  have hdata := Amend.data_eq (.roleBinding c) b.bodyJson
  have hlaid : (Json.overlay (Amend.start b.bodyJson) (Body.roleBinding c).wanted).1 = c.bodyJson :=
    (RoleBinding.overlay_wanted same).trans (RoleBinding.fits same)
  rw [hlaid] at hdata
  exact hdata

/-- Over a body with the same frame a body leaves no trace of it. -/
theorem Body.data_of_frame {b c : Body} (same : b.frame = c.frame) (hb : b.WellNamed)
    (hc : c.WellNamed) : Amend.data c.kind c.toJson b.toJson = c.toJson := by
  -- frames tell the kind, so that in each case both bodies are of one kind
  cases c with
  | serviceAccount =>
    cases b <;> simp only [Body.frame, reduceCtorEq] at same
    exact Amend.data_of_fits rfl rfl ((Json.fits_empty Table.ascending_nil).fitsBut _ _)
  | role s =>
    cases b <;> simp only [Body.frame, reduceCtorEq] at same
    case role r => exact Amend.data_of_fits rfl rfl ((r.fits s).fitsBut _ _)
  | roleBinding c =>
    cases b <;>
      simp only [Body.frame, reduceCtorEq, Body.roleBinding.injEq, RoleBinding.mk.injEq] at same
    case roleBinding b => exact RoleBinding.data same.1
  | configMap more =>
    cases b <;> simp only [Body.frame, reduceCtorEq] at same
    case configMap data => exact Amend.data_of_fits rfl rfl (configMap_fits data more)
  | deployment d =>
    cases b <;> simp only [Body.frame, reduceCtorEq, Body.deployment.injEq] at same
    case deployment b => exact (Deployment.alike_of_frame same).data hb hc
  | service s =>
    cases b <;> simp only [Body.frame, reduceCtorEq, Body.service.injEq] at same
    case service r => exact Amend.data_of_fits rfl rfl (Service.fits hc same)
  | gateway h =>
    cases b <;> simp only [Body.frame, reduceCtorEq, Body.gateway.injEq] at same
    case gateway g =>
      exact Amend.data_of_fits rfl rfl ((Json.fits_single (Gateway.fits hc same)).fitsBut _ _)
  | httpRoute r =>
    cases b <;> simp only [Body.frame, reduceCtorEq, Body.httpRoute.injEq] at same
    case httpRoute q => exact Amend.data_of_fits rfl rfl (HttpRoute.fits hc same)
  | referenceGrant h =>
    cases b <;> simp only [Body.frame, reduceCtorEq] at same
    case referenceGrant g =>
      exact Amend.data_of_fits rfl rfl ((Json.fits_single (g.fits h)).fitsBut _ _)
  | destinationRule d =>
    cases b <;> simp only [Body.frame, reduceCtorEq, Body.destinationRule.injEq] at same
    case destinationRule c =>
      have hpool : c.pool.isSome = d.pool.isSome := by
        have h := congrArg (fun d => d.pool.isSome) same
        simpa using h
      exact Amend.data_of_fits rfl rfl
        ((Json.fits_single (DestinationRule.fits hpool)).fitsBut _ _)

end Converge
