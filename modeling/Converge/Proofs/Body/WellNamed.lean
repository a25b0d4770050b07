/-
  Converge.Proofs.Body.WellNamed — bodies whose lists can be told apart by name.

  What a body is asked for is little: distinct names of containers, ports, variables, mounts,
  volumes and the like, and ascending labels.  The rest of the wire form is in order by the
  way it is written, and replaced members may be anything.

  Main statement: `WellNamed.regular`.
-/
import Converge.Proofs.Amend.InLine
import Converge.Proofs.Json.Records

namespace Converge

open Json (Orderly OrderlyBut nameOf?)

/-! ## §1. Distinct names -/

/-- Variables, ports and mounts have distinct names. -/
structure Container.WellNamed (c : Container) : Prop where
  env : (c.env.map (·.name)).Nodup
  ports : (c.ports.map (·.name)).Nodup
  mounts : (c.mounts.map (·.name)).Nodup

/-- Containers and volumes have distinct names, labels and annotations ascend. -/
structure Deployment.WellNamed (d : Deployment) : Prop where
  some : d.containers ≠ []
  containers : (d.containers.map (·.name)).Nodup
  each : ∀ c ∈ d.containers, c.WellNamed
  volumes : (d.volumes.map (·.name)).Nodup
  selector : Table.Ascending d.selector
  labels : Table.Ascending d.podLabels
  annotations : Table.Ascending d.podAnnotations

/-- Parents have distinct names and namespaces, and there are rules. -/
structure HttpRoute.WellNamed (r : HttpRoute) : Prop where
  some : r.rules ≠ []
  parents : (r.parents.map (·.name)).Nodup
  spaced : ∀ p ∈ r.parents, p.ns.isSome = true

/-- The entries of the lists of a body can be told apart. -/
def Body.WellNamed : Body → Prop
  | .deployment d => d.WellNamed
  | .service s => (s.ports.map (·.name)).Nodup
  | .gateway g => (g.listeners.map (·.name)).Nodup
  | .httpRoute r => r.WellNamed
  | .serviceAccount | .role _ | .roleBinding _ | .configMap _ | .referenceGrant _
  | .destinationRule _ => True

/-! ## §2. Names in the wire form -/

theorem ContainerPort.nameOf?_toJson (p : ContainerPort) : nameOf? p.toJson = some p.name := rfl

theorem EnvVar.nameOf?_toJson (e : EnvVar) : nameOf? e.toJson = some e.name := by
  obtain ⟨name, source⟩ := e
  cases source <;> rfl

theorem VolumeMount.nameOf?_toJson (m : VolumeMount) : nameOf? m.toJson = some m.name := rfl

theorem Volume.nameOf?_toJson (v : Volume) : nameOf? v.toJson = some v.name := rfl

theorem Listener.nameOf?_toJson (l : Listener) : nameOf? l.toJson = some l.name := rfl

theorem ServicePort.nameOf?_toJson (p : ServicePort) : nameOf? p.toJson = some p.name := rfl

theorem ParentRef.nameOf?_toJson (p : ParentRef) : nameOf? p.toJson = some p.name := rfl

theorem Container.nameOf?_toJson (c : Container) : nameOf? c.toJson = some c.name := by
  rw [Json.nameOf?_eq_some_iff]
  show Table.get? _ "name" = _
  simp [Json.get?_append, Table.get?_cons]

/-! ## §3. Parts in order -/

theorem ContainerPort.orderly (p : ContainerPort) : Orderly p.toJson := by
  refine Json.orderly_record ["containerPort", "name", "protocol"] (List.Sublist.refl _)
    (by decide) ?_
  simp only [List.forall_mem_cons, Json.forall_nil, and_true]
  exact ⟨.int _, .str _, .str _⟩

theorem EnvVar.orderly (e : EnvVar) : Orderly e.toJson := by
  obtain ⟨name, source⟩ := e
  cases source with
  | text value =>
    refine Json.orderly_record ["name", "value"] (List.Sublist.refl _) (by decide) ?_
    simp only [List.forall_mem_cons, Json.forall_nil, and_true]
    exact ⟨.str _, .str _⟩
  | field path =>
    have href : Orderly (.obj [("apiVersion", .str "v1"), ("fieldPath", .str path)]) := by
      refine Json.orderly_record ["apiVersion", "fieldPath"] (List.Sublist.refl _) (by decide) ?_
      simp only [List.forall_mem_cons, Json.forall_nil, and_true]
      exact ⟨.str _, .str _⟩
    refine Json.orderly_record ["name", "valueFrom"] (List.Sublist.refl _) (by decide) ?_
    simp only [List.forall_mem_cons, Json.forall_nil, and_true]
    exact ⟨.str _, Json.orderly_single href⟩

theorem VolumeMount.orderly (m : VolumeMount) : Orderly m.toJson := by
  refine Json.orderly_record ["mountPath", "name", "readOnly"] (List.Sublist.refl _)
    (by decide) ?_
  simp only [List.forall_mem_cons, Json.forall_nil, and_true]
  exact ⟨.str _, .str _, .bool _⟩

theorem Volume.orderly (v : Volume) : Orderly v.toJson := by
  have hmap : Orderly (.obj [("defaultMode", .int fileMode), ("name", .str v.configMap)]) := by
    refine Json.orderly_record ["defaultMode", "name"] (List.Sublist.refl _) (by decide) ?_
    simp only [List.forall_mem_cons, Json.forall_nil, and_true]
    exact ⟨.int _, .str _⟩
  refine Json.orderly_record ["configMap", "name"] (List.Sublist.refl _) (by decide) ?_
  simp only [List.forall_mem_cons, Json.forall_nil, and_true]
  exact ⟨hmap, .str _⟩

theorem Listener.orderly (l : Listener) : Orderly l.toJson := by
  refine Json.orderly_record ["name", "port", "protocol"] (List.Sublist.refl _) (by decide) ?_
  simp only [List.forall_mem_cons, Json.forall_nil, and_true]
  exact ⟨.str _, .int _, .str _⟩

theorem ServicePort.orderly (p : ServicePort) : Orderly p.toJson := by
  refine Json.orderly_record ["name", "port", "protocol", "targetPort"] (List.Sublist.refl _)
    (by decide) ?_
  simp only [List.forall_mem_cons, Json.forall_nil, and_true]
  exact ⟨.str _, .int _, .str _, .int _⟩

theorem AccessRule.orderly (r : AccessRule) : Orderly r.toJson := by
  refine Json.orderly_record ["apiGroups", "resources", "verbs"] (List.Sublist.refl _)
    (by decide) ?_
  simp only [List.forall_mem_cons, Json.forall_nil, and_true]
  exact ⟨Json.orderly_ofStrings _, Json.orderly_ofStrings _, Json.orderly_ofStrings _⟩

theorem ParentRef.orderly (p : ParentRef) : Orderly p.toJson := by
  refine Json.orderly_record (["group", "kind", "name"] ++ ["namespace"])
    (Table.keys_append_sublist (List.Sublist.refl _) (Json.keys_memberOf_sublist _ _ _))
    (by decide) ?_
  simp only [List.forall_mem_append, Json.forall_memberOf, List.forall_mem_cons,
    Json.forall_nil, and_true]
  exact ⟨⟨.str _, .str _, .str _⟩, fun ns _ => .str ns⟩

theorem PathMatch.orderly (m : PathMatch) : Orderly m.toJson := by
  refine Json.orderly_single ?_
  refine Json.orderly_record ["type", "value"] (List.Sublist.refl _) (by decide) ?_
  simp only [List.forall_mem_cons, Json.forall_nil, and_true]
  exact ⟨.str _, .str _⟩

theorem Timeouts.orderly (t : Timeouts) : Orderly t.toJson := by
  refine Json.orderly_record ["backendRequest", "request"] (List.Sublist.refl _) (by decide) ?_
  simp only [List.forall_mem_cons, Json.forall_nil, and_true]
  exact ⟨.str _, .str _⟩

theorem GrantFrom.orderly (g : GrantFrom) : Orderly g.toJson := by
  refine Json.orderly_record ["group", "kind", "namespace"] (List.Sublist.refl _) (by decide) ?_
  simp only [List.forall_mem_cons, Json.forall_nil, and_true]
  exact ⟨.str _, .str _, .str _⟩

theorem GrantTo.orderly (g : GrantTo) : Orderly g.toJson := by
  refine Json.orderly_record ["group", "kind"] (List.Sublist.refl _) (by decide) ?_
  simp only [List.forall_mem_cons, Json.forall_nil, and_true]
  exact ⟨.str _, .str _⟩

theorem PoolLimits.orderly (p : PoolLimits) : Orderly p.toJson := by
  refine Json.orderly_record ["http1MaxPendingRequests", "maxRequestsPerConnection"]
    (List.Sublist.refl _) (by decide) ?_
  simp only [List.forall_mem_cons, Json.forall_nil, and_true]
  exact ⟨.int _, .int _⟩

theorem Probe.orderly (p : Probe) : Orderly p.toJson := by
  have hport : ∀ port : Int32, Orderly (.obj [("port", .ofInt32 port)]) :=
    fun port => Json.orderly_single (.int _)
  have hget : ∀ (path : String) (port : Int32), Orderly
      (.obj [("path", .str path), ("port", .ofInt32 port), ("scheme", .str "HTTP")]) := by
    intro path port
    refine Json.orderly_record ["path", "port", "scheme"] (List.Sublist.refl _) (by decide) ?_
    simp only [List.forall_mem_cons, Json.forall_nil, and_true]
    exact ⟨.str _, .int _, .str _⟩
  obtain ⟨target, timing⟩ := p
  -- the target is written under one of two keys, which stand in different places
  cases target with
  | tcp port =>
    refine Json.orderly_record (["failureThreshold"] ++ [] ++ ["initialDelaySeconds"]
        ++ ["periodSeconds", "successThreshold"] ++ ["tcpSocket"] ++ ["timeoutSeconds"])
      (Table.keys_append_sublist (Table.keys_append_sublist (Table.keys_append_sublist
        (Table.keys_append_sublist (List.Sublist.refl _) (Json.keys_memberIf_sublist _ _ _))
        (List.Sublist.refl _)) (List.Sublist.refl _)) (List.Sublist.refl _))
      (by decide) ?_
    simp only [List.forall_mem_append, Json.forall_memberIf, List.forall_mem_cons,
      Json.forall_nil, and_true]
    exact ⟨⟨⟨⟨.int _, fun _ => .int _⟩, .int _, .int _⟩, hport port⟩, .int _⟩
  | http path port =>
    refine Json.orderly_record (["failureThreshold"] ++ ["httpGet"] ++ ["initialDelaySeconds"]
        ++ ["periodSeconds", "successThreshold"] ++ [] ++ ["timeoutSeconds"])
      (Table.keys_append_sublist (Table.keys_append_sublist (Table.keys_append_sublist
        (Table.keys_append_sublist (List.Sublist.refl _) (Json.keys_memberIf_sublist _ _ _))
        (List.Sublist.refl _)) (List.Sublist.refl _)) (List.Sublist.refl _))
      (by decide) ?_
    simp only [List.forall_mem_append, Json.forall_memberIf, List.forall_mem_cons,
      Json.forall_nil, and_true]
    exact ⟨⟨⟨⟨.int _, hget path port⟩, fun _ => .int _⟩, .int _, .int _⟩, .int _⟩

/-! ## §4. Containers and pods -/

/-- Resources and arguments apart, a container is in order. -/
theorem Container.WellNamed.orderlyBut {c : Container} (h : c.WellNamed) :
    OrderlyBut ["resources", "args"] [] c.toJson := by
  refine .here ?_ ?_
  · -- members that may be missing are written between the others, in key order
    refine Table.ascending_of_keys (["args"] ++ ["env"] ++ ["image", "imagePullPolicy"]
        ++ ["livenessProbe"] ++ ["name"] ++ ["ports"] ++ ["readinessProbe"] ++ ["resources"]
        ++ ["startupProbe"] ++ ["volumeMounts"]) ?_ (by decide)
    refine Table.keys_append_sublist ?_ (Json.keys_listMember_sublist _ _ _)
    refine Table.keys_append_sublist ?_ (Json.keys_memberOf_sublist _ _ _)
    refine Table.keys_append_sublist ?_ (Json.keys_memberOf_sublist _ _ _)
    refine Table.keys_append_sublist ?_ (Json.keys_memberOf_sublist _ _ _)
    refine Table.keys_append_sublist ?_ (Json.keys_listMember_sublist _ _ _)
    refine Table.keys_append_sublist ?_ (List.Sublist.refl _)
    refine Table.keys_append_sublist ?_ (Json.keys_memberOf_sublist _ _ _)
    refine Table.keys_append_sublist ?_ (List.Sublist.refl _)
    exact Table.keys_append_sublist (List.Sublist.refl _) (Json.keys_listMember_sublist _ _ _)
  · simp only [List.forall_mem_append, Json.forall_memberOf, Json.forall_listMember,
      List.forall_mem_cons, Json.forall_nil, and_true]
    refine ⟨⟨⟨⟨⟨⟨⟨⟨⟨?args, ?env⟩, ?image, ?policy⟩, ?liveness⟩, ?name⟩, ?ports⟩, ?readiness⟩,
      ?resources⟩, ?startup⟩, ?mounts⟩
    case args => exact fun hno => absurd (by simp) hno
    case env =>
      exact fun _ _ => Json.orderly_named EnvVar.nameOf?_toJson h.env fun e _ => e.orderly
    case image => exact fun _ => .str _
    case policy => exact fun _ => .str _
    case liveness => exact fun p _ _ => p.orderly
    case name => exact fun _ => .str _
    case ports =>
      exact fun _ _ =>
        Json.orderly_named ContainerPort.nameOf?_toJson h.ports fun p _ => p.orderly
    case readiness => exact fun p _ _ => p.orderly
    case resources => exact fun _ _ hno => absurd (by simp) hno
    case startup => exact fun p _ _ => p.orderly
    case mounts =>
      exact fun _ _ => Json.orderly_named VolumeMount.nameOf?_toJson h.mounts fun m _ => m.orderly

/-- The spec of the pods of a deployment. -/
def Deployment.podJson (d : Deployment) : Json :=
  .obj ([("containers", .arr (d.containers.map Container.toJson))]
    ++ Json.memberOf "serviceAccountName" .str d.serviceAccount
    ++ Json.listMember "volumes" Volume.toJson d.volumes)

/-- The template of the pods of a deployment. -/
def Deployment.templateJson (d : Deployment) : Json :=
  .obj [("metadata", .obj (
      Json.memberIf (!d.podAnnotations.isEmpty) "annotations" (.ofTexts d.podAnnotations)
        ++ [("labels", .ofTexts d.podLabels)])),
    ("spec", d.podJson)]

/-- The members of the spec of a deployment. -/
def Deployment.specMembers (d : Deployment) : Table String Json :=
  [("replicas", .ofInt32 d.replicas),
    ("selector", .obj [("matchLabels", .ofTexts d.selector)]),
    ("template", d.templateJson)]

theorem Deployment.specJson_eq (d : Deployment) : d.specJson = .obj d.specMembers := rfl

theorem Deployment.ascending_spec (d : Deployment) : Table.Ascending d.specMembers :=
  Table.ascending_of_keys ["replicas", "selector", "template"] (List.Sublist.refl _) (by decide)

/-- The labels and annotations of pods. -/
theorem Deployment.WellNamed.orderly_metadata {d : Deployment} (h : d.WellNamed) :
    Orderly (.obj (Json.memberIf (!d.podAnnotations.isEmpty) "annotations"
      (.ofTexts d.podAnnotations) ++ [("labels", .ofTexts d.podLabels)])) := by
  refine Json.orderly_record (["annotations"] ++ ["labels"])
    (Table.keys_append_sublist (Json.keys_memberIf_sublist _ _ _) (List.Sublist.refl _))
    (by decide) ?_
  simp only [List.forall_mem_append, Json.forall_memberIf, List.forall_mem_cons, Json.forall_nil,
    and_true]
  exact ⟨fun _ => Json.orderly_ofTexts h.annotations, Json.orderly_ofTexts h.labels⟩

theorem Deployment.WellNamed.orderlyBut_containers {d : Deployment} (h : d.WellNamed) :
    OrderlyBut ["resources", "args"] [.entries] (.arr (d.containers.map Container.toJson)) := by
  refine .entries ?_ ?_ ?_
  · exact Json.isEntryList_map (fun _ => rfl) h.some
  · exact fun _ => Json.nodup_names Container.nameOf?_toJson h.containers
  · intro v hv
    obtain ⟨c, hc, rfl⟩ := List.mem_map.mp hv
    exact (h.each c hc).orderlyBut

theorem Deployment.WellNamed.orderlyBut_pod {d : Deployment} (h : d.WellNamed) :
    OrderlyBut ["resources", "args"] [.member "containers", .entries] d.podJson := by
  refine .member ?_ ?_ ?_
  · refine Table.ascending_of_keys (["containers"] ++ ["serviceAccountName"] ++ ["volumes"]) ?_
      (by decide)
    exact Table.keys_append_sublist (Table.keys_append_sublist (List.Sublist.refl _)
      (Json.keys_memberOf_sublist _ _ _)) (Json.keys_listMember_sublist _ _ _)
  · intro y hy
    have heq : Json.arr (d.containers.map Container.toJson) = y := Option.some.inj hy
    exact heq ▸ h.orderlyBut_containers
  · simp only [List.forall_mem_append, Json.forall_memberOf, Json.forall_listMember,
      List.forall_mem_cons, Json.forall_nil, and_true]
    refine ⟨⟨?containers, ?account⟩, ?volumes⟩
    case containers => exact fun hno => absurd rfl hno
    case account => exact fun s _ _ => .str s
    case volumes =>
      exact fun _ _ => Json.orderly_named Volume.nameOf?_toJson h.volumes fun v _ => v.orderly

/-- What is wanted of a deployment: its spec without the selector. -/
theorem Deployment.wanted (d : Deployment) : (Body.deployment d).wanted
    = .obj [("spec", .obj [("replicas", .ofInt32 d.replicas), ("template", d.templateJson)])] := rfl

theorem Deployment.WellNamed.regular {d : Deployment} (h : d.WellNamed) :
    (Body.deployment d).Regular := by
  unfold Body.Regular
  rw [Deployment.wanted]
  show OrderlyBut ["resources", "args"] [.member "spec", .member "template", .member "spec",
    .member "containers", .entries] _
  -- down the path to the containers, member by member
  refine .member (Table.ascending_of_keys ["spec"] (List.Sublist.refl _) (by decide)) ?_ ?_
  · intro y hy
    injection hy with hy
    subst hy
    refine .member (Table.ascending_of_keys ["replicas", "template"] (List.Sublist.refl _)
      (by decide)) ?_ ?_
    · intro y hy
      injection hy with hy
      subst hy
      refine .member (Table.ascending_of_keys ["metadata", "spec"] (List.Sublist.refl _)
        (by decide)) ?_ ?_
      · intro y hy
        injection hy with hy
        subst hy
        exact h.orderlyBut_pod
      · simp only [List.forall_mem_cons, Json.forall_nil, and_true]
        exact ⟨fun _ => h.orderly_metadata, fun hno => absurd rfl hno⟩
    · simp only [List.forall_mem_cons, Json.forall_nil, and_true]
      exact ⟨fun _ => .int _, fun hno => absurd rfl hno⟩
  · simp only [List.forall_mem_cons, Json.forall_nil, and_true]
    exact fun hno => absurd rfl hno

/-! ## §5. The other bodies -/

/-- A part on which no path is walked may have any members replaced. -/
theorem Json.OrderlyBut.of_orderly {keys : List String} {ms : Table String Json}
    (h : Orderly (.obj ms)) : OrderlyBut keys [] (.obj ms) := by
  cases h with
  | obj order each => exact .here order fun e he _ => each e he

theorem Role.regular (r : Role) : (Body.role r).Regular := by
  refine Json.OrderlyBut.of_orderly (Json.orderly_single ?_)
  exact Json.orderly_nameless (f := AccessRule.toJson) (fun _ => rfl) fun x _ => x.orderly

/-- The role a binding is to. -/
def RoleBinding.roleJson (b : RoleBinding) : Json :=
  .obj [("apiGroup", .str rbacGroup), ("kind", .str Kind.role.name), ("name", .str b.role)]

/-- The account a binding is for. -/
def RoleBinding.subjectJson (b : RoleBinding) : Json :=
  .obj [("kind", .str Kind.serviceAccount.name), ("name", .str b.account),
    ("namespace", .str b.accountNamespace)]

/-- The members of a binding. -/
def RoleBinding.members (b : RoleBinding) : Table String Json :=
  [("roleRef", b.roleJson), ("subjects", .arr [b.subjectJson])]

theorem RoleBinding.bodyJson_eq (b : RoleBinding) : b.bodyJson = .obj b.members := rfl

theorem RoleBinding.ascending_members (b : RoleBinding) : Table.Ascending b.members :=
  Table.ascending_of_keys ["roleRef", "subjects"] (List.Sublist.refl _) (by decide)

theorem RoleBinding.orderly_role (b : RoleBinding) : Orderly b.roleJson := by
  refine Json.orderly_record ["apiGroup", "kind", "name"] (List.Sublist.refl _) (by decide) ?_
  simp only [List.forall_mem_cons, Json.forall_nil, and_true]
  exact ⟨.str _, .str _, .str _⟩

theorem RoleBinding.orderly_subject (b : RoleBinding) : Orderly b.subjectJson := by
  refine Json.orderly_record ["kind", "name", "namespace"] (List.Sublist.refl _) (by decide) ?_
  simp only [List.forall_mem_cons, Json.forall_nil, and_true]
  exact ⟨.str _, .str _, .str _⟩

/-- What is wanted of a binding: whom it is for, but not the role. -/
theorem RoleBinding.wanted (b : RoleBinding) :
    (Body.roleBinding b).wanted = .obj [("subjects", .arr [b.subjectJson])] := rfl

theorem RoleBinding.regular (b : RoleBinding) : (Body.roleBinding b).Regular := by
  unfold Body.Regular
  rw [RoleBinding.wanted]
  refine Json.OrderlyBut.of_orderly (Json.orderly_single (.arr (fun _ => ?_) ?_))
  · exact List.pairwise_singleton _ _
  · intro v hv
    rw [List.mem_singleton.mp hv]
    exact b.orderly_subject

theorem configMap_regular (data : Table String String) : (Body.configMap data).Regular := by
  show OrderlyBut ["data"] [] (.obj [("data", .ofTexts data)])
  refine .here (Table.ascending_of_keys ["data"] (List.Sublist.refl _) (by decide)) ?_
  simp only [List.forall_mem_cons, Json.forall_nil, and_true]
  exact fun hno => absurd (by decide) hno

theorem Service.regular {s : Service} (h : (s.ports.map (·.name)).Nodup) :
    (Body.service s).Regular := by
  show OrderlyBut ["selector"] [.member "spec"] (.obj [("spec", s.specJson)])
  refine .member (Table.ascending_of_keys ["spec"] (List.Sublist.refl _) (by decide)) ?_ ?_
  · intro y hy
    injection hy with hy
    subst hy
    refine .here (Table.ascending_of_keys ["ports", "selector", "type"] (List.Sublist.refl _)
      (by decide)) ?_
    simp only [List.forall_mem_cons, Json.forall_nil, and_true]
    refine ⟨fun _ => ?ports, fun hno => absurd (by decide) hno, fun _ => .str _⟩
    exact Json.orderly_named ServicePort.nameOf?_toJson h fun p _ => p.orderly
  · simp only [List.forall_mem_cons, Json.forall_nil, and_true]
    exact fun hno => absurd rfl hno

theorem Gateway.regular {g : Gateway} (h : (g.listeners.map (·.name)).Nodup) :
    (Body.gateway g).Regular := by
  refine Json.OrderlyBut.of_orderly (Json.orderly_single ?_)
  refine Json.orderly_record ["gatewayClassName", "listeners"] (List.Sublist.refl _)
    (by decide) ?_
  simp only [List.forall_mem_cons, Json.forall_nil, and_true]
  exact ⟨.str _, Json.orderly_named Listener.nameOf?_toJson h fun l _ => l.orderly⟩

/-- Backends apart, a rule is in order. -/
theorem RouteRule.orderlyBut (r : RouteRule) : OrderlyBut ["backendRefs"] [] r.toJson := by
  refine .here ?_ ?_
  · exact Table.ascending_of_keys (["backendRefs", "matches"] ++ ["timeouts"])
      (Table.keys_append_sublist (List.Sublist.refl _) (Json.keys_memberOf_sublist _ _ _))
      (by decide)
  · simp only [List.forall_mem_append, Json.forall_memberOf, List.forall_mem_cons,
      Json.forall_nil, and_true]
    refine ⟨⟨fun hno => absurd (by simp) hno, fun _ => ?paths⟩, fun t _ _ => t.orderly⟩
    exact Json.orderly_nameless (f := PathMatch.toJson) (fun _ => rfl) fun m _ => m.orderly

theorem RouteRule.nameOf?_toJson (r : RouteRule) : nameOf? r.toJson = none := by
  unfold nameOf? RouteRule.toJson
  show (Table.get? _ "name").bind _ = none
  simp [Table.get?_cons]

theorem RouteRule.map_nameOf? (rules : List RouteRule) :
    (rules.map toJson).map nameOf? = List.replicate rules.length none := by
  rw [List.map_map, List.map_congr_left (fun r _ => r.nameOf?_toJson), List.map_const']

/-- Rules are not paired by name. -/
theorem RouteRule.names {rules : List RouteRule} (some : rules ≠ [])
    (named : Json.allNamed (rules.map toJson) = true) :
    ((rules.map toJson).map nameOf?).Nodup := by
  obtain ⟨r, hr⟩ := List.exists_mem_of_ne_nil rules some
  have hname := List.all_eq_true.mp named _ (List.mem_map_of_mem hr)
  rw [r.nameOf?_toJson] at hname
  exact absurd hname nofun

theorem HttpRoute.WellNamed.regular {r : HttpRoute} (h : r.WellNamed) :
    (Body.httpRoute r).Regular := by
  show OrderlyBut ["backendRefs"] [.member "spec", .member "rules", .entries]
    (.obj [("spec", r.toJson)])
  refine .member (Table.ascending_of_keys ["spec"] (List.Sublist.refl _) (by decide)) ?_ ?_
  · intro y hy
    injection hy with hy
    subst hy
    refine .member (Table.ascending_of_keys ["parentRefs", "rules"] (List.Sublist.refl _)
      (by decide)) ?_ ?_
    · intro y hy
      have heq : Json.arr (r.rules.map RouteRule.toJson) = y := Option.some.inj hy
      subst heq
      refine .entries ?_ ?_ ?_
      · exact Json.isEntryList_map (fun _ => rfl) h.some
      · exact RouteRule.names h.some
      · intro v hv
        obtain ⟨x, _, rfl⟩ := List.mem_map.mp hv
        exact x.orderlyBut
    · simp only [List.forall_mem_cons, Json.forall_nil, and_true]
      refine ⟨fun _ => ?parents, fun hno => absurd rfl hno⟩
      exact Json.orderly_named ParentRef.nameOf?_toJson h.parents fun p _ => p.orderly
  · simp only [List.forall_mem_cons, Json.forall_nil, and_true]
    exact fun hno => absurd rfl hno

theorem ReferenceGrant.regular (g : ReferenceGrant) : (Body.referenceGrant g).Regular := by
  refine Json.OrderlyBut.of_orderly (Json.orderly_single ?_)
  refine Json.orderly_record ["from", "to"] (List.Sublist.refl _) (by decide) ?_
  simp only [List.forall_mem_cons, Json.forall_nil, and_true]
  exact ⟨Json.orderly_nameless (f := GrantFrom.toJson) (fun _ => rfl) fun x _ => x.orderly,
    Json.orderly_nameless (f := GrantTo.toJson) (fun _ => rfl) fun x _ => x.orderly⟩

theorem DestinationRule.orderly_policy (d : DestinationRule) : Orderly (.obj (
    Json.memberOf "connectionPool" (fun p => .obj [("http", p.toJson)]) d.pool
      ++ [("loadBalancer", .obj [("simple", .str d.algorithm)])])) := by
  refine Json.orderly_record (["connectionPool"] ++ ["loadBalancer"])
    (Table.keys_append_sublist (Json.keys_memberOf_sublist _ _ _) (List.Sublist.refl _))
    (by decide) ?_
  simp only [List.forall_mem_append, Json.forall_memberOf, List.forall_mem_cons,
    Json.forall_nil, and_true]
  exact ⟨fun p _ => Json.orderly_single p.orderly, Json.orderly_single (.str _)⟩

theorem DestinationRule.regular (d : DestinationRule) : (Body.destinationRule d).Regular := by
  refine Json.OrderlyBut.of_orderly (Json.orderly_single ?_)
  refine Json.orderly_record ["host", "trafficPolicy"] (List.Sublist.refl _) (by decide) ?_
  simp only [List.forall_mem_cons, Json.forall_nil, and_true]
  exact ⟨.str _, d.orderly_policy⟩

/-- Well-named bodies are regular. -/
theorem Body.WellNamed.regular {b : Body} (h : b.WellNamed) : b.Regular := by
  cases b with
  | serviceAccount => exact Json.OrderlyBut.of_orderly (.obj Table.ascending_nil (by simp))
  | role r => exact r.regular
  | roleBinding b => exact b.regular
  | configMap data => exact configMap_regular data
  | deployment d => exact Deployment.WellNamed.regular h
  | service s => exact Service.regular h
  | gateway g => exact Gateway.regular h
  | httpRoute r => exact HttpRoute.WellNamed.regular h
  | referenceGrant g => exact g.regular
  | destinationRule d => exact d.regular

end Converge
