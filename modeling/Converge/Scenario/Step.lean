/-
  Converge.Scenario.Step — steps of a scenario and what they answer.

  A scenario drives one store and one controller: passes, parts of passes, calls
  to the store, and edits by other actors.
-/
import Converge.Object.Edit
import Converge.Scenario.World

namespace Converge

/-! ## §1. Steps -/

/-- The object a pass is run on. -/
inductive PassSubject where
  /-- The stored one. -/
  | stored (key : Key)
  /-- One given with the step. -/
  | given (kind : RootKind) (object : Json)
deriving Inhabited

/-- The children of a root to apply: those of its spec, or the ones at the given
    positions among them. -/
structure ChildChoice where
  root : Root
  spec : RootSpec
  missing : List Kind := []
  only : Option (List Nat) := none
deriving Inhabited

/-- The children of a choice. -/
def ChildChoice.children (c : ChildChoice) : List Child :=
  let all := c.spec.children c.root (Capabilities.without c.missing)
  match c.only with
  | none => all
  | some positions => positions.filterMap fun i => all[i]?

/-- How a status write changes the rest of the status. -/
structure SummaryChange where
  root : Root
  spec : Simulator.Spec
  observations : List Observation
deriving Inhabited

/-- One step. -/
inductive ScenarioStep where
  | insert (key : Key) (object : Object)
  | seed (resource : RootResource)
  | call (c : StoreCall)
  | modify (key : Key) (edit : Edit)
  | setReady (key : Key) (ready : Int32)
  | makeAllReady
  | reconcile (subject : PassSubject) (edit : Edit) (deleting : Bool)
  | restart (settings : Settings) (lacking : Option (List Kind))
  | cancel
  | apply (choice : ChildChoice)
  | applyAll (choice : ChildChoice)
  | observe (keys : List Key)
  | writeStatus (key : Key) (generation : Option Int64) (verdict : Verdict) (now : String)
      (summary : Option SummaryChange)
  | holdRoot (root : Root) (linked : List String)
  | releaseRoot (root : Root) (scope : Option (List String)) (missing : List Kind)
  | record (root child : Key) (owned : Bool)
  | forget (root : Key)
  | ledger (root : Key)
  | keys
  | versions
  | inspect (key : Key)
  | status (key : Key)
  | dump
deriving Inhabited

/-! ## §2. Answers -/

/-- What a step answers. -/
inductive StepAnswer where
  | nothing
  | absent
  /-- A part of the step could not be read. -/
  | unreadable
  | fault (e : PassError)
  | key (k : Key)
  | keys (ks : List Key)
  | object (o : Object)
  | objects (os : List Object)
  | named (os : List Object)
  | value (v : Json)
  | next (n : NextLook)
  | outcomes (os : List (Except PassError ApplyOutcome))
  | tally (t : Tally)
  | observations (os : List Observation)
  | written (w : StatusWrite)
  | flag (b : Bool)
  | count (n : Nat)
  | ledger (children : Table Key Bool) (linked : List Key)
  | versions (vs : List (Key × Option String))
deriving Inhabited

/-! ## §3. Running a step -/

namespace ScenarioStep

/-- Run a program in the world and answer its result. -/
def runPass {α : Type} (p : Pass α) (answer : α → StepAnswer) (w : World) : StepAnswer × World :=
  match p.run World.handle w with
  | (.ok a, w) => (answer a, w)
  | (.error e, w) => (.fault e, w)

/-- The answer to a store call. -/
def callAnswer : (c : StoreCall) → c.Reply → StepAnswer
  | .get _, some o => .object o
  | .get _, none => .nothing
  | .create _ _, o => .object o
  | .update _ _, o => .object o
  | .updateStatus _ _, o => .object o
  | .list _ _ _, os => .named os
  | .delete _, _ => .nothing

/-- Apply each child by itself. -/
def applyEach (root : Key) : List Child → World → List (Except PassError ApplyOutcome) × World
  | [], w => ([], w)
  | c :: rest, w =>
    let (outcome, w) := (Pass.apply root c).run World.handle w
    let (outcomes, w) := applyEach root rest w
    (outcome :: outcomes, w)

/-- The deletion mark of an edited root. -/
def deletionMark : Json := .str "2024-01-01T00:00:00Z"

/-- The wire form of a pass's subject, edited. -/
def subjectForm? (w : World) (subject : PassSubject) (edit : Edit) (deleting : Bool) :
    Option (RootKind × Json) := do
  let (kind, form) ← match subject with
    | .stored key => do
      let kind ← RootKind.ofKind? key.kind
      let o ← Table.get? w.store.objects key
      pure (kind, o.toJson)
    | .given kind form => pure (kind, form)
  let form := edit.apply form
  let form := if deleting then
      Json.editAt (fun _ => deletionMark) [.member "metadata", .member "deletionTimestamp"] form
    else form
  pure (kind, form)

/-- Run one step. -/
def run (step : ScenarioStep) (w : World) : StepAnswer × World :=
  match step with
  | insert key o => (.nothing, { w with store := w.store.seed key o })
  | seed r => match Object.ofJson? r.write with
    | some o => (.key r.root.key, { w with store := w.store.seed r.root.key o })
    | none => (.unreadable, w)
  | call c => match w.call c with
    | (.ok reply, w) => (callAnswer c reply, w)
    | (.error e, w) => (.fault (.store e), w)
  | modify key edit => match Table.get? w.store.objects key with
    | none => (.absent, w)
    | some o => match edit.applyTo? o with
      | some o => (.nothing, { w with store := w.store.modify key fun _ => o })
      | none => (.unreadable, w)
  | setReady key ready =>
    if Table.has w.store.objects key then
      (.nothing, { w with store := w.store.setReady key ready })
    else (.absent, w)
  | makeAllReady => (.nothing, { w with store := w.store.makeAllReady })
  | reconcile subject edit deleting => match subjectForm? w subject edit deleting with
    | none => (.absent, w)
    | some (kind, form) => match RootResource.read? kind form with
      | none => (.unreadable, w)
      | some r => runPass (r.pass w.settings) .next w
  | restart settings lacking => (.nothing, w.restarted settings lacking)
  | cancel => (.nothing, { w with cancelled := true })
  | apply choice =>
    let (outcomes, w) := applyEach choice.root.key choice.children w
    (.outcomes outcomes, w)
  | applyAll choice =>
    runPass (Pass.applyAll choice.root.key choice.children {}) .tally w
  | observe ks => runPass (Pass.observe ks) .observations w
  | writeStatus key generation verdict now summary =>
    match RootKind.ofKind? key.kind with
    | some .simulatorDeployment =>
      let change (s : Simulator.Status) : Simulator.Status := match summary with
        | some c => (c.spec.withDefaults c.root.name).summarize c.root c.observations s
        | none => s
      runPass (Pass.writeStatus Simulator.statusForm key generation verdict now change) .written w
    | _ => runPass (Pass.writeStatus Install.statusForm key generation verdict now id) .written w
  | holdRoot root linked => runPass (Pass.holdRoot root (Roster.ofList linked)) .flag w
  | releaseRoot root scope missing =>
    runPass (Pass.releaseRoot root (scope.map Roster.ofList) (Capabilities.without missing))
      .count w
  | record root child owned => (.nothing, { w with ledger := w.ledger.record root child owned })
  | forget root => (.nothing, { w with ledger := w.ledger.forget root })
  | ledger root => (.ledger (w.ledger.children root) (w.ledger.linked root), w)
  | keys => (.keys (Table.keys w.store.objects), w)
  | versions =>
    (.versions (w.store.objects.map fun e => (e.1, e.2.metadata.resourceVersion)), w)
  | inspect key => match Table.get? w.store.objects key with
    | some o => (.object o, w)
    | none => (.nothing, w)
  | status key => match Table.get? w.store.objects key with
    | some o => (.value (o.data.follow ["status"]), w)
    | none => (.nothing, w)
  | dump => (.objects (w.store.objects.map (·.2)), w)

end ScenarioStep

/-! ## §4. Running a scenario -/

/-- What is seen of one step: its answer, and the logs of the step alone. -/
structure StepReport where
  answer : StepAnswer
  reads : Nat
  writes : List (WriteOp × Key)
  events : List (Root × Event)
deriving Inhabited

/-- A step that was read, with its disturbances, or one that could not be read. -/
abbrev PlannedStep := Option (ScenarioStep × List Disturbance)

/-- Run steps in turn, the first of them at position `i`. -/
def runScenario : Nat → List PlannedStep → World → List StepReport
  | _, [], _ => []
  | i, planned :: rest, w =>
    let w := w.prepared ((planned.map (·.2)).getD []) ("step-" ++ toString i)
    let (answer, w) := match planned with
      | some (step, _) => step.run w
      | none => (.unreadable, w)
    { answer, reads := w.store.reads, writes := w.store.writes, events := w.events }
      :: runScenario (i + 1) rest w

end Converge
