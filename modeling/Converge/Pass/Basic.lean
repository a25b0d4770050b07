/-
  Converge.Pass.Basic — passes as programs over single requests.

  A pass is either done, failed, or asks for one thing and goes on with the
  answer.  Who answers is open: a handler gives the answer to every request from
  a state of its own.  So one program runs on a store in memory, under injected
  faults, or against an API server, and what other actors do between two requests
  can be said.
-/
import Converge.Capability
import Converge.Root
import Converge.Spec.Error
import Converge.Store.Call

namespace Converge

/-! ## §1. Faults and events -/

/-- Why a pass fails. -/
inductive PassError where
  | invalidSpec (e : SpecError)
  | store (e : StoreError)
  /-- The stored status of the root could not be read. -/
  | unreadableStatus
  | cancelled
deriving DecidableEq, Repr, Inhabited

/-- The text of a fault. -/
def PassError.message : PassError → String
  | invalidSpec e => "invalid spec: " ++ e.message
  | store e => e.message
  | unreadableStatus => StoreError.serialization.message
  | cancelled => "reconciliation cancelled"

/-- How grave an event is. -/
inductive Severity where
  | normal
  | warning
deriving DecidableEq, Repr, Inhabited

/-- The name of a severity. -/
def Severity.name : Severity → String
  | normal => "Normal"
  | warning => "Warning"

/-- What is told to people about a root. -/
structure Event where
  severity : Severity
  reason : String
  note : Option String := none
deriving DecidableEq, Repr, Inhabited

/-! ## §2. Requests -/

/-- One thing a pass may ask for. -/
inductive Request where
  /-- A call to the object store. -/
  | call (c : StoreCall)
  /-- Which optional kinds the cluster serves. -/
  | capabilities
  /-- Whether the controller is shutting down. -/
  | isCancelled
  /-- The time. -/
  | clock
  /-- Note in the ledger that a child was applied for a root. -/
  | record (root child : Key) (owned : Bool)
  /-- Drop a root from the ledger. -/
  | forget (root : Key)
  /-- The children of a root that outlive it, from the ledger. -/
  | linkedChildren (root : Key)
  /-- Tell an event of a root. -/
  | announce (root : Root) (event : Event)
deriving DecidableEq, Inhabited

/-- The answer to a request. -/
abbrev Request.Reply : Request → Type
  | call c => Except StoreError c.Reply
  | capabilities => Capabilities
  | isCancelled => Bool
  | clock => String
  | record _ _ _ => Unit
  | forget _ => Unit
  | linkedChildren _ => List Key
  | announce _ _ => Unit

/-! ## §3. Programs -/

/-- A program with a result of type `α`. -/
inductive Pass (α : Type) where
  | done (a : α)
  | fail (e : PassError)
  | ask (r : Request) (next : r.Reply → Pass α)

namespace Pass

variable {α β : Type}

/-- Go on with the result of a program; a failure ends the whole. -/
def bind : Pass α → (α → Pass β) → Pass β
  | done a, f => f a
  | fail e, _ => fail e
  | ask r next, f => ask r fun reply => (next reply).bind f

instance : Monad Pass where
  pure := done
  bind := bind

/-- The program whose result tells how `p` ended, and which does not fail. -/
def attempt : Pass α → Pass (Except PassError α)
  | done a => done (.ok a)
  | fail e => done (.error e)
  | ask r next => ask r fun reply => (next reply).attempt

/-- Ask for one thing. -/
def request (r : Request) : Pass r.Reply := ask r done

/-- The result of a store call, whose fault ends the program. -/
def ofReply : Except StoreError α → Pass α
  | .ok a => done a
  | .error e => fail (.store e)

/-- Make one store call. -/
def call (c : StoreCall) : Pass c.Reply := ask (.call c) ofReply

/-- A check, whose fault ends the program. -/
def ofCheck : Except SpecError Unit → Pass Unit
  | .ok _ => done ()
  | .error e => fail (.invalidSpec e)

/-! ## §4. Running -/

/-- Answers requests from a state. -/
abbrev Handler (σ : Type) := (r : Request) → σ → r.Reply × σ

/-- The end of a program and the state it leaves. -/
def run {σ : Type} (handler : Handler σ) : Pass α → σ → Except PassError α × σ
  | done a, s => (.ok a, s)
  | fail e, s => (.error e, s)
  | ask r next, s =>
    let answered := handler r s
    run handler (next answered.1) answered.2

@[simp] theorem bind_done (p : Pass α) : p.bind done = p := by
  induction p with
  | done a => rfl
  | fail e => rfl
  | ask r next ih => simp only [bind]; congr 1; funext reply; exact ih reply

theorem bind_assoc {γ : Type} (p : Pass α) (f : α → Pass β) (g : β → Pass γ) :
    (p.bind f).bind g = p.bind fun a => (f a).bind g := by
  induction p with
  | done a => rfl
  | fail e => rfl
  | ask r next ih => simp only [bind]; congr 1; funext reply; exact ih reply

/-- Running two programs in turn hands the state of the first to the second. -/
theorem run_bind {σ : Type} (handler : Handler σ) (p : Pass α) (f : α → Pass β) (s : σ) :
    (p.bind f).run handler s = match p.run handler s with
      | (.ok a, t) => (f a).run handler t
      | (.error e, t) => (.error e, t) := by
  induction p generalizing s with
  | done a => rfl
  | fail e => rfl
  | ask r next ih => simp only [bind, run]; exact ih _ _

end Pass

end Converge
