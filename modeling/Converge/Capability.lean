/-
  Converge.Capability — which optional kinds the cluster serves.

  A gate answers questions about kinds, with the help of a discovery that it
  asks for optional kinds only.  A gate without discovery takes every kind for
  served; a caching gate remembers each answer while it is younger than the
  gate's time to live.

  The discovery is a state machine: its answers may change from call to call.
-/
import Converge.Kind
import Converge.Roster
import Converge.Table

namespace Converge

/-! ## §1. Capabilities -/

/-- The kinds found to be missing; every other kind is served. -/
structure Capabilities where
  missing : Roster Kind := []
deriving DecidableEq, Repr, Inhabited

namespace Capabilities

/-- Every kind is served. -/
def full : Capabilities := {}

/-- Every kind but the given ones is served. -/
def without (kinds : List Kind) : Capabilities := ⟨Roster.ofList kinds⟩

/-- Whether a kind is served. -/
def supports (c : Capabilities) (k : Kind) : Bool := !c.missing.contains k

end Capabilities

/-! ## §2. Gates -/

/-- How a gate comes to its answers; times to live are in seconds. -/
inductive Gate where
  | open
  | asking
  | caching (ttl : Nat)
deriving DecidableEq, Repr, Inhabited

/-- Remembered answers with the times at which they were given. -/
abbrev Answers := Table Kind (Bool × Nat)

namespace Gate

/-- The answer a gate gives by itself at a time, if it can. -/
def known? (g : Gate) (answers : Answers) (now : Nat) (k : Kind) : Option Bool :=
  if !k.isOptional then some true
  else match g with
    | .open => some true
    | .asking => none
    | .caching ttl => match Table.get? answers k with
      | some (served, given) => if now - given < ttl then some served else none
      | none => none

/-- What a gate remembers after an answer of its discovery. -/
def remember (g : Gate) (answers : Answers) (now : Nat) (k : Kind) (served : Bool) : Answers :=
  match g with
  | .caching _ => Table.insert answers k (served, now)
  | .open | .asking => answers

variable {σ : Type}

/-- Whether a kind is supported, with `ask` as discovery. -/
def supported (g : Gate) (ask : Kind → σ → Bool × σ) (now : Nat) (k : Kind) (s : Answers × σ) :
    Bool × (Answers × σ) :=
  match g.known? s.1 now k with
  | some served => (served, s)
  | none =>
    let (served, inner) := ask k s.2
    (served, (g.remember s.1 now k served, inner))

/-- The kinds of a list that are not supported, asked for in order. -/
def missingOf (g : Gate) (ask : Kind → σ → Bool × σ) (now : Nat) :
    List Kind → Answers × σ → List Kind × (Answers × σ)
  | [], s => ([], s)
  | k :: rest, s =>
    let (served, s) := g.supported ask now k s
    let (missing, s) := g.missingOf ask now rest s
    (if served then missing else k :: missing, s)

/-- Ask for every optional kind once. -/
def resolve (g : Gate) (ask : Kind → σ → Bool × σ) (now : Nat) (s : Answers × σ) :
    Capabilities × (Answers × σ) :=
  let (missing, s) := g.missingOf ask now Kind.optionals s
  (Capabilities.without missing, s)

end Gate

/-! ## §3. A scripted discovery -/

/-- A discovery that answers for each kind from a list, its last answer
    repeating, and counts the questions.  Kinds without a list are served. -/
structure ScriptedDiscovery where
  answers : Table Kind (List Bool) := []
  calls : Nat := 0
deriving DecidableEq, Repr, Inhabited

namespace ScriptedDiscovery

/-- The next answer for a kind. -/
def ask (k : Kind) (d : ScriptedDiscovery) : Bool × ScriptedDiscovery :=
  let d := { d with calls := d.calls + 1 }
  match Table.get? d.answers k with
  | some (b :: c :: rest) => (b, { d with answers := Table.insert d.answers k (c :: rest) })
  | some [b] => (b, d)
  | some [] | none => (true, d)

end ScriptedDiscovery

end Converge
