/-
  Converge.Json.Overlay — laying a desired value over a current one.

  Objects gain or overwrite members.  A non-empty list of objects decides which
  entries there are: its entries are paired with current ones by name when all
  of them have names, otherwise by position, and each is laid over its partner.
  Anything else is replaced when it does not agree.  What the desired value does
  not mention stays.

  The answer comes with the mark `changed`: whether any step changed something.
-/
import Converge.Json.Agreement

namespace Converge.Json

/-! ## §1. Pairing list entries -/

/-- The name of a list entry. -/
def nameOf? (v : Json) : Option String := (v.get? "name").bind text?

/-- Whether every entry has a name. -/
def allNamed (xs : List Json) : Bool := xs.all fun w => (nameOf? w).isSome

/-- The position of the current entry with which the entry `w`, itself at
    position `i`, is paired. -/
def partner? (cur : List Json) (named : Bool) (i : Nat) (w : Json) : Option Nat :=
  if named then cur.findIdx? fun c => nameOf? c == nameOf? w
  else if i < cur.length then some i else none

/-- Whether a list is laid over another entry by entry. -/
def isEntryList (want : List Json) : Bool := !want.isEmpty && want.all isObject

/-- Replace a value by another, unless they agree. -/
def swap (cur want : Json) : Json × Bool :=
  if cur.agrees want then (cur, false) else (want, true)

/-! ## §2. Laying over -/

mutual

/-- Lay a desired value over a current one. -/
def overlay (cur : Json) : Json → Json × Bool
  | .obj want => match cur with
    | .obj ms =>
      let r := overlayMembers ms want
      (.obj r.1, r.2)
    | cur => swap cur (.obj want)
  | .arr want => match cur with
    | .arr xs =>
      if isEntryList want then
        let r := overlayItems xs (allNamed want) 0 want
        (.arr r.1, xs.length != want.length || r.2)
      else swap (.arr xs) (.arr want)
    | cur => swap cur (.arr want)
  | want => swap cur want
termination_by structural want => want

/-- Lay desired members over current ones. -/
def overlayMembers (cur : List (String × Json)) :
    List (String × Json) → List (String × Json) × Bool
  | [] => (cur, false)
  | (k, v) :: rest => match Table.get? cur k with
    | some slot =>
      let s := overlay slot v
      let r := overlayMembers (Table.insert cur k s.1) rest
      (r.1, s.2 || r.2)
    | none =>
      let r := overlayMembers (Table.insert cur k v) rest
      (r.1, true)
termination_by structural want => want

/-- Lay desired entries, the first of them at position `i`, over their partners. -/
def overlayItems (cur : List Json) (named : Bool) (i : Nat) : List Json → List Json × Bool
  | [] => ([], false)
  | w :: rest =>
    let r := overlayItems cur named (i + 1) rest
    match partner? cur named i w with
    | some p =>
      let s := overlay (cur.getD p .null) w
      -- an entry that moves is a change, even if it stays as it is
      (s.1 :: r.1, p != i || s.2 || r.2)
    | none =>
      -- a new entry is written as any other, part by part
      let s := overlay (.obj []) w
      (s.1 :: r.1, true)
termination_by structural want => want

end

/-! ## §3. Walking two values together -/

/-- A step into the parts of a value: one member, or every entry of a list. -/
inductive Step where
  | member (name : String)
  | entries
deriving DecidableEq, Repr, Inhabited

/-- Change the parts of `cur` at the end of a path, each in view of its
    counterpart in `want`; parts without a counterpart stay. -/
def zipAlong (f : Json → Json → Json) : List Step → Json → Json → Json
  | [], cur, want => f cur want
  | .entries :: rest, cur, want => match cur, want with
    | .arr xs, .arr ws =>
      -- entries beyond the desired ones have no counterpart
      .arr (List.zipWith (zipAlong f rest) xs ws ++ xs.drop ws.length)
    | cur, _ => cur
  | .member k :: rest, cur, want => match cur.get? k, want.get? k with
    | some c, some w => cur.setMember k (zipAlong f rest c w)
    | _, _ => cur

/-- Drop the member at the end of a path of member names. -/
def dropAlong : List String → Json → Json
  | [], v => v
  | [k], v => v.dropMember k
  | k :: rest, v => v.mapMember (dropAlong rest) k

end Converge.Json
