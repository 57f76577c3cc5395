import ConcurrencyFaults.Operator.Requests
import ConcurrencyFaults.Plan.Lock

/-!
# The lock operator: naming pairs

The lock operator removes, swaps, shifts or splits lock pairs.  This module reads the requests of a
plan and finds the pairs that they name.
-/

namespace ConcurrencyFaults

/-- How a request names a pair: a category or a function, and a position in it. -/
structure PairAddress where
  group : Nat
  position : Nat
deriving DecidableEq, Repr, Inhabited

namespace PairAddress

/-- The address as messages show it. -/
def text (address : PairAddress) : String := s!"({address.group} {address.position})"

/-- Reads addresses from a flat list.  A number that is left over is dropped. -/
def listOf : List Nat → List PairAddress
  | group :: position :: rest => ⟨group, position⟩ :: listOf rest
  | _ => []

/-- Reads pairs of addresses from a flat list.  Numbers that are left over are dropped. -/
def pairsOf : List Nat → List (PairAddress × PairAddress)
  | first :: second :: third :: fourth :: rest =>
      (⟨first, second⟩, ⟨third, fourth⟩) :: pairsOf rest
  | _ => []

end PairAddress

namespace LockOperator

def name : String := "mutex"

def description : String := "Removes, swaps, shifts or splits lock/unlock pairs"

/-- The width of the status that the POSIX primitives return. -/
def statusWidth : Nat := 32

/-- The pair that an address names. -/
def find? (index : PairIndex) (addressing : PairAddressing) (address : PairAddress) :
    Option LockPair :=
  match addressing with
  | .category =>
      (PairCategory.ofNumber? address.group).bind fun category =>
        index.get? category address.position
  | .function => index.getInFunction? address.group address.position

/-- The pair that an address names; a warning if there is none. -/
def resolve (index : PairIndex) (addressing : PairAddressing) (address : PairAddress) :
    Work (Option LockPair) := do
  let pair := find? index addressing address
  if pair.isNone then
    Work.warn (s!"{name}: position ({address.group}, {address.position}) is out of bounds, " ++
      "skipping")
  return pair

/-- Whether both sides of a pair are as they were found.  The unlock is not looked at if the lock is
not. -/
def isPairUntouched (pair : LockPair) : Work Bool := do
  if ← Work.isUntouched name pair.lock then Work.isUntouched name pair.unlock else return false

end LockOperator

end ConcurrencyFaults
