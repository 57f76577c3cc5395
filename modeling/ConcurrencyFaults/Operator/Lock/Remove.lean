import ConcurrencyFaults.Operator.Lock.Basic

/-!
# Removing lock pairs

All requests are collected before anything is removed, so that requests may share calls: each call
is removed once.  A pair counts as removed if both of its sides were.
-/

namespace ConcurrencyFaults

namespace LockOperator

/-- What the requests of a removal come to. -/
structure RemovalList where
  /-- The calls to remove, each once. -/
  sites : List (CallSite × LockFamily) := []
  /-- The requested pairs, each once, with the address that was first used for it. -/
  pairs : List (PairAddress × LockPair) := []
deriving DecidableEq, Repr, Inhabited

namespace RemovalList

def lists (removals : RemovalList) (site : CallSite) : Bool :=
  removals.sites.any fun listed => listed.1.handle == site.handle

def listsPair (removals : RemovalList) (pair : LockPair) : Bool :=
  removals.pairs.any fun listed =>
    listed.2.lock.handle == pair.lock.handle && listed.2.unlock.handle == pair.unlock.handle

/-- The sides of a pair that no earlier request named. -/
def newSides (removals : RemovalList) (pair : LockPair) : List CallSite :=
  [pair.lock, pair.unlock].filter fun site => !removals.lists site

/-- Adds a requested pair. -/
def add (removals : RemovalList) (address : PairAddress) (pair : LockPair) : RemovalList where
  sites := removals.sites ++ (removals.newSides pair).map (·, pair.family)
  pairs := if removals.listsPair pair then removals.pairs else removals.pairs ++ [(address, pair)]

end RemovalList

/-- Adds the pair that one request names.  A warning says how many of its calls were named
before. -/
def schedule (index : PairIndex) (addressing : PairAddressing) (removals : RemovalList)
    (address : PairAddress) : Work RemovalList := do
  match ← resolve index addressing address with
  | none => return removals
  | some pair =>
      let shared := 2 - (removals.newSides pair).length
      if shared > 0 then
        Work.warn (s!"{name}: position pair " ++ address.text ++
          s!" shares {shared} call(s) with an earlier request, removing them once")
      return removals.add address pair

/-- Removes one call and says whether it could be removed.  A call that returns nothing can have no
uses that a constant could take over. -/
def removeSite (site : CallSite) (family : LockFamily) : Work Bool := do
  if !(← Work.isUntouched name site) then
    return false
  let uses ← if family.returnsStatus then pure 0 else Work.query (·.useCount site.handle)
  if uses > 0 then
    Work.warn (s!"{name}: " ++ family.text ++ " call " ++ site.handle.text ++
      " still has uses, skipping")
    return false
  let _ ← Work.edit (site.remove statusWidth true)
  Work.markEdited site.handle
  return true

/-- Removes the listed calls and answers the handles of those that were removed. -/
def removeSites (sites : List (CallSite × LockFamily)) : Work (List Handle) :=
  sites.foldlM (fun removed (site, family) => do
    return if ← removeSite site family then removed ++ [site.handle] else removed) []

/-- Removes the pairs at the given addresses. -/
def remove (index : PairIndex) (plan : LockPlan) : Work Bool := do
  let removals ← (PairAddress.listOf plan.positions).foldlM (schedule index plan.addressing) {}
  let removed ← removeSites removals.sites
  removals.pairs.forM fun (address, pair) => do
    if removed.contains pair.lock.handle && removed.contains pair.unlock.handle then
      Work.record
        { kind := .pairRemoved, pass := some name, message := "removed pair " ++ address.text }
  return !removed.isEmpty

end LockOperator

end ConcurrencyFaults
