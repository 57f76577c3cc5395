import ConcurrencyFaults.Memory

/-!
# Plans

A plan says which change an operator is to make, and to which of its candidates.  A plan that
contradicts itself, or lacks something, is refused before any program is touched.

Memory orders are requested by small numbers; an order table says what they mean for one kind of
access.
-/

namespace ConcurrencyFaults

/-- The kinds of access that have a numbering of their own. -/
inductive OrderTable where
  | fence
  | compareExchange
  | store
  | load
deriving DecidableEq, Repr, Inhabited

namespace OrderTable

def all : List OrderTable := [.fence, .compareExchange, .store, .load]

def text : OrderTable → String
  | .fence => "fence"
  | .compareExchange => "cmpxchg"
  | .store => "store"
  | .load => "load"

instance : Vocabulary OrderTable := ⟨all, text⟩

/-- The orders of a kind of access, from the weakest to the strongest. -/
def orders : OrderTable → List MemoryOrder
  | .fence => [.acquire, .release, .acquireRelease, .sequentiallyConsistent]
  | .compareExchange =>
      [.monotonic, .acquire, .release, .acquireRelease, .sequentiallyConsistent]
  | .store => [.unordered, .monotonic, .release, .sequentiallyConsistent]
  | .load => [.unordered, .monotonic, .acquire, .sequentiallyConsistent]

/-- The order that a number stands for. -/
def decode? (table : OrderTable) (code : Nat) : Option MemoryOrder := table.orders[code]?

/-- The largest number in use. -/
def maxCode (table : OrderTable) : Nat := table.orders.length - 1

end OrderTable

/-- What is done with lock pairs. -/
inductive LockMode where
  | remove
  | swap
  | shift
  | split
deriving DecidableEq, Repr, Inhabited

namespace LockMode

def all : List LockMode := [.remove, .swap, .shift, .split]

def text : LockMode → String
  | .remove => "remove"
  | .swap => "swap"
  | .shift => "shift"
  | .split => "split"

instance : Vocabulary LockMode := ⟨all, text⟩

end LockMode

/-- The kinds of atomic access that an operator can be aimed at. -/
inductive AtomicTarget where
  | compareExchange
  | store
  | load
  | update
deriving DecidableEq, Repr, Inhabited

namespace AtomicTarget

def all : List AtomicTarget := [.compareExchange, .store, .load, .update]

def text : AtomicTarget → String
  | .compareExchange => "cmpxchg"
  | .store => "store"
  | .load => "load"
  | .update => "atomicrmw"

instance : Vocabulary AtomicTarget := ⟨all, text⟩

/-- Updates are numbered as compare-and-exchanges are. -/
def table : AtomicTarget → OrderTable
  | .compareExchange | .update => .compareExchange
  | .store => .store
  | .load => .load

end AtomicTarget

/-- Why a plan was refused. -/
inductive PlanError where
  /-- Two modes that exclude each other were both asked for. -/
  | twoModes (first second : LockMode)
  | noPositions (mode : LockMode)
  | oddPositions (mode : LockMode) (count : Nat)
  | incompleteSwap (count : Nat)
  /-- Directions for `side` were given to a mode that moves nothing. -/
  | unusedDirections (side : String) (mode : LockMode)
  | noDirections
  | noSplitOffsets
  | oddSplitOffsets (count : Nat)
  | unusedSplitOffsets (mode : LockMode)
  /-- A change that needs a position was asked for without one. -/
  | positionRequired (change : String)
  | noOrders (target : String)
  | orderTooLarge (table : OrderTable) (code index : Nat)
  /-- Two changes of a fence were both asked for. -/
  | twoFenceChanges (first second : String)
  /-- Two changes of an atomic access were both asked for. -/
  | twoAtomicChanges (first second : String)
  /-- Only stores can be made plain. -/
  | notAStore (target : AtomicTarget)
  | verboseChange (activity : String)
  | noJoinFamily
  | twoJoinChanges
  | incompleteTimeout
deriving DecidableEq, Repr

def PlanError.message : PlanError → String
  | .twoModes first second =>
      first.text ++ " and " ++ second.text ++ " cannot be specified at the same time"
  | .noPositions mode => mode.text ++ " but no positions to mutate"
  | .oddPositions mode count =>
      mode.text ++ s!" requires an even number of positions (pairs), got {count}"
  | .incompleteSwap count =>
      s!"swap requires positions in groups of 4 (pairs of pairs), got {count}"
  | .unusedDirections side mode => side ++ " directions are not used with " ++ mode.text
  | .noDirections => "shift specified with no lock or unlock directions"
  | .noSplitOffsets => "split requires at least one pair of split positions"
  | .oddSplitOffsets count => s!"split positions need to be specified in pairs, got {count}"
  | .unusedSplitOffsets mode => "split positions are not used with " ++ mode.text
  | .positionRequired change => change ++ " requires at least one position"
  | .noOrders target => target ++ " ordering change but no orderings given"
  | .orderTooLarge table code index =>
      table.text ++ s!" ordering value {code} at index {index} is too large (maximum is " ++
        s!"{table.maxCode})"
  | .twoFenceChanges first second => first ++ " and " ++ second ++ " specified"
  | .twoAtomicChanges first second => first ++ " and " ++ second ++ " can not both be specified"
  | .notAStore target => "atomicity toggling is only supported for stores, not " ++ target.text
  | .verboseChange activity => "verbose output has no meaning " ++ activity
  | .noJoinFamily => "at least one of the POSIX or C++11 join families must be selected"
  | .twoJoinChanges => "both remove mode and replace mode were specified"
  | .incompleteTimeout => "timeout modification requires both second and nanosecond values"

/-- The value for a request: that of its own place, or the last one given. -/
def nthOrLast {Value : Type} (values : List Value) (index : Nat) : Option Value :=
  values[index]?.or values.getLast?

/-- Refuses a change without positions. -/
def requirePositions (positions : List Nat) (change : String) : Except PlanError Unit :=
  if positions.isEmpty then throw (.positionRequired change) else return ()

/-- Refuses the first number that the table does not know. -/
def OrderTable.check (table : OrderTable) (codes : List Nat) : Except PlanError Unit :=
  match codes.zipIdx.find? fun (code, _) => code > table.maxCode with
  | some (code, index) => throw (.orderTooLarge table code index)
  | none => return ()

end ConcurrencyFaults
