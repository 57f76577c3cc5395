import ConcurrencyFaults.Aliasing
import ConcurrencyFaults.Locking.Pair
import ConcurrencyFaults.Workspace

/-!
# The index of lock pairs

In each function, every lock is compared with every unlock of its family; the two are a pair if the
oracle says that their first arguments always alias.  The unlock may stand before the lock.  Plain
calls come before invokes on both sides, so the order in which pairs are discovered is fixed, and
with it their positions: the place among the pairs of the same category, or of the same function.

A primitive that is called without arguments cannot be paired, nor can an indirect call; both leave
a warning.
-/

namespace ConcurrencyFaults

/-- What the comparison of two calls comes to. -/
inductive PairFinding where
  | paired (pair : LockPair)
  /-- The call has no argument to compare. -/
  | noArgument (site : CallSite)
deriving DecidableEq, Repr

namespace PairFinding

def pair? : PairFinding → Option LockPair
  | .paired pair => some pair
  | .noArgument _ => none

/-- Compares a lock on `mutex` with another call of its function. -/
def compare? (oracle : AliasOracle) (family : LockFamily) (lock : CallSite) (mutex : Operand)
    (other : CallSite) : Option PairFinding :=
  if other.handle = lock.handle then none
  else if LockFamily.classify? other.name ≠ some (family, .unlock) then none
  else
    match other.arguments with
    | [] => some (.noArgument other)
    | otherMutex :: _ =>
        if oracle.must mutex otherMutex then some (.paired { family, lock, unlock := other })
        else none

/-- Compares one call, if it is a lock, with all calls of its function. -/
def ofLock (oracle : AliasOracle) (sites : List CallSite) (lock : CallSite) : List PairFinding :=
  match LockFamily.classify? lock.name with
  | some (family, .lock) =>
      match lock.arguments with
      | [] => [.noArgument lock]
      | mutex :: _ => sites.filterMap (compare? oracle family lock mutex)
  | _ => []

/-- Everything that is found in one function.  A call without arguments is reported once. -/
def ofFunction (oracle : AliasOracle) (sites : List CallSite) : List PairFinding :=
  (sites.flatMap (ofLock oracle sites)).eraseDups

end PairFinding

/-- The pairs of a program in the order of their discovery. -/
structure PairIndex where
  pairs : List LockPair := []
deriving DecidableEq, Repr, Inhabited

namespace PairIndex

def empty : PairIndex := {}

/-! ## Looking pairs up -/

/-- The pairs of a category in the order of their positions. -/
def ofCategory (index : PairIndex) (category : PairCategory) : List LockPair :=
  index.pairs.filter (·.category == category)

/-- The pairs of a function in the order of their discovery. -/
def ofFunction (index : PairIndex) (function : FunctionId) : List LockPair :=
  index.pairs.filter (·.function == function)

def get? (index : PairIndex) (category : PairCategory) (position : Nat) : Option LockPair :=
  (index.ofCategory category)[position]?

def getInFunction? (index : PairIndex) (function : FunctionId) (position : Nat) : Option LockPair :=
  (index.ofFunction function)[position]?

/-- The number of pairs of each category. -/
def counts (index : PairIndex) : List Nat :=
  PairCategory.all.map fun category => (index.ofCategory category).length

def size (index : PairIndex) : Nat := index.pairs.length

def isEmpty (index : PairIndex) : Bool := index.pairs.isEmpty

/-- Every pair with its category and position, category after category. -/
def toList (index : PairIndex) : List (PairCategory × Nat × LockPair) :=
  PairCategory.all.flatMap fun category =>
    (index.ofCategory category).zipIdx.map fun (pair, position) => (category, position, pair)

/-! ## Building the index -/

/-- The search for calls of all locking primitives. -/
def search : CallSearch := { names := LockFamily.allNames, demangled := true }

/-- The number of indirect calls in a function. -/
def indirectCalls (program : Program) (function : Function) : Nat :=
  (program.instructionsIn function).countP fun (_, instruction) =>
    match instruction.operation.callee? with
    | some (.indirect _) => true
    | _ => false

/-- One warning for each function with indirect calls. -/
def indirectWarnings (program : Program) : List Entry :=
  (program.functions.filter fun function => indirectCalls program function > 0).map fun function =>
    .warning (function.name ++ s!": {indirectCalls program function}" ++
      " indirect call(s) cannot be resolved and are not considered for pairing")

/-- The entry for a finding that comes after some others. -/
def entry (earlier : List PairFinding) : PairFinding → Entry
  | .paired pair =>
      let position := (earlier.filterMap PairFinding.pair?).countP (·.category == pair.category)
      { kind := .pairFound
        function := some pair.function
        location := some position
        message := pair.category.text ++ s!" pair {position}: " ++ pair.text }
  | .noArgument site =>
      .warning (site.name ++ " call " ++ site.handle.text ++ " in " ++ functionText site.function ++
        " has no arguments; it cannot be paired")

/-- The entries for all findings, in their order. -/
def entriesAfter (earlier : List PairFinding) : List PairFinding → List Entry
  | [] => []
  | finding :: rest => entry earlier finding :: entriesAfter (earlier ++ [finding]) rest

/-- Everything that is found in a program, function after function. -/
def findings (oracle : AliasOracle) (program : Program) : Except EditError (List PairFinding) :=
  (search.inProgram program).map fun found =>
    found.perFunction.flatMap fun group => PairFinding.ofFunction oracle group.2.sites

def ofFindings (findings : List PairFinding) : PairIndex := ⟨findings.filterMap PairFinding.pair?⟩

/-- Matches all pairs of the program and notes in the journal what was found and what could not be
paired. -/
def build (oracle : AliasOracle) : Work PairIndex := do
  (indirectWarnings (← get).program).forM Work.record
  let findings ← Work.query (findings oracle)
  (entriesAfter [] findings).forM Work.record
  return ofFindings findings

end PairIndex

end ConcurrencyFaults
