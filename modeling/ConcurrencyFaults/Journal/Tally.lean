import ConcurrencyFaults.Journal.Basic

/-!
# Tallies

A tally sums a journal up.  Every transformation is counted in exactly one of the groups removed,
altered, split, attributes and insertions.
-/

namespace ConcurrencyFaults

/-- The counters of a run. -/
structure Tally where
  /-- Functions with at least one change. -/
  functionsChanged : Nat := 0
  pairsFound : Nat := 0
  /-- Calls, instructions or pairs that were removed. -/
  removed : Nat := 0
  /-- Calls that were swapped, replaced or moved. -/
  altered : Nat := 0
  splits : Nat := 0
  /-- Changes of an order, a scope, a flag or an argument. -/
  attributes : Nat := 0
  insertions : Nat := 0
  warnings : Nat := 0
  errors : Nat := 0
deriving DecidableEq, Repr, Inhabited

namespace Tally

def ofJournal (journal : Journal) : Tally where
  functionsChanged := journal.changedFunctions.length
  pairsFound := journal.count .pairFound
  removed :=
    journal.count .pairRemoved + journal.count .callRemoved + journal.count .instructionRemoved
  altered := journal.count .callReplaced + journal.count .callSwapped + journal.count .callShifted
  splits := journal.count .pairSplit
  attributes :=
    journal.count .orderingChanged + journal.count .scopeToggled +
      journal.count .atomicityRemoved + journal.count .volatileRemoved +
      journal.count .argumentChanged
  insertions := journal.count .codeInserted
  warnings := journal.count .warning
  errors := journal.count .error

/-- The counters that are written, each with its words.  Pairs that were found are left out. -/
def parts (tally : Tally) : List (Nat × String) :=
  [(tally.functionsChanged, "functions"), (tally.removed, "removed"),
    (tally.altered, "rewritten"), (tally.splits, "split"),
    (tally.attributes, "attributes changed"), (tally.insertions, "insertions"),
    (tally.warnings, "warnings"), (tally.errors, "errors")]

/-- Only counters above zero are written. -/
def text (tally : Tally) : String :=
  match tally.parts.filter fun part => part.1 > 0 with
  | [] => "no mutations"
  | parts => ", ".intercalate (parts.map fun part => s!"{part.1} " ++ part.2)

end Tally

end ConcurrencyFaults
