import ConcurrencyFaults.Operand
import ConcurrencyFaults.Vocabulary

/-!
# Aliasing

Whether two operands denote the same memory is decided by an oracle that is given from outside.
Only the answer that they always do makes a lock and an unlock a pair.  An alias table is an oracle
with explicit answers: it is symmetric, and the last answer for a pair of operands counts.
-/

namespace ConcurrencyFaults

/-- What an oracle says about two operands. -/
inductive AliasAnswer where
  | never
  | may
  | partly
  | must
deriving DecidableEq, Repr, Inhabited

namespace AliasAnswer

def all : List AliasAnswer := [.never, .may, .partly, .must]

def text : AliasAnswer → String
  | .never => "NoAlias"
  | .may => "MayAlias"
  | .partly => "PartialAlias"
  | .must => "MustAlias"

instance : Vocabulary AliasAnswer := ⟨all, text⟩

end AliasAnswer

/-- An oracle is a function of the two operands. -/
abbrev AliasOracle := Operand → Operand → AliasAnswer

/-- Whether the two operands always denote the same memory. -/
def AliasOracle.must (oracle : AliasOracle) (first second : Operand) : Bool :=
  oracle first second == .must

/-- Equal operands alias, different globals do not, and of all else nothing is known. -/
def AliasOracle.identity : AliasOracle := fun first second =>
  if first = second then .must
  else
    match first, second with
    | .global _, .global _ => .never
    | _, _ => .may

/-- Explicit answers with a fallback. -/
structure AliasTable where
  /-- Directed answers, each key once. -/
  answers : List ((Operand × Operand) × AliasAnswer) := []
  fallback : AliasAnswer := .may
  /-- Whether equal operands without an answer of their own alias. -/
  identity : Bool := true
deriving DecidableEq, Repr, Inhabited

namespace AliasTable

/-- Sets the answer for one direction and drops an earlier one. -/
def insertDirected (table : AliasTable) (first second : Operand) (answer : AliasAnswer) :
    AliasTable :=
  { table with
    answers := ((first, second), answer) :: table.answers.filter (·.1 != (first, second)) }

/-- Sets the answer for two operands in either order. -/
def insert (table : AliasTable) (first second : Operand) (answer : AliasAnswer) : AliasTable :=
  (table.insertDirected second first answer).insertDirected first second answer

/-- The number of directed answers: two for each pair of different operands, one for a pair of equal
ones. -/
def size (table : AliasTable) : Nat := table.answers.length

def isEmpty (table : AliasTable) : Bool := table.answers.isEmpty

/-- The oracle that a table is. -/
def oracle (table : AliasTable) : AliasOracle := fun first second =>
  match table.answers.lookup (first, second) with
  | some answer => answer
  | none => if table.identity && first == second then .must else table.fallback

end AliasTable

end ConcurrencyFaults
