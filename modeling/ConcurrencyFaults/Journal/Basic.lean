import ConcurrencyFaults.Handle
import ConcurrencyFaults.Vocabulary

/-!
# The journal of a run

A run writes down every change it makes, every request it skips and what it finds.  The journal is
only ever extended at its end, so its entries stand in the order in which they were recorded.
-/

namespace ConcurrencyFaults

/-- What an entry of the journal is about. -/
inductive EntryKind where
  | pairRemoved
  | callRemoved
  | instructionRemoved
  | callReplaced
  | callSwapped
  | callShifted
  | pairSplit
  | orderingChanged
  | scopeToggled
  | atomicityRemoved
  | volatileRemoved
  | argumentChanged
  | codeInserted
  | pairFound
  | info
  | warning
  | error
deriving DecidableEq, Repr, Inhabited

namespace EntryKind

/-- Every kind, in the order in which summaries name them. -/
def all : List EntryKind :=
  [.pairRemoved, .callRemoved, .instructionRemoved, .callReplaced, .callSwapped, .callShifted,
    .pairSplit, .orderingChanged, .scopeToggled, .atomicityRemoved, .volatileRemoved,
    .argumentChanged, .codeInserted, .pairFound, .info, .warning, .error]

/-- A kind in words. -/
def text : EntryKind → String
  | .pairRemoved => "lock/unlock pair removed"
  | .callRemoved => "call removed"
  | .instructionRemoved => "instruction removed"
  | .callReplaced => "call replaced"
  | .callSwapped => "call swapped"
  | .callShifted => "call shifted"
  | .pairSplit => "critical section split"
  | .orderingChanged => "ordering changed"
  | .scopeToggled => "scope toggled"
  | .atomicityRemoved => "atomicity removed"
  | .volatileRemoved => "volatile removed"
  | .argumentChanged => "argument changed"
  | .codeInserted => "code inserted"
  | .pairFound => "lock/unlock pair found"
  | .info => "info"
  | .warning => "warning"
  | .error => "error"

/-- The name under which a kind is filed. -/
def name : EntryKind → String
  | .pairRemoved => "PairRemoved"
  | .callRemoved => "CallRemoved"
  | .instructionRemoved => "InstructionRemoved"
  | .callReplaced => "CallReplaced"
  | .callSwapped => "CallSwapped"
  | .callShifted => "CallShifted"
  | .pairSplit => "PairSplit"
  | .orderingChanged => "OrderingChanged"
  | .scopeToggled => "ScopeToggled"
  | .atomicityRemoved => "AtomicityRemoved"
  | .volatileRemoved => "VolatileRemoved"
  | .argumentChanged => "ArgumentChanged"
  | .codeInserted => "CodeInserted"
  | .pairFound => "PairFound"
  | .info => "Info"
  | .warning => "Warning"
  | .error => "Error"

/-- Whether such an entry records a change of the program. -/
def isTransformation : EntryKind → Bool
  | .pairFound | .info | .warning | .error => false
  | _ => true

/-- Whether such an entry is a remark, a warning or a failure. -/
def isDiagnostic : EntryKind → Bool
  | .info | .warning | .error => true
  | _ => false

instance : Vocabulary EntryKind := ⟨all, name⟩

end EntryKind

/-- One entry: what happened and where.  Without words of its own it says what its kind says. -/
structure Entry where
  kind : EntryKind
  function : Option FunctionId := none
  /-- A position in the function, or the position that a request named. -/
  location : Option Nat := none
  /-- The operator that made the entry. -/
  pass : Option String := none
  message : String := kind.text
deriving DecidableEq, Repr, Inhabited

namespace Entry

def info (message : String) : Entry := { kind := .info, message }

def warning (message : String) : Entry := { kind := .warning, message }

def error (message : String) : Entry := { kind := .error, message }

def isTransformation (entry : Entry) : Bool := entry.kind.isTransformation

def text (entry : Entry) : String :=
  match entry.pass with
  | some pass => "[" ++ entry.kind.text ++ "] " ++ pass ++ ": " ++ entry.message
  | none => "[" ++ entry.kind.text ++ "] " ++ entry.message

end Entry

/-- Everything that was recorded, the oldest entry first. -/
structure Journal where
  entries : List Entry := []
deriving DecidableEq, Repr, Inhabited

namespace Journal

def empty : Journal := {}

def isEmpty (journal : Journal) : Bool := journal.entries.isEmpty

def size (journal : Journal) : Nat := journal.entries.length

/-- Appends one entry. -/
def record (journal : Journal) (entry : Entry) : Journal := ⟨journal.entries ++ [entry]⟩

/-- Appends several entries. -/
def extend (journal : Journal) (entries : List Entry) : Journal := ⟨journal.entries ++ entries⟩

/-- Appends all that another journal holds. -/
def merge (journal other : Journal) : Journal := journal.extend other.entries

def warn (journal : Journal) (message : String) : Journal := journal.record (.warning message)

/-! ## Queries -/

def ofKind (journal : Journal) (kind : EntryKind) : List Entry :=
  journal.entries.filter (·.kind == kind)

def ofFunction (journal : Journal) (function : FunctionId) : List Entry :=
  journal.entries.filter (·.function == some function)

def transformations (journal : Journal) : List Entry :=
  journal.entries.filter Entry.isTransformation

def count (journal : Journal) (kind : EntryKind) : Nat :=
  journal.entries.countP (·.kind == kind)

def has (journal : Journal) (kind : EntryKind) : Bool := journal.entries.any (·.kind == kind)

/-- Whether `part` occurs somewhere in `text`. -/
def occursIn (part text : List Char) : Bool :=
  match text with
  | [] => part.isEmpty
  | _ :: rest => part.isPrefixOf text || occursIn part rest

/-- Whether some warning says `part`. -/
def hasWarning (journal : Journal) (part : String) : Bool :=
  (journal.ofKind .warning).any fun entry => occursIn part.toList entry.message.toList

/-- The kinds that occur, each with the number of its entries, in the order of the kinds. -/
def countByKind (journal : Journal) : List (EntryKind × Nat) :=
  (EntryKind.all.map fun kind => (kind, journal.count kind)).filter fun counted => counted.2 > 0

/-- The functions that transformations name, each once. -/
def changedFunctions (journal : Journal) : List FunctionId :=
  (journal.transformations.filterMap Entry.function).eraseDups

/-- The number of transformations of each kind; failing those, the number of entries. -/
def summary (journal : Journal) : String :=
  if journal.isEmpty then "no events"
  else
    match journal.countByKind.filter fun counted => counted.1.isTransformation with
    | [] => s!"{journal.size} events"
    | counts => ", ".intercalate (counts.map fun counted => s!"{counted.2} " ++ counted.1.text)

end Journal

end ConcurrencyFaults
