import ConcurrencyFaults.Symbol.Component

/-!
# Reading from a mangled symbol

A reader takes characters from the front of a symbol, or refuses to.  Beside the characters it keeps
the table of the components that later parts of the symbol refer back to by number.

A reader that meets the wrong characters only does not match, and another one may be tried in its
place.  It gives back the characters, but not what it has entered into the table: the numbers of a
symbol count those components, too.  A symbol that is nested too deeply is given up as a whole.
-/

namespace ConcurrencyFaults

namespace Symbol

/-- How a component in the table may be used. -/
inductive Role where
  /-- A name with a spelling of its own, which is never entered into the table. -/
  | abbreviation
  /-- The name of a template that lies in no scope. -/
  | templateName
  /-- A part that a nested name may end in. -/
  | part
  /-- Anything else, mostly a type. -/
  | other
deriving DecidableEq, Repr

/-- A component that a symbol may refer back to. -/
structure Entry where
  component : Component
  role : Role

/-- What is left of a symbol, with the components that it may refer back to. -/
structure Cursor where
  rest : List Char
  /-- The components read so far, the oldest first. -/
  table : List Entry := []
  /-- Whether the target of a conversion is being read.  Arguments behind a template parameter then
  belong to the operator. -/
  inConversion : Bool := false

/-- Why a reader refuses. -/
inductive Refusal where
  | mismatch
  | tooDeep
deriving DecidableEq, Repr

/-- A reader goes on with the cursor, and leaves one behind also where it refuses. -/
abbrev Reader := ExceptT Refusal (StateM Cursor)

namespace Reader

/-- The characters are not those of what is being read. -/
def mismatch {α : Type} : Reader α := throw .mismatch

/-- The symbol is nested too deeply. -/
def tooDeep {α : Type} : Reader α := throw .tooDeep

/-- Refuses unless that many levels are left. -/
def need (levels left : Nat) : Reader Unit := if left < levels then tooDeep else pure ()

/-! ## Choice and repetition -/

/-- Reads something if it is there.  What was entered into the table in vain stays there. -/
def maybe {α : Type} (reader : Reader α) : Reader (Option α) := do
  let start ← get
  tryCatch (some <$> reader) fun refusal => do
    if refusal = .tooDeep then tooDeep
    modify fun cursor => { start with table := cursor.table }
    return none

/-- Reads as often as it goes, but no more often than allowed. -/
def atMost {α : Type} (reader : Reader α) : Nat → Reader (List α)
  | 0 => pure []
  | allowed + 1 => do
      match ← maybe reader with
      | some first => return first :: (← atMost reader allowed)
      | none => return []

/-- Reads as often as it goes.  Each time takes one character at least. -/
def many {α : Type} (reader : Reader α) : Reader (List α) := do
  atMost reader (← get).rest.length

/-- Reads once, and then as often as it goes. -/
def oneOrMore {α : Type} (reader : Reader α) : Reader (List α) := do
  return (← reader) :: (← many reader)

/-- Goes on from one value to the next for as long as there is one, with a bound on the number of
steps. -/
def growFor {α : Type} (next : Option α → Reader (Option α)) : Nat → Option α → Reader α
  | 0, _ => mismatch
  | allowed + 1, current => do
      match ← next current, current with
      | some grown, _ => growFor next allowed (some grown)
      | none, some last => return last
      | none, none => mismatch

/-- Grows a value part by part.  Each part takes one character at least. -/
def grow {α : Type} (next : Option α → Reader (Option α)) : Reader α := do
  growFor next ((← get).rest.length + 1) none

/-! ## Characters -/

/-- The next character, which stays where it is. -/
def peek : Reader (Option Char) := return (← get).rest.head?

/-- The next two characters, which stay where they are. -/
def peekCode : Reader String := return String.ofList ((← get).rest.take 2)

/-- Takes a text off if it is the next one, and says whether it was. -/
def skip? (text : String) : Reader Bool := do
  let cursor ← get
  if text.toList.isPrefixOf cursor.rest then
    set { cursor with rest := cursor.rest.drop text.length }
    return true
  else
    return false

/-- Takes a text off, which must be the next one. -/
def skip (text : String) : Reader Unit := do
  unless ← skip? text do mismatch

/-- Takes off the characters up to the first that fails a test. -/
def spanOf (test : Char → Bool) : Reader (List Char) := do
  let cursor ← get
  set { cursor with rest := cursor.rest.dropWhile test }
  return cursor.rest.takeWhile test

/-- Takes off exactly so many characters. -/
def take (count : Nat) : Reader (List Char) := do
  let cursor ← get
  if count ≤ cursor.rest.length then
    set { cursor with rest := cursor.rest.drop count }
    return cursor.rest.take count
  else
    mismatch

/-- Takes off one character, which must pass a test. -/
def takeOne (test : Char → Bool) : Reader Char := do
  match (← get).rest with
  | [] => mismatch
  | first :: rest => do
      unless test first do mismatch
      modify fun cursor => { cursor with rest }
      return first

/-! ## The table -/

/-- Enters a component into the table. -/
def remember (role : Role) (component : Component) : Reader Entry := do
  modify fun cursor => { cursor with table := cursor.table ++ [⟨component, role⟩] }
  return ⟨component, role⟩

/-- Enters a type into the table. -/
def rememberType (type : Component) : Reader Component := do
  let _ ← remember .other type
  return type

/-- Enters a part of a nested name into the table, unless the name ends with it. -/
def rememberPart (role : Role) (component : Component) : Reader Entry := do
  if (← peek) = some 'E' then return ⟨component, role⟩ else remember role component

/-- The component of some number in the table. -/
def lookUp (index : Nat) : Reader Entry := do
  match (← get).table[index]? with
  | some entry => return entry
  | none => mismatch

/-! ## Numbers -/

/-- The value of a digit, where the letters follow ten. -/
def digitValue (digit : Char) : Nat :=
  if digit.isDigit then digit.toNat - '0'.toNat else digit.toNat - 'A'.toNat + 10

/-- The number that some digits denote.  There are no leading zeros, and the number fits a signed
machine word. -/
def numberOf? (base : Nat) (digits : List Char) : Option Nat :=
  let number := digits.foldl (fun number digit => number * base + digitValue digit) 0
  let hasLeadingZero := digits.length > 1 && digits.head? == some '0'
  if digits.isEmpty || hasLeadingZero || number ≥ Nat.pow 2 63 then none else some number

/-- Reads a decimal number. -/
def number : Reader Nat := do
  match numberOf? 10 (← spanOf Char.isDigit) with
  | some number => return number
  | none => mismatch

/-- Reads a decimal number that may be negative. -/
def signedNumber : Reader Int := do
  if ← skip? "n" then return -(← number : Nat) else return (← number : Nat)

/-- Reads the number of a component in the table: the first has none, and the others count on in
base 36. -/
def tableIndex : Reader Nat := do
  if ← skip? "_" then return 0
  match numberOf? 36 (← spanOf fun c => c.isDigit || c.isUpper) with
  | some number => do skip "_"; return number + 1
  | none => mismatch

/-- Reads a number that may be left out, and the mark behind it. -/
def optionalNumber : Reader (Option Nat) := do
  let number ← maybe number
  skip "_"
  return number

/-- Reads the number in a sequence: the first has none, and the others count on from zero. -/
def sequenceNumber : Reader Nat := do
  return match ← optionalNumber with
    | some number => number + 1
    | none => 0

end Reader

end Symbol

end ConcurrencyFaults
