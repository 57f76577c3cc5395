import ConcurrencyFaults.Operand

/-!
# Reading written forms

Handles, types and operands are read from the texts that `Handle.text`, `Ty.text` and `Operand.text`
write.  Integer constants are left out: their written form does not say whether they are signed.
-/

namespace ConcurrencyFaults

/-- Reads a decimal number. -/
def readNumber? (text : List Char) : Option Nat :=
  if text.isEmpty || !text.all Char.isDigit then none
  else some (text.foldl (fun number digit => 10 * number + (digit.toNat - '0'.toNat)) 0)

namespace Handle

/-- Reads a handle without its leading sign.  Without a generation it is the first. -/
def ofDigits? (text : List Char) : Option Handle := do
  let slot ← readNumber? (text.takeWhile (· != '.'))
  match text.dropWhile (· != '.') with
  | [] => return ⟨slot, 0⟩
  | _ :: generation => return ⟨slot, ← readNumber? generation⟩

def ofText? (text : String) : Option Handle :=
  match text.toList with
  | '%' :: rest => ofDigits? rest
  | _ => none

end Handle

def Ty.ofText? (text : String) : Option Ty :=
  match text.toList with
  | ['v', 'o', 'i', 'd'] => some .void
  | ['p', 't', 'r'] => some .pointer
  | 'i' :: bits => (readNumber? bits).map .int
  | _ => none

/-- Reads every operand but integer constants. -/
def Operand.ofText? (text : String) : Option Operand :=
  match text.toList with
  | ['n', 'u', 'l', 'l'] => some (.constant .null)
  | ['u', 'n', 'd', 'e', 'f'] => some .undefined
  | '@' :: name => some (.global (String.ofList name))
  | '%' :: 'a' :: 'r' :: 'g' :: index => (readNumber? index).map .parameter
  | '%' :: handle => (Handle.ofDigits? handle).map .result
  | _ => none

end ConcurrencyFaults
