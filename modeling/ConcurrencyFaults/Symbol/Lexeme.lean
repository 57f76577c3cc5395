import ConcurrencyFaults.Symbol.OperatorCode
import ConcurrencyFaults.Symbol.Reader

/-!
# Components without parts

The readers of this module read what holds no other components but identifiers.  Each is told how
many levels are left, and takes one of them for itself.
-/

namespace ConcurrencyFaults

namespace Symbol

namespace Reader

/-! ## Identifiers -/

/-- The characters of identifiers. -/
def isIdentifierChar (c : Char) : Bool := c.isAlphanum || c == '$' || c == '_' || c == '.'

/-- Reads an identifier, which has its length in front. -/
def sourceName (left : Nat) : Reader String := do
  need 1 left
  let length ← number
  if length = 0 then mismatch
  let characters ← take length
  need 2 left
  unless characters.all isIdentifierChar do mismatch
  return String.ofList characters

/-- Tells apart what has the same name in one function: one digit, or a number from ten on. -/
def discriminator (left : Nat) : Reader Unit := do
  need 1 left
  skip "_"
  if ← skip? "_" then
    if (← number) < 10 then mismatch
    skip "_"
  else
    let _ ← takeOne Char.isDigit

/-- Reads a mark that sets apart incompatible versions of one name. -/
def versionTag (left : Nat) : Reader String := do
  need 1 left
  skip "B"
  sourceName (left - 1)

/-- Reads the tags of a name, if it has any. -/
def tag (left : Nat) (name : Component) : Reader Component := do
  need 1 left
  let tags ← many (versionTag (left - 1))
  return if tags.isEmpty then name else .tagged name tags

/-! ## Builtin types -/

/-- The builtin type that a lone letter spells. -/
def builtinOfLetter? : Char → Option String
  | 'v' => some "void"
  | 'w' => some "wchar_t"
  | 'b' => some "bool"
  | 'c' => some "char"
  | 'a' => some "signed char"
  | 'h' => some "unsigned char"
  | 's' => some "short"
  | 't' => some "unsigned short"
  | 'i' => some "int"
  | 'j' => some "unsigned int"
  | 'l' => some "long"
  | 'm' => some "unsigned long"
  | 'x' => some "long long"
  | 'y' => some "unsigned long long"
  | 'n' => some "__int128"
  | 'o' => some "unsigned __int128"
  | 'f' => some "float"
  | 'd' => some "double"
  | 'e' => some "long double"
  | 'g' => some "__float128"
  | 'z' => some "..."
  | _ => none

/-- The builtin type that a letter after `D` spells. -/
def builtinOfSecondLetter? : Char → Option String
  | 'd' => some "decimal64"
  | 'e' => some "decimal128"
  | 'f' => some "decimal32"
  | 'h' => some "half"
  | 'i' => some "char32_t"
  | 's' => some "char16_t"
  | 'u' => some "char8_t"
  | 'a' => some "auto"
  | 'c' => some "decltype(auto)"
  | 'n' => some "std::nullptr_t"
  | _ => none

/-- The size of a fixed-point type that a letter spells, as words in front of the type. -/
def fixedPointSize? : Char → Option String
  | 's' => some "short "
  | 't' => some "unsigned short "
  | 'i' => some ""
  | 'j' => some "unsigned "
  | 'l' => some "long "
  | 'm' => some "unsigned long "
  | _ => none

/-- Refuses what is no number of bits of a builtin type. -/
def checkBits (bits : Nat) : Reader Unit :=
  if bits = 0 || bits ≥ Nat.pow 2 16 then mismatch else pure ()

/-- Reads a fixed-point type.  It may be one that goes to its limits instead of beyond them. -/
def fixedPoint : Reader Component := do
  let saturation := if ← skip? "DS" then "_Sat " else ""
  let kind ← if ← skip? "DA" then pure "_Accum" else do skip "DR"; pure "_Fract"
  match (← peek).bind fixedPointSize? with
  | some size => do let _ ← take 1; return .builtin (saturation ++ size ++ kind)
  | none => mismatch

/-- Reads the builtin type that a few letters spell. -/
def plainBuiltin (left : Nat) : Reader Component := do
  need 1 left
  if let some type ← maybe fixedPoint then return type
  let ofLetter? := if ← skip? "D" then builtinOfSecondLetter? else builtinOfLetter?
  match (← peek).bind ofLetter? with
  | some text => do let _ ← take 1; return .builtin text
  | none => mismatch

/-! ## References to other components -/

/-- Reads a name that needs no table. -/
def abbreviation (left : Nat) : Reader Entry := do
  need 1 left
  skip "S"
  match (← peek).bind Abbreviation.ofLetter? with
  | some short => do let _ ← take 1; return ⟨.abbreviation short, .abbreviation⟩
  | none => mismatch

/-- Reads a reference to an earlier component, or to a name that needs no table. -/
def backReference (left : Nat) : Reader Entry := do
  need 1 left
  if let some entry ← maybe (abbreviation (left - 1)) then return entry
  skip "S"
  lookUp (← tableIndex)

/-- Reads a reference to a template argument. -/
def templateParameter (left : Nat) : Reader Component := do
  need 1 left
  skip "T"
  return .parameter (← sequenceNumber)

/-! ## Qualifiers -/

/-- Reads the qualifiers of a type or of a method, of which there may be none. -/
def qualifiers (left : Nat) : Reader Qualifiers := do
  need 1 left
  return { restrict := ← skip? "r", volatile := ← skip? "V", const := ← skip? "K" }

/-- Reads the reference qualifier of a method, if there is one. -/
def referenceQualifier (left : Nat) : Reader (Option ReferenceKind) := do
  need 1 left
  if ← skip? "R" then return some .lvalue
  if ← skip? "O" then return some .rvalue
  return none

/-- Reads a parameter of the function that is being declared. -/
def functionParameter (left : Nat) : Reader Component := do
  need 1 left
  skip "f"
  if ← skip? "L" then
    let _ ← number
  skip "p"
  let _ ← qualifiers (left - 1)
  if ← skip? "T" then return .functionParameter none
  return .functionParameter (some ((← sequenceNumber) + 1))

/-! ## Operators -/

/-- Reads the code of an operator. -/
def operatorCode (left : Nat) : Reader OperatorCode := do
  need 1 left
  match OperatorCode.find? (← peekCode) with
  | some operator => do let _ ← take 2; return operator
  | none => mismatch

/-! ## Parts of special symbols -/

/-- Reads how far a thunk moves the object it is called for. -/
def callOffset (left : Nat) : Reader String := do
  need 2 left
  if ← skip? "h" then
    let offset ← signedNumber
    skip "_"
    return "\x7boffset(" ++ toString offset ++ ")\x7d"
  skip "v"
  let offset ← signedNumber
  skip "_"
  let virtualOffset ← signedNumber
  skip "_"
  return "\x7bvirtual offset(" ++ toString offset ++ ", " ++ toString virtualOffset ++ ")\x7d"

/-- The name of a resource, in which a dollar sign starts the spelling of another sign. -/
def resourceName? : List Char → Option (List Char)
  | [] => some []
  | '$' :: 'S' :: rest => ('/' :: ·) <$> resourceName? rest
  | '$' :: '_' :: rest => ('.' :: ·) <$> resourceName? rest
  | '$' :: '$' :: rest => ('$' :: ·) <$> resourceName? rest
  | '$' :: _ => none
  | c :: rest => (c :: ·) <$> resourceName? rest

/-- The bytes of a character, each as the character of that number. -/
def bytesOf (c : Char) : List Char :=
  (String.utf8EncodeChar c).map fun byte => Char.ofNat byte.toNat

/-- The characters in front that take so many bytes, as these bytes, and the rest. -/
def splitBytes? : Nat → List Char → Option (List Char × List Char)
  | 0, rest => some ([], rest)
  | _, [] => none
  | count, c :: rest =>
      if c.utf8Size ≤ count then
        (splitBytes? (count - c.utf8Size) rest).map fun split => (bytesOf c ++ split.1, split.2)
      else none

/-- Reads the name of a resource.  The length in front of it is that of its bytes and of the mark
before them. -/
def resource : Reader String := do
  let length ← number
  if length = 0 then mismatch
  skip "_"
  match splitBytes? (length - 1) (← get).rest with
  | none => mismatch
  | some (bytes, rest) => do
      modify fun cursor => { cursor with rest }
      match resourceName? bytes with
      | some name => return String.ofList name
      | none => mismatch

/-- Reads a mark that a compiler leaves on a clone of a function. -/
def cloneMark (left : Nat) : Reader String := do
  need 2 left
  skip "."
  let kind ← spanOf fun c => isIdentifierChar c && c != '.'
  if kind.isEmpty then mismatch
  let numbers ← many do skip "."; number
  let numbers := String.join (numbers.map fun number => "." ++ toString number)
  return " [clone ." ++ String.ofList kind ++ numbers ++ "]"

end Reader

end Symbol

end ConcurrencyFaults
