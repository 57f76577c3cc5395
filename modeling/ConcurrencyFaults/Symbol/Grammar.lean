import ConcurrencyFaults.Symbol.Expression

/-!
# The grammar of mangled symbols

A symbol starts with `_Z` and spells an encoding: a name, followed by the types of a signature if
the name is that of a function.  Names and types are told apart by trying one after the other.
Classes, compound types and all leading parts of nested names are entered into the table in the
order in which they end; builtin types and whatever was taken from the table are not.

The readers call each other, and each takes one of the levels that are left.  A symbol may be nested
`nestingLimit` levels deep and no deeper, so the readers come to an end without another bound.
-/

namespace ConcurrencyFaults

namespace Symbol

namespace Reader

mutual

-- Declarations.

/-- Reads a symbol: a declaration with the marks of a clone behind it, or something that a compiler
adds to a program.  A type may stand in the place of a symbol, too. -/
def mangledName : Nat → Reader Component
  | 0 => tooDeep
  | left + 1 => do
      if (← skip? "_Z") || (← skip? "__Z") then
        let subject ← encoding left
        let clones ← many (cloneMark left)
        return if clones.isEmpty then subject else .phrase (subject :: clones.map .words)
      if (← skip? "___Z") || (← skip? "____Z") then
        let subject ← encoding left
        skip "_block_invoke"
        if (← skip? "_") || (← skip? ".") then
          let _ ← number
        else
          let _ ← maybe number
        return .around "invocation function for block in " subject
      if ← skip? "_GLOBAL_" then return .declaration (← startOrEnd left) []
      type left

/-- Reads which function the code of a program's start or end is keyed to. -/
def startOrEnd : Nat → Reader Component
  | 0 => tooDeep
  | left + 1 => do
      let _ ← takeOne "_.$".toList.contains
      if ← skip? "I_" then return .around "global constructors keyed to " (← mangledName left)
      skip "D_"
      return .around "global destructors keyed to " (← mangledName left)

/-- Reads a declaration: a function with its signature, an object, or something that belongs to
another component. -/
def encoding : Nat → Reader Component
  | 0 => tooDeep
  | left + 1 => do
      if let some subject ← maybe (name left) then
        return .declaration subject ((← maybe (signature left)).getD [])
      return .declaration (← special left) []

/-- Reads the types of a function. -/
def signature : Nat → Reader (List Component)
  | 0 => tooDeep
  | left + 1 => oneOrMore (type left)

/-- Reads something that belongs to another component. -/
def special : Nat → Reader Component
  | 0 => tooDeep
  | left + 1 => do
      if ← skip? "TV" then return .around "\x7bvtable(" (← type left) ")\x7d"
      if ← skip? "TT" then return .around "\x7bvtt(" (← type left) ")\x7d"
      if ← skip? "TI" then return .around "typeinfo for " (← type left)
      if ← skip? "TS" then return .around "typeinfo name for " (← type left)
      if ← skip? "TF" then return .around "typeinfo fn for " (← type left)
      if ← skip? "TH" then return .around "TLS init function for " (← name left)
      if ← skip? "TW" then return .around "TLS wrapper function for " (← name left)
      if ← skip? "TC" then
        let derived ← type left
        let _ ← number
        skip "_"
        return .phrase [.words "construction vtable for ", derived, .words "-in-", ← type left]
      if ← skip? "Tc" then
        let this ← callOffset left
        let result ← callOffset left
        return .around ("\x7bvirtual override thunk(" ++ this ++ ", " ++ result ++ ", ")
          (← encoding left) ")\x7d"
      if ← skip? "T" then
        let offset ← callOffset left
        return .around ("\x7bvirtual override thunk(" ++ offset ++ ", ") (← encoding left) ")\x7d"
      if ← skip? "GV" then return .around "guard variable for " (← name left)
      if ← skip? "GTn" then return .around "non-transaction clone for " (← encoding left)
      if ← skip? "GT" then
        let _ ← takeOne (·.toNat < 0x80)
        return .around "transaction clone for " (← encoding left)
      if ← skip? "Gr" then return .words ("java resource " ++ (← resource))
      skip "GR"
      let object ← name left
      let index ← tableIndex
      return .around ("reference temporary #" ++ toString index ++ " for ") object

-- Names.

/-- Reads a name. -/
def name : Nat → Reader Component
  | 0 => tooDeep
  | left + 1 => do
      if let some nested ← maybe (nestedName left) then return nested
      if let some plain ← maybe (unscopedName left) then
        if (← peek) = some 'I' then
          let _ ← remember .templateName plain
          return ← arguments left .name plain
        return plain
      if let some template ← maybe (templateName left) then
        return ← arguments left .name template
      localName left

/-- Reads a name that lies in no scope, or in that of the standard library. -/
def unscopedName : Nat → Reader Component
  | 0 => tooDeep
  | left + 1 => do
      if ← skip? "St" then return .nested (.abbreviation .std) (← unqualified left)
      unqualified left

/-- Reads the name of a template that lies in no scope. -/
def templateName : Nat → Reader Component
  | 0 => tooDeep
  | left + 1 => do
      if let some plain ← maybe (unscopedName left) then
        return (← remember .templateName plain).component
      let entry ← backReference left
      unless entry.role = .abbreviation || entry.role = .templateName do mismatch
      return entry.component

/-- Reads a name that lies in some scope. -/
def nestedName : Nat → Reader Component
  | 0 => tooDeep
  | left + 1 => do
      skip "N"
      let receiver ←
        if ← skip? "H" then pure .explicit
        else do
          let qualifiers ← qualifiers left
          pure (.implicit qualifiers (← referenceQualifier left))
      let name ← nestedParts left
      skip "E"
      unless name.role = .part do mismatch
      return .fullName receiver name.component

/-- Reads the parts of a nested name one after the other, up to its end. -/
def nestedParts : Nat → Reader Entry
  | 0 => tooDeep
  | left + 1 => grow (nestedPart left)

/-- Reads the next part of a nested name, if the name does not end here. -/
def nestedPart : Nat → Option Entry → Reader (Option Entry)
  | 0, _ => tooDeep
  | left + 1, outer => do
      let within (name : Component) : Component :=
        match outer with
        | some scope => .nested scope.component name
        | none => name
      match ← peek, outer with
      | none, _ | some 'E', _ => return none
      | some 'S', _ => some <$> backReference left
      | some 'T', _ => some <$> do rememberPart .other (← templateParameter left)
      | some 'D', _ => do
          if let some declared ← maybe (declaredType left) then
            return some (← rememberPart .other declared)
          some <$> do rememberPart .part (within (← unqualified left))
      | some 'I', some scope =>
          some <$> do rememberPart .part (← arguments left .part scope.component)
      | some c, some scope =>
          if c.isDigit then do
            let text ← sourceName left
            let tagged ← tag left (.identifier text)
            -- The scope of a lambda may be a data member, which is written without its tags.
            if ← skip? "M" then
              return some (← rememberPart .other (.nested scope.component (.identifier text)))
            some <$> do rememberPart .part (within tagged)
          else some <$> do rememberPart .part (within (← unqualified left))
      | some _, none => some <$> do rememberPart .part (← unqualified left)

/-- Reads a name that lies in a function. -/
def localName : Nat → Reader Component
  | 0 => tooDeep
  | left + 1 => do
      skip "Z"
      let function ← encoding left
      skip "E"
      if ← skip? "s" then
        let _ ← maybe (discriminator left)
        return .inFunction function (.words "string literal")
      if ← skip? "d" then
        let _ ← maybe signedNumber
        skip "_"
        return .inDefault function (← name left)
      let name ← name left
      let _ ← maybe (discriminator left)
      return .inFunction function name

/-- Reads a name without its scope. -/
def unqualified : Nat → Reader Component
  | 0 => tooDeep
  | left + 1 => do
      if let some operator ← maybe (operatorName left) then return ← tag left operator
      if let some method ← maybe (specialMethod left) then return ← tag left method
      if ← skip? "L" then
        let text ← sourceName left
        let _ ← maybe (discriminator left)
        return ← tag left (.identifier text)
      if let some text ← maybe (sourceName left) then return ← tag left (.identifier text)
      if let some closure ← maybe (closureType left) then return ← tag left closure
      need 1 left
      skip "Ut"
      let number ← optionalNumber
      tag left (.unnamed ((number.map (· + 1)).getD 1))

/-- Reads the name of a function that is an operator. -/
def operatorName : Nat → Reader Component
  | 0 => tooDeep
  | left + 1 => do return .operator (← operator left false).sign

/-- Reads an operator.  In an expression, a conversion is a cast. -/
def operator : Nat → Bool → Reader ExpressionOperator
  | 0, _ => tooDeep
  | left + 1, isExpression => do
      if let some operator ← maybe (operatorCode left) then
        let sign := if operator.isWord then .operatorWord operator.sign else .words operator.sign
        return ⟨sign, operator.sign, operator.operands⟩
      if ← skip? "cv" then
        let outer := (← get).inConversion
        modify fun cursor => { cursor with inConversion := outer || !isExpression }
        let target ← type left
        modify fun cursor => { cursor with inConversion := outer }
        return ⟨.conversion target, "", 1⟩
      if ← skip? "li" then
        return ⟨.around "" (.identifier (← sourceName left)) "::operator \"\"", "", 1⟩
      skip "v"
      let operands ← takeOne Char.isDigit
      let name := Component.identifier (← sourceName left)
      return ⟨.around "" name ("::operator " ++ toString operands), "", digitValue operands⟩

/-- Reads a constructor or a destructor, of which a class has several. -/
def specialMethod : Nat → Reader Component
  | 0 => tooDeep
  | left + 1 => do
      if ← skip? "C" then
        let isInherited ← skip? "I"
        let _ ← takeOne "1234".toList.contains
        if isInherited then return .inherited (← type left) else return .constructor
      skip "D"
      let _ ← takeOne "0124".toList.contains
      return .destructor

/-- Reads the type of a lambda. -/
def closureType : Nat → Reader Component
  | 0 => tooDeep
  | left + 1 => do
      skip "Ul"
      let parameters ← closureSignature left
      skip "E"
      return .lambda parameters ((← sequenceNumber) + 1)

/-- Reads the types of the parameters of a lambda. -/
def closureSignature : Nat → Reader (List Component)
  | 0 => tooDeep
  | left + 1 => do
      if ← skip? "v" then return []
      oneOrMore (type left)

-- Types.

/-- Reads a type.  All types are entered into the table but the builtin ones and those taken from
it. -/
def type : Nat → Reader Component
  | 0 => tooDeep
  | left + 1 => do
      if let some builtin ← maybe (builtin left) then return builtin
      if let some function ← maybe (functionType left) then return ← rememberType function
      -- Some codes of qualifiers start those of operators as well, and are qualifiers here.
      let qualifiers ← qualifiers left
      unless qualifiers.isEmpty do return ← rememberType (.qualified qualifiers (← type left))
      if ← skip? "U" then
        let extension := Component.identifier (← sourceName left)
        let extension := (← maybe (arguments left .part extension)).getD extension
        return ← rememberType (.extended (← type left) extension)
      if let some named ← maybe (classType left) then return ← rememberType named
      let known ← maybe do
        let entry ← backReference left
        if (← peek) = some 'I' then mismatch
        return entry.component
      if let some component := known then return component
      if let some array ← maybe (arrayType left) then return ← rememberType array
      if let some vector ← maybe (vectorType left) then return ← rememberType vector
      if let some pointer ← maybe (memberPointerType left) then return ← rememberType pointer
      let start ← get
      if let some parameter ← maybe (templateParameter left) then
        let behind ← get
        if (← peek) ≠ some 'I' then return ← rememberType parameter
        if start.inConversion then
          -- What looks like arguments belongs to the operator, unless more of them follow.
          let applied ← maybe (arguments left .type parameter)
          let next ← peek
          set behind
          if applied.isSome && next ≠ some 'I' then return ← rememberType parameter
        set start
      if let some template ← maybe (templateType left) then
        return ← rememberType (← arguments left .type template)
      if let some declared ← maybe (declaredType left) then return ← rememberType declared
      if ← skip? "P" then return ← rememberType (.pointer (← type left))
      if ← skip? "R" then return ← rememberType (.reference .lvalue (← type left))
      if ← skip? "O" then return ← rememberType (.reference .rvalue (← type left))
      if ← skip? "C" then return ← rememberType (.worded (← type left) "complex")
      if ← skip? "G" then return ← rememberType (.worded (← type left) "imaginary")
      skip "Dp"
      rememberType (.expansion (← type left))

/-- Reads a builtin type. -/
def builtin : Nat → Reader Component
  | 0 => tooDeep
  | left + 1 => do
      if let some plain ← maybe (plainBuiltin left) then return plain
      if let some sized ← maybe (sizedBuiltin left) then return sized
      skip "u"
      return .phrase [.identifier (← sourceName left)]

/-- Reads a builtin type that has a number of bits. -/
def sizedBuiltin : Nat → Reader Component
  | 0 => tooDeep
  | left + 1 => do
      if ← skip? "DF" then
        let bits ← number
        checkBits bits
        if ← skip? "_" then return .builtin ("_Float" ++ toString bits)
        if ← skip? "x" then return .builtin ("_Float" ++ toString bits ++ "x")
        unless bits = 16 do mismatch
        skip "b"
        return .builtin "std::bfloat16_t"
      let sign ← if ← skip? "DB" then pure "signed" else do skip "DU"; pure "unsigned"
      -- An expression ends without a mark.
      let bits ← match ← maybe number with
        | some bits => do checkBits bits; skip "_"; pure (Component.words (toString bits))
        | none => expression left
      return .around (sign ++ " _BitInt(") bits ")"

/-- Reads the name of a class, which may say what it is a name of. -/
def classType : Nat → Reader Component
  | 0 => tooDeep
  | left + 1 => do
      if let some plain ← maybe (name left) then return .classType "" plain
      if ← skip? "Ts" then return .classType "class " (← name left)
      if ← skip? "Tu" then return .classType "union " (← name left)
      skip "Te"
      return .classType "enum " (← name left)

/-- Reads a template that arguments follow in a type. -/
def templateType : Nat → Reader Component
  | 0 => tooDeep
  | left + 1 => do
      if let some entry ← maybe (backReference left) then return entry.component
      need 1 left
      return (← remember .other (← templateParameter (left - 1))).component

/-- Reads the type that an expression is declared with. -/
def declaredType : Nat → Reader Component
  | 0 => tooDeep
  | left + 1 => do
      unless (← skip? "Dt") || (← skip? "DT") do mismatch
      let subject ← expression left
      skip "E"
      return .typeOf subject

/-- Reads a function type. -/
def functionType : Nat → Reader Component
  | 0 => tooDeep
  | left + 1 => do
      let qualifiers ← qualifiers left
      let exceptions ← maybe (exceptionClause left)
      let _ ← skip? "Dx"
      skip "F"
      let _ ← skip? "Y"
      let types ← signature left
      let reference ← referenceQualifier left
      skip "E"
      return .function types qualifiers reference exceptions

/-- Reads which exceptions a function may throw. -/
def exceptionClause : Nat → Reader Component
  | 0 => tooDeep
  | left + 1 => do
      if ← skip? "Do" then return .words "noexcept"
      skip "DO"
      let condition ← expression left
      skip "E"
      return .around "noexcept(" condition ")"

/-- Reads an array type. -/
def arrayType : Nat → Reader Component
  | 0 => tooDeep
  | left + 1 => do
      skip "A"
      let extent ← match ← maybe number with
        | some extent => pure (some (Component.words (toString extent)))
        | none => maybe (expression left)
      skip "_"
      return .array extent (← type left)

/-- Reads the type of several lanes of one type. -/
def vectorType : Nat → Reader Component
  | 0 => tooDeep
  | left + 1 => do
      skip "Dv"
      let lanes ← match ← maybe number with
        | some lanes => pure (Component.words (toString lanes))
        | none => expression left
      skip "_"
      return .vector lanes (← type left)

/-- Reads the type of pointers to members of a class. -/
def memberPointerType : Nat → Reader Component
  | 0 => tooDeep
  | left + 1 => do
      skip "M"
      let owner ← type left
      return .memberPointer owner (← type left)

-- Template arguments.

/-- Reads the arguments of a template, which are set apart by where they start. -/
def arguments : Nat → TemplateForm → Component → Reader Component
  | 0, _, _ => tooDeep
  | left + 1, form, template => do
      let mark := (← get).rest.length
      skip "I"
      let arguments ← oneOrMore (argument left)
      skip "E"
      return .template form template mark arguments

/-- Reads one argument of a template. -/
def argument : Nat → Reader Component
  | 0 => tooDeep
  | left + 1 => do
      if ← skip? "X" then
        let value ← expression left
        skip "E"
        return value
      if let some value ← maybe (literal left) then return value
      if let some type ← maybe (type left) then return type
      unless (← skip? "J") || (← skip? "I") do mismatch
      let elements ← many (argument left)
      skip "E"
      return .pack elements

/-- Reads a value of some type, or the symbol of something outside. -/
def literal : Nat → Reader Component
  | 0 => tooDeep
  | left + 1 => do
      skip "L"
      if let some type ← maybe (type left) then
        let digits ← spanOf (· != 'E')
        skip "E"
        return .literal type (String.ofList digits)
      let subject ← mangledName left
      skip "E"
      return .external subject

-- Expressions.

/-- Reads an expression over template parameters, values and operators. -/
def expression : Nat → Reader Component
  | 0 => tooDeep
  | left + 1 => do
      let parts : Parts := {
        type := type left
        expression := expression left
        argument := argument left
        member := memberName left
        operator := operator left true
        initializer := initializer left
        parameter := do
          if let some parameter ← maybe (templateParameter left) then return parameter
          functionParameter left }
      if ← skip? "pp_" then return .around "++" (← expression left)
      if ← skip? "mm_" then return .around "--" (← expression left)
      if let some reader := parts.form? (← peekCode) then
        let _ ← take 2
        return ← reader
      if let some special ← maybe parts.attempt then return special
      if let some computed ← maybe (operation left) then return computed
      if let some parameter ← maybe parts.parameter then return parameter
      if let some unresolved ← maybe (unresolvedName left) then return unresolved
      literal left

/-- Reads an operator with its operands. -/
def operation : Nat → Reader Component
  | 0 => tooDeep
  | left + 1 => do
      let operator ← operator left true
      let operands ← atMost (expression left) operator.operands
      unless operands.length = operator.operands do mismatch
      match operator.apply? operands with
      | some applied => return applied
      | none => mismatch

/-- Reads the values that an object is created from. -/
def initializer : Nat → Reader Component
  | 0 => tooDeep
  | left + 1 => do
      skip "pi"
      let values ← many (expression left)
      skip "E"
      return .around "(" (.listing values) ")"

/-- Reads the name of a member, which stands in parentheses if it is that of a template. -/
def memberName : Nat → Reader Component
  | 0 => tooDeep
  | left + 1 => do
      let name ← unqualified left
      match ← maybe (arguments left .name name) with
      | some applied => return .around "(" applied ")"
      | none => return name

-- Names that depend on template arguments.

/-- Reads a name that is only found once the template arguments are known. -/
def unresolvedName : Nat → Reader Component
  | 0 => tooDeep
  | left + 1 => do
      let path (first : List Component) (levels : List Component) (base : Component) :=
        Component.phrase (first ++ levels.flatMap (fun level => [level, .words "::"]) ++ [base])
      if ← skip? "gs" then
        if let some base ← maybe (baseName left) then return .around "::" base
        skip "sr"
        let levels ← oneOrMore (qualifierLevel left)
        skip "E"
        return path [.words "::"] levels (← baseName left)
      if let some base ← maybe (baseName left) then return base
      skip "sr"
      if ← skip? "N" then
        let owner ← unresolvedType left
        let levels ← oneOrMore (qualifierLevel left)
        skip "E"
        return path [owner, .words "::"] levels (← baseName left)
      if let some owner ← maybe (unresolvedType left) then
        return path [owner, .words "::"] [] (← baseName left)
      let levels ← oneOrMore (qualifierLevel left)
      skip "E"
      return path [] levels (← baseName left)

/-- Reads the type that an unresolved name belongs to. -/
def unresolvedType : Nat → Reader Component
  | 0 => tooDeep
  | left + 1 => do
      if let some parameter ← maybe (templateParameter left) then
        let applied := (← maybe (arguments left .part parameter)).getD parameter
        return ← rememberType applied
      if let some declared ← maybe (declaredType left) then return ← rememberType declared
      return (← backReference left).component

/-- Reads one of the scopes that an unresolved name lies in. -/
def qualifierLevel : Nat → Reader Component
  | 0 => tooDeep
  | left + 1 => simpleName left

/-- Reads an identifier that may be the name of a template. -/
def simpleName : Nat → Reader Component
  | 0 => tooDeep
  | left + 1 => do
      let name := Component.identifier (← sourceName left)
      return (← maybe (arguments left .part name)).getD name

/-- Reads the last part of an unresolved name. -/
def baseName : Nat → Reader Component
  | 0 => tooDeep
  | left + 1 => do
      if let some name ← maybe (simpleName left) then return name
      if ← skip? "dn" then return .around "~" (← destructorName left)
      skip "on"
      let operator := .phrase [← operatorSign left]
      return (← maybe (arguments left .part operator)).getD operator

/-- Reads the sign of an operator. -/
def operatorSign : Nat → Reader Component
  | 0 => tooDeep
  | left + 1 => do return (← operator left false).sign

/-- Reads the name of the class that a destructor belongs to. -/
def destructorName : Nat → Reader Component
  | 0 => tooDeep
  | left + 1 => do
      if let some owner ← maybe (unresolvedType left) then return owner
      simpleName left

end

/-- How many levels a symbol may be nested. -/
def nestingLimit : Nat := 95

end Reader

/-- The component that a symbol spells, if the whole of it follows the grammar. -/
def Component.ofSymbol? (symbol : String) : Option Component :=
  if "_Z".toList.isPrefixOf symbol.toList then
    match (Reader.mangledName Reader.nestingLimit).run { rest := symbol.toList } with
    | (.ok component, ⟨[], _, _⟩) => some component
    | _ => none
  else none

end Symbol

end ConcurrencyFaults
