/-!
# Components of mangled symbols

A mangled symbol of C++ spells a declaration with one or two letters for each construct.  Read back,
it is a tree of components: names, types, template arguments and the few expressions that may stand
among them.

These trees only stand between the text that `Symbol.readable` is given and the text that it
answers.  No statement about programs mentions them.
-/

namespace ConcurrencyFaults

namespace Symbol

/-- The names that have a two-letter spelling of their own. -/
inductive Abbreviation where
  | std
  | allocator
  | basicString
  | string
  | inputStream
  | outputStream
  | stream
deriving DecidableEq, Repr

namespace Abbreviation

/-- The abbreviation that a letter after `S` spells. -/
def ofLetter? : Char → Option Abbreviation
  | 't' => some .std
  | 'a' => some .allocator
  | 'b' => some .basicString
  | 's' => some .string
  | 'i' => some .inputStream
  | 'o' => some .outputStream
  | 'd' => some .stream
  | _ => none

/-- The name in full. -/
def text : Abbreviation → String
  | .std => "std"
  | .allocator => "std::allocator"
  | .basicString => "std::basic_string"
  | .string => "std::string"
  | .inputStream => "std::basic_istream<char, std::char_traits<char> >"
  | .outputStream => "std::ostream"
  | .stream => "std::basic_iostream<char, std::char_traits<char> >"

/-- The name of the class itself, after which its constructors are called. -/
def className? : Abbreviation → Option String
  | .std => none
  | .allocator => some "allocator"
  | .basicString => some "basic_string"
  | .string => some "string"
  | .inputStream => some "basic_istream"
  | .outputStream => some "ostream"
  | .stream => some "basic_iostream"

end Abbreviation

/-- The qualifiers of a type or of a method. -/
structure Qualifiers where
  restrict : Bool := false
  volatile : Bool := false
  const : Bool := false
deriving DecidableEq, Repr

namespace Qualifiers

def isEmpty (qualifiers : Qualifiers) : Bool :=
  !qualifiers.restrict && !qualifiers.volatile && !qualifiers.const

/-- The words of the qualifiers, in the order in which they are written. -/
def words (qualifiers : Qualifiers) : List String :=
  (if qualifiers.const then ["const"] else []) ++
    (if qualifiers.volatile then ["volatile"] else []) ++
    (if qualifiers.restrict then ["restrict"] else [])

end Qualifiers

/-- The two kinds of references. -/
inductive ReferenceKind where
  | lvalue
  | rvalue
deriving DecidableEq, Repr

/-- The sign of a reference. -/
def ReferenceKind.sign : ReferenceKind → String
  | .lvalue => "&"
  | .rvalue => "&&"

/-- How a method takes the object that it is called for. -/
inductive Receiver where
  /-- The object is no parameter, so the method itself has the qualifiers of the object. -/
  | implicit (qualifiers : Qualifiers) (reference : Option ReferenceKind)
  /-- The object is the first parameter. -/
  | explicit
deriving DecidableEq, Repr

/-- Where the arguments of a template stand. -/
inductive TemplateForm where
  /-- Behind a name that lies in no scope, which may refer to the arguments itself. -/
  | name
  /-- Behind a part of a nested name. -/
  | part
  /-- Behind a type that is taken from elsewhere. -/
  | type
deriving DecidableEq, Repr

/-- A part of a mangled symbol: first the names, then the types, then values and expressions, and
last the whole declarations. -/
inductive Component where
  | identifier (text : String)
  | tagged (name : Component) (tags : List String)
  | abbreviation (short : Abbreviation)
  /-- The function that an operator is called by. -/
  | operator (sign : Component)
  /-- The sign of an operator that is a word. -/
  | operatorWord (text : String)
  /-- The sign of the operator that converts to a type. -/
  | conversion (target : Component)
  | constructor
  | destructor
  /-- A constructor that is inherited is called after the type that it comes from. -/
  | inherited (base : Component)
  | unnamed (number : Nat)
  | lambda (parameters : List Component) (number : Nat)
  | nested (outer name : Component)
  /-- A template with its arguments.  The mark tells these arguments apart from all others. -/
  | template (form : TemplateForm) (name : Component) (mark : Nat) (arguments : List Component)
  /-- A whole nested name, which may be that of a method. -/
  | fullName (receiver : Receiver) (name : Component)
  /-- A name that is local to a function. -/
  | inFunction (function name : Component)
  /-- A name that is local to the default of a parameter. -/
  | inDefault (function name : Component)
  | builtin (text : String)
  /-- A type that has a name, with the word in front that says what it is. -/
  | classType (keyword : String) (name : Component)
  | qualified (qualifiers : Qualifiers) (type : Component)
  | pointer (type : Component)
  | reference (kind : ReferenceKind) (type : Component)
  /-- A type with a word behind it. -/
  | worded (type : Component) (word : String)
  /-- A type with a name behind it that only some compilers know. -/
  | extended (type extension : Component)
  | array (extent : Option Component) (type : Component)
  | vector (lanes : Component) (type : Component)
  /-- A function type, its result in front of its parameters. -/
  | function (signature : List Component) (qualifiers : Qualifiers)
      (reference : Option ReferenceKind) (exceptions : Option Component)
  | memberPointer (owner type : Component)
  /-- The template argument of some index. -/
  | parameter (index : Nat)
  | expansion (pattern : Component)
  | pack (elements : List Component)
  | typeOf (expression : Component)
  /-- A parameter of the function that is being declared, or its object if there is no number. -/
  | functionParameter (number : Option Nat)
  | literal (type : Component) (digits : String)
  /-- Something outside that is named by its own symbol. -/
  | external (declaration : Component)
  | words (text : String)
  /-- Components that are written one right after the other. -/
  | phrase (parts : List Component)
  /-- Components with commas between them. -/
  | listing (items : List Component)
  /-- A function with the types of its signature, as far as the symbol spells them, or, without a
  signature, anything else that is declared. -/
  | declaration (name : Component) (signature : List Component)
deriving Repr, Inhabited

namespace Component

/-- An expression as an operand of another one.  All stand in parentheses but the parameters of a
function and what lies outside. -/
def operand : Component → List Component
  | .functionParameter number => [.functionParameter number]
  | .external subject => [.external subject]
  | expression => [.words "(", expression, .words ")"]

/-- Whether the component is a constructor, a destructor or a conversion, whose symbols spell no
result type. -/
def lacksResult : Component → Bool
  | .constructor | .destructor | .inherited _ | .operator (.conversion _) => true
  | .tagged name _ => name.lacksResult
  | .nested _ name => name.lacksResult
  | .template .part name _ _ => name.lacksResult
  | .fullName _ name => name.lacksResult
  | _ => false

/-- What a constructor is called after in a declaration of this name: the last part of the name that
is no constructor, destructor or operator. -/
def leaf? : Component → Option Component
  | .identifier text => some (.identifier text)
  | .abbreviation short => short.className?.map .words
  | .unnamed number => some (.unnamed number)
  | .lambda parameters number => some (.lambda parameters number)
  | .tagged name _ => name.leaf?
  | .nested outer name => name.leaf? <|> outer.leaf?
  | .template .type _ _ _ => none
  | .template _ name _ _ => name.leaf?
  | .fullName _ name | .inFunction _ name | .inDefault _ name => name.leaf?
  | .classType _ name => name.leaf?
  | _ => none

/-- The mark and the arguments of a declared name that is a template, which its signature may refer
to. -/
def arguments? : Component → Option (Nat × List Component)
  | .template .name _ mark arguments => some (mark, arguments)
  | .fullName _ (.template .part _ mark arguments) => some (mark, arguments)
  | .inFunction _ name | .inDefault _ name => name.arguments?
  | _ => none

/-- The mark and the arguments of the target of a conversion. -/
def targetArguments? : Component → Option (Nat × List Component)
  | .template .type _ mark arguments => some (mark, arguments)
  | .extended _ (.template _ _ mark arguments) => some (mark, arguments)
  | _ => none

/-- Whether the declared name is that of a method whose first parameter is its object. -/
def takesObject : Component → Bool
  | .fullName .explicit _ => true
  | .inFunction _ name | .inDefault _ name => name.takesObject
  | _ => false

/-- Whether the component is the type that, as a lone parameter, means that there are none. -/
def isVoid : Component → Bool
  | .builtin text => text == "void"
  | _ => false

/-- Whether the component is an array type. -/
def isArray : Component → Bool
  | .array _ _ => true
  | _ => false

end Component

end Symbol

end ConcurrencyFaults
