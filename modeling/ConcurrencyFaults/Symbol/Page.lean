import ConcurrencyFaults.Symbol.Component

/-!
# The page that a symbol is written on

A declaration is written around its name: `int (*f)()` has parts of its type on both sides.  So the
sign of a type is not written at once but left as a trailer.  The type inside may write it where it
belongs, as functions and arrays do for the pointers around them; a trailer that nobody has taken by
then is written behind the type.

A writer adds to the page and may fail.  There is nothing to write for a template parameter without
an argument, or for a constructor without a class.
-/

namespace ConcurrencyFaults

namespace Symbol

/-- A part of a component that is still to be written. -/
inductive Trailer where
  /-- Qualifiers, which may be those of an array. -/
  | qualifiers (qualifiers : Qualifiers) (ofArray : Bool)
  | pointer
  | reference (kind : ReferenceKind)
  /-- The sign of pointers to members of a class. -/
  | member (owner : Component)
  | extent (extent : Option Component)
  | lanes (lanes : Component)
  /-- The qualifiers of the methods of a function type. -/
  | method (qualifiers : Qualifiers) (reference : Option ReferenceKind)
  /-- The parameters of a function type. -/
  | parameters (types : List Component)
  /-- The signature of a function that is being declared. -/
  | declaration (name : Component) (signature : List Component)
deriving Repr

namespace Trailer

/-- Whether the parameters of a function have to be set apart from the trailer by parentheses, and
if so, whether these follow a blank at all events. -/
def parentheses? : Trailer → Option Bool
  | .pointer | .reference _ => some false
  | .qualifiers _ _ | .member _ => some true
  | _ => none

/-- Whether the trailer is written only behind the parameters of a function. -/
def isSuffix : Trailer → Bool
  | .method words _ => !words.isEmpty
  | _ => false

end Trailer

/-- What is written so far, and what is still to be written. -/
structure Page where
  /-- The characters, the last one in front. -/
  written : List Char := []
  /-- The trailers that are still to be written, each with its number, the innermost in front. -/
  pending : List (Nat × Trailer) := []
  /-- How many trailers there were so far. -/
  numbered : Nat := 0
  /-- The last identifier that was written, after which classes without a name are called. -/
  lastIdentifier : Option String := none
  /-- In the parameters of a lambda, an argument stands for a parameter that is deduced. -/
  inLambda : Bool := false
  /-- Whether the elements of a pack were written.  From then on no pack is written as dots. -/
  isUnpacked : Bool := false

/-- Adds to a page. -/
abbrev Writer := StateT Page Option

namespace Writer

/-! ## Characters -/

def write (text : String) : Writer Unit :=
  modify fun page => { page with written := text.toList.reverse ++ page.written }

/-- Whether the last character is one of those given. -/
def endsWith (characters : List Char) : Writer Bool :=
  return (← get).written.head?.any characters.contains

/-- Writes a blank unless there is one. -/
def blank : Writer Unit := do
  unless ← endsWith [' '] do write " "

/-- Writes words, each behind a blank. -/
def writeWords (words : List String) : Writer Unit :=
  words.forM fun word => do blank; write word

/-- Writes the qualifiers of a method. -/
def writeQualifiers (qualifiers : Qualifiers) (reference : Option ReferenceKind) : Writer Unit :=
  writeWords (qualifiers.words ++ (reference.map ReferenceKind.sign).toList)

/-- Whether an identifier is one of those that are given to namespaces without a name. -/
def isNameless (text : String) : Bool :=
  ["_GLOBAL_.N", "_GLOBAL__N", "_GLOBAL_$N"].any fun start => start.toList.isPrefixOf text.toList

/-- Writes an identifier. -/
def writeIdentifier (text : String) : Writer Unit := do
  if isNameless text then write "(anonymous namespace)"
  else do
    modify fun page => { page with lastIdentifier := some text }
    write text

/-- Writes items with commas between them. -/
def writeList {α : Type} (writeItem : α → Writer Unit) : List α → Writer Unit
  | [] => pure ()
  | [last] => writeItem last
  | first :: rest => do
      writeItem first
      write ", "
      writeList writeItem rest

/-- Writes a literal of a type.  Only integers and truth values do without their type. -/
def writeLiteral (type : Component) (digits : String) (writeType : Writer Unit) : Writer Unit := do
  let (sign, digits) := match digits.toList with
    | 'n' :: rest => ("-", String.ofList rest)
    | _ => ("", digits)
  let writeCast : Writer Unit := do write "("; writeType; write ")"
  match type with
  | .builtin "bool" =>
      if sign ++ digits = "0" then write "false"
      else if sign ++ digits = "1" then write "true"
      else do writeCast; write (sign ++ digits)
  | .builtin "std::nullptr_t" => write "nullptr"
  | .builtin "int" => write (sign ++ digits)
  | .builtin "float" | .builtin "double" => do
      writeCast
      write (sign ++ "[" ++ digits ++ "]")
  | _ => do
      writeCast
      write (sign ++ digits)

/-! ## Trailers -/

/-- Leaves a trailer on the page, and hands out its number. -/
def postpone (trailer : Trailer) : Writer Nat := do
  let number := (← get).numbered
  modify fun page => { page with
    pending := (number, trailer) :: page.pending
    numbered := number + 1 }
  return number

/-- Takes the innermost trailer off the page. -/
def takeTrailer : Writer (Option Trailer) := do
  match (← get).pending with
  | [] => return none
  | (_, first) :: rest => do
      modify fun page => { page with pending := rest }
      return some first

/-- Takes a trailer off the page if it is still the innermost one, and says whether it was. -/
def retract (number : Nat) : Writer Bool := do
  match (← get).pending with
  | (first, _) :: rest =>
      if first = number then do
        modify fun page => { page with pending := rest }
        return true
      else return false
  | [] => return false

/-- Writes something out of reach of the trailers that are still to be written. -/
def setApart (writer : Writer Unit) : Writer Unit := do
  let pending := (← get).pending
  modify fun page => { page with pending := [] }
  writer
  modify fun page => { page with pending }

/-- Takes off the innermost trailers, up to the first that fails a test. -/
def skipTrailers (test : Trailer → Bool) : Writer Unit :=
  modify fun page => { page with pending := page.pending.dropWhile fun entry => test entry.2 }

/-- The innermost trailer, which stays where it is. -/
def peekTrailer : Writer (Option Trailer) := return (← get).pending.head?.map Prod.snd

/-- Writes the sign of a reference.  A reference to a reference is an rvalue reference only if both
are, and the outermost lvalue reference is the one that is written. -/
def writeReference (kind : ReferenceKind) : Writer Unit := do
  skipTrailers fun trailer => trailer matches .reference .rvalue
  unless (← peekTrailer) matches some (.reference .lvalue) do write kind.sign

/-- Takes off the trailers one after the other, at most as many as there were at first, and says
whether any of them gave a sign. -/
def drainFor (writeTrailer : Trailer → Writer Bool) : Nat → Writer Bool
  | 0 => return false
  | count + 1 => do
      match ← takeTrailer with
      | none => return false
      | some trailer => do
          let first ← writeTrailer trailer
          return first || (← drainFor writeTrailer count)

/-- Takes off all trailers, and says whether any of them gave a sign. -/
def drain (writeTrailer : Trailer → Writer Bool) : Writer Bool := do
  drainFor writeTrailer (← get).pending.length

/-- Writes all trailers. -/
def drainAll (writeTrailer : Trailer → Writer Unit) : Writer Unit := do
  let _ ← drain fun trailer => do writeTrailer trailer; return false

/-- Writes the trailers that belong in front of the parameters of a function, at most as many as
there were at first, and gives back the others. -/
def drainPrefixesFor (writeTrailer : Trailer → Writer Unit) :
    Nat → Writer (List (Nat × Trailer))
  | 0 => return []
  | count + 1 => do
      match (← get).pending with
      | [] => return []
      | first :: rest => do
          modify fun page => { page with pending := rest }
          if first.2.isSuffix then return first :: (← drainPrefixesFor writeTrailer count)
          writeTrailer first.2
          drainPrefixesFor writeTrailer count

/-- Writes the trailers that belong in front of the parameters of a function, and keeps the others
for later. -/
def drainPrefixes (writeTrailer : Trailer → Writer Unit) : Writer Unit := do
  let kept ← drainPrefixesFor writeTrailer (← get).pending.length
  modify fun page => { page with pending := kept }

end Writer

end Symbol

end ConcurrencyFaults
