/-!
# Fixed vocabularies

Memory orders, scopes, alias answers and the like are finite lists of values, each with a name of
its own.  A name is read back by searching the list, so reading accepts exactly the names that are
written, letter for letter.
-/

namespace ConcurrencyFaults

/-- A finite list of values, each written as one name. -/
class Vocabulary (Word : Type) where
  /-- Every value, in the order of declaration. -/
  all : List Word
  /-- The name of a value. -/
  text : Word → String

/-- A text that names no value of the vocabulary it was read in. -/
structure UnknownName where
  /-- The text that was read. -/
  text : String
deriving DecidableEq, Repr

/-- The wording of the complaint does not depend on the text. -/
def UnknownName.message (_ : UnknownName) : String := "Matching variant not found"

/-- The value with exactly this name. -/
def Vocabulary.find? {Word : Type} [Vocabulary Word] (name : String) : Option Word :=
  (Vocabulary.all : List Word).find? fun word => Vocabulary.text word == name

/-- Reading a name that may be unknown. -/
def Vocabulary.read {Word : Type} [Vocabulary Word] (name : String) : Except UnknownName Word :=
  match Vocabulary.find? name with
  | some word => .ok word
  | none => .error ⟨name⟩

end ConcurrencyFaults
