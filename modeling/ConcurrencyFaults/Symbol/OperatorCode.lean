/-!
# Codes of operators

The operators of C++ each have a code of two letters.
-/

namespace ConcurrencyFaults

namespace Symbol

/-- An operator with its code, and how many operands it has in an expression. -/
structure OperatorCode where
  code : String
  sign : String
  operands : Nat
deriving DecidableEq, Repr

namespace OperatorCode

/-- All operators with a sign of their own. -/
def all : List OperatorCode := [
  ⟨"nw", "new", 3⟩, ⟨"na", "new[]", 3⟩, ⟨"dl", "delete", 1⟩, ⟨"da", "delete[]", 1⟩,
  ⟨"ps", "+", 1⟩, ⟨"ng", "-", 1⟩, ⟨"ad", "&", 1⟩, ⟨"de", "*", 1⟩, ⟨"co", "~", 1⟩,
  ⟨"nt", "!", 1⟩, ⟨"pp", "++", 1⟩, ⟨"mm", "--", 1⟩,
  ⟨"pl", "+", 2⟩, ⟨"mi", "-", 2⟩, ⟨"ml", "*", 2⟩, ⟨"dv", "/", 2⟩, ⟨"rm", "%", 2⟩,
  ⟨"an", "&", 2⟩, ⟨"or", "|", 2⟩, ⟨"eo", "^", 2⟩, ⟨"aS", "=", 2⟩, ⟨"pL", "+=", 2⟩,
  ⟨"mI", "-=", 2⟩, ⟨"mL", "*=", 2⟩, ⟨"dV", "/=", 2⟩, ⟨"rM", "%=", 2⟩, ⟨"aN", "&=", 2⟩,
  ⟨"oR", "|=", 2⟩, ⟨"eO", "^=", 2⟩, ⟨"ls", "<<", 2⟩, ⟨"rs", ">>", 2⟩, ⟨"lS", "<<=", 2⟩,
  ⟨"rS", ">>=", 2⟩, ⟨"eq", "==", 2⟩, ⟨"ne", "!=", 2⟩, ⟨"lt", "<", 2⟩, ⟨"gt", ">", 2⟩,
  ⟨"le", "<=", 2⟩, ⟨"ge", ">=", 2⟩, ⟨"ss", "<=>", 2⟩, ⟨"aa", "&&", 2⟩, ⟨"oo", "||", 2⟩,
  ⟨"cm", ",", 2⟩, ⟨"pm", "->*", 2⟩, ⟨"pt", "->", 2⟩, ⟨"cl", "()", 2⟩, ⟨"ix", "[]", 2⟩,
  ⟨"qu", "?:", 3⟩]

/-- The operator with a code. -/
def find? (code : String) : Option OperatorCode := all.find? (·.code = code)

/-- Whether the sign is a word. -/
def isWord (operator : OperatorCode) : Bool := operator.sign.toList.head?.any Char.isAlpha

end OperatorCode

end Symbol

end ConcurrencyFaults
