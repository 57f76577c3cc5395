import ConcurrencyFaults.Symbol.Grammar
import ConcurrencyFaults.Symbol.Rendering

/-!
# Keys of symbols

Calls are compared by the key of the symbol they name: the symbol as a reader would write it, up to
its parameters.

How a mangled symbol is read and written is of no concern to the theory.  Searches, pairs and
operators compare keys as they are, and whatever is proved of them holds of any other function of
symbols in place of `readable`.  The other modules on symbols serve whoever runs the library on
compiled programs.  All that proofs use of a key is that it ends before the first opening
parenthesis, and that a symbol which is not to be read is otherwise its own key.
-/

namespace ConcurrencyFaults

namespace Symbol

/-- A symbol as a reader would write it.  What is not the mangled name of a declaration stands for
itself. -/
def readable (symbol : String) : String :=
  ((Component.ofSymbol? symbol).bind Component.text?).getD symbol

/-- All that stands before the first opening parenthesis. -/
def withoutParameters (text : String) : String :=
  String.ofList (text.toList.takeWhile (· != '('))

/-- What a symbol is compared by. -/
def key (symbol : String) (demangled : Bool) : String :=
  withoutParameters (if demangled then readable symbol else symbol)

end Symbol

end ConcurrencyFaults
