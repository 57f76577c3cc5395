import ConcurrencyFaults.Symbol.Lexeme

/-!
# Expressions with a form of their own

Most expressions start with a code of two letters.  Where that is not the code of an operator with
its operands, the code has a form of its own: a cast, a call, a question about a type.  This module
reads these forms, given the readers of what they are made of.
-/

namespace ConcurrencyFaults

namespace Symbol

/-- Puts words around a component. -/
def Component.around (opening : String) (subject : Component) (closing : String := "") :
    Component :=
  .phrase [.words opening, subject, .words closing]

/-- An operator as an expression uses it. -/
structure ExpressionOperator where
  sign : Component
  text : String
  operands : Nat

/-- The expression of an operator, if it has as many operands as the operator takes. -/
def ExpressionOperator.apply? (operator : ExpressionOperator) : List Component → Option Component
  | [operand] =>
      -- An operator that steps in front of its operand has another code.
      some (.phrase (if operator.text = "++" || operator.text = "--" then
          operand.operand ++ [operator.sign]
        else operator.sign :: operand.operand))
  | [left, right] =>
      -- A sign that could end the arguments of a template stands in parentheses at all events.
      some (.phrase (if operator.text = ">" then
          [.words "((", left, .words ")", operator.sign, .words "(", right, .words "))"]
        else left.operand ++ [operator.sign] ++ right.operand))
  | [first, second, third] =>
      some (.phrase (if operator.text = "?:" then
          first.operand ++ [.words "?"] ++ second.operand ++ [.words " : "] ++ third.operand
        else [operator.sign, .words "(", .listing [first, second, third], .words ")"]))
  | _ => none

namespace Reader

/-- The readers of what expressions are made of. -/
structure Parts where
  type : Reader Component
  expression : Reader Component
  argument : Reader Component
  member : Reader Component
  operator : Reader ExpressionOperator
  initializer : Reader Component
  /-- A parameter of a template or of the function that is being declared. -/
  parameter : Reader Component

/-- The word of a cast that has a code. -/
def castWord? : String → Option String
  | "dc" => some "dynamic_cast"
  | "sc" => some "static_cast"
  | "cc" => some "const_cast"
  | "rc" => some "reinterpret_cast"
  | _ => none

/-- The word of a question about a type that has a code. -/
def typeWord? : String → Option String
  | "ti" => some "typeid"
  | "st" => some "sizeof"
  | "at" => some "alignof"
  | _ => none

/-- The word of a question about an expression that has a code. -/
def expressionWord? : String → Option String
  | "te" => some "typeid"
  | "sz" => some "sizeof"
  | "az" => some "alignof"
  | "nx" => some "noexcept"
  | _ => none

namespace Parts

/-- Reads expressions up to the mark behind them. -/
def listing (parts : Parts) (mark : String) : Reader Component := do
  let items ← many parts.expression
  skip mark
  return .listing items

/-- Reads how an object comes into being or goes away.  The words in front say whether the global
operator does it. -/
def allocation (parts : Parts) (opening : String) : Reader Component := do
  match ← peekCode with
  | "nw" => do skip "nw"; creation (opening ++ "new (")
  | "na" => do skip "na"; creation (opening ++ "new[] (")
  | "dl" => do skip "dl"; return .around (opening ++ "delete ") (← parts.expression)
  | "da" => do skip "da"; return .around (opening ++ "delete[] ") (← parts.expression)
  | _ => mismatch
where
  creation (opening : String) : Reader Component := do
    let place ← parts.listing "_"
    let type ← parts.type
    let created := [Component.words opening, place, .words ") ", type]
    if ← skip? "E" then return .phrase created
    return .phrase (created ++ [← parts.initializer])

/-- Reads an operator that joins all elements of a pack, which stand on one side of it. -/
def fold (parts : Parts) (isLeft : Bool) : Reader Component := do
  let operator ← parts.operator
  let pack ← parts.expression
  let dots := Component.words "..."
  let inner := if isLeft then [dots, operator.sign] ++ pack.operand
    else pack.operand ++ [operator.sign, dots]
  return .phrase ([.words "("] ++ inner ++ [.words ")"])

/-- Reads an operator that joins all elements of a pack and another operand. -/
def foldWithOperand (parts : Parts) : Reader Component := do
  let operator ← parts.operator
  let first ← parts.expression
  let second ← parts.expression
  return .phrase ([.words "("] ++ first.operand ++ [operator.sign, .words "...", operator.sign] ++
    second.operand ++ [.words ")"])

/-- The reader of what follows a code, if its expressions have a form of their own. -/
def form? (parts : Parts) (code : String) : Option (Reader Component) :=
  match castWord? code, typeWord? code, expressionWord? code with
  | some word, _, _ => some do
      let target ← parts.type
      return .phrase [.words (word ++ "<"), target, .words ">(", ← parts.expression, .words ")"]
  | _, some word, _ => some do return .around (word ++ " (") (← parts.type) ")"
  | _, _, some word => some do return .around (word ++ " (") (← parts.expression) ")"
  | none, none, none =>
      match code with
      | "cl" => some do
          let function ← parts.expression
          return .phrase (function.operand ++ [.words "(", ← parts.listing "E", .words ")"])
      | "cv" => some do
          let target ← parts.type
          if ← skip? "_" then
            return .phrase [target, .words "(", ← parts.listing "E", .words ")"]
          return .phrase [.words "(", target, .words ")(", ← parts.expression, .words ")"]
      | "tl" => some do
          let type ← parts.type
          return .phrase [type, .words "\x7b", ← parts.listing "E", .words "\x7d"]
      | "il" => some do
          let operand ← parts.expression
          skip "E"
          return .around "\x7b" operand "\x7d"
      | "so" => some do
          let type ← parts.type
          let object ← parts.expression
          let offset := (← maybe signedNumber).getD 0
          skip "E"
          return .phrase [object, .words ".<", type,
            .words (" at offset " ++ toString offset ++ ">")]
      | "dt" => some do
          let object ← parts.expression
          return .phrase (object.operand ++ [.words ".", ← parts.member])
      | "pt" => some do
          let object ← parts.expression
          return .phrase [object, .words "->", ← parts.member]
      | "ds" => some do
          let object ← parts.expression
          return .phrase [object, .words ".*", ← parts.expression]
      | "sZ" => some do return .around "sizeof...(" (← parts.parameter) ")"
      | "sP" => some do
          let elements ← many parts.argument
          skip "E"
          return .around "sizeof...(" (.listing elements) ")"
      | "sp" => some do return .phrase ((← parts.expression).operand ++ [.words "..."])
      | "tw" => some do return .around "throw " (← parts.expression)
      | "tr" => some do return .words "throw"
      | _ => none

/-- Reads a code whose form is only tried, as a reader for something else may fit as well. -/
def attempt (parts : Parts) : Reader Component := do
  match ← peekCode with
  | "gs" => do skip "gs"; parts.allocation "::"
  | "fl" => do skip "fl"; parts.fold true
  | "fr" => do skip "fr"; parts.fold false
  | "fL" => do skip "fL"; parts.foldWithOperand
  | "fR" => do skip "fR"; parts.foldWithOperand
  | _ => parts.allocation ""

end Parts

end Reader

end Symbol

end ConcurrencyFaults
