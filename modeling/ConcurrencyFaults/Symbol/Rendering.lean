import ConcurrencyFaults.Symbol.Page

/-!
# Rendering components

Components are written from the outside in.  A template parameter is replaced by its argument, which
is looked for among the arguments of the templates around it, and a constructor is called after the
last part of the declared name around it.

The writers call each other, and each call takes some of the room that is left, as much as there are
levels in the component.  A symbol whose arguments contain each other without end runs out of room
and cannot be written.
-/

namespace ConcurrencyFaults

namespace Symbol

/-- What is around the component that is being written. -/
inductive Frame where
  /-- The arguments of a template, with their mark and the one that is being written, if any. -/
  | arguments (mark : Nat) (elements : List Component) (current : Option Nat)
  /-- A declared name, by what a constructor in the declaration is called after. -/
  | declared (leaf : Option Component)

/-- All that is around the component, the innermost in front. -/
abbrev Scope := List Frame

namespace Scope

/-- The arguments of a template come around the component. -/
def push (scope : Scope) : Option (Nat × List Component) → Scope
  | some (mark, elements) => .arguments mark elements none :: scope
  | none => scope

/-- One of the arguments with some mark is about to be written. -/
def atArgument (scope : Scope) (mark index : Nat) : Scope :=
  match scope with
  | .arguments own elements _ :: outer =>
      .arguments own elements (if own = mark then some index else none) :: outer
  | _ => scope

/-- The argument of some index: that of the innermost template that has so many.  An argument that
is being written may refer only to those before it. -/
def argument? (index : Nat) : Scope → Option Component
  | [] => none
  | .declared _ :: outer => argument? index outer
  | .arguments _ elements current :: outer =>
      match elements[index]? with
      | none => argument? index outer
      | some element => if current.any (· ≤ index) then none else some element

/-- What a constructor in the scope is called after. -/
def leaf? : Scope → Option Component
  | [] => none
  | .declared (some leaf) :: _ => some leaf
  | _ :: outer => leaf? outer

end Scope

/-- How many levels a component takes by itself.  What the grammar puts around it counts as well. -/
def Component.levels : Component → Nat
  | .identifier _ | .operator _ | .lambda _ _ | .function _ _ _ _ | .parameter _ => 3
  | .nested (.identifier _) _ => 2
  | .fullName _ (.nested _ _) => 1
  | .fullName _ _ | .inFunction _ _ | .inDefault _ _ | .builtin _ | .classType _ _ | .array _ _ => 2
  | .constructor | .destructor | .unnamed _ | .vector _ _ | .memberPointer _ _ => 2
  | .typeOf _ | .literal _ _ | .external _ => 2
  | _ => 1

namespace Writer

/-- What is left of the room after something that takes some levels. -/
def spend (room levels : Nat) : Writer Nat :=
  if room < levels then failure else return room - levels

/-- Leaves a trailer for what is written inside, and writes it behind that if it is still there. -/
def postponing (writeTrailer : Trailer → Writer Unit) (trailer : Trailer)
    (writeInside : Writer Unit) : Writer Unit := do
  let number ← postpone trailer
  writeInside
  if ← retract number then writeTrailer trailer

mutual

/-- Writes a component. -/
def component : Nat → Nat → Scope → Component → Writer Unit
  | 0, _, _, _ => failure
  | steps + 1, room, scope, subject => do
      let room ← spend room subject.levels
      let inner := component steps room scope
      let trailing := trailer steps room scope
      match subject with
      | .identifier text => writeIdentifier text
      | .tagged name tags => do
          inner name
          tags.forM fun tag => do write "[abi:"; writeIdentifier tag; write "]"
      | .abbreviation short => write short.text
      | .operator sign => do write "operator"; inner sign
      | .operatorWord text => do blank; write text
      | .conversion target => do
          blank
          component steps room (scope.push target.targetArguments?) target
      | .constructor => className steps room scope (← scope.leaf?)
      | .destructor => do write "~"; className steps room scope (← scope.leaf?)
      | .inherited base => className steps room scope (← base.leaf?)
      | .unnamed number => write ("\x7bunnamed type#" ++ toString number ++ "\x7d")
      | .lambda parameters number => do
          write "\x7blambda("
          modify fun page => { page with inLambda := true }
          writeList inner parameters
          modify fun page => { page with inLambda := false }
          write (")#" ++ toString number ++ "\x7d")
      | .nested outer name => do
          inner outer
          write "::"
          inner name
      | .template form name mark elements => do
          let nameScope := if form = .name then scope.push (some (mark, elements)) else scope
          component steps room nameScope name
          arguments steps room scope mark elements
      | .fullName receiver name => do
          inner name
          if let some next ← takeTrailer then trailing next
          if let .implicit qualifiers reference := receiver then
            writeQualifiers qualifiers reference
      | .inFunction function name => do inner function; write "::"; inner name
      | .inDefault function _ => inner function
      | .builtin text => write text
      | .classType keyword name => do write keyword; inner name
      | .qualified qualifiers type =>
          postponing trailing (.qualifiers qualifiers type.isArray) (inner type)
      | .pointer type => postponing trailing .pointer (inner type)
      | .reference kind type => postponing trailing (.reference kind) (inner type)
      | .worded type word => do inner type; write (" " ++ word)
      | .extended type extension => do inner type; write " "; inner extension
      | .array extent type => postponing trailing (.extent extent) (inner type)
      | .vector lanes type => postponing trailing (.lanes lanes) (inner type)
      | .memberPointer owner type => postponing trailing (.member owner) (inner type)
      | .function [] _ _ _ => failure
      | .function (result :: types) qualifiers reference exceptions => do
          let method ← postpone (.method qualifiers reference)
          let parameters ← postpone (.parameters types)
          inner result
          if ← retract parameters then do
            blank
            trailing (.parameters types)
          if ← retract method then trailing (.method qualifiers reference)
          if let some clause := exceptions then do blank; inner clause
      | .parameter index => do
          if (← get).inLambda then write ("auto:" ++ toString (index + 1))
          else inner (← scope.argument? index)
      | .expansion pattern => do
          inner pattern
          unless (← get).isUnpacked do write "..."
      | .pack elements => do
          modify fun page => { page with isUnpacked := true }
          writeList inner elements
      | .typeOf expression => do write "decltype ("; inner expression; write ")"
      | .functionParameter (some number) => write ("\x7bparm#" ++ toString number ++ "\x7d")
      | .functionParameter none => write "this"
      | .literal type digits => writeLiteral type digits (inner type)
      | .external declared => inner declared
      | .words text => write text
      | .phrase parts => parts.forM inner
      | .listing items => writeList inner items
      | .declaration name signature => setApart do
          let scope := .declared name.leaf? :: scope
          match signature with
          | [] => component steps room scope name
          | result :: _ =>
              let scope := Scope.push scope name.arguments?
              if name.arguments?.isSome && !name.lacksResult then
                component steps room scope result
                write " "
              postponing (trailer steps room scope) (.declaration name signature)
                (component steps room scope name)
termination_by structural steps => steps

/-- Writes the name of the class that a constructor belongs to. -/
def className : Nat → Nat → Scope → Component → Writer Unit
  | 0, _, _, _ => failure
  | steps + 1, room, scope, leaf => do
      match leaf, (← get).lastIdentifier with
      | .unnamed _, some text => write text
      | _, _ => component steps room scope leaf
termination_by structural steps => steps

/-- Writes the arguments of a template.  Two brackets of one kind never come together. -/
def arguments : Nat → Nat → Scope → Nat → List Component → Writer Unit
  | 0, _, _, _, _ => failure
  | steps + 1, room, scope, mark, elements => setApart do
      let room ← spend room 2
      if ← endsWith ['<'] then write " "
      write "<"
      writeList (fun entry => component steps room (scope.atArgument mark entry.2) entry.1)
        elements.zipIdx
      if ← endsWith ['>'] then write " "
      write ">"
termination_by structural steps => steps

/-- Writes a trailer. -/
def trailer : Nat → Nat → Scope → Trailer → Writer Unit
  | 0, _, _, _ => failure
  | steps + 1, room, scope, subject => do
      let room ← spend room 1
      match subject with
      | .qualifiers qualifiers _ => writeWords qualifiers.words
      | .pointer => write "*"
      | .reference kind => writeReference kind
      | .member owner => do
          unless ← endsWith ['('] do write " "
          component steps room scope owner
          write "::*"
      | .extent none => do brackets steps room scope; write "[]"
      | .extent (some number) => do
          brackets steps room scope
          write "["
          component steps room scope number
          write "]"
      | .lanes number => do write " __vector("; component steps room scope number; write ")"
      | .method qualifiers reference => writeQualifiers qualifiers reference
      | .parameters types => parameters steps room scope "" types
      | .declaration name signature =>
          let object := if name.takesObject then "this " else ""
          match name.arguments? with
          | none => parameters steps room scope object signature
          | some found => parameters steps room (scope.push (some found)) object signature.tail
termination_by structural steps => steps

/-- Writes what stands in front of the extent of an array.  All trailers but those of outer arrays
stand in parentheses. -/
def brackets : Nat → Nat → Scope → Writer Unit
  | 0, _, _ => failure
  | steps + 1, room, scope => do
      let trailing := trailer steps room scope
      let followsExtent ← drain fun next => do
        match next with
        | .extent _ => trailing next; return true
        | .qualifiers _ true => trailing next; return false
        | .qualifiers _ false => blank; trailing next; blank; write "("
        | _ => blank; write "("; trailing next
        drainAll trailing
        write ")"
        return false
      unless followsExtent do blank
termination_by structural steps => steps

/-- Writes the parameters of a function, behind all that belongs in front of them, with a word
before the first.  A lone void means that there are none. -/
def parameters : Nat → Nat → Scope → String → List Component → Writer Unit
  | 0, _, _, _, _ => failure
  | steps + 1, room, scope, word, types => do
      let room ← spend room 1
      let trailing := trailer steps room scope
      let parentheses := (← get).pending.findSome? fun entry => entry.2.parentheses?
      if let some afterBlank := parentheses then
        if afterBlank || !(← endsWith ['(', '*']) then blank
        write "("
      drainPrefixes trailing
      if parentheses.isSome then write ")"
      write "("
      if types.length = 1 && types.all Component.isVoid then write ")"
      else do
        unless types.isEmpty do write word
        writeList (component steps room scope) types
        write ")"
        drainAll trailing
termination_by structural steps => steps

end

/-- How many levels a component may be nested. -/
def nestingLimit : Nat := 127

/-- Enough steps for some room: between two writers that take room there are two others at most. -/
def stepsFor (room : Nat) : Nat := 4 * room + 4

end Writer

/-- The text of a component that stands by itself.  The symbol as a whole takes the first level. -/
def Component.text? (component : Component) : Option String :=
  let room := Writer.nestingLimit - 1
  match (Writer.component (Writer.stepsFor room) room [] component).run {} with
  | some (_, page) => some (String.ofList page.written.reverse)
  | none => none

end Symbol

end ConcurrencyFaults
