/-!
# Attribute — usages of attributes and their arguments

The data of attribute lists: a list such as `[return: Error("a"), Obsolete]` has an optional target
and attributes, an attribute has a name and arguments, and an argument reaches the constructor or
assigns a property. A usage is an attribute together with the place of the declaration it is
attached to; it is what the checks look at, whichever front end found it.
-/

namespace AttributeLint

/-- How an argument binds to the attribute. -/
inductive Argument.Binding where
  /-- Written `value`. -/
  | positional
  /-- Written `name: value`, for the constructor parameter of that name. -/
  | constructor (name : String)
  /-- Written `Name = value`, for the property of that name. -/
  | property (name : String)
  deriving DecidableEq, Repr

/-- The value of an argument, as far as it is known without evaluating code. -/
inductive Argument.Value where
  /-- A constant string, decoded. -/
  | string (text : String)
  /-- Anything else, as it is written. -/
  | other (text : String)
  deriving DecidableEq, Repr

/-- One argument of an attribute. -/
structure Argument where
  binding : Argument.Binding
  value : Argument.Value
  deriving DecidableEq, Repr

namespace Argument

/-- The parameter or property name, if the argument is written with one. -/
def name? (a : Argument) : Option String :=
  match a.binding with
  | .positional => none
  | .constructor name => some name
  | .property name => some name

/-- The argument reaches the constructor, by position or by name. -/
def isConstructor (a : Argument) : Bool :=
  match a.binding with
  | .property _ => false
  | _ => true

end Argument

/-- One attribute of a list. -/
structure Attribute where
  name : String
  arguments : List Argument
  deriving DecidableEq, Repr

/-- A bracketed list of attributes and the byte span it occupies. -/
structure AttributeList where
  start : Nat
  stop : Nat
  target : Option String
  attributes : List Attribute
  deriving DecidableEq, Repr

/-- The list annotates the assembly or the module and no declaration. -/
def AttributeList.isGlobal (l : AttributeList) : Bool :=
  l.target = some "assembly" || l.target = some "module"

/-- A use of an attribute: its name as written, the byte offset of the declaration it is attached
to, and its arguments in the order of the source. -/
structure Usage where
  name : String
  targetStart : Nat
  arguments : List Argument
  deriving DecidableEq, Repr

/-- The arguments that reach the constructor. -/
def Usage.constructorArguments (u : Usage) : List Argument :=
  u.arguments.filter Argument.isConstructor

end AttributeLint
