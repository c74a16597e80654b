/-
A small language of expressions that reaches every operation of a world
and of the machine.

An expression that stands where a class is called for is evaluated like
any other, and its value must be a class; `named` is the one form that is
looked up by name. Names of scopes live apart from the bindings of the
language: they name scopes of the session, and "." is the scope that the
expression itself is evaluated in.
-/
import ObjectWorld.World.Basic

namespace ObjectWorld.Script

/-- The natives that the language brings along. -/
inductive Routine where
  /-- The array of all arguments. -/
  | args
  /-- The first argument. -/
  | first
  /-- The receiver. -/
  | receiver
  /-- Calls a method of the receiver, named by the first argument. -/
  | sendSelf
  /-- Calls a method of the first argument, named by the second. -/
  | sendTo
  /-- Prints each argument on its own line. -/
  | println
  /-- Evaluates the body of the first argument. -/
  | eval
  /-- The name of the class of the first argument. -/
  | className
  /-- Fails on purpose. -/
  | fail
  /-- Runs the method of a class on the receiver, without a call. -/
  | methodCall
deriving DecidableEq, Repr

namespace Routine

/-- All routines. -/
def all : List Routine :=
  [.args, .first, .receiver, .sendSelf, .sendTo, .println, .eval,
    .className, .fail, .methodCall]

/-- The label that a world knows a routine by. -/
def label : Routine → String
  | .args => "args"
  | .first => "first"
  | .receiver => "recv"
  | .sendSelf => "send_self"
  | .sendTo => "send_to"
  | .println => "println"
  | .eval => "eval"
  | .className => "class_name"
  | .fail => "fail"
  | .methodCall => "method_call"

/-- The routine of a label. -/
def ofLabel? (label : String) : Option Routine :=
  all.find? fun routine => routine.label == label

end Routine

/-- What can be asked of one value. -/
inductive ValueView where
  | classOf
  | nominal
  | className
  | describe
  | tag
  | inspect
  | debug
  | truthy
  | isNil
  | text
  | int
  | bare
  | peeled
  | functionInfo
  | exceptionInfo
  | objectInfo
  | extension
deriving DecidableEq, Repr

/-- What can be asked of one class. -/
inductive ClassView where
  | ancestors
  | info
  | publicNames
  | ownNames
deriving DecidableEq, Repr

mutual

/-- An expression. -/
inductive Expr where
  -- values
  | nil
  | bool (b : Bool)
  | int (n : Int64)
  | text (s : String)
  | symbol (name : String)
  | required (name : String)
  | array (items : List Expr)
  /-- A text, so many times in a row. -/
  | repeated (s : String) (count : Nat)
  /-- A value inside so many arrays of one item. -/
  | nested (levels : Nat) (e : Expr)
  | selfRef (e : Expr)
  | exception (cls : Expr) (message : String)
  | object (cls : Expr)
  | main
  -- control
  | self
  | get (name : String)
  | set (name : String) (e : Expr)
  | define (name : String) (e : Expr)
  /-- One after the other, up to the first return. -/
  | seq (steps : List Expr)
  | branch (test thenBranch elseBranch : Expr)
  | ret (e : Expr)
  /-- A value, or else what another expression makes of the fault. -/
  | rescue (e handler : Expr)
  /-- A report of the value or the fault. -/
  | attempt (e : Expr)
  /-- Fails with a fault. -/
  | fail (fault : Fault)
  -- calls
  | call (name : String) (args : List Expr)
  | invoke (receiver : Expr) (name : String) (site : CallSite)
      (args : List Expr)
  | apply (callee : Expr) (args : List Expr)
  -- objects, classes and methods
  | ivar (e : Expr) (name : String)
  | setIvar (e : Expr) (name : String) (value : Expr)
  /-- The class of a name, or nil. -/
  | const (name : String)
  /-- The class of a name, which must be there. -/
  | named (name : String)
  /-- The exception class of a name. -/
  | exceptionClass (name : String)
  | defineClass (name : String)
  | defineSubclass (name : String) (superclass : Expr)
  | defineModule (name : String)
  /-- A class that is not registered and has no superclass. -/
  | newClass (name : String)
  | newSubclass (name : String) (superclass : Expr)
  | newModule (name : String)
  | method (cls : Expr) (name : String) (source : MethodExpr)
  | singletonMethod (e : Expr) (name : String) (source : MethodExpr)
  | eigenclass (e : Expr)
  -- functions and scopes
  | function (params : List String) (body : Expr)
      (visibility : Visibility)
  | builtin (name : String) (routine : Routine)
  | withVisibility (e : Expr) (visibility : Visibility)
  /-- Names a new scope that stands on its own. -/
  | newScope (name : String)
  /-- Names a new scope inside another. -/
  | newScopeIn (name outer : String)
  /-- Names the scope at hand. -/
  | saveScope (name : String)
  /-- Names the scope that a scope stands in, if it does. -/
  | outerScope (scope name : String)
  | within (scope : String) (e : Expr)
  /-- Names the scope of a call that is not made. -/
  | bindArguments (function : Expr) (name : String) (args : List Expr)
  -- questions
  | view (what : ValueView) (e : Expr)
  | viewClass (what : ClassView) (cls : Expr)
  | same (a b : Expr)
  | sameClass (a b : Expr)
  | isBound (name : String)
  | sameScope (a b : String)
  | debugScope (scope : String)
  | ownMethod (cls : Expr) (name : String)
  | resolveIn (cls : Expr) (name : String)
  | resolve (e : Expr) (name : String)
  | debugMethod (e : Expr) (name : String)
  | respondsIn (cls : Expr) (name : String) (site : CallSite)
  | responds (e : Expr) (name : String) (site : CallSite)
  | coreClasses
  | depth
  | limit
  | evals
  -- the console
  | output
  | clear
  | print (line : String)

/-- Where a method comes from. -/
inductive MethodExpr where
  | native (routine : Routine) (arity : Arity) (visibility : Visibility)
  /-- The method of a class, as it is. -/
  | found (cls : Expr) (name : String)
  /-- What the method of a class does, under another arity and
  visibility. -/
  | recast (cls : Expr) (name : String) (arity : Arity)
      (visibility : Visibility)
  /-- The method that a function makes. -/
  | function (e : Expr)

end

instance : Inhabited Expr := ⟨.nil⟩

end ObjectWorld.Script
