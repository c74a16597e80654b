/-
Methods: how many arguments one takes, who may call it, and what it does.

A method that is written in the language keeps the function it was made
of, by identity: the same function under two visibilities is one function
and two methods.
-/
import ObjectWorld.Fault
import ObjectWorld.Native
import ObjectWorld.Ref

namespace ObjectWorld

/-- How many arguments a method takes. -/
inductive Arity where
  | fixed (count : Nat)
  | any
deriving DecidableEq, Repr

/-- Refuses any other count of arguments than the one called for. -/
def Arity.check : Arity → Nat → Except Fault Unit
  | .fixed expected, given =>
      if expected = given then .ok ()
      else .error (.wrongNumberOfArguments expected given)
  | .any, _ => .ok ()

/-- The count, of an arity that has one. -/
def Arity.fixed? : Arity → Option Nat
  | .fixed count => some count
  | .any => none

/-- Who may call a method. -/
inductive Visibility where
  | isPublic
  | isPrivate
deriving DecidableEq, Repr, Inhabited

/-- Where a call comes from: with its receiver written out, or from
within, the receiver being self. -/
inductive CallSite where
  | explicit
  | implicitSelf
deriving DecidableEq, Repr

/-- A public method may be called from anywhere, a private one only from
within. -/
def CallSite.permits : CallSite → Visibility → Bool
  | .explicit, .isPrivate => false
  | _, _ => true

/-- What a method does. -/
inductive MethodBody where
  | native (native : Native)
  | interpreted (function : FunctionId)
deriving DecidableEq, Repr

/-- A method as a class stores it. -/
structure Method where
  arity : Arity
  visibility : Visibility
  body : MethodBody
deriving DecidableEq, Repr

end ObjectWorld
