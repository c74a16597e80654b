/-
Identities. Everything in a world that can be told apart from an equal
twin — a class, an object, a function, an exception, a scope — is named
by the place it holds in the order of creation, and no place is ever
given out twice. Two handles are the same thing exactly when their
references are equal, so identity is decidable and needs no memory.

The region is part of the type: a scope can not be looked up among the
classes.
-/

namespace ObjectWorld

/-- The kinds of thing that have an identity. -/
inductive Region where
  | classes
  | objects
  | exceptions
  | functions
  | scopes

/-- The identity of one thing of a region: its place in the order of
creation there. -/
structure Ref (region : Region) where
  index : Nat
deriving DecidableEq, Repr, Inhabited

/-- A class, a module or an eigenclass. -/
abbrev ClassId := Ref .classes

/-- An object. -/
abbrev ObjectId := Ref .objects

/-- An exception. -/
abbrev ExceptionId := Ref .exceptions

/-- A function, whatever visibility it is handed around with. -/
abbrev FunctionId := Ref .functions

/-- A scope: one table of bindings, shared by all its handles. -/
abbrev ScopeId := Ref .scopes

end ObjectWorld
