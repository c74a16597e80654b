/-
The registered classes.

Defining a class or a module under a name makes it the first time and
finds it again every later time. A name is never bound anew, so what it
stood for once it stands for in all later worlds. Reopening under the
other kind, or under another superclass than the class has, is refused
and changes nothing.
-/
import ObjectWorld.World.Classes

namespace ObjectWorld.World

/-- The class or module registered under a name. -/
def registered? (w : World) (name : String) : Option ClassId :=
  w.registry.get? name

/-- Makes a class or module and registers it under its name. -/
def register (w : World) (name : String) (kind : ClassKind)
    (superclass : Option ClassId) : ClassId × World :=
  let (c, w) := w.newClass name kind superclass
  (c, { w with registry := w.registry.insert name c })

/-- The class of a name: the registered one, if the superclass is not
given or is the one it has; else a new one, under Object unless a
superclass is given. -/
def defineClass (w : World) (name : String) (superclass : Option ClassId) :
    Except Fault ClassId × World :=
  match w.registered? name with
  | some c =>
      if w.isModule c then (.error (.notA name "class"), w)
      else if superclass.isSome && superclass != w.superclass? c then
        (.error (.superclassMismatch name), w)
      else (.ok c, w)
  | none =>
      let parent := superclass.getD CoreClass.object.id
      if w.isModule parent then
        (.error (.notA (w.className parent) "class"), w)
      else
        let (c, w) := w.register name .ordinary (some parent)
        (.ok c, w)

/-- The module of a name: the registered one, or else a new one. -/
def defineModule (w : World) (name : String) :
    Except Fault ClassId × World :=
  match w.registered? name with
  | some c =>
      if w.isModule c then (.ok c, w)
      else (.error (.notA name "module"), w)
  | none =>
      let (c, w) := w.register name .module none
      (.ok c, w)

/-- The exception class of a name; an unknown name stands for the class
of errors raised on purpose. -/
def exceptionClass (w : World) (name : String) : ClassId :=
  (w.registered? name).getD CoreClass.runtimeError.id

/-- Makes the exception that stands for a fault. -/
def exceptionFor (w : World) (fault : Fault) : ExceptionId × World :=
  w.newException (w.exceptionClass fault.exceptionName) fault.message

end ObjectWorld.World
