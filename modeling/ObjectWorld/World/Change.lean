/-
The ways in which a world can be changed from outside.

Each is one of the world's own operations, named as data, together with
the kind of reply it gives. A world that is reached at all is reached
from the initial one by a sequence of these; so a law of every reachable
world is a law of the initial one that each of them keeps.
-/
import ObjectWorld.World.Eigenclasses
import ObjectWorld.World.Registry
import ObjectWorld.World.Scopes

namespace ObjectWorld

/-- One change of a world. -/
inductive Change where
  /-- A class that is not registered. -/
  | newClass (name : String) (superclass : Option ClassId)
  /-- A module that is not registered. -/
  | newModule (name : String)
  | defineClass (name : String) (superclass : Option ClassId)
  | defineModule (name : String)
  | defineMethod (c : ClassId) (name : String) (method : Method)
  | extend (v : Value)
  | defineSingletonMethod (v : Value) (name : String) (method : Method)
  | newObject (cls : ClassId)
  | setIvar (o : ObjectId) (name : String) (v : Value)
  | newException (cls : ClassId) (message : String)
  | exceptionFor (fault : Fault)
  | newFunction (info : FunctionInfo)
  | newScope (outer : Option ScopeId)
  | define (s : ScopeId) (name : String) (v : Value)
  | assign (s : ScopeId) (name : String) (v : Value)
  | bindArguments (f : FunctionId) (args : List Value)

namespace Change

/-- What a change answers. -/
def Reply : Change → Type
  | .newClass .. | .newModule .. => ClassId
  | .defineClass .. | .defineModule .. => Except Fault ClassId
  | .extend .. => Except Fault (Value × ClassId)
  | .defineSingletonMethod .. => Except Fault Value
  | .newObject .. => ObjectId
  | .newException .. | .exceptionFor .. => ExceptionId
  | .newFunction .. => FunctionId
  | .newScope .. | .bindArguments .. => ScopeId
  | .defineMethod .. | .setIvar .. | .define .. | .assign .. => Unit

/-- Makes a change. -/
def perform : (change : Change) → World → change.Reply × World
  | .newClass name superclass, w => w.newClass name .ordinary superclass
  | .newModule name, w => w.newClass name .module none
  | .defineClass name superclass, w => w.defineClass name superclass
  | .defineModule name, w => w.defineModule name
  | .defineMethod c name method, w => ((), w.defineMethod c name method)
  | .extend v, w => w.extend v
  | .defineSingletonMethod v name method, w =>
      w.defineSingletonMethod v name method
  | .newObject cls, w => w.newObject cls
  | .setIvar o name v, w => ((), w.setIvar o name v)
  | .newException cls message, w => w.newException cls message
  | .exceptionFor fault, w => w.exceptionFor fault
  | .newFunction info, w => w.newFunction info
  | .newScope outer, w => w.newScope outer
  | .define s name v, w => ((), w.define s name v)
  | .assign s name v, w => ((), w.assign s name v)
  | .bindArguments f args, w => w.bindArguments f args

end Change

end ObjectWorld
