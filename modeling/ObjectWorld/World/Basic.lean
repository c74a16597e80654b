/-
Worlds: everything that classes, objects and scopes are made of, as one
value.

A world holds one record for each identity. Records are found by the
place that the identity names; places are given out in order and never
taken back, so what a reference meant once it means for good. Each
operation below makes one new thing or changes one field of one record.

Reading through a reference that names nothing gives an empty record, and
writing through one changes nothing. No operation of a world hands such a
reference out.
-/
import ObjectWorld.Forest
import ObjectWorld.Table
import ObjectWorld.Value

namespace ObjectWorld

-- ============================================================ the records

/-- What a class is: one that objects are made of, a module, or the class
of one value alone. -/
inductive ClassKind where
  | ordinary
  | module
  | eigenclass
deriving DecidableEq, Repr, Inhabited

/-- What is known of a class besides its superclass. -/
structure ClassInfo where
  name : String
  kind : ClassKind
  methods : Table Method := {}
  /-- The eigenclass of the class as a value, once it has one. -/
  singleton : Option ClassId := none
deriving Inhabited

/-- What is known of an object. -/
structure ObjectInfo where
  cls : ClassId
  /-- The eigenclass of the object, once it has one. -/
  singleton : Option ClassId := none
  ivars : Table Value := {}
deriving Inhabited

/-- What is known of an exception. -/
structure ExceptionInfo where
  cls : ClassId
  message : String
deriving Inhabited

/-- The name that an evaluator has for the code of a function. -/
structure BodyId where
  index : Nat
deriving DecidableEq, Repr, Inhabited

/-- What is known of a function. -/
structure FunctionInfo where
  params : List String
  body : BodyId
  /-- The scope that the function was made in. -/
  scope : ScopeId
deriving Inhabited

/-- Everything that has an identity, and the names of the registered
classes. -/
structure World where
  classes : Forest .classes ClassInfo := {}
  registry : Table ClassId := {}
  objects : Array ObjectInfo := #[]
  exceptions : Array ExceptionInfo := #[]
  functions : Array FunctionInfo := #[]
  scopes : Forest .scopes (Table Value) := {}
deriving Inhabited

namespace World

-- ============================================================ reading

/-- The record of a class. -/
def classInfo (w : World) (c : ClassId) : ClassInfo :=
  (w.classes.label? c).getD default

/-- The name of a class. -/
def className (w : World) (c : ClassId) : String :=
  (w.classInfo c).name

/-- Whether a class is a module. -/
def isModule (w : World) (c : ClassId) : Bool :=
  (w.classInfo c).kind == .module

/-- Whether a class is an eigenclass. -/
def isEigenclass (w : World) (c : ClassId) : Bool :=
  (w.classInfo c).kind == .eigenclass

/-- The superclass of a class. -/
def superclass? (w : World) (c : ClassId) : Option ClassId :=
  w.classes.parent? c

/-- A class and all classes above it, in the order in which methods are
looked for. -/
def ancestors (w : World) (c : ClassId) : List ClassId :=
  w.classes.path c

/-- The method that a class itself defines. -/
def ownMethod? (w : World) (c : ClassId) (name : String) : Option Method :=
  (w.classInfo c).methods.get? name

/-- The record of an object. -/
def objectInfo (w : World) (o : ObjectId) : ObjectInfo :=
  w.objects[o.index]?.getD default

/-- The record of an exception. -/
def exceptionInfo (w : World) (e : ExceptionId) : ExceptionInfo :=
  w.exceptions[e.index]?.getD default

/-- The record of a function. -/
def functionInfo (w : World) (f : FunctionId) : FunctionInfo :=
  w.functions[f.index]?.getD default

/-- What an object keeps under a name. -/
def ivar? (w : World) (o : ObjectId) (name : String) : Option Value :=
  (w.objectInfo o).ivars.get? name

-- ========================================================== making things

/-- Makes a class of any kind, not registered under its name. -/
def newClass (w : World) (name : String) (kind : ClassKind)
    (superclass : Option ClassId) : ClassId × World :=
  (⟨w.classes.size⟩,
    { w with classes := w.classes.grow superclass { name, kind } })

/-- Makes an object. -/
def newObject (w : World) (cls : ClassId) : ObjectId × World :=
  (⟨w.objects.size⟩, { w with objects := w.objects.push { cls } })

/-- Makes an exception. -/
def newException (w : World) (cls : ClassId) (message : String) :
    ExceptionId × World :=
  (⟨w.exceptions.size⟩,
    { w with exceptions := w.exceptions.push { cls, message } })

/-- Makes a function. -/
def newFunction (w : World) (info : FunctionInfo) : FunctionId × World :=
  (⟨w.functions.size⟩, { w with functions := w.functions.push info })

/-- Makes a scope that holds some bindings, inside another or on its
own. -/
def newScope (w : World) (outer : Option ScopeId)
    (bindings : Table Value := {}) : ScopeId × World :=
  (⟨w.scopes.size⟩, { w with scopes := w.scopes.grow outer bindings })

-- ======================================================== changing things

/-- Defines a method of a class, over the one of that name. -/
def defineMethod (w : World) (c : ClassId) (name : String)
    (method : Method) : World :=
  { w with classes := w.classes.relabel c fun info =>
      { info with methods := info.methods.insert name method } }

/-- Keeps a value in an object under a name. -/
def setIvar (w : World) (o : ObjectId) (name : String) (v : Value) :
    World :=
  { w with objects := w.objects.modify o.index fun info =>
      { info with ivars := info.ivars.insert name v } }

end World

end ObjectWorld
