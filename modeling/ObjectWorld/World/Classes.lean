/-
The class of a value, and how a method is found.

The class that decides is the eigenclass of the value, where it has one,
and else the class of its kind. A user sees past the eigenclass: the
nominal class is the one that the eigenclass stands in front of.

A method is found on the first class of the chain that defines its name,
whatever its visibility. So a private definition hides a public one above
it.
-/
import ObjectWorld.Core
import ObjectWorld.World.Basic

namespace ObjectWorld

/-- A method together with the class that defines it. -/
structure Resolution where
  owner : ClassId
  method : Method
deriving DecidableEq

namespace World

-- ==================================================== the class of a value

/-- The class that decides what a value does. Functions, builtins and the
two markers have none; a self reference has the class of what it wraps. -/
def classOf? (w : World) : Value → Option ClassId
  | .nil => some CoreClass.nilClass.id
  | .bool true => some CoreClass.trueClass.id
  | .bool false => some CoreClass.falseClass.id
  | .int _ => some CoreClass.integer.id
  | .text _ => some CoreClass.string.id
  | .symbol _ => some CoreClass.symbol.id
  | .array _ => some CoreClass.array.id
  | .exception e => some (w.exceptionInfo e).cls
  | .cls c =>
      let ordinary :=
        if w.isModule c then CoreClass.module.id else CoreClass.cls.id
      some ((w.classInfo c).singleton.getD ordinary)
  | .object o =>
      let info := w.objectInfo o
      some (info.singleton.getD info.cls)
  | .extended _ eigenclass => some eigenclass
  | .selfRef inner => w.classOf? inner
  | .function .. | .builtin .. | .returned _ | .required _ => none

/-- The class that a user sees: what an eigenclass stands in front of, or
the class itself. -/
def nominal (w : World) (c : ClassId) : ClassId :=
  if w.isEigenclass c then (w.superclass? c).getD c else c

/-- The class of a value that a user sees. -/
def nominalClassOf? (w : World) (v : Value) : Option ClassId :=
  (w.classOf? v).map w.nominal

/-- The word for the kind of a value. -/
def tag (w : World) : Value → String
  | .nil => "NIL"
  | .bool _ => "BOOLEAN"
  | .int _ => "INTEGER"
  | .text _ => "STRING"
  | .symbol _ => "SYMBOL"
  | .array _ => "ARRAY"
  | .exception _ => "EXCEPTION"
  | .function .. => "FUNCTION"
  | .builtin .. => "BUILTIN"
  | .cls c => if w.isModule c then "MODULE" else "CLASS"
  | .object _ => "OBJECT"
  | .extended .. => "EIGENCLASS"
  | .selfRef _ => "SELF"
  | .returned _ => "RETURN_VALUE"
  | .required _ => "REQUIRE_STATEMENT"

/-- The name of the class that a user sees, or the word for the kind of a
value that has no class. -/
def classNameOf (w : World) (v : Value) : String :=
  match w.nominalClassOf? v with
  | some c => w.className c
  | none => w.tag v

-- ========================================================= finding methods

/-- The first definition of a name on the chain of a class. -/
def resolveIn? (w : World) (c : ClassId) (name : String) :
    Option Resolution :=
  w.classes.findOnPath? c fun owner info =>
    (info.methods.get? name).map fun method => { owner, method }

/-- The method that a name stands for on a value. -/
def resolve? (w : World) (v : Value) (name : String) : Option Resolution :=
  (w.classOf? v).bind fun c => w.resolveIn? c name

/-- Whether instances of a class answer to a name when called from such a
site. -/
def respondsIn (w : World) (c : ClassId) (name : String)
    (site : CallSite) : Bool :=
  (w.resolveIn? c name).any fun found =>
    site.permits found.method.visibility

/-- Whether a value answers to a name when called from such a site. -/
def responds (w : World) (v : Value) (name : String) (site : CallSite) :
    Bool :=
  (w.classOf? v).any fun c => w.respondsIn c name site

/-- The names of the public methods that a class itself defines, in
increasing order. -/
def publicNames (w : World) (c : ClassId) : List String :=
  (w.classInfo c).methods.namesWhere fun method =>
    method.visibility == .isPublic

/-- The nearest class above one that is not a module. -/
def superclassSkippingModules? (w : World) (c : ClassId) :
    Option ClassId :=
  (w.ancestors c).tail.find? fun above => !w.isModule above

end World

end ObjectWorld
