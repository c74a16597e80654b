/-
Parts of a world as values of the language: what the questions of a
script are answered with. What is not there is nil; a record is an array
of its fields in a fixed order.
-/
import ObjectWorld.Script.Expr
import ObjectWorld.World.Debug

namespace ObjectWorld

/-- The word for a visibility. -/
def Visibility.word : Visibility → String
  | .isPublic => "public"
  | .isPrivate => "private"

/-- A count as a value. Counts of what a session can hold fit. -/
def Value.count (n : Nat) : Value :=
  .int (Int64.ofNat n)

/-- A class as a value, or nil. -/
def Value.optionalClass (c : Option ClassId) : Value :=
  c.elim .nil .cls

/-- Some texts as an array. -/
def Value.texts (texts : List String) : Value :=
  .array (texts.map .text)

/-- A method and the class that defines it, which may be left out. -/
def Method.report (owner : Option ClassId) (method : Method) : Value :=
  .array
    [Value.optionalClass owner,
      method.arity.fixed?.elim .nil Value.count,
      .text method.visibility.word,
      .text method.body.word]

/-- A method that was found, or nil. -/
def Resolution.report (found : Option Resolution) : Value :=
  found.elim .nil fun found => found.method.report (some found.owner)

namespace World

open Script

/-- A function, as seen from a scope. -/
def reportFunction (w : World) (scope : ScopeId) (f : FunctionId)
    (visibility : Visibility) : Value :=
  let info := w.functionInfo f
  .array
    [Value.texts info.params,
      Value.count info.body.index,
      Value.count info.params.length,
      .text visibility.word,
      .bool (info.scope == scope)]

/-- What one value answers to a question, asked in a scope. -/
def view (w : World) (scope : ScopeId) (what : ValueView) (v : Value) :
    Value :=
  match what with
  | .classOf => Value.optionalClass (w.classOf? v)
  | .nominal => Value.optionalClass (w.nominalClassOf? v)
  | .className => .text (w.classNameOf v)
  | .describe => .text (w.describe v)
  | .tag => .text (w.tag v)
  | .inspect => .text (w.inspect v)
  | .debug => .text (w.debug v)
  | .truthy => .bool v.isTruthy
  | .isNil => .bool v.isNil
  | .text => v.text?.elim .nil .text
  | .int => v.int?.elim .nil .int
  | .bare => v.bare
  | .peeled => v.peelReturn
  | .functionInfo => match v.bare with
      | .function f visibility => w.reportFunction scope f visibility
      | _ => .nil
  | .exceptionInfo => match v.bare with
      | .exception e =>
          let info := w.exceptionInfo e
          .array [.cls info.cls, .text info.message]
      | _ => .nil
  | .objectInfo => match v.bare with
      | .object o =>
          let info := w.objectInfo o
          .array
            [.cls info.cls,
              Value.optionalClass info.singleton,
              .text (w.inspect (.object o))]
      | _ => .nil
  | .extension => match v with
      | .extended inner eigenclass => .array [inner, .cls eigenclass]
      | _ => .nil

/-- What one class answers to a question. -/
def viewClass (w : World) (what : ClassView) (c : ClassId) : Value :=
  let info := w.classInfo c
  match what with
  | .ancestors => Value.texts ((w.ancestors c).map w.className)
  | .info =>
      .array
        [.text info.name,
          .text info.kind.word,
          Value.optionalClass (w.superclass? c),
          .bool (w.isModule c),
          .bool (w.isEigenclass c),
          Value.optionalClass info.singleton,
          .cls (w.nominal c),
          .text (w.debugClass c)]
  | .publicNames => Value.texts (w.publicNames c)
  | .ownNames => Value.texts info.methods.names

/-- The long texts of a method that was found, or nil. -/
def reportDebug (w : World) (found : Option Resolution) : Value :=
  found.elim .nil fun found =>
    Value.texts [found.method.debug, w.debugResolution found]

end World

/-- The core classes that a script can ask for at once. -/
def CoreClass.listed : List CoreClass :=
  [.kernel, .object, .module, .cls, .nilClass, .trueClass, .falseClass,
    .integer, .string, .symbol, .array, .exception, .standardError,
    .runtimeError]

end ObjectWorld
