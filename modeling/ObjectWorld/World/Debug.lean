/-
The long texts: what a value, a class, a method or a scope shows of its
make, wrappers included. Texts inside are quoted, so that nothing in them
can be taken for structure.

Scopes and functions show names only. A scope can hold a function that
was made in it, so showing what the names are bound to need not end.
-/
import ObjectWorld.Quoted
import ObjectWorld.World.Scopes
import ObjectWorld.World.Text

namespace ObjectWorld

/-- The word for a kind of class. -/
def ClassKind.word : ClassKind → String
  | .ordinary => "Class"
  | .module => "Module"
  | .eigenclass => "Eigenclass"

/-- The long text of a visibility. -/
def Visibility.debug : Visibility → String
  | .isPublic => "Public"
  | .isPrivate => "Private"

/-- The long text of an arity. -/
def Arity.debug : Arity → String
  | .fixed count => "Fixed(" ++ toString count ++ ")"
  | .any => "Any"

/-- The word for what a method's body is. -/
def MethodBody.word : MethodBody → String
  | .native _ => "native"
  | .interpreted _ => "interpreted"

/-- A record as text: its name, then its fields between braces. -/
def record (name : String) (fields : List String) : String :=
  name ++ " \x7b " ++ ", ".intercalate fields ++ " \x7d"

/-- The long text of a method. -/
def Method.debug (method : Method) : String :=
  record "Method"
    ["arity: " ++ method.arity.debug,
      "visibility: " ++ method.visibility.debug,
      "body: " ++ Quoted.quote method.body.word]

namespace World

/-- The long text of a class. -/
def debugClass (w : World) (c : ClassId) : String :=
  (w.classInfo c).kind.word ++ "(" ++ w.className c ++ ")"

/-- The long text of a method that was found. -/
def debugResolution (w : World) (found : Resolution) : String :=
  record "ResolvedMethod"
    ["method: " ++ found.method.debug,
      "owner: " ++ w.debugClass found.owner]

/-- The long text of a scope. -/
def debugScope (w : World) (s : ScopeId) : String :=
  record "Environment"
    ["bindings: " ++ Quoted.quoteAll (w.bindings s).names,
      "enclosed: " ++ if (w.outer? s).isSome then "true" else "false"]

/-- The long text of a function. It has more fields than it shows. -/
def debugFunction (w : World) (f : FunctionId)
    (visibility : Visibility) : String :=
  let info := w.functionInfo f
  record "FunctionValue"
    ["params: " ++ Quoted.quoteAll info.params,
      "body: BodyId(" ++ toString info.body.index ++ ")",
      "visibility: " ++ visibility.debug,
      ".."]

/-- The long text of a value. -/
def debug (w : World) : Value → String
  | .text s => "Str(" ++ Quoted.quote s ++ ")"
  | .function f visibility => w.debugFunction f visibility
  | .builtin name _ => "BuiltinFunction(" ++ name ++ ")"
  | .extended inner eigenclass =>
      "Extended(" ++ w.debug inner ++ ", " ++ w.className eigenclass ++ ")"
  | .selfRef inner => "SelfRef(" ++ w.debug inner ++ ")"
  | .returned inner => "ReturnValue(" ++ w.debug inner ++ ")"
  | .required name => "RequireStatement(" ++ Quoted.quote name ++ ")"
  | v => w.tag v ++ "(" ++ w.inspect v ++ ")"

end World

end ObjectWorld
