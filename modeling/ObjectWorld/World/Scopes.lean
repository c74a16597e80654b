/-
Names and scopes.

A scope binds names and stands inside another scope or on its own. A name
means what the innermost scope that binds it says, starting from the
scope it is read in. Assigning changes that same binding; where there is
none it makes one in the scope it is done in. Defining always binds in
that scope, over any binding further out.

A call gets a scope of its own, inside the one that its function was made
in.
-/
import ObjectWorld.World.Basic

namespace ObjectWorld.World

-- ============================================================ reading

/-- What a scope itself binds. -/
def bindings (w : World) (s : ScopeId) : Table Value :=
  (w.scopes.label? s).getD {}

/-- The scope that a scope stands in. -/
def outer? (w : World) (s : ScopeId) : Option ScopeId :=
  w.scopes.parent? s

/-- What a name means in a scope. -/
def lookup? (w : World) (s : ScopeId) (name : String) : Option Value :=
  w.scopes.findOnPath? s fun _ table => table.get? name

/-- Whether a name means anything in a scope. -/
def isBound (w : World) (s : ScopeId) (name : String) : Bool :=
  (w.lookup? s name).isSome

/-- The innermost scope that binds a name, seen from a scope. -/
def binder? (w : World) (s : ScopeId) (name : String) : Option ScopeId :=
  w.scopes.findOnPath? s fun binder table =>
    (table.get? name).map fun _ => binder

-- ============================================================ writing

/-- Binds a name in a scope. -/
def define (w : World) (s : ScopeId) (name : String) (v : Value) : World :=
  { w with scopes := w.scopes.relabel s (·.insert name v) }

/-- Binds a name where it is bound already, or else here. -/
def assign (w : World) (s : ScopeId) (name : String) (v : Value) : World :=
  w.define ((w.binder? s name).getD s) name v

/-- Makes the scope of one call: inside the scope that the function was
made in, with the parameters bound to the arguments in order. Of two
parameters of one name the later counts; what has no partner is left
out. -/
def bindArguments (w : World) (f : FunctionId) (args : List Value) :
    ScopeId × World :=
  let info := w.functionInfo f
  w.newScope (some info.scope) (Table.ofList (info.params.zip args))

end ObjectWorld.World
