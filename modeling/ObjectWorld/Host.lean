/-
Hosts, and what natives and methods do.

A world leaves two things open: what the body of a function means and
what a foreign native does. A host fills both in, each as an evaluation;
with a host at hand every method has a meaning.
-/
import ObjectWorld.Program
import ObjectWorld.World.Queries

namespace ObjectWorld

/-- What the world leaves open: the meaning of function bodies and of
foreign natives. -/
structure Host (σ : Type) where
  /-- Evaluates a body for a receiver in a scope. -/
  body : BodyId → Value → ScopeId → Eval σ Value
  /-- Runs a foreign native on a receiver and arguments. -/
  native : String → Value → List Value → Eval σ Value

variable {σ : Type}

/-- What a native does. Making an object looks for an initializer on the
class first: without one there is nothing to give arguments to. -/
def Native.run (host : Host σ) (native : Native) (self : Value)
    (args : List Value) : Eval σ Value :=
  match native with
  | .query q => do
      let w ← Eval.world
      w.answer q self args
  | .printLine => do
      let w ← Eval.world
      Eval.print (String.join (args.map w.inspect))
      return .nil
  | .instantiate => do
      let w ← Eval.world
      let c ← w.classFrom "Class" self
      if (w.resolveIn? c "initialize").isSome then
        let o ← Eval.change (.newObject c)
        let _ ← Eval.invoke (.object o) "initialize" args .implicitSelf
        return .object o
      else
        (Arity.fixed 0).check args.length
        let o ← Eval.change (.newObject c)
        return .object o
  | .foreign label => host.native label self args

/-- What a method does once it is called. The body of a function runs in
a scope of its own, and its explicit return ends here. -/
def Method.run (host : Host σ) (method : Method) (self : Value)
    (args : List Value) : Eval σ Value := do
  method.arity.check args.length
  match method.body with
  | .native native => native.run host self args
  | .interpreted f =>
      let w ← Eval.world
      let scope ← Eval.change (.bindArguments f args)
      let v ← host.body (w.functionInfo f).body self scope
      return v.peelReturn

end ObjectWorld
