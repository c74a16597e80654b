/-
The language as a host: what its function bodies and its natives mean to
a machine.

One routine runs a method directly, without a call of its own, and that
method may be the same routine again. Each time it hands on two arguments
fewer than it was given, so the count of arguments bounds how far this
can go, and the hosts for the inner runs are built from that count.
-/
import ObjectWorld.Script.Meaning

namespace ObjectWorld.Script

-- ============================================================== the bodies

/-- Evaluates the body of a function, and notes that it does. -/
def evaluate (body : BodyId) (self : Value) (scope : ScopeId) :
    Act Value := do
  let notes ← Eval.own
  Eval.keep { notes with
    evaluated := { body, receiver := self, scope } :: notes.evaluated }
  match notes.bodies[body.index]? with
  | some e => e.run self scope
  | none => return .nil

-- ============================================================= the natives

/-- The name that a value spells, for a call. -/
def calledName (v : Value) : Act String := do
  match v.spelling? with
  | some name => return name
  | none =>
      let w ← Eval.world
      throw (.implicitConversion "Symbol" (w.classNameOf v))

/-- Prints each value on a line of its own. -/
def printEach : List Value → Act Unit
  | [] => return ()
  | v :: rest => do
      let w ← Eval.world
      Eval.print (w.inspect v)
      printEach rest

/-- What a routine does. A missing argument counts as nil. -/
def Routine.run (inner : Host Notes) (routine : Routine) (self : Value)
    (args : List Value) : Act Value := do
  let argument (i : Nat) : Value := args[i]?.getD .nil
  match routine with
  | .args => return .array args
  | .first => return argument 0
  | .receiver => return self
  | .sendSelf =>
      let name ← calledName (argument 0)
      Eval.invoke self name (args.drop 1) .implicitSelf
  | .sendTo =>
      let name ← calledName (argument 1)
      Eval.invoke (argument 0) name (args.drop 2) .explicit
  | .println =>
      printEach args
      return Value.count args.length
  | .eval =>
      match (argument 0).function? with
      | none => return .nil
      | some (f, _) =>
          let w ← Eval.world
          let scope ← Eval.change (.bindArguments f (args.drop 1))
          evaluate (w.functionInfo f).body self scope
  | .className =>
      let w ← Eval.world
      return .text (w.classNameOf (argument 0))
  | .fail =>
      let w ← Eval.world
      throw (.raised (args.head?.elim "native failure" w.inspect))
  | .methodCall =>
      let name ← calledName (argument 1)
      let w ← Eval.world
      match (argument 0).class?.bind fun c => w.resolveIn? c name with
      | none => throw (.undefinedMethod name (w.describe self))
      | some found => found.method.run inner self (args.drop 2)

-- ================================================================ the host

/-- The host in which direct runs of methods nest less than so deep. -/
def hostWithin : Nat → Host Notes
  | 0 =>
      { body := evaluate
        native := fun _ _ _ => return .nil }
  | levels + 1 =>
      { body := evaluate
        native := fun label self args =>
          match Routine.ofLabel? label with
          | some routine => routine.run (hostWithin levels) self args
          | none => return .nil }

/-- The language as a host. -/
def host : Host Notes where
  body := evaluate
  native label self args :=
    (hostWithin (args.length + 1)).native label self args

end ObjectWorld.Script
