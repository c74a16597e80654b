/-
What expressions mean: each is an evaluation, for a receiver and in a
scope.

Operands are evaluated from left to right, and the first fault ends the
expression. The language keeps a state of its own beside the world: the
bodies of the functions made so far, the names of scopes, and a record of
the bodies evaluated. An operand that is of no use where it stands (something
that is no class, a scope without a name) makes the session malformed;
that is remembered for good, whatever becomes of the expression.
-/
import ObjectWorld.Machine
import ObjectWorld.Script.Report

namespace ObjectWorld.Script

-- ================================================== the state of a session

/-- One evaluation of a body: for which receiver, and in which scope. -/
structure Evaluation where
  body : BodyId
  receiver : Value
  scope : ScopeId

/-- What the language keeps beside the world. -/
structure Notes where
  /-- The code of each function made so far. -/
  bodies : Array Expr := #[]
  /-- The scopes that have a name. -/
  scopes : Table ScopeId := {}
  /-- The evaluations of bodies that have begun, the latest first. -/
  evaluated : List Evaluation := []
  /-- Whether some operand was of no use where it stood. -/
  malformed : Bool := false

/-- How many evaluations of bodies have begun. -/
def Notes.evals (notes : Notes) : Nat :=
  notes.evaluated.length

/-- An evaluation of the language. -/
abbrev Act := Eval Notes

/-- Gives up on an operand that is of no use. -/
def malformed {α : Type} : Act α := do
  let notes ← Eval.own
  Eval.keep { notes with malformed := true }
  throw (.raised "malformed operand")

/-- What is there, or else a malformed session. -/
def needed {α : Type} : Option α → Act α
  | some a => return a
  | none => malformed

/-- The scope of a name, seen from the scope at hand. -/
def scopeNamed (here : ScopeId) (name : String) : Act ScopeId := do
  if name = "." then return here
  let notes ← Eval.own
  needed (notes.scopes.get? name)

/-- Names a scope. -/
def nameScope (name : String) (s : ScopeId) : Act Unit := do
  let notes ← Eval.own
  Eval.keep { notes with scopes := notes.scopes.insert name s }

/-- Adds a function that was made in a scope. -/
def makeFunction (params : List String) (body : Expr) (scope : ScopeId)
    (visibility : Visibility) : Act Value := do
  let notes ← Eval.own
  let id : BodyId := ⟨notes.bodies.size⟩
  Eval.keep { notes with bodies := notes.bodies.push body }
  let f ← Eval.change (.newFunction { params, body := id, scope })
  return .function f visibility

-- ============================================================== the pieces

/-- The exception that stands for a fault. -/
def exceptionFor (fault : Fault) : Act Value := do
  let e ← Eval.change (.exceptionFor fault)
  return .exception e

/-- A value inside so many arrays of one item. -/
def nest (v : Value) : Nat → Value
  | 0 => v
  | levels + 1 => .array [nest v levels]

/-- A report of a fault. -/
def reportFault (fault : Fault) : Act Value := do
  let e ← exceptionFor fault
  return .array
    [.text "err", .text fault.exceptionName, .text fault.message,
      .bool fault.isNoMethod, e]

/-- The method that a class uses under a name. -/
def methodFound (c : ClassId) (name : String) : Act Method := do
  let w ← Eval.world
  let found ← needed (w.resolveIn? c name)
  return found.method

/-- What a method does, under another arity and visibility. Of a function
the arity stays its own. -/
def recast (w : World) (method : Method) (arity : Arity)
    (visibility : Visibility) : Method :=
  match method.body with
  | .native native => ⟨arity, visibility, .native native⟩
  | .interpreted f => w.methodOf f visibility

-- ============================================================= the meaning

mutual

/-- Evaluates an expression for a receiver in a scope. -/
def Expr.run (self : Value) (here : ScopeId) : Expr → Act Value
  | .nil => return .nil
  | .bool b => return .bool b
  | .int n => return .int n
  | .text s => return .text s
  | .symbol name => return .symbol name
  | .required name => return .required name
  | .array items => do
      return .array (← runAll self here items)
  | .repeated s count =>
      return .text (String.join (List.replicate count s))
  | .nested levels e => do
      return nest (← e.run self here) levels
  | .selfRef e => do
      return .selfRef (← e.run self here)
  | .exception cls message => do
      let c ← needed (← cls.run self here).class?
      let e ← Eval.change (.newException c message)
      return .exception e
  | .object cls => do
      let c ← needed (← cls.run self here).class?
      let o ← Eval.change (.newObject c)
      return .object o
  | .main => return World.main
  | .self => return self
  | .get name => do
      let w ← Eval.world
      return (w.lookup? here name).getD .nil
  | .set name e => do
      let v ← e.run self here
      Eval.change (.assign here name v)
      return v
  | .define name e => do
      let v ← e.run self here
      Eval.change (.define here name v)
      return v
  | .seq steps => runSteps self here .nil steps
  | .branch test thenBranch elseBranch => do
      if (← test.run self here).isTruthy then
        thenBranch.run self here
      else
        elseBranch.run self here
  | .ret e => do
      return .returned (← e.run self here)
  | .rescue e handler =>
      tryCatch (e.run self here) fun fault => do
        let exception ← exceptionFor fault
        Eval.change (.define here "err" exception)
        handler.run self here
  | .attempt e =>
      tryCatch (do return .array [.text "ok", ← e.run self here])
        reportFault
  | .fail fault => throw fault
  | .call name args => do
      let vs ← runAll self here args
      Eval.invoke self name vs .implicitSelf
  | .invoke receiver name site args => do
      let v ← receiver.run self here
      let vs ← runAll self here args
      Eval.invoke v name vs site
  | .apply callee args => do
      let v ← callee.run self here
      let vs ← runAll self here args
      Eval.apply v vs
  | .ivar e name => do
      let v ← e.run self here
      let w ← Eval.world
      return (v.object?.bind fun o => w.ivar? o name).getD .nil
  | .setIvar e name value => do
      let holder ← e.run self here
      let v ← value.run self here
      if let some o := holder.object? then
        Eval.change (.setIvar o name v)
      return v
  | .const name => do
      let w ← Eval.world
      return Value.optionalClass (w.registered? name)
  | .named name => do
      let w ← Eval.world
      return .cls (← needed (w.registered? name))
  | .exceptionClass name => do
      let w ← Eval.world
      return .cls (w.exceptionClass name)
  | .defineClass name => do
      return .cls (← liftM (← Eval.change (.defineClass name none)))
  | .defineSubclass name superclass => do
      let c ← needed (← superclass.run self here).class?
      return .cls (← liftM (← Eval.change (.defineClass name (some c))))
  | .defineModule name => do
      return .cls (← liftM (← Eval.change (.defineModule name)))
  | .newClass name => do
      let c ← Eval.change (.newClass name none)
      return .cls c
  | .newSubclass name superclass => do
      let above ← needed (← superclass.run self here).class?
      let c ← Eval.change (.newClass name (some above))
      return .cls c
  | .newModule name => do
      let c ← Eval.change (.newModule name)
      return .cls c
  | .method cls name source => do
      let c ← needed (← cls.run self here).class?
      let method ← source.run self here
      Eval.change (.defineMethod c name method)
      return .nil
  | .singletonMethod e name source => do
      let v ← e.run self here
      let method ← source.run self here
      liftM (← Eval.change (.defineSingletonMethod v name method))
  | .eigenclass e => do
      let v ← e.run self here
      let (v, eigenclass) ← liftM (← Eval.change (.extend v))
      return .array [v, .cls eigenclass]
  | .function params body visibility =>
      makeFunction params body here visibility
  | .builtin name routine =>
      return .builtin name (.foreign routine.label)
  | .withVisibility e visibility => do
      let (f, _) ← needed (← e.run self here).function?
      return .function f visibility
  | .newScope name => do
      let s ← Eval.change (.newScope none)
      nameScope name s
      return .nil
  | .newScopeIn name outer => do
      let outer ← scopeNamed here outer
      let s ← Eval.change (.newScope (some outer))
      nameScope name s
      return .nil
  | .saveScope name => do
      nameScope name here
      return .nil
  | .outerScope scope name => do
      let s ← scopeNamed here scope
      let w ← Eval.world
      match w.outer? s with
      | some outer =>
          nameScope name outer
          return .bool true
      | none => return .bool false
  | .within scope e => do
      let s ← scopeNamed here scope
      e.run self s
  | .bindArguments function name args => do
      let (f, _) ← needed (← function.run self here).function?
      let vs ← runAll self here args
      let s ← Eval.change (.bindArguments f vs)
      nameScope name s
      return .nil
  | .view what e => do
      let v ← e.run self here
      let w ← Eval.world
      return w.view here what v
  | .viewClass what cls => do
      let c ← needed (← cls.run self here).class?
      let w ← Eval.world
      return w.viewClass what c
  | .same a b => do
      let v ← a.run self here
      return .bool (v.same (← b.run self here))
  | .sameClass a b => do
      let c ← needed (← a.run self here).class?
      let d ← needed (← b.run self here).class?
      return .bool (c == d)
  | .isBound name => do
      let w ← Eval.world
      return .bool (w.isBound here name)
  | .sameScope a b => do
      let s ← scopeNamed here a
      let t ← scopeNamed here b
      return .bool (s == t)
  | .debugScope scope => do
      let s ← scopeNamed here scope
      let w ← Eval.world
      return .text (w.debugScope s)
  | .ownMethod cls name => do
      let c ← needed (← cls.run self here).class?
      let w ← Eval.world
      return (w.ownMethod? c name).elim .nil (Method.report none)
  | .resolveIn cls name => do
      let c ← needed (← cls.run self here).class?
      let w ← Eval.world
      return Resolution.report (w.resolveIn? c name)
  | .resolve e name => do
      let v ← e.run self here
      let w ← Eval.world
      return Resolution.report (w.resolve? v name)
  | .debugMethod e name => do
      let v ← e.run self here
      let w ← Eval.world
      return w.reportDebug (w.resolve? v name)
  | .respondsIn cls name site => do
      let c ← needed (← cls.run self here).class?
      let w ← Eval.world
      return .bool (w.respondsIn c name site)
  | .responds e name site => do
      let v ← e.run self here
      let w ← Eval.world
      return .bool (w.responds v name site)
  | .coreClasses =>
      return .array (CoreClass.listed.map fun c => .cls c.id)
  | .depth => do
      return Value.count (← Eval.depth)
  | .limit => do
      return (← Eval.limit).elim .nil Value.count
  | .evals => do
      let notes ← Eval.own
      return Value.count notes.evals
  | .output => do
      return .text (← Eval.output)
  | .clear => do
      Eval.clear
      return .nil
  | .print line => do
      Eval.print line
      return .nil

/-- Evaluates expressions from left to right. -/
def runAll (self : Value) (here : ScopeId) :
    List Expr → Act (List Value)
  | [] => return []
  | e :: rest => do
      let v ← e.run self here
      let vs ← runAll self here rest
      return v :: vs

/-- Evaluates expressions one after the other, up to the first that gives
a return; gives the last value, or one that is at hand if there is
none. -/
def runSteps (self : Value) (here : ScopeId) (last : Value) :
    List Expr → Act Value
  | [] => return last
  | e :: rest => do
      match ← e.run self here with
      | .returned v => return .returned v
      | v => runSteps self here v rest

/-- Evaluates where a method comes from. -/
def MethodExpr.run (self : Value) (here : ScopeId) :
    MethodExpr → Act Method
  | .native routine arity visibility =>
      return ⟨arity, visibility, .native (.foreign routine.label)⟩
  | .found cls name => do
      let c ← needed (← cls.run self here).class?
      methodFound c name
  | .recast cls name arity visibility => do
      let c ← needed (← cls.run self here).class?
      let method ← methodFound c name
      let w ← Eval.world
      return recast w method arity visibility
  | .function e => do
      let (f, visibility) ← needed (← e.run self here).function?
      let w ← Eval.world
      return w.methodOf f visibility

end

end ObjectWorld.Script
