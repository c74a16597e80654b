/-
Programs: what an evaluator asks of the machine that runs it.

A program is a tree. Each node is one request, and its branches say how
to go on for each possible reply; a leaf is the result. The tree is all
that the machine knows of an evaluator, so a law of every program is a
law of every evaluator that works through these requests. An evaluator
may keep a state of its own, of any type, which the machine stores and
never reads.

A tree has no infinite branch: only a call can lead back into code, and
the code that it leads to is a new tree.

Programs are a monad, and with faults on top they are evaluations: the
form in which natives and evaluators are written.
-/
import ObjectWorld.World.Change

namespace ObjectWorld

-- ============================================================== the trees

/-- A tree of requests with results of a type; `σ` is the evaluator's own
state. -/
inductive Program (σ α : Type) : Type where
  /-- The end. -/
  | done (result : α)
  /-- Looks at the world. -/
  | look (next : World → Program σ α)
  /-- Looks at the evaluator's own state. -/
  | own (next : σ → Program σ α)
  /-- Replaces the evaluator's own state. -/
  | keep (state : σ) (next : Program σ α)
  /-- Asks how many calls are running. -/
  | depth (next : Nat → Program σ α)
  /-- Asks how many calls may run at once. -/
  | limit (next : Option Nat → Program σ α)
  /-- Asks for what the console holds. -/
  | output (next : String → Program σ α)
  /-- Empties the console's buffer. -/
  | clear (next : Program σ α)
  /-- Prints a line. -/
  | print (line : String) (next : Program σ α)
  /-- Changes the world. -/
  | change (change : Change) (next : change.Reply → Program σ α)
  /-- Calls a method of a receiver by name. -/
  | invoke (receiver : Value) (name : String) (args : List Value)
      (site : CallSite) (next : Outcome → Program σ α)
  /-- Calls a function or builtin that is at hand as a value. -/
  | apply (callee : Value) (args : List Value)
      (next : Outcome → Program σ α)

namespace Program

variable {σ α β γ : Type}

/-- Goes on after the end: every leaf is replaced by what its result
leads to. -/
protected def bind : Program σ α → (α → Program σ β) → Program σ β
  | .done result, rest => rest result
  | .look next, rest => .look fun w => (next w).bind rest
  | .own next, rest => .own fun s => (next s).bind rest
  | .keep state next, rest => .keep state (next.bind rest)
  | .depth next, rest => .depth fun n => (next n).bind rest
  | .limit next, rest => .limit fun n => (next n).bind rest
  | .output next, rest => .output fun s => (next s).bind rest
  | .clear next, rest => .clear (next.bind rest)
  | .print line next, rest => .print line (next.bind rest)
  | .change c next, rest => .change c fun reply => (next reply).bind rest
  | .invoke receiver name args site next, rest =>
      .invoke receiver name args site fun outcome =>
        (next outcome).bind rest
  | .apply callee args next, rest =>
      .apply callee args fun outcome => (next outcome).bind rest

instance : Monad (Program σ) where
  pure := .done
  bind := Program.bind

/-- Giving a result is ending with it. -/
@[simp] theorem pure_eq_done (a : α) :
    (pure a : Program σ α) = .done a := rfl

/-- Doing one thing after the other is going on with what comes. -/
@[simp] theorem bind_eq (p : Program σ α) (rest : α → Program σ β) :
    (p >>= rest) = p.bind rest := rfl

/-- Ending is no step of its own. -/
@[simp] theorem done_bind (a : α) (rest : α → Program σ β) :
    (Program.done a).bind rest = rest a := rfl

/-- Going on by ending changes nothing. -/
@[simp] theorem bind_done (p : Program σ α) : p.bind .done = p := by
  induction p with
  | done _ => rfl
  | look next ih => exact congrArg Program.look (funext ih)
  | own next ih => exact congrArg Program.own (funext ih)
  | keep state next ih => exact congrArg (Program.keep state) ih
  | depth next ih => exact congrArg Program.depth (funext ih)
  | limit next ih => exact congrArg Program.limit (funext ih)
  | output next ih => exact congrArg Program.output (funext ih)
  | clear next ih => exact congrArg Program.clear ih
  | print line next ih => exact congrArg (Program.print line) ih
  | change c next ih => exact congrArg (Program.change c) (funext ih)
  | invoke receiver name args site next ih =>
      exact congrArg (Program.invoke receiver name args site) (funext ih)
  | apply callee args next ih =>
      exact congrArg (Program.apply callee args) (funext ih)

/-- Going on twice is going on once. -/
theorem bind_assoc (p : Program σ α) (f : α → Program σ β)
    (g : β → Program σ γ) :
    (p.bind f).bind g = p.bind fun a => (f a).bind g := by
  induction p with
  | done _ => rfl
  | look next ih => exact congrArg Program.look (funext ih)
  | own next ih => exact congrArg Program.own (funext ih)
  | keep state next ih => exact congrArg (Program.keep state) ih
  | depth next ih => exact congrArg Program.depth (funext ih)
  | limit next ih => exact congrArg Program.limit (funext ih)
  | output next ih => exact congrArg Program.output (funext ih)
  | clear next ih => exact congrArg Program.clear ih
  | print line next ih => exact congrArg (Program.print line) ih
  | change c next ih => exact congrArg (Program.change c) (funext ih)
  | invoke receiver name args site next ih =>
      exact congrArg (Program.invoke receiver name args site) (funext ih)
  | apply callee args next ih =>
      exact congrArg (Program.apply callee args) (funext ih)

instance : LawfulMonad (Program σ) :=
  LawfulMonad.mk' (Program σ) bind_done done_bind bind_assoc

end Program

-- ============================================================ evaluations

/-- A program that ends with a result or a fault. An evaluation of a
value is a program that ends with an outcome. -/
abbrev Eval (σ α : Type) := ExceptT Fault (Program σ) α

namespace Eval

variable {σ : Type}

/-- The world as it is. -/
def world : Eval σ World :=
  .mk (.look fun w => .done (.ok w))

/-- The evaluator's own state. -/
def own : Eval σ σ :=
  .mk (.own fun s => .done (.ok s))

/-- Replaces the evaluator's own state. -/
def keep (state : σ) : Eval σ Unit :=
  .mk (.keep state (.done (.ok ())))

/-- How many calls are running. -/
def depth : Eval σ Nat :=
  .mk (.depth fun n => .done (.ok n))

/-- How many calls may run at once. -/
def limit : Eval σ (Option Nat) :=
  .mk (.limit fun n => .done (.ok n))

/-- What the console holds. -/
def output : Eval σ String :=
  .mk (.output fun s => .done (.ok s))

/-- Empties the console's buffer. -/
def clear : Eval σ Unit :=
  .mk (.clear (.done (.ok ())))

/-- Prints a line. -/
def print (line : String) : Eval σ Unit :=
  .mk (.print line (.done (.ok ())))

/-- Changes the world. -/
def change (c : Change) : Eval σ c.Reply :=
  .mk (.change c fun reply => .done (.ok reply))

/-- Calls a method of a receiver by name. -/
def invoke (receiver : Value) (name : String) (args : List Value)
    (site : CallSite) : Eval σ Value :=
  .mk (.invoke receiver name args site .done)

/-- Calls a function or builtin that is at hand as a value. -/
def apply (callee : Value) (args : List Value) : Eval σ Value :=
  .mk (.apply callee args .done)

end Eval

end ObjectWorld
