/-
Sessions: expressions evaluated one after the other in one world.

Each step is evaluated with the main receiver as self, in the one scope
of the session, which stands inside the global one. A step that fails
ends with its fault and the session goes on. An answer tells how the step
ended, what it printed and how many function bodies it evaluated; then
the console is emptied for the next step.
-/
import ObjectWorld.Script.Hosting
import ObjectWorld.Script.Picture

namespace ObjectWorld.Script

/-- What one step of a session is answered with. -/
structure Answer where
  result : Except Fault Picture
  /-- What the step printed and did not take back. -/
  printed : String
  /-- How many function bodies the step evaluated. -/
  evals : Nat
  /-- How many calls still count as running. -/
  depth : Nat

/-- A session between two steps. -/
structure Session where
  machine : Machine Notes
  /-- The objects that answers have shown. -/
  shown : Shown := []

namespace Session

/-- How many calls may run at once unless a session says otherwise. -/
def defaultLimit : Nat := 10000

/-- The scope that the steps are evaluated in. -/
def top : ScopeId := ⟨1⟩

/-- A session before its first step. -/
def start (sink : Sink) (limit : Option Nat) : Session where
  machine :=
    { world := (World.initial.newScope (some World.globals)).2
      console := { sink }
      limit
      own :=
        { scopes := Table.ofList
            [("globals", World.globals), ("top", top)] } }

/-- Evaluates one expression; there is no answer if the run does not end
within so many steps of the machine. -/
def step (fuel : Nat) (session : Session) (e : Expr) :
    Option (Answer × Session) :=
  let before := session.machine.own.evals
  let machine :=
    (session.machine.load (e.run World.main top)).run host fuel
  machine.outcome?.map fun outcome =>
    let console := machine.console
    let answer (result : Except Fault Picture) : Answer :=
      { result
        printed := console.output ++ console.written
        evals := machine.own.evals - before
        depth := machine.depth }
    let emptied :=
      { machine with console := { sink := console.sink } }
    match outcome with
    | .error fault =>
        (answer (.error fault), { session with machine := emptied })
    | .ok v =>
        let (image, shown) := picture machine.world v session.shown
        (answer (.ok image), { machine := emptied, shown })

/-- Evaluates expressions in order and collects the answers. -/
def run (fuel : Nat) (session : Session) :
    List Expr → Option (List Answer × Session)
  | [] => some ([], session)
  | e :: rest => do
      let (answer, session) ← session.step fuel e
      let (answers, session) ← session.run fuel rest
      return (answer :: answers, session)

/-- The answers of a whole session; none if some operand in it was of no
use where it stood. -/
def answers? (fuel : Nat) (session : Session) (steps : List Expr) :
    Option (List Answer) := do
  let (answers, session) ← session.run fuel steps
  if session.machine.own.malformed then none else some answers

end Session

end ObjectWorld.Script
