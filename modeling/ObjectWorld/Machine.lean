/-
The machine that runs programs.

A machine holds a world, a console, the program that runs now and the
callers that wait for it, innermost first. One step serves one request.
A call that the world allows still needs room: there may be a limit on
how many run at once. A refusal, for whatever reason, reaches the caller
before anything has changed. A call counts as running until its program
ends; then the next waiting caller goes on with the outcome.

The machine needs no stack of its own beyond the list of callers, so runs
of any depth take the same steps. With a limit on the depth every run
ends: a tree has no infinite branch, and every way into another tree
takes one of finitely many places.
-/
import ObjectWorld.Console
import ObjectWorld.Host
import ObjectWorld.World.Calls
import ObjectWorld.World.Initial

namespace ObjectWorld

/-- A run in progress. -/
structure Machine (σ : Type) where
  world : World := .initial
  console : Console := {}
  /-- How many calls may run at once. -/
  limit : Option Nat
  /-- How many calls are running. -/
  depth : Nat := 0
  /-- The evaluator's own state. -/
  own : σ
  /-- What runs now. -/
  current : Program σ Outcome := .done (.ok .nil)
  /-- The callers that wait, innermost first. -/
  waiting : List (Outcome → Program σ Outcome) := []

namespace Machine

variable {σ : Type}

/-- Why no further call can start, if so many are running. -/
def refusal? (m : Machine σ) : Option Fault :=
  match m.limit with
  | some limit =>
      if limit ≤ m.depth then some (.stackTooDeep limit) else none
  | none => none

/-- Starts a program as a call, if there is room for one; the caller
waits for its outcome. -/
def call (m : Machine σ) (callee : Program σ Outcome)
    (next : Outcome → Program σ Outcome) : Machine σ :=
  match m.refusal? with
  | some fault => { m with current := next (.error fault) }
  | none =>
      { m with
        depth := m.depth + 1
        current := callee
        waiting := next :: m.waiting }

/-- Starts the method that the world allows as a call, or tells the
caller why it allows none. -/
def callIfAllowed (host : Host σ) (m : Machine σ)
    (allowed : Except Fault Method) (self : Value) (args : List Value)
    (next : Outcome → Program σ Outcome) : Machine σ :=
  match allowed with
  | .error fault => { m with current := next (.error fault) }
  | .ok method => m.call (method.run host self args) next

/-- Serves one request. A machine whose program has ended and for which
nobody waits stays as it is. -/
def step (host : Host σ) (m : Machine σ) : Machine σ :=
  match m.current with
  | .done outcome =>
      match m.waiting with
      | [] => m
      | next :: waiting =>
          { m with
            depth := m.depth - 1
            current := next outcome
            waiting }
  | .look next => { m with current := next m.world }
  | .own next => { m with current := next m.own }
  | .keep own next => { m with own, current := next }
  | .depth next => { m with current := next m.depth }
  | .limit next => { m with current := next m.limit }
  | .output next => { m with current := next m.console.output }
  | .clear next => { m with console := m.console.clear, current := next }
  | .print line next =>
      { m with console := m.console.println line, current := next }
  | .change change next =>
      let (reply, world) := change.perform m.world
      { m with world, current := next reply }
  | .invoke receiver name args site next =>
      m.callIfAllowed host
        (m.world.methodFor receiver name args.length site) receiver args next
  | .apply callee args next =>
      m.callIfAllowed host
        (m.world.methodForCallee callee args.length) World.main args next

/-- The outcome of a run that has ended. -/
def outcome? (m : Machine σ) : Option Outcome :=
  match m.current, m.waiting with
  | .done outcome, [] => some outcome
  | _, _ => none

/-- Takes steps until the run has ended, at most so many. -/
def run (host : Host σ) : Nat → Machine σ → Machine σ
  | 0, m => m
  | fuel + 1, m =>
      if m.outcome?.isSome then m else run host fuel (m.step host)

/-- Puts a program on a machine whose last run has ended. -/
def load (m : Machine σ) (program : Program σ Outcome) : Machine σ :=
  { m with current := program }

end Machine

end ObjectWorld
