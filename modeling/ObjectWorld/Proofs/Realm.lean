/-
Realms: worlds in use, and the states that use can lead to.

A value is plain data, so a world can not tell a handle that it gave out
from one that was made up. Who works with a world can: a reference is one
that an operation answered with, and an extended value is one that
extending gave back. A realm is a world with a ledger of the extended
values it has given out, and `Held` says which values can be at hand
there. A change is allowed if everything it names is at hand.

# Reaching

A realm is used in two ways (`Step`). A change is asked for directly; or
a machine runs on it, and then whatever its programs change on the way,
through methods of the language, natives and everything they call, is a
change with operands at hand. What every allowed change preserves holds
wherever use leads (`Reaches.preserves`); a run is no separate case of
it.
-/
import ObjectWorld.Machine
import ObjectWorld.Proofs.Identity

namespace ObjectWorld

/-- A world together with the extended values that it has given out. -/
structure Realm where
  world : World
  handed : List Value

namespace Realm

variable {r s t : Realm} {v : Value} {σ : Type}

/-- The realm that every use begins in. -/
def start : Realm where
  world := .initial
  handed := []

-- ================================================= what can be at hand

/-- The values that can be at hand in a realm: plain data, references to
what is there, extended values from the ledger, and what can be built of
these. -/
inductive Held (r : Realm) : Value → Prop
  | nil : Held r .nil
  | bool (b : Bool) : Held r (.bool b)
  | int (n : Int64) : Held r (.int n)
  | text (s : String) : Held r (.text s)
  | symbol (name : String) : Held r (.symbol name)
  | array {items : List Value} (h : ∀ v ∈ items, Held r v) :
      Held r (.array items)
  | exception {e : ExceptionId} (h : r.world.HasException e) :
      Held r (.exception e)
  | function {f : FunctionId} (h : r.world.HasFunction f)
      (visibility : Visibility) : Held r (.function f visibility)
  | builtin (name : String) (native : Native) :
      Held r (.builtin name native)
  | cls {c : ClassId} (h : r.world.HasClass c) : Held r (.cls c)
  | object {o : ObjectId} (h : r.world.HasObject o) : Held r (.object o)
  | extended {inner : Value} {eigenclass : ClassId}
      (h : .extended inner eigenclass ∈ r.handed) :
      Held r (.extended inner eigenclass)
  | selfRef {inner : Value} (h : Held r inner) : Held r (.selfRef inner)
  | returned {inner : Value} (h : Held r inner) :
      Held r (.returned inner)
  | required (name : String) : Held r (.required name)

/-- An array is at hand just if all that is in it is. -/
theorem held_array {items : List Value} :
    r.Held (.array items) ↔ ∀ u ∈ items, r.Held u :=
  ⟨fun | .array h => h, .array⟩

/-- An exception is at hand just if it is there. -/
theorem held_exception {e : ExceptionId} :
    r.Held (.exception e) ↔ r.world.HasException e :=
  ⟨fun | .exception h => h, .exception⟩

/-- So is a function, whatever visibility it would give to a method. -/
theorem held_function {f : FunctionId} {visibility : Visibility} :
    r.Held (.function f visibility) ↔ r.world.HasFunction f :=
  ⟨fun | .function h _ => h, fun h => .function h visibility⟩

/-- So is a class. -/
theorem held_cls {c : ClassId} : r.Held (.cls c) ↔ r.world.HasClass c :=
  ⟨fun | .cls h => h, .cls⟩

/-- And so is an object, as it is without an extension. -/
theorem held_object {o : ObjectId} :
    r.Held (.object o) ↔ r.world.HasObject o :=
  ⟨fun | .object h => h, .object⟩

/-- What is at hand stays at hand. -/
theorem Held.mono (later : r.world.Later s.world)
    (handed : ∀ x ∈ r.handed, x ∈ s.handed) (h : r.Held v) : s.Held v := by
  induction h with
  | nil => exact .nil
  | bool b => exact .bool b
  | int n => exact .int n
  | text s => exact .text s
  | symbol name => exact .symbol name
  | array _ ih => exact .array ih
  | exception h => exact .exception (later.hasException h)
  | function h visibility => exact .function (later.hasFunction h) visibility
  | builtin name native => exact .builtin name native
  | cls h => exact .cls (later.hasClass h)
  | object h => exact .object (later.hasObject h)
  | extended h => exact .extended (handed _ h)
  | selfRef _ ih => exact .selfRef ih
  | returned _ ih => exact .returned ih
  | required name => exact .required name

/-- Whether the function of a method, if it is made of one, is there. -/
def Knows (r : Realm) (method : Method) : Prop :=
  match method.body with
  | .native _ => True
  | .interpreted f => r.world.HasFunction f

-- ======================================================== allowed changes

/-- Whether everything that a change names is at hand. -/
def Allows (r : Realm) : Change → Prop
  | .newClass _ superclass | .defineClass _ superclass =>
      ∀ c ∈ superclass, r.world.HasClass c
  | .newModule _ | .defineModule _ | .exceptionFor _ => True
  | .defineMethod c _ method => r.world.HasClass c ∧ r.Knows method
  | .extend v => r.Held v
  | .defineSingletonMethod v _ method => r.Held v ∧ r.Knows method
  | .newObject cls | .newException cls _ => r.world.HasClass cls
  | .setIvar o _ v => r.world.HasObject o ∧ r.Held v
  | .newFunction info => r.world.HasScope info.scope
  | .newScope outer => ∀ s ∈ outer, r.world.HasScope s
  | .define s _ v | .assign s _ v => r.world.HasScope s ∧ r.Held v
  | .bindArguments f args =>
      r.world.HasFunction f ∧ ∀ v ∈ args, r.Held v

/-- The extended values that the reply to a change gives out. -/
def given : (c : Change) → c.Reply → List Value
  | .extend _, .ok (x, _) => [x]
  | .defineSingletonMethod .., .ok x => [x]
  | _, _ => []

/-- A realm after a change: the world changes, and what the reply gives
out goes on the ledger. -/
def after (r : Realm) (c : Change) : Realm where
  world := (c.perform r.world).2
  handed := given c (c.perform r.world).1 ++ r.handed

-- ================================================================= use

/-- A realm after one step of a machine that runs on it. -/
def passing (r : Realm) (m : Machine σ) : Realm :=
  match m.current with
  | .change c _ => r.after c
  | _ => r

/-- Whether the next step of a machine names only what is at hand. -/
def Permits (r : Realm) (m : Machine σ) : Prop :=
  ∀ c next, m.current = .change c next → r.Allows c

/-- The runs of a machine on a realm, step after step, as long as each
step names only what is at hand. -/
inductive Runs (host : Host σ) : Realm → Machine σ → Realm → Machine σ → Prop
  | refl (r : Realm) (m : Machine σ) : Runs host r m r m
  | step {r s : Realm} {m n : Machine σ} (permitted : r.Permits m)
      (rest : Runs host (r.passing m) (m.step host) s n) :
      Runs host r m s n

/-- One use of a realm: a change that is asked for, or a run of a machine
on its world. -/
inductive Step : Realm → Realm → Prop
  | change {r : Realm} {c : Change} (allowed : r.Allows c) :
      Step r (r.after c)
  | run {σ : Type} {host : Host σ} {r s : Realm} {m n : Machine σ}
      (here : m.world = r.world) (run : Runs host r m s n) : Step r s

/-- Whether use leads from one realm to another. -/
inductive Reaches (r : Realm) : Realm → Prop
  | refl : Reaches r r
  | tail {s t : Realm} (before : Reaches r s) (step : Step s t) :
      Reaches r t

/-- Whether use leads to a realm from the start. -/
def Reachable (r : Realm) : Prop :=
  start.Reaches r

/-- Use goes on where use has led. -/
theorem Reaches.trans (h : r.Reaches s) (h' : s.Reaches t) :
    r.Reaches t := by
  induction h' with
  | refl => exact h
  | tail _ step ih => exact ih.tail step

/-- One allowed change is use. -/
theorem Reaches.after {c : Change} (allowed : r.Allows c) :
    r.Reaches (r.after c) :=
  .tail .refl (.change allowed)

-- ====================================================== along a machine

/-- Starting a call, or refusing it, leaves the world as it is. -/
theorem world_callIfAllowed (host : Host σ) (m : Machine σ)
    (allowed : Except Fault Method) (self : Value) (args : List Value)
    (next : Outcome → Program σ Outcome) :
    (m.callIfAllowed host allowed self args next).world = m.world := by
  unfold Machine.callIfAllowed Machine.call
  split
  · rfl
  · split <;> rfl

/-- A machine that runs on the world of a realm keeps running on it: its
world changes exactly as the realm's does. -/
theorem world_passing (host : Host σ) {m : Machine σ}
    (here : m.world = r.world) :
    (m.step host).world = (r.passing m).world := by
  unfold passing Machine.step
  cases m.current with
  | done outcome => cases m.waiting <;> exact here
  | change c next =>
      show (c.perform m.world).2 = (c.perform r.world).2
      rw [here]
  | invoke receiver name args site next =>
      show (m.callIfAllowed ..).world = r.world
      rw [world_callIfAllowed, here]
  | apply callee args next =>
      show (m.callIfAllowed ..).world = r.world
      rw [world_callIfAllowed, here]
  | look | own | keep | depth | limit | output | clear | print => exact here

/-- So the world that a run leaves is the world of the realm it leaves. -/
theorem Runs.world {host : Host σ} {m n : Machine σ}
    (run : Runs host r m s n) (here : m.world = r.world) :
    n.world = s.world := by
  induction run with
  | refl r m => exact here
  | step _ _ ih => exact ih (world_passing host here)

/-- What every allowed change preserves is preserved by a run. -/
theorem Runs.preserves {P : Realm → Prop}
    (change : ∀ {r : Realm} {c : Change}, P r → r.Allows c → P (r.after c))
    {host : Host σ} {m n : Machine σ} (run : Runs host r m s n)
    (hr : P r) : P s := by
  induction run with
  | refl r m => exact hr
  | step permitted rest ih =>
      refine ih ?_
      unfold passing
      split
      · rename_i c next hcurrent
        exact change hr (permitted c next hcurrent)
      · exact hr

/-- What every allowed change preserves is preserved by all use. -/
theorem Reaches.preserves {P : Realm → Prop}
    (change : ∀ {r : Realm} {c : Change}, P r → r.Allows c → P (r.after c))
    (h : r.Reaches s) (hr : P r) : P s := by
  induction h with
  | refl => exact hr
  | tail _ step ih =>
      cases step with
      | change allowed => exact change ih allowed
      | run _ run => exact run.preserves change ih

end Realm

end ObjectWorld
