/-
Eigenclasses: a class of one value's own, between the value and its class.

Extending a value gives back the value together with its eigenclass. For
what has an identity of its own — an object, a class, a module — the
eigenclass is recorded there as well, so every other handle of the same
thing goes through it from then on, and extending any of them again finds
it. A plain value has no such place: two extensions of equal integers are
strangers.

A value whose deciding class is an eigenclass already is not given
another one.
-/
import ObjectWorld.World.Text

namespace ObjectWorld.World

/-- Records the eigenclass of what has an identity of its own. -/
def recordEigenclass (w : World) (v : Value) (eigenclass : ClassId) :
    World :=
  match v with
  | .object o =>
      { w with objects := w.objects.modify o.index fun info =>
          { info with singleton := some eigenclass } }
  | .cls c =>
      { w with classes := w.classes.relabel c fun info =>
          { info with singleton := some eigenclass } }
  | _ => w

/-- Makes the eigenclass of a value whose class so far is given. -/
def newEigenclass (w : World) (v : Value) (current : ClassId) :
    ClassId × World :=
  let name := "#<Class:" ++ w.inspect v ++ ">"
  let (eigenclass, w) := w.newClass name .eigenclass (some current)
  (eigenclass, w.recordEigenclass v eigenclass)

/-- A value together with its eigenclass, which is made if it has none.
Self references are taken off first; a value without a class can not be
extended. -/
def extend (w : World) : Value → Except Fault (Value × ClassId) × World
  | .extended inner eigenclass =>
      (.ok (.extended inner eigenclass, eigenclass), w)
  | .selfRef inner => w.extend inner
  | v =>
      match w.classOf? v with
      | none => (.error (.noSingleton (w.tag v)), w)
      | some current =>
          if w.isEigenclass current then
            (.ok (.extended v current, current), w)
          else
            let (eigenclass, w) := w.newEigenclass v current
            (.ok (.extended v eigenclass, eigenclass), w)

/-- Defines a method of one value alone, and gives the extended value. -/
def defineSingletonMethod (w : World) (v : Value) (name : String)
    (method : Method) : Except Fault Value × World :=
  match w.extend v with
  | (.error fault, w) => (.error fault, w)
  | (.ok (v, eigenclass), w) =>
      (.ok v, w.defineMethod eigenclass name method)

end ObjectWorld.World
