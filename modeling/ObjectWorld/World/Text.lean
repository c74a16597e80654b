/-
Values as text.

The plain text of a value shows what a user sees: wrappers vanish, an
object shows the class it was made of, a function its parameters. A
description adds the class; it is what error messages call a receiver.
-/
import ObjectWorld.World.Classes

namespace ObjectWorld.World

mutual

/-- The text of a value. -/
def inspect (w : World) : Value → String
  | .nil => "nil"
  | .bool b => if b then "true" else "false"
  | .int n => toString n.toInt
  | .text s => s
  | .symbol name => ":" ++ name
  | .array items => "[" ++ ", ".intercalate (w.inspectAll items) ++ "]"
  | .exception e =>
      let info := w.exceptionInfo e
      "#<" ++ w.className info.cls ++ ": " ++ info.message ++ ">"
  | .function f _ =>
      "fn(" ++ ", ".intercalate (w.functionInfo f).params ++ ")"
  | .builtin .. => "builtin function"
  | .cls c => w.className c
  | .object o => "#<" ++ w.className (w.objectInfo o).cls ++ ">"
  | .extended inner _ => w.inspect inner
  | .selfRef inner => w.inspect inner
  | .returned inner => w.inspect inner
  | .required name => name

/-- The texts of some values. -/
def inspectAll (w : World) : List Value → List String
  | [] => []
  | v :: rest => w.inspect v :: w.inspectAll rest

end

/-- The texts of some values, one by one. -/
theorem inspectAll_eq_map (w : World) (items : List Value) :
    w.inspectAll items = items.map w.inspect := by
  induction items with
  | nil => simp [inspectAll]
  | cons v rest ih => simp [inspectAll, ih]

/-- A value and the class that a user sees, for messages. -/
def describe (w : World) (v : Value) : String :=
  w.inspect v ++ ":" ++ w.classNameOf v

end ObjectWorld.World
