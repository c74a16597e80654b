/-
Pictures: values as an answer shows them, with nothing left to look up.

An object has no name, so a picture numbers it: the first object that any
answer of a session shows is number zero, the next new one number one,
and an object that was shown before keeps its number.
-/
import ObjectWorld.World.Basic

namespace ObjectWorld.Script

/-- A value as an answer shows it. -/
inductive Picture where
  | nil
  | bool (b : Bool)
  | int (n : Int64)
  | text (s : String)
  | symbol (name : String)
  | array (items : List Picture)
  | exception (cls message : String)
  | function (params : List String) (body : BodyId)
      (visibility : Visibility)
  | builtin (name : String)
  | cls (name : String)
  | module (name : String)
  | object (cls : String) (number : Nat)
  | extended (inner : Picture) (eigenclass : String)
  | selfRef (inner : Picture)
  | returned (inner : Picture)
  | required (name : String)
deriving Inhabited

/-- The objects shown so far, in the order in which they were first
shown. -/
abbrev Shown := List ObjectId

/-- The number of an object, and what has been shown with it. -/
def Shown.number (shown : Shown) (o : ObjectId) : Nat × Shown :=
  (shown.idxOf o, if shown.contains o then shown else shown ++ [o])

mutual

/-- The picture of a value, and what has been shown with it. -/
def picture (w : World) : Value → Shown → Picture × Shown
  | .nil, shown => (.nil, shown)
  | .bool b, shown => (.bool b, shown)
  | .int n, shown => (.int n, shown)
  | .text s, shown => (.text s, shown)
  | .symbol name, shown => (.symbol name, shown)
  | .array items, shown =>
      let (items, shown) := pictures w items shown
      (.array items, shown)
  | .exception e, shown =>
      let info := w.exceptionInfo e
      (.exception (w.className info.cls) info.message, shown)
  | .function f visibility, shown =>
      let info := w.functionInfo f
      (.function info.params info.body visibility, shown)
  | .builtin name _, shown => (.builtin name, shown)
  | .cls c, shown =>
      if w.isModule c then (.module (w.className c), shown)
      else (.cls (w.className c), shown)
  | .object o, shown =>
      let (number, shown) := shown.number o
      (.object (w.className (w.objectInfo o).cls) number, shown)
  | .extended inner eigenclass, shown =>
      let (inner, shown) := picture w inner shown
      (.extended inner (w.className eigenclass), shown)
  | .selfRef inner, shown =>
      let (inner, shown) := picture w inner shown
      (.selfRef inner, shown)
  | .returned inner, shown =>
      let (inner, shown) := picture w inner shown
      (.returned inner, shown)
  | .required name, shown => (.required name, shown)

/-- The pictures of some values, from left to right. -/
def pictures (w : World) : List Value → Shown → List Picture × Shown
  | [], shown => ([], shown)
  | v :: rest, shown =>
      let (first, shown) := picture w v shown
      let (others, shown) := pictures w rest shown
      (first :: others, shown)

end

end ObjectWorld.Script
