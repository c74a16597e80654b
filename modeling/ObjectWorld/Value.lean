/-
Values.

What has an identity is a reference into a world and nothing more; the
class of an object, the message of an exception or the parameters of a
function are read there. So equal references can not disagree, and a
value is plain data that can be copied freely.

Three shapes wrap another value. A self reference and an extension are
looked through everywhere: the bare value under them is what counts. A
return wrapper is a value of its own, which only the end of a call takes
off.
-/
import ObjectWorld.Method

namespace ObjectWorld

/-- A value of the language. -/
inductive Value where
  | nil
  | bool (b : Bool)
  | int (n : Int64)
  | text (s : String)
  | symbol (name : String)
  | array (items : List Value)
  | exception (e : ExceptionId)
  /-- A function, with the visibility it gives to a method made of it. -/
  | function (f : FunctionId) (visibility : Visibility)
  /-- A native as a value. -/
  | builtin (name : String) (native : Native)
  /-- A class, a module or an eigenclass as a value. -/
  | cls (c : ClassId)
  | object (o : ObjectId)
  /-- A value together with the eigenclass it was extended with. -/
  | extended (inner : Value) (eigenclass : ClassId)
  /-- A value seen through self. -/
  | selfRef (inner : Value)
  /-- The value of an explicit return, on its way out of the body. -/
  | returned (inner : Value)
  /-- The marker of a required file. -/
  | required (name : String)
deriving Inhabited

namespace Value

-- ========================================================== the wrappers

/-- The value under all self references and extensions. -/
def bare : Value → Value
  | .selfRef inner => inner.bare
  | .extended inner _ => inner.bare
  | v => v

/-- Takes one return wrapper off, if it is outermost. -/
def peelReturn : Value → Value
  | .returned inner => inner
  | v => v

/-- The value under the outer self references only. -/
def stripSelf : Value → Value
  | .selfRef inner => inner.stripSelf
  | v => v

-- ================================================= what a bare value is

/-- The text, of a text. -/
def text? (v : Value) : Option String :=
  match v.bare with
  | .text s => some s
  | _ => none

/-- The integer, of an integer. -/
def int? (v : Value) : Option Int64 :=
  match v.bare with
  | .int n => some n
  | _ => none

/-- The name that a symbol or a text spells. -/
def spelling? (v : Value) : Option String :=
  match v.bare with
  | .symbol s | .text s => some s
  | _ => none

/-- The class, of a class or module. -/
def class? (v : Value) : Option ClassId :=
  match v.bare with
  | .cls c => some c
  | _ => none

/-- The object, of an object. -/
def object? (v : Value) : Option ObjectId :=
  match v.bare with
  | .object o => some o
  | _ => none

/-- The function and its visibility, of a function. -/
def function? (v : Value) : Option (FunctionId × Visibility) :=
  match v.bare with
  | .function f visibility => some (f, visibility)
  | _ => none

/-- Whether a value is nil. -/
def isNil (v : Value) : Bool :=
  match v.bare with
  | .nil => true
  | _ => false

/-- All values but nil and false count as true. -/
def isTruthy (v : Value) : Bool :=
  match v.bare with
  | .nil | .bool false => false
  | _ => true

-- ==================================================== what is read of it

section Readings

variable {v : Value}

/-- The integer of a value is the one under its wrappers. -/
theorem int?_eq_some_iff {n : Int64} :
    v.int? = some n ↔ v.bare = .int n := by
  unfold int?
  cases v.bare <;> simp

/-- What spells a name is a symbol or a text, under whatever wrappers. -/
theorem spelling?_eq_some_iff {name : String} :
    v.spelling? = some name
      ↔ v.bare = .symbol name ∨ v.bare = .text name := by
  unfold spelling?
  cases v.bare <;> simp

/-- The class of a handle is the one under its wrappers. -/
theorem class?_eq_some_iff {c : ClassId} :
    v.class? = some c ↔ v.bare = .cls c := by
  unfold class?
  cases v.bare <;> simp

/-- So is its object. -/
theorem object?_eq_some_iff {o : ObjectId} :
    v.object? = some o ↔ v.bare = .object o := by
  unfold object?
  cases v.bare <;> simp

/-- So is its function, with the visibility that it would give. -/
theorem function?_eq_some_iff {f : FunctionId} {visibility : Visibility} :
    v.function? = some (f, visibility)
      ↔ v.bare = .function f visibility := by
  unfold function?
  cases v.bare <;> simp

end Readings

-- ============================================================= sameness

mutual

/-- Whether two values are the same. Wrappers do not count; what has an
identity is compared by it, a builtin by its name, arrays and returns by
what is in them, and all else by content. -/
def same : Value → Value → Bool
  | .selfRef a, w => same a w
  | .extended a _, w => same a w
  | .nil, w => match w.bare with
      | .nil => true
      | _ => false
  | .bool a, w => match w.bare with
      | .bool b => a == b
      | _ => false
  | .int a, w => match w.bare with
      | .int b => a == b
      | _ => false
  | .text a, w => match w.bare with
      | .text b => a == b
      | _ => false
  | .symbol a, w => match w.bare with
      | .symbol b => a == b
      | _ => false
  | .array a, w => match w.bare with
      | .array b => sameItems a b
      | _ => false
  | .exception a, w => match w.bare with
      | .exception b => a == b
      | _ => false
  | .function a _, w => match w.bare with
      | .function b _ => a == b
      | _ => false
  | .builtin a _, w => match w.bare with
      | .builtin b _ => a == b
      | _ => false
  | .cls a, w => match w.bare with
      | .cls b => a == b
      | _ => false
  | .object a, w => match w.bare with
      | .object b => a == b
      | _ => false
  | .returned a, w => match w.bare with
      | .returned b => same a b
      | _ => false
  | .required a, w => match w.bare with
      | .required b => a == b
      | _ => false

/-- Whether two lists hold the same values at the same places. -/
def sameItems : List Value → List Value → Bool
  | [], [] => true
  | a :: as, b :: bs => same a b && sameItems as bs
  | _, _ => false

end

end Value

/-- How an evaluation ends. -/
abbrev Outcome := Except Fault Value

end ObjectWorld
