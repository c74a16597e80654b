/-
What the queries answer.

A query gets the world, its receiver and its arguments, and answers with
a value or a fault. It looks through wrappers on all of them. A query of
one argument counts its arguments itself, since a method may be installed
again under another arity; the count is tested first, then the receiver,
then the argument.

Integer arithmetic is done on the integers and only then made to fit: a
result is either exact or an overflow. A quotient is first rounded towards
zero, as it comes out of a division of words, and corrected afterwards.
-/
import ObjectWorld.World.Registry
import ObjectWorld.World.Text

namespace ObjectWorld

namespace World

-- ======================================================== what is asked for

/-- The one argument of a native that takes one. -/
def soleArgument (args : List Value) : Except Fault Value :=
  match args with
  | [v] => .ok v
  | _ => .error (.wrongNumberOfArguments 1 args.length)

/-- An integer is called for; the fault names the class of the value as
it was given. -/
def integerOf (w : World) (v : Value) : Except Fault Int64 :=
  match v.int? with
  | some n => .ok n
  | none => .error (.implicitConversion "Integer" (w.classNameOf v))

/-- A text is called for; the fault names the class of the value as it
was given. -/
def textOf (w : World) (v : Value) : Except Fault String :=
  match v.text? with
  | some s => .ok s
  | none => .error (.implicitConversion "String" (w.classNameOf v))

/-- The fault of a value of the wrong kind, which names the class of the
bare value. -/
def unfit (w : World) (expected : String) (v : Value) : Fault :=
  .implicitConversion expected (w.classNameOf v.bare)

/-- A name is called for, as a symbol or a text. -/
def spellingOf (w : World) (v : Value) : Except Fault String :=
  match v.spelling? with
  | some name => .ok name
  | none => .error (w.unfit "Symbol" v)

/-- A symbol is called for. -/
def symbolOf (w : World) (v : Value) : Except Fault String :=
  match v.bare with
  | .symbol name => .ok name
  | _ => .error (w.unfit "Symbol" v)

/-- An array is called for. -/
def itemsOf (w : World) (v : Value) : Except Fault (List Value) :=
  match v.bare with
  | .array items => .ok items
  | _ => .error (w.unfit "Array" v)

/-- An exception is called for. -/
def exceptionOf (w : World) (v : Value) : Except Fault ExceptionId :=
  match v.bare with
  | .exception e => .ok e
  | _ => .error (w.unfit "Exception" v)

/-- A class or module is called for. -/
def classFrom (w : World) (expected : String) (v : Value) :
    Except Fault ClassId :=
  match v.class? with
  | some c => .ok c
  | none => .error (w.unfit expected v)

/-- It is found in its handles, and in nothing else. -/
theorem classFrom_eq_ok_iff {w : World} {expected : String} {v : Value}
    {c : ClassId} :
    w.classFrom expected v = .ok c ↔ v.class? = some c := by
  unfold classFrom
  cases v.class? <;> simp

end World

-- =========================================================== the integers

/-- An integer as a value, if the value can hold it. -/
def exactly (operation : String) (n : Int) : Outcome :=
  if Int64.minValue.toInt ≤ n ∧ n ≤ Int64.maxValue.toInt then
    .ok (.int (Int64.ofInt n))
  else
    .error (.integerOverflow operation)

/-- The quotient rounded towards zero and what is left over, for a divisor
other than zero. The least integer has no quotient by minus one. -/
def quotientAndRest? (a b : Int64) : Option (Int64 × Int64) :=
  if a = Int64.minValue ∧ b = -1 then none else some (a / b, a % b)

/-- The quotient rounded down: where something is left over whose sign is
not that of the divisor, it is one less than the one rounded towards
zero. -/
def divideDown (a b : Int64) : Outcome :=
  if b = 0 then .error .zeroDivision
  else
    match quotientAndRest? a b with
    | none => .error (.integerOverflow "division")
    | some (quotient, rest) =>
        if rest ≠ 0 ∧ ¬ (rest < 0 ↔ b < 0) then
          exactly "division" (quotient.toInt - 1)
        else .ok (.int quotient)

-- ============================================================ the answers

namespace World

/-- The operands of an integer operation: the receiver and the one
argument. -/
def operands (w : World) (self : Value) (args : List Value) :
    Except Fault (Int64 × Int64) := do
  let rhs ← soleArgument args
  let a ← w.integerOf self
  let b ← w.integerOf rhs
  return (a, b)

/-- What a query answers to a receiver and arguments. -/
def answer (w : World) (query : Query) (self : Value)
    (args : List Value) : Outcome :=
  match query with
  | .require => do
      let name ← soleArgument args
      return .required (← w.textOf name)
  | .raise => do
      let message ← soleArgument args
      throw (.raised (w.inspect message))
  | .notNil => .ok (.bool false)
  | .classOf => .ok ((w.nominalClassOf? self).elim .nil .cls)
  | .methods =>
      let levels := (w.classOf? self).elim [] w.ancestors
      .ok (.array ((levels.flatMap w.publicNames).map .symbol))
  | .inspect => .ok (.text (w.inspect self))
  | .respondTo => do
      let name ← w.spellingOf (← soleArgument args)
      return .bool (w.responds self name .explicit)
  | .equal => do
      let other ← soleArgument args
      return .bool (self.same other)
  | .add => do
      let (a, b) ← w.operands self args
      exactly "addition" (a.toInt + b.toInt)
  | .subtract => do
      let (a, b) ← w.operands self args
      exactly "subtraction" (a.toInt - b.toInt)
  | .multiply => do
      let (a, b) ← w.operands self args
      exactly "multiplication" (a.toInt * b.toInt)
  | .divide => do
      let (a, b) ← w.operands self args
      divideDown a b
  | .integerEqual => do
      let other ← soleArgument args
      return .bool (self.int?.isSome && self.same other)
  | .less => do
      let (a, b) ← w.operands self args
      return .bool (decide (a < b))
  | .greater => do
      let (a, b) ← w.operands self args
      return .bool (decide (b < a))
  | .isNil => .ok (.bool true)
  | .emptyText => .ok (.text "")
  | .concat => do
      let other ← soleArgument args
      let first ← w.textOf self
      return .text (first ++ (← w.textOf other))
  | .textSize => do
      exactly "String#size" (← w.textOf self).length
  | .textOfText => do
      return .text (← w.textOf self)
  | .symbolOfText => do
      return .symbol (← w.textOf self)
  | .textOfSymbol => do
      return .text (← w.symbolOf self)
  | .symbolOfSymbol => do
      return .symbol (← w.symbolOf self)
  | .itemCount => do
      exactly "Array#size" (← w.itemsOf self).length
  | .firstItem => do
      return (← w.itemsOf self).head?.getD .nil
  | .lastItem => do
      return (← w.itemsOf self).getLast?.getD .nil
  | .append => do
      return .array ((← w.itemsOf self) ++ args)
  | .message => do
      return .text (w.exceptionInfo (← w.exceptionOf self)).message
  | .className => do
      return .text (w.className (← w.classFrom "Module" self))
  | .superclass => do
      let c ← w.classFrom "Class" self
      return (w.superclassSkippingModules? c).elim .nil .cls

end World

end ObjectWorld
