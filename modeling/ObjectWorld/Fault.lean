/-
What can go wrong, by cause. A fault carries what its text needs and
nothing else; the text and the name of the exception class that stands
for it are functions of the cause, so no two faults of one cause can be
worded differently.
-/

namespace ObjectWorld

/-- Why an evaluation failed. -/
inductive Fault where
  /-- No class of the receiver's chain defines the method. -/
  | undefinedMethod (name receiver : String)
  /-- The method is there but may not be called from outside. -/
  | privateMethod (name receiver : String)
  /-- The count of arguments is not the one that is called for. -/
  | wrongNumberOfArguments (expected given : Nat)
  /-- A value of another kind was called for. -/
  | implicitConversion (expected actual : String)
  /-- Division by zero. -/
  | zeroDivision
  /-- The exact result has no representation. -/
  | integerOverflow (operation : String)
  /-- As many calls are running as the limit allows. -/
  | stackTooDeep (limit : Nat)
  /-- A value without a class has no class of its own either. -/
  | noSingleton (typeName : String)
  /-- A class was reopened under another superclass. -/
  | superclassMismatch (name : String)
  /-- Something is not of the kind that its use calls for. -/
  | notA (name expected : String)
  /-- Raised on purpose. -/
  | raised (message : String)
deriving DecidableEq, Repr, Inhabited

namespace Fault

/-- The words for a fault. -/
def message : Fault → String
  | .undefinedMethod name receiver =>
      "undefined method `" ++ name ++ "' for " ++ receiver
  | .privateMethod name receiver =>
      "private method `" ++ name ++ "' called for " ++ receiver
  | .wrongNumberOfArguments expected given =>
      "wrong number of arguments (given " ++ toString given
        ++ ", expected " ++ toString expected ++ ")"
  | .implicitConversion expected actual =>
      "no implicit conversion of " ++ actual ++ " into " ++ expected
  | .zeroDivision => "divided by 0"
  | .integerOverflow operation => "integer overflow in " ++ operation
  | .stackTooDeep _ => "stack level too deep"
  | .noSingleton typeName =>
      "can't define singleton method on " ++ typeName
  | .superclassMismatch name => "superclass mismatch for class " ++ name
  | .notA name expected => name ++ " is not a " ++ expected
  | .raised message => message

/-- The name of the exception class that stands for a fault. -/
def exceptionName : Fault → String
  | .undefinedMethod .. | .privateMethod .. => "NoMethodError"
  | .wrongNumberOfArguments .. => "ArgumentError"
  | .implicitConversion .. | .noSingleton .. | .superclassMismatch ..
  | .notA .. => "TypeError"
  | .zeroDivision => "ZeroDivisionError"
  | .integerOverflow .. => "RangeError"
  | .stackTooDeep .. => "SystemStackError"
  | .raised .. => "RuntimeError"

/-- Whether a call was refused because of the method's name. -/
def isNoMethod : Fault → Bool
  | .undefinedMethod .. | .privateMethod .. => true
  | _ => false

end Fault

end ObjectWorld
