/-
The classes that every world starts with, and their native methods.

The list is in the order of creation, so a core class stands at its place
in the list and hangs from one further up. Everything else about them is
a table: name, superclass, methods.
-/
import ObjectWorld.Method

namespace ObjectWorld

/-- A class or module that is there from the start. -/
inductive CoreClass where
  | kernel
  | object
  | nilClass
  | trueClass
  | falseClass
  | integer
  | string
  | symbol
  | array
  | module
  | cls
  | exception
  | standardError
  | nameError
  | noMethodError
  | argumentError
  | typeError
  | zeroDivisionError
  | runtimeError
  | rangeError
  | scriptError
  | loadError
  | systemStackError
deriving DecidableEq, Repr

namespace CoreClass

/-- The core classes in the order of their creation. -/
def all : List CoreClass :=
  [.kernel, .object, .nilClass, .trueClass, .falseClass, .integer,
    .string, .symbol, .array, .module, .cls, .exception, .standardError,
    .nameError, .noMethodError, .argumentError, .typeError,
    .zeroDivisionError, .runtimeError, .rangeError, .scriptError,
    .loadError, .systemStackError]

/-- Where a core class stands among all classes. -/
def id (c : CoreClass) : ClassId :=
  ⟨all.idxOf c⟩

/-- The name a core class is registered under. -/
def name : CoreClass → String
  | .kernel => "Kernel"
  | .object => "Object"
  | .nilClass => "NilClass"
  | .trueClass => "TrueClass"
  | .falseClass => "FalseClass"
  | .integer => "Integer"
  | .string => "String"
  | .symbol => "Symbol"
  | .array => "Array"
  | .module => "Module"
  | .cls => "Class"
  | .exception => "Exception"
  | .standardError => "StandardError"
  | .nameError => "NameError"
  | .noMethodError => "NoMethodError"
  | .argumentError => "ArgumentError"
  | .typeError => "TypeError"
  | .zeroDivisionError => "ZeroDivisionError"
  | .runtimeError => "RuntimeError"
  | .rangeError => "RangeError"
  | .scriptError => "ScriptError"
  | .loadError => "LoadError"
  | .systemStackError => "SystemStackError"

/-- The superclass of a core class. The module Kernel is the one root. -/
def superclass? : CoreClass → Option CoreClass
  | .kernel => none
  | .object => some .kernel
  | .nilClass | .trueClass | .falseClass | .integer | .string | .symbol
  | .array | .module | .exception => some .object
  | .cls => some .module
  | .standardError | .scriptError | .systemStackError => some .exception
  | .nameError | .argumentError | .typeError | .zeroDivisionError
  | .runtimeError | .rangeError => some .standardError
  | .noMethodError => some .nameError
  | .loadError => some .scriptError

-- ===================================================== native methods

/-- A public native that looks, with its count of arguments. -/
def looks (count : Nat) (query : Query) : Method :=
  ⟨.fixed count, .isPublic, .native (.query query)⟩

/-- The methods a core class starts with. -/
def methods : CoreClass → List (String × Method)
  | .kernel =>
      [("puts", ⟨.any, .isPrivate, .native .printLine⟩),
        ("require", ⟨.fixed 1, .isPrivate, .native (.query .require)⟩),
        ("raise", ⟨.fixed 1, .isPrivate, .native (.query .raise)⟩),
        ("nil?", looks 0 .notNil),
        ("class", looks 0 .classOf),
        ("methods", looks 0 .methods),
        ("inspect", looks 0 .inspect),
        ("to_s", looks 0 .inspect),
        ("respond_to?", looks 1 .respondTo),
        ("==", looks 1 .equal)]
  | .nilClass => [("nil?", looks 0 .isNil), ("to_s", looks 0 .emptyText)]
  | .integer =>
      [("+", looks 1 .add),
        ("-", looks 1 .subtract),
        ("*", looks 1 .multiply),
        ("/", looks 1 .divide),
        ("==", looks 1 .integerEqual),
        ("<", looks 1 .less),
        (">", looks 1 .greater)]
  | .string =>
      [("+", looks 1 .concat),
        ("size", looks 0 .textSize),
        ("to_s", looks 0 .textOfText),
        ("to_sym", looks 0 .symbolOfText)]
  | .symbol =>
      [("to_s", looks 0 .textOfSymbol),
        ("to_sym", looks 0 .symbolOfSymbol)]
  | .array =>
      [("size", looks 0 .itemCount),
        ("first", looks 0 .firstItem),
        ("last", looks 0 .lastItem),
        ("push", ⟨.any, .isPublic, .native (.query .append)⟩)]
  | .exception => [("message", looks 0 .message)]
  | .module => [("name", looks 0 .className)]
  | .cls =>
      [("superclass", looks 0 .superclass),
        ("new", ⟨.any, .isPublic, .native .instantiate⟩)]
  | _ => []

end CoreClass

end ObjectWorld
