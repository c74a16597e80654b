/-
The names of the methods that are not written in the language.

A native is data: a world stores its name, and its meaning is given
elsewhere. Most natives are queries. A query looks at the world, at its
receiver and at its arguments and answers; it changes nothing, so its
meaning is a plain function. Two natives do more: one prints and one
makes an object and calls back. All others belong to the host of the
world, which knows them by a label.
-/

namespace ObjectWorld

/-- The natives that only look. -/
inductive Query where
  /-- The marker of a required file. -/
  | require
  /-- Fails on purpose, with the argument's text. -/
  | raise
  /-- Not nil, whatever the receiver. -/
  | notNil
  /-- The class a user sees. -/
  | classOf
  /-- The public methods, from the most specific class on. -/
  | methods
  /-- The receiver's text. -/
  | inspect
  /-- Whether a call from outside would find its method. -/
  | respondTo
  /-- Whether two values are the same. -/
  | equal
  | add
  | subtract
  | multiply
  /-- Division that rounds down. -/
  | divide
  /-- Like `equal`, of an integer receiver. -/
  | integerEqual
  | less
  | greater
  /-- Nil, whatever the receiver. -/
  | isNil
  /-- The empty text. -/
  | emptyText
  /-- Two texts in a row. -/
  | concat
  /-- How many characters a text has. -/
  | textSize
  /-- The text itself. -/
  | textOfText
  /-- The symbol of a text. -/
  | symbolOfText
  /-- The text of a symbol. -/
  | textOfSymbol
  /-- The symbol itself. -/
  | symbolOfSymbol
  /-- How many items an array has. -/
  | itemCount
  | firstItem
  | lastItem
  /-- A longer array; the receiver stays as it is. -/
  | append
  /-- The message of an exception. -/
  | message
  /-- The name of a class or module. -/
  | className
  /-- The nearest class above, modules skipped. -/
  | superclass
deriving DecidableEq, Repr

/-- A method that is not written in the language. -/
inductive Native where
  /-- A native that only looks. -/
  | query (query : Query)
  /-- Prints its arguments on one line. -/
  | printLine
  /-- Makes an object of the receiver and initializes it. -/
  | instantiate
  /-- A native of the host. -/
  | foreign (label : String)
deriving DecidableEq, Repr

end ObjectWorld
