/-
Where printed lines go: into a buffer that can be read and emptied, to
standard output, or nowhere. Nothing but the console knows which.
-/

namespace ObjectWorld

/-- Where printed lines go. -/
inductive Sink where
  | buffer
  | standardOutput
  | silent
deriving DecidableEq, Repr, Inhabited

/-- A sink and what it has received. -/
structure Console where
  sink : Sink := .buffer
  /-- What the buffer holds. -/
  kept : String := ""
  /-- What went to standard output. -/
  written : String := ""
deriving Inhabited

namespace Console

/-- Prints a line. -/
def println (console : Console) (line : String) : Console :=
  match console.sink with
  | .buffer => { console with kept := console.kept ++ line ++ "\n" }
  | .standardOutput =>
      { console with written := console.written ++ line ++ "\n" }
  | .silent => console

/-- What can be read back: the buffer's content. -/
def output (console : Console) : String :=
  match console.sink with
  | .buffer => console.kept
  | .standardOutput | .silent => ""

/-- Empties the buffer. What went to standard output is gone for good. -/
def clear (console : Console) : Console :=
  match console.sink with
  | .buffer => { console with kept := "" }
  | .standardOutput | .silent => console

end Console

end ObjectWorld
