/-
The world that every session starts with: the core classes with their
native methods, registered under their names; one object, the main
receiver; and one scope, which binds the printing function.
-/
import ObjectWorld.World.Registry

namespace ObjectWorld

/-- The record of a core class. Kernel is the one module among them. -/
def CoreClass.info (c : CoreClass) : ClassInfo where
  name := c.name
  kind := if c = .kernel then .module else .ordinary
  methods := Table.ofList c.methods

namespace World

/-- The scope that all others are meant to stand in. -/
def globals : ScopeId := ⟨0⟩

/-- The receiver of code that stands outside all methods. -/
def main : Value := .object ⟨0⟩

/-- The world before anything has run. -/
def initial : World where
  classes := CoreClass.all.foldl
    (fun classes c =>
      classes.grow (c.superclass?.map CoreClass.id) c.info) {}
  registry := Table.ofList (CoreClass.all.map fun c => (c.name, c.id))
  objects := #[{ cls := CoreClass.object.id }]
  scopes := ({} : Forest .scopes (Table Value)).grow none
    (Table.ofList [("puts", .builtin "puts" .printLine)])

end World

end ObjectWorld
