/-
Nothing that is there goes away.

Of a realm in use this is known of every change that is allowed there
(`Move.later`). It does not depend on that: no change takes anything away,
whatever it names and whether or not it is there (`later_perform`). So it
holds after any list of changes, and of the world of any machine after any
number of steps.

The four changes that test something first come down to others: they
register a class, make an eigenclass or define a method, or they do
nothing.
-/
import ObjectWorld.Proofs.Depth
import ObjectWorld.Proofs.Registry

namespace ObjectWorld

namespace World

variable {w : World}

-- ======================================================= changes that test

/-- Defining a class registers one, or changes nothing. -/
theorem world_defineClass (w : World) (name : String)
    (superclass : Option ClassId) :
    (w.defineClass name superclass).2 = w
      ∨ ∃ above, (w.defineClass name superclass).2
        = (w.register name .ordinary above).2 := by
  unfold defineClass
  split
  · split
    · exact .inl rfl
    · split <;> exact .inl rfl
  · dsimp only
    split
    · exact .inl rfl
    · exact .inr ⟨_, rfl⟩

/-- So does defining a module. -/
theorem world_defineModule (w : World) (name : String) :
    (w.defineModule name).2 = w
      ∨ (w.defineModule name).2 = (w.register name .module none).2 := by
  rcases w.defineModule_cases name with ⟨c, -, -, same⟩ | ⟨-, made⟩
    | ⟨c, -, -, same⟩
  · exact .inl (by rw [same])
  · exact .inr (by rw [made])
  · exact .inl (by rw [same])

/-- Extending a value makes an eigenclass, or changes nothing. -/
theorem world_extend (w : World) (v : Value) :
    (w.extend v).2 = w
      ∨ ∃ current, (w.extend v).2 = (w.newEigenclass v.bare current).2 := by
  rcases w.extend_cases v with
    ⟨-, fault, hext⟩ | ⟨inner, e, -, hext⟩ | ⟨e, -, -, -, hext⟩
      | ⟨current, -, -, -, hext⟩
  · exact .inl (by rw [hext])
  · exact .inl (by rw [hext])
  · exact .inl (by rw [hext])
  · exact .inr ⟨current, by rw [hext]⟩

/-- A method of one value alone is defined after the value has been
extended, or else nothing more is done. -/
theorem world_defineSingletonMethod (w : World) (v : Value) (name : String)
    (method : Method) :
    (w.defineSingletonMethod v name method).2 = (w.extend v).2
      ∨ ∃ e, (w.defineSingletonMethod v name method).2
        = (w.extend v).2.defineMethod e name method := by
  unfold defineSingletonMethod
  obtain ⟨result, extended⟩ := w.extend v
  cases result with
  | error fault => exact .inl rfl
  | ok x => exact .inr ⟨x.2, rfl⟩

-- ============================================================ any change

/-- Registering a class is making one, as far as anything lasts. -/
theorem later_register (w : World) (name : String) (kind : ClassKind)
    (superclass : Option ClassId) :
    w.Later (w.register name kind superclass).2 :=
  (later_newClass w name kind superclass).trans
    { Later.refl (w.newClass name kind superclass).2 with }

/-- Extending a value makes an eigenclass at most. -/
theorem later_extend (w : World) (v : Value) : w.Later (w.extend v).2 := by
  rcases w.world_extend v with same | ⟨current, made⟩
  · rw [same]
    exact .refl w
  · rw [made]
    exact later_newEigenclass ..

/-- No change takes anything away, whatever it names. -/
theorem later_perform (w : World) (c : Change) :
    w.Later (c.perform w).2 := by
  cases c with
  | newClass | newModule => exact later_newClass ..
  | defineClass name superclass =>
      show w.Later (w.defineClass name superclass).2
      rcases w.world_defineClass name superclass with same | ⟨above, made⟩
      · rw [same]
        exact .refl w
      · rw [made]
        exact later_register ..
  | defineModule name =>
      show w.Later (w.defineModule name).2
      rcases w.world_defineModule name with same | made
      · rw [same]
        exact .refl w
      · rw [made]
        exact later_register ..
  | defineMethod => exact later_defineMethod ..
  | extend => exact later_extend ..
  | defineSingletonMethod v name method =>
      show w.Later (w.defineSingletonMethod v name method).2
      rcases w.world_defineSingletonMethod v name method with
        same | ⟨e, defined⟩
      · rw [same]
        exact later_extend ..
      · rw [defined]
        exact (later_extend ..).trans (later_defineMethod ..)
  | newObject => exact later_newObject ..
  | setIvar => exact later_setIvar ..
  | newException | exceptionFor => exact later_newException ..
  | newFunction => exact later_newFunction ..
  | newScope | bindArguments => exact later_newScope ..
  | define | assign => exact later_define ..

/-- The world that is left by some changes, one after the other. -/
def afterAll : World → List Change → World
  | w, [] => w
  | w, c :: changes => (c.perform w).2.afterAll changes

/-- Nor do changes in a row. -/
theorem later_afterAll (w : World) (changes : List Change) :
    w.Later (w.afterAll changes) := by
  induction changes generalizing w with
  | nil => exact .refl w
  | cons c changes ih => exact (later_perform w c).trans (ih _)

end World

-- =============================================================== any run

namespace Machine

variable {σ : Type} {host : Host σ}

/-- No step takes anything away. -/
theorem later_step (host : Host σ) (m : Machine σ) :
    m.world.Later (m.step host).world := by
  cases hm : m.current with
  | done outcome =>
      simp only [step, hm]
      cases m.waiting <;> exact .refl _
  | change c next =>
      simp only [step, hm]
      exact World.later_perform m.world c
  | invoke receiver name args site next =>
      simp only [step, hm, Realm.world_callIfAllowed]
      exact .refl _
  | apply callee args next =>
      simp only [step, hm, Realm.world_callIfAllowed]
      exact .refl _
  | look | own | keep | depth | limit | output | clear | print =>
      simp only [step, hm]
      exact .refl _

/-- Nor does a run. -/
theorem later_iterate (host : Host σ) (m : Machine σ) (k : Nat) :
    m.world.Later ((step host)^[k] m).world := by
  induction k with
  | zero => exact .refl _
  | succ k ih =>
      rw [Function.iterate_succ_apply']
      exact ih.trans (later_step host _)

end Machine

end ObjectWorld
