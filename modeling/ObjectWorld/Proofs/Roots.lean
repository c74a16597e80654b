/-
Where the chains of registered classes end.

Whoever has nothing but the registry can only put a new class below one
that is registered: every superclass that can be named has been given out
by the registry, and modules are refused. Such a history is a game of its
own (`Registering`). It keeps that every registered class that is no
module has a chain ending in Object and Kernel, with no module before that
end (`Rooted`): a new class stands in front of the chain of a registered
class, and no step touches the chain of an old one.
-/
import ObjectWorld.Proofs.Registry

namespace ObjectWorld.World

variable {w w' w₀ : World} {c : ClassId} {name : String}
  {handles : List ClassId}

-- =============================================================== the game

/-- A world whose classes are the core classes alone, in their places,
whatever methods they define. -/
structure Fresh (w : World) : Prop where
  registered? : ∀ name, w.registered? name = initial.registered? name
  hasClass : ∀ c, w.HasClass c ↔ initial.HasClass c
  superclass? : ∀ c, w.superclass? c = initial.superclass? c
  kind : ∀ c, (w.classInfo c).kind = (initial.classInfo c).kind

/-- The start is such a world. -/
theorem fresh_initial : initial.Fresh :=
  ⟨fun _ => rfl, fun _ => .rfl, fun _ => rfl, fun _ => rfl⟩

/-- Methods make no difference to the classes. -/
theorem Fresh.keepsClasses (fresh : w.Fresh) : initial.KeepsClasses w :=
  ⟨(fresh.hasClass _).2, fun _ => fresh.superclass? _,
    fun _ => fresh.kind _⟩

/-- The histories of a registry on its own, with the classes that it has
given out on the way. A superclass is one of those. Methods can be defined
at any time, on any class. -/
inductive Registering (w₀ : World) : World → List ClassId → Prop
  | core : Registering w₀ w₀ (CoreClass.all.map CoreClass.id)
  | get {w : World} {handles : List ClassId} {name : String} {c : ClassId}
      (before : Registering w₀ w handles)
      (bound : w.registered? name = some c) :
      Registering w₀ w (c :: handles)
  | defineClass {w : World} {handles : List ClassId}
      (before : Registering w₀ w handles) (name : String)
      (superclass : Option ClassId)
      (given : ∀ above ∈ superclass, above ∈ handles) :
      Registering w₀ (w.defineClass name superclass).2
        ((w.defineClass name superclass).1.toOption.toList ++ handles)
  | defineModule {w : World} {handles : List ClassId}
      (before : Registering w₀ w handles) (name : String) :
      Registering w₀ (w.defineModule name).2
        ((w.defineModule name).1.toOption.toList ++ handles)
  | defineMethod {w : World} {handles : List ClassId}
      (before : Registering w₀ w handles) (c : ClassId) (name : String)
      (method : Method) :
      Registering w₀ (w.defineMethod c name method) handles

-- ========================================================== the invariant

/-- The end of a chain: Object, Kernel, and no module before. -/
structure EndsInKernel (w : World) (c : ClassId) : Prop where
  ends : [CoreClass.object.id, CoreClass.kernel.id] <:+ w.ancestors c
  modules : ∀ a ∈ w.ancestors c, w.isModule a = true →
    a = CoreClass.kernel.id

/-- What a registered class is: it is there, it is no eigenclass, and it
is a module on its own or its chain ends in Kernel. -/
structure RootedClass (w : World) (c : ClassId) : Prop where
  there : w.HasClass c
  plain : w.isEigenclass c = false
  alone : w.isModule c = true → w.superclass? c = none
  ends : w.isModule c = false → w.EndsInKernel c

/-- What every history keeps: all that is registered is rooted, Object is
registered and is no module, and what has been given out is registered. -/
structure Rooted (w : World) (handles : List ClassId) : Prop where
  registered : ∀ {name c}, w.registered? name = some c → w.RootedClass c
  object : w.registered? "Object" = some CoreClass.object.id
  plain : w.isModule CoreClass.object.id = false
  handle : ∀ c ∈ handles, ∃ name, w.registered? name = some c

/-- A chain that ends in Kernel keeps doing so. -/
theorem EndsInKernel.kept (keeps : w.KeepsClasses w')
    (there : w.HasClass c) (h : w.EndsInKernel c) : w'.EndsInKernel c where
  ends := by
    rw [keeps.ancestors there]
    exact h.ends
  modules a ha := by
    rw [keeps.ancestors there] at ha
    rw [keeps.isModule (there.of_mem_ancestors ha)]
    exact h.modules a ha

/-- What is rooted stays rooted. -/
theorem RootedClass.kept (keeps : w.KeepsClasses w') (h : w.RootedClass c) :
    w'.RootedClass c where
  there := keeps.hasClass h.there
  plain := by
    rw [keeps.isEigenclass h.there]
    exact h.plain
  alone := by
    rw [keeps.isModule h.there, keeps.superclass? h.there]
    exact h.alone
  ends := by
    rw [keeps.isModule h.there]
    exact fun plain => (h.ends plain).kept keeps h.there

/-- A class in front of a chain that ends in Kernel has one, too. -/
theorem EndsInKernel.below {above : ClassId} (plain : w.isModule c = false)
    (hc : w.superclass? c = some above) (h : w.EndsInKernel above) :
    w.EndsInKernel c where
  ends := by
    rw [ancestors_of_superclass? hc]
    exact h.ends.trans (List.suffix_cons c _)
  modules a ha := by
    rw [ancestors_of_superclass? hc, List.mem_cons] at ha
    rcases ha with rfl | ha
    · intro module
      rw [plain] at module
      cases module
    · exact h.modules a ha

-- =============================================================== the start

/-- The core classes are rooted: for each of them its chain is at hand. -/
theorem rootedClass_core (core : CoreClass) :
    initial.RootedClass core.id where
  there := (Realm.core_start core).1
  plain := (Realm.core_start core).2
  alone := by cases core <;> decide
  ends plain := by
    cases core with
    | kernel => cases plain
    | _ => exact ⟨by decide, by decide⟩

/-- So the law holds before anything is defined. -/
theorem Fresh.rooted (fresh : w.Fresh) :
    w.Rooted (CoreClass.all.map CoreClass.id) where
  registered := by
    intro name c h
    rw [fresh.registered?] at h
    obtain ⟨core, -, rfl⟩ := exists_core_of_registered?_initial h
    exact (rootedClass_core core).kept fresh.keepsClasses
  object := by
    rw [fresh.registered?]
    rfl
  plain := by
    rw [fresh.keepsClasses.isModule (Realm.core_start .object).1]
    rfl
  handle := by
    intro c hc
    obtain ⟨core, -, rfl⟩ := List.mem_map.1 hc
    refine ⟨core.name, ?_⟩
    rw [fresh.registered?]
    cases core <;> rfl

-- ================================================================= a step

/-- Registering a class that is rooted itself keeps the law. -/
theorem Rooted.registers {kind : ClassKind} {superclass : Option ClassId}
    (rooted : w.Rooted handles) (free : w.registered? name = none)
    (registers : w.Registers name kind superclass c w')
    (new : w'.RootedClass c) : w'.Rooted (c :: handles) := by
  have keeps := registers.keepsClasses
  -- what was registered still is
  have stays : ∀ {key d}, w.registered? key = some d →
      w'.registered? key = some d := by
    intro key d bound
    rw [registers.bound, if_neg, bound]
    rintro rfl
    rw [free] at bound
    cases bound
  refine ⟨?_, stays rooted.object, ?_, ?_⟩
  · intro key d bound
    rw [registers.bound] at bound
    split at bound
    · cases bound
      exact new
    · exact (rooted.registered bound).kept keeps
  · rw [keeps.isModule (rooted.registered rooted.object).there]
    exact rooted.plain
  · intro d hd
    rcases List.mem_cons.1 hd with rfl | hd
    · refine ⟨name, ?_⟩
      rw [registers.bound, if_pos rfl]
    · obtain ⟨key, bound⟩ := rooted.handle d hd
      exact ⟨key, stays bound⟩

/-- A class made below a rooted one that is no module is rooted. -/
theorem Registers.rootedClass {above : ClassId}
    (registers : w.Registers name .ordinary (some above) c w')
    (rooted : w.RootedClass above) (plain : w.isModule above = false) :
    w'.RootedClass c := by
  refine ⟨(registers.hasClass c).2 (.inr rfl), registers.isEigenclass, ?_,
    fun _ => ?_⟩
  · intro module
    rw [registers.isModule] at module
    cases module
  · have keeps := registers.keepsClasses
    exact ((rooted.ends plain).kept keeps rooted.there).below
      registers.isModule registers.above

/-- A module is rooted on its own. -/
theorem Registers.rootedModule
    (registers : w.Registers name .module none c w') :
    w'.RootedClass c := by
  refine ⟨(registers.hasClass c).2 (.inr rfl), registers.isEigenclass,
    fun _ => registers.above, ?_⟩
  intro plain
  rw [registers.isModule] at plain
  cases plain

/-- Giving out a registered class once more keeps the law. -/
theorem Rooted.give (rooted : w.Rooted handles)
    (bound : w.registered? name = some c) : w.Rooted (c :: handles) :=
  { rooted with
    handle := fun d hd => by
      rcases List.mem_cons.1 hd with rfl | hd
      · exact ⟨name, bound⟩
      · exact rooted.handle d hd }

/-- Defining a class keeps the law: one that is open already is given out
again, a new one stands below a class that is registered, and a refused one
leaves the world as it is. -/
theorem Rooted.defineClass (rooted : w.Rooted handles) (name : String)
    {superclass : Option ClassId}
    (given : ∀ above ∈ superclass, above ∈ handles) :
    (w.defineClass name superclass).2.Rooted
      ((w.defineClass name superclass).1.toOption.toList ++ handles) := by
  rcases w.defineClass_cases name superclass rooted.plain with
    ⟨c, reopens, heq⟩ | ⟨opens, heq⟩ | ⟨fault, -, heq⟩
  · rw [heq]
    exact rooted.give reopens.1
  · rw [heq]
    -- the class above is registered and is no module
    obtain ⟨above, habove, hrooted, plain⟩ : ∃ above,
        some (superclass.getD CoreClass.object.id) = some above
          ∧ w.RootedClass above ∧ w.isModule above = false := by
      cases superclass with
      | none =>
          exact ⟨_, rfl, rooted.registered rooted.object, rooted.plain⟩
      | some above =>
          obtain ⟨key, bound⟩ := rooted.handle above (given above rfl)
          exact ⟨above, rfl, rooted.registered bound, opens.2 above rfl⟩
    rw [habove]
    have there : ∀ d ∈ some above, w.HasClass d := by
      intro d hd
      cases hd
      exact hrooted.there
    have registers := registers_register w name .ordinary there
    exact rooted.registers opens.1 registers
      (registers.rootedClass hrooted plain)
  · rw [heq]
    exact rooted

/-- So does defining a module, which stands alone. -/
theorem Rooted.defineModule (rooted : w.Rooted handles) (name : String) :
    (w.defineModule name).2.Rooted
      ((w.defineModule name).1.toOption.toList ++ handles) := by
  rcases w.defineModule_cases name with
    ⟨c, bound, -, heq⟩ | ⟨free, heq⟩ | ⟨c, -, -, heq⟩
  · rw [heq]
    exact rooted.give bound
  · rw [heq]
    have there : ∀ d ∈ (none : Option ClassId), w.HasClass d := nofun
    have registers := registers_register w name .module there
    exact rooted.registers free registers registers.rootedModule
  · rw [heq]
    exact rooted

/-- So does defining a method, wherever it is put. -/
theorem Rooted.defineMethod (rooted : w.Rooted handles) (c : ClassId)
    (name : String) (method : Method) :
    (w.defineMethod c name method).Rooted handles := by
  have keeps := (later_defineMethod w c name method).keepsClasses
  refine ⟨fun bound => (rooted.registered bound).kept keeps, rooted.object,
    ?_, rooted.handle⟩
  rw [keeps.isModule (rooted.registered rooted.object).there]
  exact rooted.plain

/-- Every history keeps the law. -/
theorem Registering.rooted (fresh : w₀.Fresh)
    (history : w₀.Registering w handles) : w.Rooted handles := by
  induction history with
  | core => exact fresh.rooted
  | get _ bound ih => exact ih.give bound
  | defineClass _ name superclass given ih => exact ih.defineClass name given
  | defineModule _ name ih => exact ih.defineModule name
  | defineMethod _ c name method ih => exact ih.defineMethod c name method

-- ============================================================= the theorem

/-- What any class on a chain defines is found along it. -/
theorem isSome_resolveIn?_of_mem {d : ClassId} (h : d ∈ w.ancestors c)
    (defines : (w.ownMethod? d name).isSome) :
    (w.resolveIn? c name).isSome := by
  rw [resolveIn?_eq, List.findSome?_isSome_iff]
  refine ⟨d, h, ?_⟩
  rwa [Option.isSome_map]

/-- Kernel roots every registered class: no registered class is an
eigenclass; a registered module is its own chain; the chain of every other
registered class is a walk that ends, meets no class twice, comes to
Object and then Kernel at its end, and meets no other module; so from
there every name that Kernel defines is found. -/
theorem kernel_roots_registered (fresh : w₀.Fresh)
    (history : w₀.Registering w handles) :
    ∀ name c, w.registered? name = some c →
      w.isEigenclass c = false
        ∧ (∀ l, w.Walk c l ↔ l = w.ancestors c)
        ∧ (w.isModule c = true → w.ancestors c = [c])
        ∧ (w.isModule c = false →
          (w.ancestors c).Nodup
            ∧ [CoreClass.object.id, CoreClass.kernel.id] <:+ w.ancestors c
            ∧ (∀ a ∈ w.ancestors c, w.isModule a = true →
              a = CoreClass.kernel.id)
            ∧ ∀ key,
              (w.ownMethod? CoreClass.kernel.id key).isSome →
                (w.resolveIn? c key).isSome) := by
  intro name c bound
  have rooted := (history.rooted fresh).registered bound
  refine ⟨rooted.plain, fun _ => walk_iff, ?_, fun plain => ?_⟩
  · intro module
    exact ancestors_of_root (rooted.alone module)
  · obtain ⟨ends, modules⟩ := rooted.ends plain
    refine ⟨w.nodup_ancestors c, ends, modules, fun key defines => ?_⟩
    have mem := ends.subset (List.mem_cons_of_mem _ List.mem_cons_self)
    exact isSome_resolveIn?_of_mem mem defines

/-- The start after a class, a module, a refused class below the module and
a class below the first one. -/
def kennel : World :=
  let w := (initial.defineClass "Dog" none).2
  let w := (w.defineModule "Tail").2
  let w := (w.defineClass "Cat" (some ⟨24⟩)).2
  (w.defineClass "Puppy" (some ⟨23⟩)).2

/-- The refused class is given out to no one. -/
theorem registering_kennel : initial.Registering kennel
    ([⟨25⟩] ++ ([] ++ ([⟨24⟩] ++ ([⟨23⟩]
      ++ CoreClass.all.map CoreClass.id)))) := by
  refine (((Registering.core.defineClass "Dog" none nofun).defineModule
    "Tail").defineClass "Cat" (some ⟨24⟩) ?_).defineClass "Puppy"
      (some ⟨23⟩) ?_
  · intro above h
    cases h
    exact List.mem_cons_self
  · intro above h
    cases h
    exact List.mem_cons_of_mem _ List.mem_cons_self

/-- So a puppy's chain ends in Kernel and leads to what Kernel prints
with, and the module stands alone. -/
theorem kernel_roots_registered_kennel :
    [CoreClass.object.id, CoreClass.kernel.id] <:+ kennel.ancestors ⟨25⟩
      ∧ (kennel.resolveIn? ⟨25⟩ "puts").isSome
      ∧ kennel.ancestors ⟨24⟩ = [⟨24⟩] := by
  have law := kernel_roots_registered fresh_initial registering_kennel
  obtain ⟨-, -, -, puppy⟩ := law "Puppy" ⟨25⟩ rfl
  obtain ⟨-, -, tail, -⟩ := law "Tail" ⟨24⟩ rfl
  obtain ⟨-, ends, -, found⟩ := puppy rfl
  exact ⟨ends, found "puts" rfl, tail rfl⟩

end ObjectWorld.World
