/-
The registry of classes over a whole history.

A change either leaves every name of the registry as it is, or it binds
one name that was unbound to a class that it makes under that name
(`registered?_after`). So what a name is bound to it is bound to for good,
the class carries that name, and no two names share a class.

Defining a class ends in one of three ways (`defineClass_cases`): the name
is bound and its class is opened again, the name is free and a class is
made, or the call is refused and nothing changes. The conditions of the
three exclude each other, so each is also the reason for its outcome.
-/
import ObjectWorld.Proofs.Appearance

namespace ObjectWorld

namespace World

variable {w w' : World} {name : String} {superclass : Option ClassId}
  {c : ClassId}

-- =========================================================== registering

/-- What registering a new class or module leaves: it is a class that was
not there, with no methods and no eigenclass, bound to its name; no other
name and no other class changes. -/
structure Registers (w : World) (name : String) (kind : ClassKind)
    (superclass : Option ClassId) (c : ClassId) (w' : World) : Prop where
  new : ¬ w.HasClass c
  hasClass : ∀ d, w'.HasClass d ↔ w.HasClass d ∨ d = c
  info : w'.classInfo c = { name, kind }
  above : w'.superclass? c = superclass
  bound : ∀ key, w'.registered? key
    = if key = name then some c else w.registered? key
  others : ∀ d, d ≠ c → w'.classInfo d = w.classInfo d
    ∧ w'.superclass? d = w.superclass? d

theorem Registers.isModule {kind : ClassKind}
    (registers : w.Registers name kind superclass c w') :
    w'.isModule c = (kind == .module) := by
  unfold World.isModule
  rw [registers.info]

theorem Registers.isEigenclass {kind : ClassKind}
    (registers : w.Registers name kind superclass c w') :
    w'.isEigenclass c = (kind == .eigenclass) := by
  unfold World.isEigenclass
  rw [registers.info]

/-- It leaves the old classes with their kinds and superclasses. -/
theorem Registers.keepsClasses {kind : ClassKind}
    {superclass : Option ClassId}
    (registers : w.Registers name kind superclass c w') :
    w.KeepsClasses w' := by
  have old : ∀ {d}, w.HasClass d → d ≠ c := by
    rintro d there rfl
    exact registers.new there
  refine ⟨fun there => (registers.hasClass _).2 (.inl there), ?_, ?_⟩
  · intro d there
    exact (registers.others d (old there)).2
  · intro d there
    rw [(registers.others d (old there)).1]

theorem registers_register (w : World) (name : String) (kind : ClassKind)
    (there : ∀ above ∈ superclass, w.HasClass above) :
    w.Registers name kind superclass ⟨w.classes.size⟩
      (w.register name kind superclass).2 where
  new := Nat.lt_irrefl _
  hasClass _ := hasClass_newClass
  info := by
    show (w.newClass name kind superclass).2.classInfo _ = _
    rw [classInfo_newClass, if_pos rfl]
  above := by
    show (w.newClass name kind superclass).2.superclass? _ = _
    rw [superclass?_newClass, if_pos rfl]
    cases superclass with
    | none => rfl
    | some above => exact Option.filter_some_pos (decide_eq_true (there _ rfl))
  bound key := Table.get?_insert ..
  others d hd := by
    show (w.newClass name kind superclass).2.classInfo d = _
      ∧ (w.newClass name kind superclass).2.superclass? d = _
    rw [classInfo_newClass, superclass?_newClass, if_neg hd, if_neg hd]
    exact ⟨rfl, rfl⟩

-- ================================================== the ways it can end

/-- Whether a class can be made under a name: the name is free, and the
superclass, if one is given, is no module. -/
def OpensClass (w : World) (name : String) (superclass : Option ClassId) :
    Prop :=
  w.registered? name = none ∧ ∀ above ∈ superclass, w.isModule above = false

/-- Whether a name stands for a class that can be opened again: the
superclass, if one is given, is the one that it has. -/
def ReopensClass (w : World) (name : String)
    (superclass : Option ClassId) (c : ClassId) : Prop :=
  w.registered? name = some c ∧ w.isModule c = false
    ∧ ∀ above ∈ superclass, w.superclass? c = some above

/-- Why a class can be neither made nor opened again. -/
inductive RefusesClass (w : World) (name : String)
    (superclass : Option ClassId) : Fault → Prop
  | ofModule {c : ClassId} (bound : w.registered? name = some c)
      (module : w.isModule c = true) :
      RefusesClass w name superclass (.notA name "class")
  | underModule {above : ClassId} (free : w.registered? name = none)
      (given : superclass = some above) (module : w.isModule above = true) :
      RefusesClass w name superclass (.notA (w.className above) "class")
  | mismatch {c above : ClassId} (bound : w.registered? name = some c)
      (plain : w.isModule c = false) (given : superclass = some above)
      (other : w.superclass? c ≠ some above) :
      RefusesClass w name superclass (.superclassMismatch name)

/-- The three ways in which defining a class ends. -/
theorem defineClass_cases (w : World) (name : String)
    (superclass : Option ClassId)
    (object : w.isModule CoreClass.object.id = false) :
    (∃ c, w.ReopensClass name superclass c
        ∧ w.defineClass name superclass = (.ok c, w))
      ∨ (w.OpensClass name superclass
        ∧ w.defineClass name superclass
          = (.ok ⟨w.classes.size⟩, (w.register name .ordinary
              (some (superclass.getD CoreClass.object.id))).2))
      ∨ ∃ fault, w.RefusesClass name superclass fault
        ∧ w.defineClass name superclass = (.error fault, w) := by
  unfold defineClass
  cases hname : w.registered? name with
  | some c =>
      cases hmodule : w.isModule c with
      | true =>
          exact .inr (.inr ⟨_, .ofModule hname hmodule, by simp [hmodule]⟩)
      | false =>
          cases superclass with
          | none => exact .inl ⟨c, ⟨hname, hmodule, nofun⟩, by simp [hmodule]⟩
          | some above =>
              by_cases habove : w.superclass? c = some above
              · refine .inl ⟨c, ⟨hname, hmodule, ?_⟩, by simp [hmodule, habove]⟩
                intro _ heq
                cases heq
                exact habove
              · refine .inr (.inr ⟨_, .mismatch hname hmodule rfl habove, ?_⟩)
                have : ¬ some above = w.superclass? c := fun h => habove h.symm
                simp [hmodule, this]
  | none =>
      cases superclass with
      | none =>
          exact .inr (.inl ⟨⟨hname, nofun⟩, by simp [object]; rfl⟩)
      | some above =>
          cases hmodule : w.isModule above with
          | true =>
              exact .inr (.inr ⟨_, .underModule hname rfl hmodule,
                by simp [hmodule]⟩)
          | false =>
              refine .inr (.inl ⟨⟨hname, ?_⟩, by simp [hmodule]; rfl⟩)
              intro _ heq
              cases heq
              exact hmodule

/-- The three ways in which defining a module ends. -/
theorem defineModule_cases (w : World) (name : String) :
    (∃ c, w.registered? name = some c ∧ w.isModule c = true
        ∧ w.defineModule name = (.ok c, w))
      ∨ (w.registered? name = none
        ∧ w.defineModule name
          = (.ok ⟨w.classes.size⟩, (w.register name .module none).2))
      ∨ ∃ c, w.registered? name = some c ∧ w.isModule c = false
        ∧ w.defineModule name = (.error (.notA name "module"), w) := by
  unfold defineModule
  cases hname : w.registered? name with
  | some c =>
      cases hmodule : w.isModule c with
      | true => exact .inl ⟨c, rfl, hmodule, by simp [hmodule]⟩
      | false => exact .inr (.inr ⟨c, rfl, hmodule, by simp [hmodule]⟩)
  | none => exact .inr (.inl ⟨rfl, rfl⟩)

-- =============================================================== the law

/-- What the law of the registry says of defining a class: exactly when it
succeeds, what it has done then, and why it has failed else. -/
structure DefinesClass (w : World) (name : String)
    (superclass : Option ClassId) : Prop where
  succeeds : (∃ c, (w.defineClass name superclass).1 = .ok c)
    ↔ w.OpensClass name superclass ∨ ∃ c, w.ReopensClass name superclass c
  opens : w.OpensClass name superclass →
    ∃ c w', w.defineClass name superclass = (.ok c, w')
      ∧ w.Registers name .ordinary
        (some (superclass.getD CoreClass.object.id)) c w'
  reopens : ∀ c, w.ReopensClass name superclass c →
    w.defineClass name superclass = (.ok c, w)
  refuses : ∀ fault, (w.defineClass name superclass).1 = .error fault →
    w.RefusesClass name superclass fault
      ∧ (w.defineClass name superclass).2 = w

/-- What it says of defining a module. -/
structure DefinesModule (w : World) (name : String) : Prop where
  succeeds : (∃ c, (w.defineModule name).1 = .ok c)
    ↔ ∀ c ∈ w.registered? name, w.isModule c = true
  opens : w.registered? name = none →
    ∃ c w', w.defineModule name = (.ok c, w')
      ∧ w.Registers name .module none c w'
  reopens : ∀ c, w.registered? name = some c → w.isModule c = true →
    w.defineModule name = (.ok c, w)
  refuses : ∀ fault, (w.defineModule name).1 = .error fault →
    fault = .notA name "module"
      ∧ (∃ c, w.registered? name = some c ∧ w.isModule c = false)
      ∧ (w.defineModule name).2 = w

/-- A name that can be opened again is not free. -/
theorem OpensClass.not_reopens (opens : w.OpensClass name superclass) :
    ¬ w.ReopensClass name superclass c := by
  intro reopens
  have bound := reopens.1
  rw [opens.1] at bound
  cases bound

/-- What is refused can be neither made nor opened again. -/
theorem RefusesClass.excludes {fault : Fault}
    (refuses : w.RefusesClass name superclass fault) :
    ¬ w.OpensClass name superclass
      ∧ ∀ c, ¬ w.ReopensClass name superclass c := by
  cases refuses with
  | ofModule bound module =>
      refine ⟨fun opens => ?_, fun d reopens => ?_⟩
      · rw [opens.1] at bound
        cases bound
      · rw [reopens.1] at bound
        cases bound
        rw [reopens.2.1] at module
        cases module
  | underModule free given module =>
      refine ⟨fun opens => ?_, fun d reopens => ?_⟩
      · rw [opens.2 _ given] at module
        cases module
      · rw [reopens.1] at free
        cases free
  | mismatch bound plain given other =>
      refine ⟨fun opens => ?_, fun d reopens => ?_⟩
      · rw [opens.1] at bound
        cases bound
      · rw [reopens.1] at bound
        cases bound
        exact other (reopens.2.2 _ given)

/-- Defining a class keeps to the law. -/
theorem definesClass (w : World) (name : String)
    (object : w.HasClass CoreClass.object.id)
    (plain : w.isModule CoreClass.object.id = false)
    (there : ∀ above ∈ superclass, w.HasClass above) :
    w.DefinesClass name superclass := by
  rcases w.defineClass_cases name superclass plain with
    ⟨c, reopens, heq⟩ | ⟨opens, heq⟩ | ⟨fault, refuses, heq⟩
  · refine ⟨?_, ?_, ?_, ?_⟩
    · rw [heq]
      exact ⟨fun _ => .inr ⟨c, reopens⟩, fun _ => ⟨c, rfl⟩⟩
    · intro opens
      exact absurd reopens opens.not_reopens
    · intro d other
      have same := other.1
      rw [reopens.1] at same
      cases same
      exact heq
    · intro fault h
      rw [heq] at h
      cases h
  · refine ⟨?_, ?_, ?_, ?_⟩
    · rw [heq]
      exact ⟨fun _ => .inl opens, fun _ => ⟨_, rfl⟩⟩
    · intro _
      refine ⟨_, _, heq, registers_register w name .ordinary ?_⟩
      intro above habove
      cases habove
      cases superclass with
      | none => exact object
      | some given => exact there given rfl
    · intro d reopens
      exact absurd reopens opens.not_reopens
    · intro fault h
      rw [heq] at h
      cases h
  · obtain ⟨notOpen, notReopen⟩ := refuses.excludes
    refine ⟨?_, ?_, ?_, ?_⟩
    · rw [heq]
      constructor
      · rintro ⟨c, h⟩
        cases h
      · rintro (opens | ⟨c, reopens⟩)
        · exact absurd opens notOpen
        · exact absurd reopens (notReopen c)
    · intro opens
      exact absurd opens notOpen
    · intro d reopens
      exact absurd reopens (notReopen d)
    · intro other h
      rw [heq] at h ⊢
      cases h
      exact ⟨refuses, rfl⟩

/-- So does defining a module. -/
theorem definesModule (w : World) (name : String) :
    w.DefinesModule name := by
  rcases w.defineModule_cases name with
    ⟨c, bound, module, heq⟩ | ⟨free, heq⟩ | ⟨c, bound, plain, heq⟩
  · refine ⟨?_, ?_, ?_, ?_⟩
    · rw [heq, bound]
      refine ⟨fun _ d hd => ?_, fun _ => ⟨c, rfl⟩⟩
      cases hd
      exact module
    · intro free
      rw [bound] at free
      cases free
    · intro d other _
      rw [bound] at other
      cases other
      exact heq
    · intro fault h
      rw [heq] at h
      cases h
  · refine ⟨?_, ?_, ?_, ?_⟩
    · rw [heq, free]
      exact ⟨fun _ => nofun, fun _ => ⟨_, rfl⟩⟩
    · intro _
      exact ⟨_, _, heq, registers_register w name .module nofun⟩
    · intro d bound _
      rw [free] at bound
      cases bound
    · intro fault h
      rw [heq] at h
      cases h
  · refine ⟨?_, ?_, ?_, ?_⟩
    · rw [heq]
      constructor
      · rintro ⟨c, h⟩
        cases h
      · intro module
        rw [module c bound] at plain
        cases plain
    · intro free
      rw [bound] at free
      cases free
    · intro d other module
      rw [bound] at other
      cases other
      rw [plain] at module
      cases module
    · intro fault h
      rw [heq] at h ⊢
      cases h
      exact ⟨rfl, ⟨c, bound, plain⟩, rfl⟩

/-- So defining a class either changes nothing or registers one under a
free name. -/
theorem DefinesClass.effect (law : w.DefinesClass name superclass) :
    (w.defineClass name superclass).2 = w
      ∨ w.registered? name = none ∧ ∃ c, w.Registers name .ordinary
        (some (superclass.getD CoreClass.object.id)) c
        (w.defineClass name superclass).2 := by
  cases h : (w.defineClass name superclass).1 with
  | error fault => exact .inl (law.refuses fault h).2
  | ok c =>
      rcases law.succeeds.1 ⟨c, h⟩ with opens | ⟨d, reopens⟩
      · obtain ⟨d, w', heq, registers⟩ := law.opens opens
        rw [heq]
        exact .inr ⟨opens.1, d, registers⟩
      · rw [law.reopens d reopens]
        exact .inl rfl

/-- And so does defining a module. -/
theorem DefinesModule.effect (law : w.DefinesModule name) :
    (w.defineModule name).2 = w
      ∨ w.registered? name = none
        ∧ ∃ c, w.Registers name .module none c (w.defineModule name).2 := by
  cases h : (w.defineModule name).1 with
  | error fault => exact .inl (law.refuses fault h).2.2
  | ok c =>
      have modules := law.succeeds.1 ⟨c, h⟩
      cases bound : w.registered? name with
      | none =>
          obtain ⟨d, w', heq, registers⟩ := law.opens bound
          rw [heq]
          exact .inr ⟨rfl, d, registers⟩
      | some d =>
          rw [law.reopens d bound (modules d bound)]
          exact .inl rfl

/-- What is registered at the start are the core classes. -/
theorem exists_core_of_registered?_initial
    (h : initial.registered? name = some c) :
    ∃ core : CoreClass, core.name = name ∧ core.id = c := by
  obtain ⟨core, -, heq⟩ := List.mem_map.1 (Table.mem_of_get?_ofList h)
  cases heq
  exact ⟨core, rfl, rfl⟩

/-- Extending a value registers nothing. -/
theorem registered?_extend (w : World) (v : Value) (key : String) :
    (w.extend v).2.registered? key = w.registered? key := by
  rcases w.extend_cases v with ⟨-, fault, heq⟩ | ⟨inner, e, -, heq⟩
    | ⟨e, -, -, -, heq⟩ | ⟨current, -, -, -, heq⟩
  · rw [heq]
  · rw [heq]
  · rw [heq]
  · rw [heq]
    unfold registered?
    rw [newEigenclass_eq, (frame_recordEigenclass ..).1]
    rfl

end World

namespace Realm

variable {r s : Realm} {name other : String} {c : ClassId}

-- ========================================================== the history

/-- Object never turns into a module. -/
theorem isModule_object (h : r.Reachable) :
    r.world.isModule CoreClass.object.id = false := by
  have moves := sound_start.moves_of_reaches h
  rw [(Moves.later moves).isModule (core_start .object).1]
  rfl

/-- What an allowed change does to the registry: nothing, or it makes a
class and binds a name to it that was free. -/
theorem registered?_after {change : Change} (reachable : r.Reachable)
    (allowed : r.Allows change) :
    (∀ key, (r.after change).world.registered? key
        = r.world.registered? key)
      ∨ ∃ name kind superclass c, r.world.registered? name = none
        ∧ r.world.Registers name kind superclass c
          (r.after change).world := by
  have object := (sound_of_reachable reachable).core .object
  cases change with
  | defineClass name superclass =>
      have law := r.world.definesClass name object.1
        (isModule_object reachable) allowed
      rcases law.effect with same | ⟨free, c, registers⟩
      · exact .inl fun key => congrArg (World.registered? · key) same
      · exact .inr ⟨name, _, _, c, free, registers⟩
  | defineModule name =>
      rcases (r.world.definesModule name).effect with
        same | ⟨free, c, registers⟩
      · exact .inl fun key => congrArg (World.registered? · key) same
      · exact .inr ⟨name, _, _, c, free, registers⟩
  | extend v => exact .inl fun key => World.registered?_extend ..
  | defineSingletonMethod v name method =>
      refine .inl fun key => ?_
      have hext := r.world.registered?_extend v key
      show (r.world.defineSingletonMethod v name method).2.registered? key
        = _
      unfold World.defineSingletonMethod
      split
      · rename_i heq
        rw [heq] at hext
        exact hext
      · rename_i heq
        rw [heq] at hext
        exact hext
  | _ => exact .inl fun _ => rfl

/-- A name that is bound stays bound to what it is bound to. -/
theorem registered?_reaches (reachable : r.Reachable) (h : r.Reaches s)
    (bound : r.world.registered? name = some c) :
    s.world.registered? name = some c := by
  refine (h.preserves (P := fun t => t.Reachable
    ∧ t.world.registered? name = some c) ?_ ⟨reachable, bound⟩).2
  rintro t change ⟨ht, bound⟩ allowed
  refine ⟨ht.trans (.after allowed), ?_⟩
  rcases registered?_after ht allowed with
    same | ⟨key, kind, superclass, d, free, registers⟩
  · rw [same, bound]
  · rw [registers.bound, if_neg, bound]
    rintro rfl
    rw [free] at bound
    cases bound

/-- The core classes are registered under their own names at all
times. -/
theorem registered?_core (reachable : r.Reachable) (core : CoreClass) :
    r.world.registered? core.name = some core.id := by
  refine registered?_reaches .refl reachable ?_
  cases core <;> rfl

/-- A class that is registered is so under its own name. -/
theorem className_of_registered? (reachable : r.Reachable)
    (bound : r.world.registered? name = some c) :
    r.world.className c = name := by
  refine (reachable.preserves (P := fun t => t.Reachable
    ∧ ∀ name c, t.world.registered? name = some c →
      t.world.className c = name) ?_ ⟨.refl, ?_⟩).2 name c bound
  · rintro t change ⟨ht, named⟩ allowed
    refine ⟨ht.trans (.after allowed), fun name c bound => ?_⟩
    have sound := sound_of_reachable ht
    have later := (moves_after sound allowed).later
    rcases registered?_after ht allowed with
      same | ⟨key, kind, superclass, d, free, registers⟩
    · rw [same] at bound
      rw [← named name c bound]
      exact later.name (sound.registered bound).1
    · rw [registers.bound] at bound
      split at bound
      · rename_i hname
        cases bound
        unfold World.className
        rw [registers.info, hname]
      · rw [← named name c bound]
        exact later.name (sound.registered bound).1
  · intro name c bound
    obtain ⟨core, rfl, rfl⟩ :=
      World.exists_core_of_registered?_initial bound
    cases core <;> rfl

/-- The law of the registry over all histories: the core classes stay
registered; a bound name keeps its class, which carries the name and keeps
its kind and its superclass; two names never share a class; and every
further definition of a class or a module succeeds exactly when the law
says so, with exactly its effect, and is refused without any. -/
theorem registry_history (reachable : r.Reachable) :
    (∀ core : CoreClass, r.world.registered? core.name = some core.id)
      ∧ (∀ name c, r.world.registered? name = some c →
        r.world.className c = name
          ∧ ∀ s, r.Reaches s → s.world.registered? name = some c
            ∧ s.world.className c = name
            ∧ (s.world.classInfo c).kind = (r.world.classInfo c).kind
            ∧ s.world.superclass? c = r.world.superclass? c)
      ∧ (∀ name other c, r.world.registered? name = some c →
        r.world.registered? other = some c → name = other)
      ∧ (∀ name superclass,
        (∀ above ∈ superclass, r.world.HasClass above) →
        r.world.DefinesClass name superclass)
      ∧ ∀ name, r.world.DefinesModule name := by
  have sound := sound_of_reachable reachable
  refine ⟨registered?_core reachable, ?_, ?_, ?_, ?_⟩
  · intro name c bound
    refine ⟨className_of_registered? reachable bound, fun s reaches => ?_⟩
    have later := (sound.moves_of_reaches reaches).later
    have there := (sound.registered bound).1
    have bound' := registered?_reaches reachable reaches bound
    exact ⟨bound',
      className_of_registered? (reachable.trans reaches) bound',
      later.kind there, later.superclass? there⟩
  · intro name other c bound bound'
    rw [← className_of_registered? reachable bound,
      className_of_registered? reachable bound']
  · intro name superclass there
    exact World.definesClass _ name (sound.core .object).1
      (isModule_object reachable) there
  · exact fun name => World.definesModule _ name

/-- The realm in which one class has been defined. -/
def withDog : Realm :=
  start.after (.defineClass "Dog" none)

theorem reachable_withDog : withDog.Reachable :=
  .after fun _ h => by cases h

/-- A class Dog stays what it is: later calls find it, under Object or
under no given superclass, and a module of that name is refused. -/
theorem registry_history_dog :
    (∀ s, withDog.Reaches s → s.world.registered? "Dog" = some ⟨23⟩)
      ∧ withDog.world.defineClass "Dog" (some CoreClass.object.id)
        = (.ok ⟨23⟩, withDog.world)
      ∧ withDog.world.RefusesClass "Dog" (some CoreClass.string.id)
        (.superclassMismatch "Dog")
      ∧ (withDog.world.defineModule "Dog").2 = withDog.world := by
  obtain ⟨-, stays, -, classes, modules⟩ :=
    registry_history reachable_withDog
  have bound : withDog.world.registered? "Dog" = some ⟨23⟩ := rfl
  have plain : withDog.world.isModule ⟨23⟩ = false := rfl
  refine ⟨fun s reaches => ?_, ?_, ?_, ?_⟩
  · exact ((stays _ _ bound).2 s reaches).1
  · refine (classes "Dog" _ ?_).reopens _ ⟨bound, plain, ?_⟩
    · intro above h
      cases h
      decide
    · intro above h
      cases h
      rfl
  · refine ((classes "Dog" _ ?_).refuses _ rfl).1
    intro above h
    cases h
    decide
  · exact ((modules "Dog").refuses (.notA "Dog" "module") rfl).2.2

end Realm

end ObjectWorld
