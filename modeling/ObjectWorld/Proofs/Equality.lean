/-
What the language says of two values that are the same.

There are two methods for comparing. Everybody's gives whether the two
values are the same. The one of integers gives that too, but false for a
receiver that is no integer; and which of the two is found depends on the
class of the receiver and not on what it is. So an object made of the class
of integers, or of a class below it, and an exception of such a class, find
the comparison of integers and are told that they differ from themselves
(`Misdirected`). All other receivers are told the truth.

Both readings of a pair agree. Handles of one value may have one eigenclass
more or less in front of the class that a user sees, but neither method
stands on an eigenclass, so what is found is found from that class
(`Layered.resolveIn?_nominal`), and values that are the same have one
class to a user.
-/
import ObjectWorld.Proofs.Responding
import ObjectWorld.Proofs.VisibleClass

namespace ObjectWorld

-- =================================================== the comparing methods

/-- The definitions of `==` that every world starts with. -/
def comparers : List Resolution :=
  [⟨CoreClass.kernel.id, CoreClass.looks 1 .equal⟩,
    ⟨CoreClass.integer.id, CoreClass.looks 1 .integerEqual⟩]

theorem mem_comparers {found : Resolution} : found ∈ comparers
    ↔ found = ⟨CoreClass.kernel.id, CoreClass.looks 1 .equal⟩
      ∨ found = ⟨CoreClass.integer.id, CoreClass.looks 1 .integerEqual⟩ := by
  simp [comparers]

namespace World

/-- Whether comparing a value is left to what a world starts with. -/
def FindsComparer (w : World) (v : Value) : Prop :=
  ∃ found ∈ comparers, w.resolve? v "==" = some found

/-- Whether a value that is no integer finds the comparison of integers. -/
def Misdirected (w : World) (v : Value) : Prop :=
  w.resolve? v "==" = some ⟨CoreClass.integer.id,
      CoreClass.looks 1 .integerEqual⟩
    ∧ v.int? = none

end World

namespace Machine

variable {σ : Type} {host : Host σ} {m : Machine σ} {u v : Value} {b : Bool}

/-- Whether asking a value if it is equal to another comes back with such
an answer and with nothing else, from wherever it is asked. -/
def Compares (host : Host σ) (m : Machine σ) (v u : Value) (b : Bool) :
    Prop :=
  ∀ site next m', ComesBack host (m.asking v "==" [u] site next) m'
    ↔ m' = { m with current := next (.ok (.bool b)) }

/-- There is one answer. -/
theorem Compares.unique {b' : Bool} (h : m.Compares host v u b)
    (h' : m.Compares host v u b') : b = b' := by
  have back := (h' .explicit .done _).1 ((h .explicit .done _).2 rfl)
  cases congrArg current back
  rfl

/-- Both methods tell whether the values are the same, except of a receiver
that is misdirected. -/
theorem compares_of_findsComparer (host : Host σ) (room : m.refusal? = none)
    (finds : m.world.FindsComparer v) (u : Value) :
    ∃ b, m.Compares host v u b
      ∧ (b = true ↔ v.same u = true ∧ ¬ m.world.Misdirected v) := by
  obtain ⟨found, mem, resolved⟩ := finds
  unfold World.Misdirected
  rcases mem_comparers.1 mem with rfl | rfl
  · refine ⟨v.same u, fun site next m' =>
      (comesBack_looks host resolved room rfl).iff_eq, ?_⟩
    have other : ¬ (m.world.resolve? v "==" = some ⟨CoreClass.integer.id,
        CoreClass.looks 1 .integerEqual⟩) := by
      rw [resolved]
      decide
    exact ⟨fun same => ⟨same, fun h => other h.1⟩, fun h => h.1⟩
  · refine ⟨v.int?.isSome && v.same u, fun site next m' =>
      (comesBack_looks host resolved room rfl).iff_eq, ?_⟩
    cases v.int? with
    | none => simp [resolved]
    | some a => simp

end Machine

namespace Realm

variable {r : Realm} {u v : Value} {name : String} {d : ClassId}
  {method : Method}

/-- What is found on a class that is no eigenclass is found from the class
that a user sees: only an eigenclass can stand in front of that one. -/
theorem Layered.resolveIn?_nominal (layered : r.Layered)
    (resolved : r.world.resolve? v name = some ⟨d, method⟩)
    (plain : r.world.isEigenclass d = false) :
    ∃ c, r.world.nominalClassOf? v = some c
      ∧ r.world.resolveIn? c name = some ⟨d, method⟩ := by
  obtain ⟨c, cls, found⟩ := Option.bind_eq_some_iff.1 resolved
  refine ⟨r.world.nominal c, congrArg (Option.map r.world.nominal) cls, ?_⟩
  cases kind : r.world.isEigenclass c with
  | false =>
      rw [World.nominal_of_plain kind]
      exact found
  | true =>
      obtain ⟨above, superclass, -⟩ := layered c kind
      rw [World.nominal_of_eigenclass kind superclass]
      rw [World.resolveIn?_eq, World.ancestors_of_superclass? superclass,
        List.findSome?_cons] at found
      cases own : r.world.ownMethod? c name with
      | none =>
          rw [own] at found
          rw [World.resolveIn?_eq]
          exact found
      | some _ =>
          rw [own] at found
          cases found
          rw [kind] at plain
          cases plain

/-- The definitions of `==` that a world starts with stand on no
eigenclass. -/
theorem Sound.plain_of_mem_comparers (sound : r.Sound) {found : Resolution}
    (mem : found ∈ comparers) :
    r.world.isEigenclass found.owner = false := by
  rcases mem_comparers.1 mem with rfl | rfl
  · exact (sound.core .kernel).2
  · exact (sound.core .integer).2

/-- Values that are the same, and leave comparing to what a world starts
with, find the same comparison. -/
theorem Sound.resolve?_of_same (sound : r.Sound) (layered : r.Layered)
    (hu : r.Held u) (hv : r.Held v) (same : u.same v = true)
    (ufinds : r.world.FindsComparer u) (vfinds : r.world.FindsComparer v) :
    r.world.resolve? u "==" = r.world.resolve? v "==" := by
  obtain ⟨found, mem, ufound⟩ := ufinds
  obtain ⟨found', mem', vfound⟩ := vfinds
  obtain ⟨c, uclass, fromClass⟩ := layered.resolveIn?_nominal ufound
    (sound.plain_of_mem_comparers mem)
  obtain ⟨d, vclass, fromClass'⟩ := layered.resolveIn?_nominal vfound
    (sound.plain_of_mem_comparers mem')
  rw [sound.nominalClassOf?_of_same layered hu hv same, vclass,
    Option.some.injEq] at uclass
  rw [uclass, fromClass] at fromClass'
  rw [ufound, vfound]
  exact fromClass'

/-- No core class but its own has the class of integers above it. -/
theorem not_mem_ancestors_core (reachable : r.Reachable) {core : CoreClass}
    (other : core ≠ .integer) :
    CoreClass.integer.id ∉ r.world.ancestors core.id := by
  rw [ancestors_core reachable]
  cases core <;> first | exact absurd rfl other | decide

/-- Only objects and exceptions have a class of their own choice. Of all
other bare values it is a core class, and the one of integers only of an
integer. -/
theorem Sound.nominalClassOf?_cases (sound : r.Sound) (v : Value) :
    (∃ o, v.bare = .object o) ∨ (∃ e, v.bare = .exception e)
      ∨ r.world.nominalClassOf? v.bare = none
      ∨ ∃ core : CoreClass,
        r.world.nominalClassOf? v.bare = some core.id
          ∧ (core = .integer → v.int? ≠ none) := by
  have shows : ∀ {u} (core : CoreClass), r.world.classOf? u = some core.id →
      r.world.nominalClassOf? u = some core.id := by
    intro u core cls
    unfold World.nominalClassOf?
    rw [cls]
    exact congrArg some (World.nominal_of_plain (sound.core core).2)
  cases hv : v.bare with
  | object o => exact .inl ⟨o, rfl⟩
  | exception e => exact .inr (.inl ⟨e, rfl⟩)
  | function | builtin | returned | required =>
      exact .inr (.inr (.inl rfl))
  | selfRef inner => exact absurd hv Value.bare_ne.1
  | extended inner e => exact absurd hv (Value.bare_ne.2 e)
  | nil => exact .inr (.inr (.inr ⟨.nilClass, shows _ rfl, nofun⟩))
  | bool b =>
      cases b with
      | true => exact .inr (.inr (.inr ⟨.trueClass, shows _ rfl, nofun⟩))
      | false => exact .inr (.inr (.inr ⟨.falseClass, shows _ rfl, nofun⟩))
  | int n =>
      refine .inr (.inr (.inr ⟨.integer, shows _ rfl, fun _ => ?_⟩))
      unfold Value.int?
      rw [hv]
      exact nofun
  | text s => exact .inr (.inr (.inr ⟨.string, shows _ rfl, nofun⟩))
  | symbol name => exact .inr (.inr (.inr ⟨.symbol, shows _ rfl, nofun⟩))
  | array items => exact .inr (.inr (.inr ⟨.array, shows _ rfl, nofun⟩))
  | cls c =>
      have seen := sound.nominalClassOf?_value (.cls c)
      have own : r.world.ownClass (.cls c) = CoreClass.module.id
          ∨ r.world.ownClass (.cls c) = CoreClass.cls.id :=
        ite_eq_or_eq ..
      rcases own with own | own
      · rw [own, World.nominal_of_plain (sound.core .module).2] at seen
        exact .inr (.inr (.inr ⟨.module, seen, nofun⟩))
      · rw [own, World.nominal_of_plain (sound.core .cls).2] at seen
        exact .inr (.inr (.inr ⟨.cls, seen, nofun⟩))

/-- What is misdirected is an object or an exception, and its class is the
class of integers or one below. -/
theorem misdirected_cases (reachable : r.Reachable) (held : r.Held v)
    (h : r.world.Misdirected v) :
    ∃ c, r.world.nominalClassOf? v = some c
      ∧ CoreClass.integer.id ∈ r.world.ancestors c
      ∧ ((∃ o, v.bare = .object o) ∨ ∃ e, v.bare = .exception e) := by
  have sound := sound_of_reachable reachable
  have layered := layered_of_reachable reachable
  obtain ⟨resolved, noInteger⟩ := h
  obtain ⟨c, seen, found⟩ := layered.resolveIn?_nominal resolved
    (sound.core .integer).2
  have mem := World.owner_mem_ancestors found
  refine ⟨c, seen, mem, ?_⟩
  rw [← sound.nominalClassOf?_bare layered held] at seen
  rcases sound.nominalClassOf?_cases v with
    object | exception | none | ⟨core, hcore, integer⟩
  · exact .inl object
  · exact .inr exception
  · rw [none] at seen
    cases seen
  · rw [hcore, Option.some.injEq] at seen
    rw [← seen] at mem
    exact absurd mem (not_mem_ancestors_core reachable
      fun h => integer h noInteger)

-- ============================================================ the theorem

/-- Comparing in the language, by the methods that a world starts with, is
sameness, except for receivers that are misdirected: those are told that
they differ from everything, themselves included. They are objects and
exceptions whose class is that of integers or one below it. Comparing two
values either way round gives one answer. -/
theorem dispatched_equality_exact {σ : Type} (host : Host σ)
    (reachable : r.Reachable) {m : Machine σ} (here : m.world = r.world)
    (room : m.refusal? = none) :
    (∀ v, r.world.FindsComparer v → ∀ u,
        ∃ b, m.Compares host v u b
          ∧ (b = true ↔ v.same u = true ∧ ¬ r.world.Misdirected v))
      ∧ (∀ v, r.Held v → r.world.Misdirected v →
        ∃ c, r.world.nominalClassOf? v = some c
          ∧ CoreClass.integer.id ∈ r.world.ancestors c
          ∧ ((∃ o, v.bare = .object o) ∨ ∃ e, v.bare = .exception e))
      ∧ ∀ u v, r.Held u → r.Held v → r.world.FindsComparer u →
        r.world.FindsComparer v →
        ∃ b, m.Compares host u v b ∧ m.Compares host v u b := by
  have sound := sound_of_reachable reachable
  have layered := layered_of_reachable reachable
  have compares : ∀ v, r.world.FindsComparer v → ∀ u,
      ∃ b, m.Compares host v u b
        ∧ (b = true ↔ v.same u = true ∧ ¬ r.world.Misdirected v) := by
    rw [← here]
    exact fun v finds u => Machine.compares_of_findsComparer host room finds u
  refine ⟨compares, fun v => misdirected_cases reachable, ?_⟩
  intro u v hu hv ufinds vfinds
  obtain ⟨b, ucompares, hb⟩ := compares u ufinds v
  obtain ⟨b', vcompares, hb'⟩ := compares v vfinds u
  have alike : b = b' := by
    rw [Bool.eq_iff_iff, hb, hb']
    have symm : ∀ {u v : Value}, u.same v = true → v.same u = true :=
      Value.same_equivalence.symm
    have misdirected : u.same v = true →
        (r.world.Misdirected u ↔ r.world.Misdirected v) := by
      intro same
      unfold World.Misdirected
      rw [sound.resolve?_of_same layered hu hv same ufinds vfinds,
        Value.int?_of_same same]
    constructor
    · rintro ⟨same, direct⟩
      exact ⟨symm same, fun h => direct ((misdirected same).2 h)⟩
    · rintro ⟨same, direct⟩
      exact ⟨symm same, fun h => direct ((misdirected (symm same)).1 h)⟩
  exact ⟨b, ucompares, alike ▸ vcompares⟩

/-- At the start the number one is equal to a self reference to it, the
other way round too, and the main receiver is not equal to it. -/
theorem dispatched_equality_exact_start :
    start.Reachable ∧ Machine.roomy.world = start.world
      ∧ Machine.roomy.refusal? = none
      ∧ Machine.roomy.Compares Machine.endless (.int 1)
        (.selfRef (.int 1)) true
      ∧ Machine.roomy.Compares Machine.endless (.selfRef (.int 1))
        (.int 1) true
      ∧ Machine.roomy.Compares Machine.endless World.main (.int 1) false := by
  obtain ⟨compares, misdirected, either⟩ :=
    dispatched_equality_exact Machine.endless (r := start) .refl
      (m := Machine.roomy) rfl rfl
  have one : start.world.FindsComparer (.int 1) :=
    ⟨_, mem_comparers.2 (.inr rfl), rfl⟩
  have main : start.world.FindsComparer World.main :=
    ⟨_, mem_comparers.2 (.inl rfl), rfl⟩
  have direct : ¬ start.world.Misdirected (.int 1) := by
    intro h
    obtain ⟨c, -, -, ⟨o, object⟩ | ⟨e, exception⟩⟩ := misdirected _ (.int 1) h
    · cases object
    · cases exception
  obtain ⟨b, there, back⟩ := either (.int 1) (.selfRef (.int 1)) (.int 1)
    (.selfRef (.int 1)) one one
  obtain ⟨b', told, equal⟩ := compares _ one (.selfRef (.int 1))
  obtain ⟨c, differ, unequal⟩ := compares _ main (.int 1)
  obtain rfl : b = true := (there.unique told).trans (equal.2 ⟨rfl, direct⟩)
  obtain rfl : c = false := Bool.eq_false_iff.2 fun h => by
    cases (unequal.1 h).1
  exact ⟨.refl, rfl, rfl, there, back, differ⟩

/-- The start, with an object that has been made of the class of
integers. -/
def integerObject : Realm :=
  start.after (.newObject CoreClass.integer.id)

/-- That object is the same as itself, and it finds a method for comparing
that every world starts with; but asked if it is equal to itself, with room
for the call, it says that it is not. -/
theorem object_differs_from_itself :
    integerObject.Reachable
      ∧ integerObject.Held (.object ⟨1⟩)
      ∧ integerObject.world.FindsComparer (.object ⟨1⟩)
      ∧ (Value.object ⟨1⟩).same (.object ⟨1⟩) = true
      ∧ ∃ m : Machine Unit, m.world = integerObject.world
        ∧ m.refusal? = none
        ∧ m.Compares Machine.endless (.object ⟨1⟩) (.object ⟨1⟩) false
        ∧ ¬ m.Compares Machine.endless (.object ⟨1⟩) (.object ⟨1⟩)
          true := by
  let m : Machine Unit :=
    { Machine.roomy with world := integerObject.world }
  have resolved : m.world.resolve? (.object ⟨1⟩) "=="
      = some ⟨CoreClass.integer.id, CoreClass.looks 1 .integerEqual⟩ := rfl
  have differs : m.Compares Machine.endless (.object ⟨1⟩) (.object ⟨1⟩)
      false := fun _ _ _ =>
    (Machine.comesBack_looks Machine.endless resolved rfl rfl).iff_eq
  refine ⟨.after (core_start .integer).1, .object (by decide), ?_, rfl,
    m, rfl, rfl, differs, fun equals => ?_⟩
  · exact ⟨_, mem_comparers.2 (.inr rfl), resolved⟩
  · cases differs.unique equals

end Realm

end ObjectWorld
