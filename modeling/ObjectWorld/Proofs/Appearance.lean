/-
What a user sees of a value: its text and its class.

The class that a user sees is the one that an eigenclass stands in front
of. That it is never an eigenclass itself, unless something was made of
one, rests on one law of all use: an eigenclass is made right below a
class that is none (`Layered`). From it follows that wrappers do not count
for what is seen, and that nothing of it ever changes, whatever is
extended or defined later.
-/
import ObjectWorld.Proofs.Sound

namespace ObjectWorld

namespace World

variable {w w' : World} {c e : ClassId}

-- ==================================================== the nominal class

/-- A user sees a class that is no eigenclass as it is. -/
theorem nominal_of_plain (h : w.isEigenclass c = false) :
    w.nominal c = c := by
  unfold nominal
  rw [h]
  rfl

/-- In place of an eigenclass a user sees the class above it. -/
theorem nominal_of_eigenclass (h : w.isEigenclass e = true)
    (above : w.superclass? e = some c) : w.nominal e = c := by
  unfold nominal
  rw [h, above]
  rfl

/-- What is not there is no eigenclass. -/
theorem hasClass_of_isEigenclass (h : w.isEigenclass c = true) :
    w.HasClass c := by
  refine Decidable.byContradiction fun hnot => ?_
  have : w.classes.label? c = none :=
    Forest.label?_eq_none (Nat.le_of_not_lt hnot)
  unfold isEigenclass classInfo at h
  rw [this] at h
  cases h

/-- A class stays a module, or none. -/
theorem Later.isModule (h : w.Later w') (hc : w.HasClass c) :
    w'.isModule c = w.isModule c :=
  h.keepsClasses.isModule hc

/-- What a user sees of a class never changes. -/
theorem Later.nominal (h : w.Later w') (hc : w.HasClass c) :
    w'.nominal c = w.nominal c := by
  unfold World.nominal
  rw [h.isEigenclass hc, h.superclass? hc]

-- ============================================================== the text

/-- Wrappers do not count for the text. -/
theorem inspect_bare (w : World) (v : Value) :
    w.inspect v.bare = w.inspect v := by
  fun_induction Value.bare v with
  | case1 inner ih => rw [ih, inspect]
  | case2 inner e ih => rw [ih, inspect]
  | case3 v _ _ => rfl

end World

namespace Realm

variable {r s : Realm} {v : Value} {i : Identity} {c e : ClassId}

/-- Whether every eigenclass stands right below a class that is none. -/
def Layered (r : Realm) : Prop :=
  ∀ e, r.world.isEigenclass e = true → ∃ c,
    r.world.superclass? e = some c ∧ r.world.isEigenclass c = false

/-- An eigenclass is an old one, or it stands right below a class that is
none. -/
theorem Move.eigenclass (sound : r.Sound) (move : Move r s)
    (h : s.world.isEigenclass e = true) :
    r.world.isEigenclass e = true
      ∨ ∃ c, s.world.superclass? e = some c
        ∧ s.world.isEigenclass c = false := by
  cases move with
  | @newClass name kind superclass plain =>
      unfold World.isEigenclass at h
      rw [World.classInfo_newClass] at h
      split at h
      · exact absurd (beq_iff_eq.1 h) plain
      · exact .inl h
  | defineMethod =>
      refine .inl ?_
      unfold World.isEigenclass at h
      rw [(World.kind_defineMethod ..).1] at h
      exact h
  | @extend inner current held bare cls plain =>
      have there := sound.hasClass_classOf? held cls
      rw [World.isEigenclass_newEigenclass] at h
      split at h
      · rename_i he
        refine .inr ⟨current, ?_, ?_⟩
        · rw [World.superclass?_newEigenclass there, if_pos he]
        · rw [World.isEigenclass_newEigenclass,
            if_neg (World.ne_fresh there)]
          exact plain
      · exact .inl h
  | _ => exact .inl h

/-- A move keeps the layers: a class keeps its place, and a new eigenclass
is put right below a class that is none. -/
theorem Layered.move (layered : r.Layered) (sound : r.Sound)
    (move : Move r s) : s.Layered := by
  intro e h
  rcases move.eigenclass sound h with old | new
  · obtain ⟨c, above, plain⟩ := layered e old
    have there := World.HasClass.of_superclass? above
    have later := move.later
    refine ⟨c, ?_, ?_⟩
    · rw [later.superclass? (World.hasClass_of_isEigenclass old)]
      exact above
    · rw [later.isEigenclass there]
      exact plain
  · exact new

/-- So do moves in a row. -/
theorem Layered.moves (layered : r.Layered) (sound : r.Sound)
    (moves : Moves r s) : s.Layered := by
  induction moves with
  | refl => exact layered
  | tail moves move ih => exact ih.move (sound.moves moves) move

/-- No class of the start is an eigenclass. -/
theorem isEigenclass_initial (c : ClassId) :
    World.initial.isEigenclass c = false := by
  have kinds : ∀ c info, World.initial.classes.label? c = some info →
      info.kind ≠ .eigenclass := by
    refine Forest.forall_label?_foldl_grow ?_ ?_
    · intro core _
      cases core <;> decide
    · intro i a h
      cases h
  unfold World.isEigenclass World.classInfo
  cases h : World.initial.classes.label? c with
  | none => rfl
  | some info => exact beq_eq_false_iff_ne.2 (kinds c info h)

/-- In every reachable realm an eigenclass stands right below a class that is
none. -/
theorem layered_of_reachable (h : r.Reachable) : r.Layered := by
  refine Layered.moves ?_ sound_start (sound_start.moves_of_reaches h)
  intro e he
  rw [show start.world = World.initial from rfl,
    isEigenclass_initial] at he
  cases he

/-- The chain of a core class is what it was at the start. -/
theorem ancestors_core (reachable : r.Reachable) (core : CoreClass) :
    r.world.ancestors core.id = start.world.ancestors core.id :=
  (sound_start.moves_of_reaches reachable).later.keepsClasses.ancestors
    (core_start core).1

-- ============================================== wrappers are not seen

/-- The class that a user sees of a handle of an identity is the own class
of the identity, or what that one stands in front of. -/
theorem Sound.nominalClassOf?_value (sound : r.Sound) (i : Identity) :
    r.world.nominalClassOf? i.value
      = some (r.world.nominal (r.world.ownClass i)) := by
  unfold World.nominalClassOf?
  rw [World.classOf?_value]
  cases hs : r.world.singleton? i with
  | none => rfl
  | some e =>
      obtain ⟨-, kind, above, plain⟩ := sound.singleton hs
      show some (r.world.nominal e) = _
      rw [World.nominal_of_eigenclass kind above,
        World.nominal_of_plain plain]

/-- Wrappers do not count for the class that a user sees. -/
theorem Sound.nominalClassOf?_bare (sound : r.Sound) (layered : r.Layered)
    (h : r.Held v) :
    r.world.nominalClassOf? v.bare = r.world.nominalClassOf? v := by
  induction h with
  | @extended inner e h =>
      obtain ⟨_, _, heq, extension⟩ := sound.handed _ h
      cases heq
      show r.world.nominalClassOf? inner.bare = some (r.world.nominal e)
      rw [extension.bare]
      unfold World.nominalClassOf?
      rcases extension.cls with same | ⟨-, above⟩
      · rw [same]
        rfl
      · -- the class of the bare value is the one right above
        obtain ⟨c, hc, plain⟩ := layered e extension.kind
        rw [← above, hc, World.nominal_of_eigenclass extension.kind hc]
        exact congrArg some (World.nominal_of_plain plain)
  | selfRef _ ih => exact ih
  | _ => rfl

-- ========================================== what is seen never changes

/-- A move leaves the class that a user sees of a bare value. -/
private theorem Move.nominalClassOf?_of_bare (sound : r.Sound)
    (move : Move r s) (held : r.Held v) (bare : v.bare = v) :
    s.world.nominalClassOf? v = r.world.nominalClassOf? v := by
  cases hi : v.identity? with
  | none =>
      unfold World.nominalClassOf?
      rw [move.classOf?_plain held bare hi]
      cases hc : r.world.classOf? v with
      | none => rfl
      | some c =>
          have there := sound.hasClass_classOf? held hc
          exact congrArg some (move.later.nominal there)
  | some i =>
      have hv : v = i.value := by
        rw [← bare]
        exact Value.identity?_eq_some.1 hi
      have has := sound.has_identity held hi
      rw [hv, (sound.move move).nominalClassOf?_value,
        sound.nominalClassOf?_value, move.later.ownClass has,
        move.later.nominal (sound.hasClass_ownClass has)]

/-- The class that a user sees of a value never changes. -/
theorem Moves.nominalClassOf? (sound : r.Sound) (layered : r.Layered)
    (moves : Moves r s) (held : r.Held v) :
    s.world.nominalClassOf? v = r.world.nominalClassOf? v := by
  induction moves with
  | refl => rfl
  | @tail s t moves move ih =>
      have sound' := sound.moves moves
      have layered' := layered.moves sound moves
      have held' := held.mono (Moves.later moves) (Moves.mem_handed moves)
      rw [← ih, ← sound'.nominalClassOf?_bare layered' held',
        ← (sound'.move move).nominalClassOf?_bare
          (layered'.move sound' move) (move.held held'),
        move.nominalClassOf?_of_bare sound' (sound'.held_bare held')
          v.bare_bare]

mutual

/-- The text of a value at hand is made of names and messages that never
change. -/
theorem Sound.inspect_later (sound : r.Sound)
    (later : r.world.Later s.world) :
    (v : Value) → r.Held v → s.world.inspect v = r.world.inspect v
  | .array items, .array held => by
      rw [World.inspect, World.inspect,
        sound.inspectAll_later later items held]
  | .exception e, .exception there => by
      have hname := later.name (sound.ofException there)
      rw [World.inspect, World.inspect, later.exceptionInfo there]
      unfold World.className
      rw [hname]
  | .function f _, .function there _ => by
      rw [World.inspect, World.inspect, later.functionInfo there]
  | .cls c, .cls there => by
      rw [World.inspect, World.inspect]
      exact later.name there
  | .object o, .object there => by
      have hname := later.name (sound.ofObject there)
      rw [World.inspect, World.inspect, later.cls there]
      unfold World.className
      rw [hname]
  | .extended inner e, .extended mem => by
      have held : r.Held inner := by
        obtain ⟨_, _, heq, extension⟩ := sound.handed _ mem
        cases heq
        exact extension.held
      rw [World.inspect, World.inspect, sound.inspect_later later inner held]
  | .selfRef inner, .selfRef held => by
      rw [World.inspect, World.inspect, sound.inspect_later later inner held]
  | .returned inner, .returned held => by
      rw [World.inspect, World.inspect, sound.inspect_later later inner held]
  | .nil, _ | .bool _, _ | .int _, _ | .text _, _ | .symbol _, _
  | .builtin .., _ | .required _, _ => by
      rw [World.inspect, World.inspect]

/-- So are the texts of some values. -/
theorem Sound.inspectAll_later (sound : r.Sound)
    (later : r.world.Later s.world) :
    (items : List Value) → (∀ u ∈ items, r.Held u) →
      s.world.inspectAll items = r.world.inspectAll items
  | [], _ => by rw [World.inspectAll, World.inspectAll]
  | v :: rest, held => by
      rw [World.inspectAll, World.inspectAll,
        sound.inspect_later later v (held v List.mem_cons_self),
        sound.inspectAll_later later rest
          fun u hu => held u (List.mem_cons_of_mem _ hu)]

end

/-- The word for the kind of a value never changes. -/
theorem Held.tag_later (held : r.Held v)
    (later : r.world.Later s.world) : s.world.tag v = r.world.tag v := by
  cases held with
  | @cls c there =>
      show (if s.world.isModule c then _ else _) = if _ then _ else _
      rw [later.isModule there]
  | _ => rfl

/-- Nor does what error messages call the class of a value. -/
theorem Moves.classNameOf (sound : r.Sound) (layered : r.Layered)
    (moves : Moves r s) (held : r.Held v) :
    s.world.classNameOf v = r.world.classNameOf v := by
  unfold World.classNameOf
  rw [moves.nominalClassOf? sound layered held]
  cases hc : r.world.nominalClassOf? v with
  | none => exact held.tag_later moves.later
  | some c =>
      obtain ⟨d, hd, rfl⟩ := Option.map_eq_some_iff.1 hc
      have there := sound.hasClass_classOf? held hd
      exact moves.later.name (World.hasClass_nominal there)

end Realm

end ObjectWorld
