/-
Every reachable realm is sound.

A move keeps a realm sound, law by law. An allowed change of a sound
realm is made of moves: that is one look at what each change does
(`moves_after`), and the only place where the changes are told apart. The
start is sound, and so use never leads out of the sound realms
(`sound_of_reachable`).
-/
import Mathlib.Logic.Relation
import ObjectWorld.Proofs.Moves

namespace ObjectWorld.Realm

variable {r s : Realm} {v : Value} {c : Change}

-- ====================================================== a move keeps the laws

/-- A move keeps every law: what it makes obeys the laws at once, and what
was there is as it was. -/
theorem Sound.move (sound : r.Sound) (move : Move r s) : s.Sound where
  core c := by
    obtain ⟨there, plain⟩ := sound.core c
    refine ⟨move.later.hasClass there, ?_⟩
    rw [move.later.isEigenclass there]
    exact plain
  ofObject := by
    intro o h
    rcases move.object h with old | new
    · rw [move.later.cls old]
      exact move.later.hasClass (sound.ofObject old)
    · exact new
  ofException := by
    intro e h
    rcases move.exception h with old | new
    · rw [move.later.exceptionInfo old]
      exact move.later.hasClass (sound.ofException old)
    · exact new
  registered := by
    intro name c h
    rcases move.registered h with old | new
    · obtain ⟨there, plain⟩ := sound.registered old
      refine ⟨move.later.hasClass there, ?_⟩
      rw [move.later.isEigenclass there]
      exact plain
    · exact new
  method := by
    intro c name method h
    rcases move.method h with old | new
    · exact move.knows (sound.method old)
    · exact new
  scope := by
    intro f h
    rcases move.function h with old | new
    · rw [move.later.functionInfo old]
      exact move.later.hasScope (sound.scope old)
    · exact new
  singleton := by
    intro i e h
    have old : r.world.singleton? i = some e →
        s.world.HasClass e ∧ s.world.isEigenclass e = true
          ∧ s.world.superclass? e = some (s.world.ownClass i)
          ∧ s.world.isEigenclass (s.world.ownClass i) = false := by
      intro h
      obtain ⟨there, kind, above, plain⟩ := sound.singleton h
      have has := World.has_of_singleton? h
      have own := sound.hasClass_ownClass has
      rw [move.later.isEigenclass there, move.later.superclass? there,
        move.later.ownClass has, move.later.isEigenclass own]
      exact ⟨move.later.hasClass there, kind, above, plain⟩
    rcases move.singleton? sound with
      same | ⟨j, f, has, -, plain, -, there, kind, above, heq⟩
    · rw [same] at h
      exact old h
    · rw [heq] at h
      split at h
      · rename_i hij
        subst hij
        cases h
        have own := sound.hasClass_ownClass has
        rw [move.later.ownClass has, move.later.isEigenclass own]
        exact ⟨there, kind, above, plain⟩
      · exact old h
  distinct := by
    intro i j e hi hj
    rcases move.singleton? sound with
      same | ⟨k, f, -, -, -, fresh, -, -, -, heq⟩
    · rw [same] at hi hj
      exact sound.distinct hi hj
    · rw [heq] at hi hj
      split at hi <;> split at hj
      · rename_i hik hjk
        rw [hik, hjk]
      · cases hi
        exact absurd (sound.singleton hj).1 fresh
      · cases hj
        exact absurd (sound.singleton hi).1 fresh
      · exact sound.distinct hi hj
  handed := by
    intro x h
    rcases move.handed sound x h with old | new
    · obtain ⟨inner, e, heq, extension⟩ := sound.handed x old
      exact ⟨inner, e, heq, move.extension sound extension⟩
    · exact new
  binding := by
    intro t name v h
    rcases move.binding h with old | new
    · exact move.held (sound.binding old)
    · exact new
  ivar := by
    intro o name v h
    rcases move.ivar h with old | new
    · exact move.held (sound.ivar old)
    · exact new
  main := move.held sound.main

/-- Moves in a row. -/
abbrev Moves : Realm → Realm → Prop :=
  Relation.ReflTransGen Move

/-- So do moves in a row. -/
theorem Sound.moves (sound : r.Sound) (moves : Moves r s) : s.Sound := by
  induction moves with
  | refl => exact sound
  | tail _ move ih => exact ih.move move

/-- Moves take nothing away. -/
theorem Moves.later (moves : Moves r s) : r.world.Later s.world := by
  induction moves with
  | refl => exact World.Later.refl _
  | tail _ move ih => exact ih.trans move.later

/-- Extensions that were given out stay given out. -/
theorem Moves.mem_handed (moves : Moves r s) :
    ∀ x ∈ r.handed, x ∈ s.handed := by
  induction moves with
  | refl => exact fun _ h => h
  | tail _ move ih => exact fun x h => move.mem_handed x (ih x h)

-- ================================================== changes made of moves

/-- What is left under outer self references is at hand. -/
theorem Held.stripSelf (h : r.Held v) : r.Held v.stripSelf := by
  induction h with
  | selfRef _ ih => exact ih
  | array h _ => exact .array h
  | returned h _ => exact .returned h
  | nil => exact .nil
  | bool b => exact .bool b
  | int n => exact .int n
  | text s => exact .text s
  | symbol name => exact .symbol name
  | exception h => exact .exception h
  | function h visibility => exact .function h visibility
  | builtin name native => exact .builtin name native
  | cls h => exact .cls h
  | object h => exact .object h
  | extended h => exact .extended h
  | required name => exact .required name

/-- What extending a value at hand does is decided by the class of the
value: without a class it fails, an eigenclass is used again, and under
any other class a new eigenclass is made. -/
theorem Sound.extend_cases (sound : r.Sound) (held : r.Held v) :
    (r.world.classOf? v = none
        ∧ ∃ fault, r.world.extend v = (.error fault, r.world))
      ∨ (∃ e, r.world.classOf? v = some e
        ∧ r.Extension v.bare e
        ∧ r.world.extend v = (.ok (.extended v.bare e, e), r.world))
      ∨ ∃ current, r.world.classOf? v = some current
        ∧ r.world.classOf? v.bare = some current
        ∧ r.world.isEigenclass current = false
        ∧ r.world.extend v
          = (.ok (.extended v.bare ⟨r.world.classes.size⟩,
              ⟨r.world.classes.size⟩),
            (r.world.newEigenclass v.bare current).2) := by
  rcases r.world.extend_cases v with
    none | ⟨inner, e, hstrip, hext⟩ | ⟨e, cls, hbare, kind, hext⟩ | new
  · exact .inl none
  · have hstripped := held.stripSelf
    rw [hstrip] at hstripped
    cases hstripped with
    | extended h =>
        obtain ⟨_, _, heq, extension⟩ := sound.handed _ h
        cases heq
        have hinner : v.bare = inner := by
          rw [← Value.bare_stripSelf, hstrip]
          exact extension.bare
        have cls : r.world.classOf? v = some e := by
          rw [← World.classOf?_stripSelf, hstrip]
          rfl
        rw [hinner]
        exact .inr (.inl ⟨e, cls, extension, hext⟩)
  · have there := sound.hasClass_classOf? held cls
    exact .inr (.inl ⟨e, cls,
      ⟨sound.held_bare held, v.bare_bare, there, kind, .inl hbare⟩, hext⟩)
  · exact .inr (.inr new)

/-- Extending a value at hand fails and changes nothing, or it is one
move that hands the bare value out with an eigenclass. -/
theorem Sound.extend (sound : r.Sound) (held : r.Held v) :
    (∃ fault, r.world.extend v = (.error fault, r.world))
      ∨ ∃ e w, r.world.extend v = (.ok (.extended v.bare e, e), w)
        ∧ w.HasClass e
        ∧ Move r ⟨w, .extended v.bare e :: r.handed⟩ := by
  rcases sound.extend_cases held with
    ⟨-, error⟩ | ⟨e, -, extension, hext⟩
      | ⟨current, -, hbare, plain, hext⟩
  · exact .inl error
  · exact .inr ⟨e, _, hext, extension.there, .hand extension⟩
  · exact .inr ⟨_, _, hext, World.hasClass_newEigenclass.2 (.inr rfl),
      .extend (sound.held_bare held) v.bare_bare hbare plain⟩

/-- Registering is two moves: the class is made, and then its name. -/
theorem moves_register {name : String} {kind : ClassKind}
    {superclass : Option ClassId} (plain : kind ≠ .eigenclass) :
    Moves r { r with
      world := (r.world.register name kind superclass).2 } := by
  have made : Move r { r with
      world := (r.world.newClass name kind superclass).2 } :=
    .newClass plain
  refine .tail (.single made) ?_
  refine .register (World.hasClass_newClass.2 (.inr rfl)) ?_
  show (((r.world.newClass ..).2.classInfo _).kind == _) = false
  rw [World.classInfo_newClass, if_pos rfl]
  cases kind <;> first | rfl | exact absurd rfl plain

/-- The exception class of a name is there, whatever the name. -/
theorem Sound.hasClass_exceptionClass (sound : r.Sound) (name : String) :
    r.world.HasClass (r.world.exceptionClass name) := by
  unfold World.exceptionClass
  cases hname : r.world.registered? name with
  | none => exact (sound.core .runtimeError).1
  | some c => exact (sound.registered hname).1

/-- An allowed change of a sound realm is made of moves. -/
theorem moves_after (sound : r.Sound) (allowed : r.Allows c) :
    Moves r (r.after c) := by
  cases c with
  | newClass name superclass => exact .single (.newClass (by decide))
  | newModule name => exact .single (.newClass (by decide))
  | defineClass name superclass =>
      show Moves r ⟨(r.world.defineClass name superclass).2, r.handed⟩
      unfold World.defineClass
      split
      · split
        · exact .refl
        · split <;> exact .refl
      · dsimp only
        split
        · exact .refl
        · exact moves_register (by decide)
  | defineModule name =>
      show Moves r ⟨(r.world.defineModule name).2, r.handed⟩
      unfold World.defineModule
      split
      · split <;> exact .refl
      · exact moves_register (by decide)
  | defineMethod d name method =>
      exact .single (.defineMethod allowed.1 allowed.2)
  | extend v =>
      rcases sound.extend allowed with ⟨fault, hext⟩
        | ⟨e, w, hext, -, move⟩
      · unfold after Change.perform
        dsimp only
        rw [hext]
        exact .refl
      · unfold after Change.perform
        dsimp only
        rw [hext]
        exact .single move
  | defineSingletonMethod v name method =>
      unfold after Change.perform
      dsimp only
      unfold World.defineSingletonMethod
      rcases sound.extend allowed.1 with ⟨fault, hext⟩
        | ⟨e, w, hext, there, move⟩
      · rw [hext]
        exact .refl
      · rw [hext]
        refine .tail (.single move) ?_
        exact .defineMethod there (move.knows allowed.2)
  | newObject cls => exact .single (.newObject allowed)
  | setIvar o name v => exact .single (.setIvar allowed.1 allowed.2)
  | newException cls message => exact .single (.newException allowed)
  | exceptionFor fault =>
      exact .single (.newException (sound.hasClass_exceptionClass _))
  | newFunction info => exact .single (.newFunction allowed)
  | newScope outer => exact .single (.newScope fun h => by cases h)
  | define s name v => exact .single (.define allowed.1 allowed.2)
  | assign s name v =>
      refine .single (.define ?_ allowed.2)
      cases hbinder : r.world.binder? s name with
      | none => exact allowed.1
      | some t =>
          have hle := World.index_le_of_binder? hbinder
          exact Nat.lt_of_le_of_lt hle allowed.1
  | bindArguments f args =>
      refine .single (.newScope ?_)
      intro name v h
      have hzip := Table.mem_of_get?_ofList h
      exact allowed.2 v (List.of_mem_zip hzip).2

-- ============================================================== the start

/-- All methods of the core classes are native. -/
theorem native_of_mem_methods (c : CoreClass) : ∀ entry ∈ c.methods,
    ∃ native, entry.2.body = .native native := by
  cases c <;> simp [CoreClass.methods, CoreClass.looks]

/-- No class of the start has an eigenclass, and all methods are
native. -/
theorem label?_initial {c : ClassId} {info : ClassInfo}
    (h : World.initial.classes.label? c = some info) :
    info.singleton = none
      ∧ ∀ {name method}, info.methods.get? name = some method →
        ∃ native, method.body = .native native := by
  refine Forest.forall_label?_foldl_grow (P := fun info : ClassInfo =>
    info.singleton = none ∧ ∀ {name method},
      info.methods.get? name = some method →
        ∃ native, method.body = .native native) ?_ ?_ c info h
  · intro core _
    refine ⟨rfl, fun hget => ?_⟩
    exact native_of_mem_methods core _ (Table.mem_of_get?_ofList hget)
  · intro i a h
    cases h

/-- Nothing of the start has an eigenclass. -/
theorem singleton?_initial (i : Identity) :
    World.initial.singleton? i = none := by
  cases i with
  | object o =>
      obtain ⟨index⟩ := o
      cases index <;> rfl
  | cls c =>
      show ((World.initial.classes.label? c).getD default).singleton = none
      cases h : World.initial.classes.label? c with
      | none => rfl
      | some info => exact (label?_initial h).1

/-- The core classes are there from the start, and none of them is an
eigenclass. -/
theorem core_start (c : CoreClass) : start.world.HasClass c.id
    ∧ start.world.isEigenclass c.id = false := by
  cases c <;> exact ⟨by decide, rfl⟩

/-- The start is sound: its methods are natives, there are no eigenclasses
yet, and its names mean natives. -/
theorem sound_start : start.Sound where
  core := core_start
  ofObject := by
    intro o h
    have : o.index = 0 := Nat.lt_one_iff.1 h
    obtain ⟨index⟩ := o
    cases this
    exact (core_start .object).1
  ofException h := absurd h (Nat.not_lt_zero _)
  registered := by
    intro name c h
    have hmem := Table.mem_of_get?_ofList h
    obtain ⟨core, -, heq⟩ := List.mem_map.1 hmem
    cases heq
    exact core_start core
  method := by
    intro c name method h
    change ((World.initial.classes.label? c).getD default).methods.get? name
      = some method at h
    cases hc : World.initial.classes.label? c with
    | none =>
        rw [hc] at h
        cases h
    | some info =>
        rw [hc] at h
        obtain ⟨native, hbody⟩ := (label?_initial hc).2 h
        unfold Knows
        rw [hbody]
        trivial
  scope h := absurd h (Nat.not_lt_zero _)
  singleton h := by
    rw [show start.world = World.initial from rfl,
      singleton?_initial] at h
    cases h
  distinct h := by
    rw [show start.world = World.initial from rfl,
      singleton?_initial] at h
    cases h
  handed x h := absurd h List.not_mem_nil
  binding := by
    intro s name v h
    change ((World.initial.scopes.label? s).getD {}).get? name
      = some v at h
    unfold World.initial at h
    rw [Forest.label?_grow_eq] at h
    split at h
    · have hmem := Table.mem_of_get?_ofList h
      rw [List.mem_singleton, Prod.mk.injEq] at hmem
      rw [hmem.2]
      exact .builtin ..
    · cases h
  ivar := by
    intro o name v h
    obtain ⟨index⟩ := o
    cases index <;> cases h
  main := .object (by decide)

/-- A change that is allowed keeps a realm sound. -/
theorem Sound.after (sound : r.Sound) (allowed : r.Allows c) :
    (r.after c).Sound :=
  sound.moves (moves_after sound allowed)

/-- All use is made of moves. -/
theorem Sound.moves_of_reaches (sound : r.Sound) (h : r.Reaches s) :
    Moves r s :=
  h.preserves (fun moves allowed =>
    moves.trans (moves_after (sound.moves moves) allowed)) .refl

/-- Use never leads out of the sound realms. -/
theorem Sound.reaches (sound : r.Sound) (h : r.Reaches s) : s.Sound :=
  sound.moves (sound.moves_of_reaches h)

/-- Whatever use has led to is sound. -/
theorem sound_of_reachable (h : r.Reachable) : r.Sound :=
  sound_start.reaches h

end ObjectWorld.Realm
