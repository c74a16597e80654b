/-
Chains only grow, and only in front.

The chain of a class is fixed when the class is made. What decides for a
value is one class, and a move can change that in one way only: it puts a
new eigenclass right below it. An eigenclass is not extended again, so
this happens to a value once or not at all (`Moves.classOf?_cases`), and
a value without a class has nothing that an eigenclass could be put below.

What a class defines it goes on defining, maybe as another method. So a
name that means something on a value never stops to (`Moves.isSome_resolve?`).
A name that means nothing on it starts to where some class of its chain
begins to define it; a class that is made begins with nothing, so that is
by a definition of this name (`Sound.defines_of_resolve?`).
-/
import Mathlib.Data.Nat.Find
import ObjectWorld.Proofs.Appearance
import ObjectWorld.Proofs.Resolution
import ObjectWorld.Proofs.Sharing

namespace ObjectWorld

namespace World

variable {w : World} {name : String} {d : ClassId}

/-- What is not there defines nothing. -/
theorem hasClass_of_ownMethod? (h : (w.ownMethod? d name).isSome) :
    w.HasClass d := by
  refine Decidable.byContradiction fun hnot => ?_
  have : w.classes.label? d = none :=
    Forest.label?_eq_none (Nat.le_of_not_lt hnot)
  unfold ownMethod? classInfo at h
  rw [this] at h
  cases h

/-- A new class defines nothing, so what is defined after it was before. -/
private theorem defines_of_newClass {key : String} {kind : ClassKind}
    {superclass : Option ClassId}
    (h : ((w.newClass key kind superclass).2.ownMethod? d name).isSome) :
    (w.ownMethod? d name).isSome := by
  rw [ownMethod?_newClass] at h
  split at h
  · cases h
  · exact h

end World

namespace Realm

variable {r s : Realm} {v : Value} {c : Change} {d : ClassId}
  {name : String}

-- ===================================================== what a move can do

/-- The class of a value that is no handle of an identity never
changes. -/
private theorem Move.classOf?_of_plain (move : Move r s) (held : r.Held v)
    (plain : v.identity? = none) :
    s.world.classOf? v = r.world.classOf? v := by
  induction held with
  | extended h => rfl
  | selfRef _ ih => exact ih plain
  | exception h => exact move.classOf?_plain (.exception h) rfl plain
  | bool b => exact move.classOf?_plain (.bool b) rfl plain
  | cls h => cases plain
  | object h => cases plain
  | _ => rfl

/-- Whether between two realms a value has got a new eigenclass, right
below the class that it had; and that one was none. -/
structure GetsEigenclass (r s : Realm) (v : Value) (c e : ClassId) :
    Prop where
  before : r.world.classOf? v = some c
  plain : r.world.isEigenclass c = false
  fresh : ¬ r.world.HasClass e
  after : s.world.classOf? v = some e
  there : s.world.HasClass e
  kind : s.world.isEigenclass e = true
  above : s.world.superclass? e = some c

/-- A move leaves the class that decides for a value, or it gives the value
an eigenclass. -/
theorem Move.classOf?_cases (sound : r.Sound) (move : Move r s)
    (held : r.Held v) :
    s.world.classOf? v = r.world.classOf? v
      ∨ ∃ c e, GetsEigenclass r s v c e := by
  cases hi : v.identity? with
  | none => exact .inl (move.classOf?_of_plain held hi)
  | some i =>
      have has := sound.has_identity held hi
      have before := sound.classOf?_eq held hi
      have after := (sound.move move).classOf?_eq (move.held held) hi
      rw [World.classOf?_value] at before after
      rw [move.later.ownClass has] at after
      rcases move.singleton? sound with
        same | ⟨j, e, -, hnone, plain, fresh, there, kind, above, heq⟩
      · rw [after, before, same]
        exact .inl rfl
      · rw [heq] at after
        by_cases hij : i = j
        · subst hij
          rw [if_pos rfl] at after
          rw [hnone] at before
          exact .inr ⟨_, e, before, plain, fresh, after, there, kind, above⟩
        · rw [if_neg hij] at after
          rw [after, before]
          exact .inl rfl

/-- What a class defines it goes on defining. -/
theorem Move.isSome_ownMethod? (move : Move r s)
    (h : (r.world.ownMethod? d name).isSome) :
    (s.world.ownMethod? d name).isSome := by
  have old := World.ne_fresh (World.hasClass_of_ownMethod? h)
  cases move with
  | newClass =>
      rw [World.ownMethod?_newClass, if_neg old]
      exact h
  | extend =>
      rw [World.ownMethod?_newEigenclass, if_neg old]
      exact h
  | defineMethod there known =>
      rw [World.ownMethod?_defineMethod there]
      split
      · rfl
      · exact h
  | _ => exact h

-- ====================================================== what moves can do

/-- An eigenclass that a value has got is not new to what comes before. -/
theorem GetsEigenclass.of_moves {t : Realm} {c e : ClassId}
    (sound : r.Sound) (moves : Moves r t) (held : r.Held v)
    (same : t.world.classOf? v = r.world.classOf? v)
    (gets : GetsEigenclass t s v c e) : GetsEigenclass r s v c e := by
  have later := Moves.later moves
  have before : r.world.classOf? v = some c := same.symm.trans gets.before
  refine { gets with before, plain := ?_, fresh := ?_ }
  · rw [← later.isEigenclass (sound.hasClass_classOf? held before)]
    exact gets.plain
  · exact fun old => gets.fresh (later.hasClass old)

/-- A value that has got an eigenclass does not get another one. -/
theorem GetsEigenclass.not_again {t : Realm} {c d e f : ClassId}
    (gets : GetsEigenclass r s v c e) : ¬ GetsEigenclass s t v d f := by
  intro again
  have was := again.before
  rw [gets.after, Option.some.injEq] at was
  have plain := again.plain
  rw [← was, gets.kind] at plain
  cases plain

/-- So the one it has got stays. -/
theorem GetsEigenclass.move {t : Realm} {c e : ClassId} (sound : t.Sound)
    (held : t.Held v) (gets : GetsEigenclass r t v c e) (move : Move t s) :
    GetsEigenclass r s v c e := by
  have later := move.later
  rcases move.classOf?_cases sound held with same | ⟨d, f, again⟩
  · refine { gets with
      after := same.trans gets.after
      there := later.hasClass gets.there
      kind := ?_, above := ?_ }
    · rw [later.isEigenclass gets.there]
      exact gets.kind
    · rw [later.superclass? gets.there]
      exact gets.above
  · exact absurd again gets.not_again

/-- So moves in a row leave the class, or once give the value an
eigenclass. -/
theorem Moves.classOf?_cases (sound : r.Sound) (moves : Moves r s)
    (held : r.Held v) :
    s.world.classOf? v = r.world.classOf? v
      ∨ ∃ c e, GetsEigenclass r s v c e := by
  induction moves with
  | refl => exact .inl rfl
  | @tail t s moves move ih =>
      have soundHere := sound.moves moves
      have heldHere := held.mono (Moves.later moves) (Moves.mem_handed moves)
      rcases ih with same | ⟨c, e, gets⟩
      · rcases move.classOf?_cases soundHere heldHere with
          still | ⟨c, e, gets⟩
        · exact .inl (still.trans same)
        · exact .inr ⟨c, e, gets.of_moves sound moves held same⟩
      · exact .inr ⟨c, e, gets.move soundHere heldHere move⟩

theorem Moves.isSome_ownMethod? (moves : Moves r s)
    (h : (r.world.ownMethod? d name).isSome) :
    (s.world.ownMethod? d name).isSome := by
  induction moves with
  | refl => exact h
  | tail _ move ih => exact move.isSome_ownMethod? ih

/-- The chain of a value stays as it is, or it gets one new eigenclass in
front and from then on stays as it is. -/
theorem Moves.chainOf_cases (sound : r.Sound) (moves : Moves r s)
    (held : r.Held v) :
    s.world.chainOf v = r.world.chainOf v
      ∨ ∃ e, ¬ r.world.HasClass e
        ∧ s.world.chainOf v = e :: r.world.chainOf v
        ∧ s.world.HasClass e
        ∧ s.world.isEigenclass e = true
        ∧ ∀ t, Moves s t → t.world.chainOf v = s.world.chainOf v := by
  have keeps : ∀ {s t : Realm}, s.Sound → Moves s t → s.Held v →
      t.world.classOf? v = s.world.classOf? v →
        t.world.chainOf v = s.world.chainOf v := by
    intro s t sound moves held same
    unfold World.chainOf
    rw [same]
    cases hc : s.world.classOf? v with
    | none => rfl
    | some c =>
        exact (Moves.later moves).keepsClasses.ancestors
          (sound.hasClass_classOf? held hc)
  rcases moves.classOf?_cases sound held with same | ⟨c, e, gets⟩
  · exact .inl (keeps sound moves held same)
  · have hasClass := sound.hasClass_classOf? held gets.before
    have later := Moves.later moves
    refine .inr ⟨e, gets.fresh, ?_, gets.there, gets.kind,
      fun t moves' => ?_⟩
    · unfold World.chainOf
      rw [gets.after, gets.before]
      show s.world.ancestors e = e :: r.world.ancestors c
      rw [World.ancestors_of_superclass? gets.above,
        later.keepsClasses.ancestors hasClass]
    · have sound' := sound.moves moves
      have held' := held.mono later (Moves.mem_handed moves)
      rcases Moves.classOf?_cases sound' moves' held' with
        same | ⟨d, f, again⟩
      · exact keeps sound' moves' held' same
      · exact absurd again gets.not_again

/-- A name that means something on a value never stops to. -/
theorem Moves.isSome_resolve? (sound : r.Sound) (moves : Moves r s)
    (held : r.Held v) (h : (r.world.resolve? v name).isSome) :
    (s.world.resolve? v name).isSome := by
  rw [World.isSome_resolve?_iff] at h ⊢
  obtain ⟨d, mem, defines⟩ := h
  refine ⟨d, ?_, moves.isSome_ownMethod? defines⟩
  rcases moves.chainOf_cases sound held with same | ⟨e, -, chain, -⟩
  · rwa [same]
  · rw [chain]
    exact List.mem_cons_of_mem _ mem

-- ========================================================== once in a run

/-- How the chain of a value goes along a row of realms: it stays, or
from one of them on it is the chain that it was behind one eigenclass,
which none of the realms before that one had. -/
inductive GrowsInFront (run : Nat → Realm) (v : Value) : Prop
  | never
      (same : ∀ n, (run n).world.chainOf v = (run 0).world.chainOf v)
  | once (k : Nat) (e : ClassId)
      (before : ∀ n < k, (run n).world.chainOf v = (run 0).world.chainOf v
        ∧ ¬ (run n).world.HasClass e)
      (after : ∀ n ≥ k,
        (run n).world.chainOf v = e :: (run 0).world.chainOf v
          ∧ (run n).world.isEigenclass e = true)

/-- So it goes along moves. -/
theorem Sound.growsInFront {run : Nat → Realm} (sound : (run 0).Sound)
    (moves : ∀ {m n}, m ≤ n → Moves (run m) (run n))
    (held : (run 0).Held v) : GrowsInFront run v := by
  have soundAt : ∀ n, (run n).Sound := fun n =>
    sound.moves (moves (Nat.zero_le n))
  have heldAt : ∀ n, (run n).Held v := fun n =>
    held.mono (moves (Nat.zero_le n)).later (moves (Nat.zero_le n)).mem_handed
  by_cases changes :
      ∃ n, (run n).world.chainOf v ≠ (run 0).world.chainOf v
  · -- The first realm with another chain is the one that makes the change.
    let k := Nat.find changes
    have changed : (run k).world.chainOf v ≠ (run 0).world.chainOf v :=
      Nat.find_spec changes
    have before : ∀ n < k,
        (run n).world.chainOf v = (run 0).world.chainOf v := fun n hn =>
      not_not.1 (Nat.find_min changes hn)
    rcases (moves (Nat.zero_le k)).chainOf_cases sound held with
      same | ⟨e, -, chain, there, kind, stays⟩
    · exact absurd same changed
    · refine .once k e (fun n hn => ⟨before n hn, ?_⟩) fun n hn => ⟨?_, ?_⟩
      · have here := moves (Nat.le_of_lt hn)
        rcases here.chainOf_cases (soundAt n) (heldAt n) with
          same | ⟨f, fresh, chain', -⟩
        · exact absurd (same.trans (before n hn)) changed
        · rw [chain, before n hn, List.cons.injEq] at chain'
          rw [chain'.1]
          exact fresh
      · rw [stays _ (moves hn), chain]
      · rw [(moves hn).later.isEigenclass there]
        exact kind
  · exact .never fun n => not_not.1 fun h => changes ⟨n, h⟩

-- ============================================================ definitions

/-- Whether a change defines a name on a class: on the one that it is
given, or on the eigenclass that the value it is given is extended
with. -/
inductive Defines (r : Realm) : Change → ClassId → String → Prop
  | onClass (d : ClassId) (name : String) (method : Method) :
      Defines r (.defineMethod d name method) d name
  | onValue {v x : Value} {d : ClassId} {w : World}
      (hext : r.world.extend v = (.ok (x, d), w)) (name : String)
      (method : Method) :
      Defines r (.defineSingletonMethod v name method) d name

/-- Nor does a new eigenclass. -/
private theorem Sound.defines_of_extend (sound : r.Sound) (held : r.Held v)
    (h : ((r.world.extend v).2.ownMethod? d name).isSome) :
    (r.world.ownMethod? d name).isSome := by
  rcases sound.extend_cases held with
    ⟨-, fault, hext⟩ | ⟨e, -, -, hext⟩ | ⟨current, -, -, -, hext⟩
  · rwa [hext] at h
  · rwa [hext] at h
  · rw [hext, World.ownMethod?_newEigenclass] at h
    split at h
    · cases h
    · exact h

/-- What a class defines after a change it defined before, or the change
defines it. -/
theorem Sound.ownMethod?_after (sound : r.Sound) (allowed : r.Allows c)
    (h : ((r.after c).world.ownMethod? d name).isSome) :
    (r.world.ownMethod? d name).isSome ∨ r.Defines c d name := by
  cases c with
  | newClass key superclass => exact .inl (World.defines_of_newClass h)
  | newModule key => exact .inl (World.defines_of_newClass h)
  | defineClass key superclass =>
      refine .inl ?_
      change ((r.world.defineClass key superclass).2.ownMethod? d name).isSome
        at h
      unfold World.defineClass at h
      split at h
      · split at h
        · exact h
        · split at h <;> exact h
      · dsimp only at h
        split at h
        · exact h
        · exact World.defines_of_newClass h
  | defineModule key =>
      refine .inl ?_
      change ((r.world.defineModule key).2.ownMethod? d name).isSome at h
      unfold World.defineModule at h
      split at h
      · split at h <;> exact h
      · exact World.defines_of_newClass h
  | defineMethod e key method =>
      change ((r.world.defineMethod e key method).ownMethod? d name).isSome
        at h
      rw [World.ownMethod?_defineMethod allowed.1] at h
      split at h
      · rename_i here
        obtain ⟨rfl, rfl⟩ := here
        exact .inr (.onClass ..)
      · exact .inl h
  | extend v => exact .inl (sound.defines_of_extend allowed h)
  | defineSingletonMethod v key method =>
      have below : _ → (r.world.ownMethod? d name).isSome :=
        sound.defines_of_extend allowed.1
      change ((r.world.defineSingletonMethod v key method).2.ownMethod? d
        name).isSome at h
      unfold World.defineSingletonMethod at h
      rcases hext : r.world.extend v with ⟨fault | ⟨x, e⟩, w⟩
      · rw [hext] at h below
        exact .inl (below h)
      · rw [hext] at h below
        have there := (sound.extend_fresh allowed.1 hext).1
        dsimp only at h
        rw [World.ownMethod?_defineMethod there] at h
        split at h
        · rename_i here
          obtain ⟨rfl, rfl⟩ := here
          exact .inr (.onValue hext ..)
        · exact .inl (below h)
  | newObject | setIvar | newException | exceptionFor | newFunction
  | newScope | define | assign | bindArguments => exact .inl h

/-- A change at which a name starts to mean something on a value defines
that name on a class of its chain. -/
theorem Sound.defines_of_resolve? (sound : r.Sound) (allowed : r.Allows c)
    (held : r.Held v) (before : r.world.resolve? v name = none)
    (after : ((r.after c).world.resolve? v name).isSome) :
    ∃ d ∈ (r.after c).world.chainOf v, r.Defines c d name := by
  obtain ⟨d, mem, now⟩ := World.isSome_resolve?_iff.1 after
  rcases sound.ownMethod?_after allowed now with old | defines
  · -- The class was on the chain before, as it defined something then.
    have there := World.hasClass_of_ownMethod? old
    have was : d ∈ r.world.chainOf v := by
      rcases (moves_after sound allowed).chainOf_cases sound held with
        same | ⟨e, fresh, chain, -⟩
      · rwa [← same]
      · rw [chain] at mem
        refine (List.mem_cons.1 mem).resolve_left ?_
        rintro rfl
        exact fresh there
    have found := World.isSome_resolve?_iff.2 ⟨d, was, old⟩
    rw [before] at found
    cases found
  · exact ⟨d, mem, defines⟩

/-- Whether on the way of use from one realm to another a name is defined
on a class of a value's chain, by a change that is made while the name
means nothing on the value. -/
def DefinedOnTheWay (r s : Realm) (v : Value) (name : String) : Prop :=
  ∃ q c d, r.Reaches q ∧ q.Allows c ∧ (q.after c).Reaches s
    ∧ q.world.resolve? v name = none
    ∧ q.Defines c d name
    ∧ d ∈ (q.after c).world.chainOf v

/-- A name that has started to mean something on a value has been
defined. -/
theorem Sound.definedOnTheWay (sound : r.Sound) (reaches : r.Reaches s)
    (held : r.Held v) (before : r.world.resolve? v name = none)
    (after : (s.world.resolve? v name).isSome) :
    r.DefinedOnTheWay s v name := by
  have history : r.Reaches s
      ∧ (s.world.resolve? v name = none ∨ r.DefinedOnTheWay s v name) := by
    refine reaches.preserves (P := fun t => r.Reaches t
      ∧ (t.world.resolve? v name = none ∨ r.DefinedOnTheWay t v name))
      ?_ ⟨.refl, .inl before⟩
    rintro t c ⟨reaches, history⟩ allowed
    refine ⟨reaches.tail (.change allowed), ?_⟩
    rcases history with still | ⟨q, b, d, here, allows, there, defined⟩
    · have sound' := sound.reaches reaches
      have moves := sound.moves_of_reaches reaches
      have held' := held.mono (Moves.later moves) (Moves.mem_handed moves)
      refine or_iff_not_imp_left.2 fun now => ?_
      obtain ⟨d, mem, defines⟩ := sound'.defines_of_resolve? allowed held'
        still (Option.isSome_iff_ne_none.2 now)
      exact ⟨t, c, d, reaches, allowed, .refl, still, defines, mem⟩
    · exact .inr ⟨q, b, d, here, allows, there.tail (.change allowed),
        defined⟩
  refine history.2.resolve_left fun still => ?_
  rw [still] at after
  cases after

/-- Chains only grow, and only in front. From a reachable realm on, in
whatever use comes after: the chain of a class that is there stays; a
value without a class never gets one; in every row of realms that follow
one another the chain of a value stays, or at one point it gets one
eigenclass in front; a name that means something on a value goes on
meaning something; and a name that means nothing on it starts to only by
a change that defines this name on a class of the value's chain. -/
theorem chains_grow_in_front (reachable : r.Reachable) :
    (∀ s, r.Reaches s → ∀ c, r.world.HasClass c →
        s.world.ancestors c = r.world.ancestors c)
      ∧ ∀ v, r.Held v →
        (r.world.classOf? v = none → ∀ s, r.Reaches s →
          s.world.classOf? v = none)
        ∧ (∀ run : Nat → Realm, run 0 = r →
          (∀ n, (run n).Reaches (run (n + 1))) → GrowsInFront run v)
        ∧ ∀ name,
          ((r.world.resolve? v name).isSome → ∀ s, r.Reaches s →
            (s.world.resolve? v name).isSome)
          ∧ (r.world.resolve? v name = none →
            (∀ c, r.Allows c → ((r.after c).world.resolve? v name).isSome →
              ∃ d ∈ (r.after c).world.chainOf v, r.Defines c d name)
            ∧ ∀ s, r.Reaches s → (s.world.resolve? v name).isSome →
              r.DefinedOnTheWay s v name) := by
  have sound := sound_of_reachable reachable
  refine ⟨fun s reaches c there => ?_, fun v held => ⟨?_, ?_, ?_⟩⟩
  · have later := (sound.moves_of_reaches reaches).later
    exact later.keepsClasses.ancestors there
  · intro none s reaches
    rcases (sound.moves_of_reaches reaches).classOf?_cases sound held with
      same | ⟨c, e, gets⟩
    · rw [same, none]
    · have before := gets.before
      rw [none] at before
      cases before
  · rintro run rfl reaches
    have onwards : ∀ {m n}, m ≤ n → (run m).Reaches (run n) := by
      intro m n hmn
      induction hmn with
      | refl => exact .refl
      | step _ ih => exact ih.trans (reaches _)
    refine sound.growsInFront (fun {m n} hmn => ?_) held
    exact (sound.reaches (onwards (Nat.zero_le m))).moves_of_reaches
      (onwards hmn)
  · intro name
    refine ⟨fun found s reaches => ?_, fun before => ⟨?_, ?_⟩⟩
    · exact (sound.moves_of_reaches reaches).isSome_resolve? sound held found
    · exact fun c allowed => sound.defines_of_resolve? allowed held before
    · exact fun s reaches => sound.definedOnTheWay reaches held before

/-- The start, after a method of the main receiver alone has been
defined. -/
def greeting : Realm :=
  start.after (.defineSingletonMethod World.main "hi"
    (CoreClass.looks 0 .notNil))

/-- By that definition the chain of the main receiver grows once, and its
name begins to mean something there; what it knew before it still
knows. -/
theorem chains_grow_in_front_greeting :
    greeting.world.ancestors CoreClass.object.id
        = start.world.ancestors CoreClass.object.id
      ∧ greeting.world.classOf? (.builtin "puts" .printLine) = none
      ∧ GrowsInFront (fun n => if n = 0 then start else greeting) World.main
      ∧ (greeting.world.resolve? World.main "inspect").isSome = true
      ∧ ∃ d ∈ greeting.world.chainOf World.main,
        start.Defines (.defineSingletonMethod World.main "hi"
          (CoreClass.looks 0 .notNil)) d "hi" := by
  have main := sound_start.main
  have allowed : start.Allows (.defineSingletonMethod World.main "hi"
      (CoreClass.looks 0 .notNil)) := ⟨main, trivial⟩
  have reaches : start.Reaches greeting := .after allowed
  obtain ⟨chains, values⟩ := chains_grow_in_front (r := start) .refl
  obtain ⟨-, grows, names⟩ := values _ main
  refine ⟨chains _ reaches _ (core_start .object).1,
    (values _ (.builtin ..)).1 rfl _ reaches, grows _ rfl ?_,
    (names "inspect").1 rfl _ reaches, (names "hi").2 rfl |>.1 _ allowed rfl⟩
  intro n
  cases n with
  | zero => exact reaches
  | succ n => exact .refl

end Realm

end ObjectWorld
