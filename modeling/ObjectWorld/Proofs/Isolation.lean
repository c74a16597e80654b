/-
When an eigenclass serves more than one identity.

An eigenclass is made for one identity, and extending never records it of
another. But an eigenclass is also a class: an object can be made of it,
or of a class below it. The class of an object made of an eigenclass is
an eigenclass already, so extending such an object uses it again, and the
two go through one eigenclass from then on. The same holds below: what is
defined on the eigenclass is found from there.

Nothing else breaks the isolation of two identities (`isolation_exact`).
If neither is an object whose class is an eigenclass or stands below one,
they never share an eigenclass, and a method defined on one alone changes
nothing on the other.
-/
import ObjectWorld.Proofs.Sharing

namespace ObjectWorld

/-- Whether an identity is an object that was made of a class. -/
def World.MadeOf (w : World) (i : Identity) (c : ClassId) : Prop :=
  ∃ o, i = .object o ∧ (w.objectInfo o).cls = c

namespace Realm

variable {r : Realm} {u v : Value} {i j : Identity} {e : ClassId}

-- ============================================================= who shares

/-- The own class of an identity is an eigenclass only if the identity is
an object that was made of it. -/
theorem Sound.ownClass_eq_iff (sound : r.Sound)
    (kind : r.world.isEigenclass e = true) :
    r.world.ownClass i = e ↔ r.world.MadeOf i e := by
  constructor
  · intro h
    cases i with
    | object o => exact ⟨o, rfl, h⟩
    | cls c =>
        have plain : r.world.isEigenclass (r.world.ownClass (.cls c))
            = false := by
          show r.world.isEigenclass (if r.world.isModule c then _ else _)
            = false
          split
          · exact (sound.core .module).2
          · exact (sound.core .cls).2
        rw [h, kind] at plain
        cases plain
  · intro h
    obtain ⟨o, rfl, h⟩ := h
    exact h

/-- An eigenclass is the class of an identity exactly if it is on record
for it or the identity was made of it. -/
theorem Sound.classOf?_value_iff (sound : r.Sound)
    (kind : r.world.isEigenclass e = true) :
    r.world.classOf? i.value = some e
      ↔ r.world.singleton? i = some e ∨ r.world.MadeOf i e := by
  rw [World.classOf?_value, Option.some.injEq,
    ← sound.ownClass_eq_iff kind]
  cases hs : r.world.singleton? i with
  | none => simp
  | some f =>
      have plain := (sound.singleton hs).2.2.2
      constructor
      · intro h
        exact .inl (congrArg some h)
      · intro h
        rcases h with h | h
        · exact Option.some.inj h
        · rw [h, kind] at plain
          cases plain

/-- Two identities share an eigenclass exactly if one of them was made of
it and the other was too or has it on record. -/
theorem Sound.shared_iff (sound : r.Sound) (hij : i ≠ j)
    (kind : r.world.isEigenclass e = true) :
    r.world.classOf? i.value = some e ∧ r.world.classOf? j.value = some e
      ↔ r.world.MadeOf i e
          ∧ (r.world.MadeOf j e ∨ r.world.singleton? j = some e)
        ∨ r.world.singleton? i = some e ∧ r.world.MadeOf j e := by
  rw [sound.classOf?_value_iff kind, sound.classOf?_value_iff kind]
  constructor
  · intro h
    rcases h with ⟨hi | hi, hj | hj⟩
    · exact absurd (sound.distinct hi hj) hij
    · exact .inr ⟨hi, hj⟩
    · exact .inl ⟨hi, .inr hj⟩
    · exact .inl ⟨hi, .inl hj⟩
  · intro h
    rcases h with ⟨hi, hj | hj⟩ | ⟨hi, hj⟩
    · exact ⟨.inr hi, .inr hj⟩
    · exact ⟨.inr hi, .inl hj⟩
    · exact ⟨.inl hi, .inr hj⟩

-- ======================================================== who sees a method

/-- A definition changes what some name finds on a value exactly if the
search for its own name comes that far and does not find the same method
there already. -/
theorem changes_iff_of_defineMethod {w : World} (there : w.HasClass e)
    (name : String) (method : Method) (u : Value) :
    (∃ key, (w.defineMethod e name method).resolve? u key
        ≠ w.resolve? u key)
      ↔ ∃ d, w.classOf? u = some d ∧ w.SearchReaches d e name
        ∧ w.ownMethod? e name ≠ some method := by
  unfold World.resolve?
  rw [World.classOf?_defineMethod]
  cases hd : w.classOf? u with
  | none => simp
  | some d =>
      constructor
      · intro h
        obtain ⟨key, hkey⟩ := h
        change (w.defineMethod e name method).resolveIn? d key
          ≠ w.resolveIn? d key at hkey
        rw [World.resolveIn?_defineMethod there] at hkey
        split at hkey
        · rename_i hreach
          obtain ⟨rfl, hreach⟩ := hreach
          refine ⟨d, rfl, hreach, fun hsame => hkey ?_⟩
          rw [hreach.resolveIn?.2 hsame]
        · exact absurd rfl hkey
      · intro h
        obtain ⟨_, heq, hreach, hnew⟩ := h
        cases heq
        refine ⟨name, fun hsame => hnew ?_⟩
        change (w.defineMethod e name method).resolveIn? d name
          = w.resolveIn? d name at hsame
        rw [World.resolveIn?_defineMethod there,
          if_pos ⟨rfl, hreach⟩] at hsame
        exact hreach.resolveIn?.1 hsame.symm

/-- A definition on a new eigenclass of one identity changes nothing on
another. -/
theorem Sound.resolve?_newEigenclass (sound : r.Sound) (hij : i ≠ j)
    (hv : r.Held v) (hu : r.Held u)
    (hi : v.identity? = some i) (hj : u.identity? = some j)
    {current : ClassId} (hbare : r.world.classOf? v.bare = some current)
    (plain : r.world.isEigenclass current = false)
    (name : String) (method : Method) (key : String) :
    ((r.world.newEigenclass v.bare current).2.defineMethod
        ⟨r.world.classes.size⟩ name method).resolve? u key
      = r.world.resolve? u key := by
  have move := Move.extend (sound.held_bare hv) v.bare_bare hbare plain
  have cls : (r.world.newEigenclass v.bare current).2.classOf? u
      = r.world.classOf? u := by
    have before := sound.classOf?_eq hu hj
    have after := (sound.move move).classOf?_eq (move.held hu) hj
    rw [before]
    refine after.trans ?_
    show (r.world.newEigenclass v.bare current).2.classOf? j.value = _
    rw [Value.identity?_eq_some.1 hi]
    exact World.classOf?_newEigenclass hij.symm
      (sound.has_identity hv hi) (sound.has_identity hu hj) current
  unfold World.resolve?
  rw [World.classOf?_defineMethod, cls]
  cases hd : r.world.classOf? u with
  | none => rfl
  | some d =>
      have there := sound.hasClass_classOf? hu hd
      show World.resolveIn? _ d key = r.world.resolveIn? d key
      rw [World.resolveIn?_defineMethod
          (World.hasClass_newEigenclass.2 (.inr rfl)),
        if_neg, World.resolveIn?_newEigenclass there]
      intro h
      obtain ⟨-, hmem, -⟩ := h
      rw [World.ancestors_newEigenclass there] at hmem
      exact World.ne_fresh (there.of_mem_ancestors hmem) rfl

/-- What a method defined on one identity alone changes on another: it
must go into an eigenclass that was there, and the search from the other
must come that far. -/
theorem Sound.changes_iff (sound : r.Sound) (hij : i ≠ j)
    (hv : r.Held v) (hu : r.Held u)
    (hi : v.identity? = some i) (hj : u.identity? = some j)
    (name : String) (method : Method) :
    (∃ key, (r.world.defineSingletonMethod v name method).2.resolve? u key
        ≠ r.world.resolve? u key)
      ↔ ∃ e d, r.world.classOf? v = some e
        ∧ r.world.isEigenclass e = true
        ∧ r.world.classOf? u = some d
        ∧ r.world.SearchReaches d e name
        ∧ r.world.ownMethod? e name ≠ some method := by
  unfold World.defineSingletonMethod
  rcases sound.extend_cases hv with
    ⟨hnone, -⟩ | ⟨e, cls, extension, hext⟩
      | ⟨current, cls, hbare, plain, hext⟩
  · rw [sound.classOf?_eq hv hi, World.classOf?_value] at hnone
    cases hnone
  · rw [hext]
    rw [changes_iff_of_defineMethod extension.there]
    constructor
    · intro h
      obtain ⟨d, hd⟩ := h
      exact ⟨e, d, cls, extension.kind, hd⟩
    · intro h
      obtain ⟨f, d, hf, -, hd⟩ := h
      rw [cls, Option.some.injEq] at hf
      subst hf
      exact ⟨d, hd⟩
  · rw [hext]
    constructor
    · intro h
      obtain ⟨key, hkey⟩ := h
      exact absurd (sound.resolve?_newEigenclass hij hv hu hi hj hbare plain
        name method key) hkey
    · intro h
      obtain ⟨e, -, he, kind, -⟩ := h
      rw [cls, Option.some.injEq] at he
      rw [← he, plain] at kind
      cases kind

-- ============================================================== isolation

/-- Whether an identity keeps clear of eigenclasses: if it is an object,
its own class is none and stands below none. -/
def Clear (r : Realm) (i : Identity) : Prop :=
  ∀ o, i = .object o →
    ∀ c ∈ r.world.ancestors (r.world.objectInfo o).cls,
      r.world.isEigenclass c = false

/-- Every place before the end of the core classes is one of theirs. -/
theorem exists_core (k : Fin CoreClass.all.length) :
    ∃ core : CoreClass, core.id.index = k := by
  refine ⟨CoreClass.all[k], ?_⟩
  revert k
  decide

/-- No eigenclass stands on the chain of the own class of an identity that
keeps clear of them. -/
theorem Sound.plain_of_clear (sound : r.Sound) (clear : r.Clear i)
    {c : ClassId} (h : c ∈ r.world.ancestors (r.world.ownClass i)) :
    r.world.isEigenclass c = false := by
  have core : ∀ d : CoreClass, c ∈ r.world.ancestors d.id →
      r.world.isEigenclass c = false := by
    intro d hd
    have hle := World.index_le_of_mem_ancestors hd
    have hlt : d.id.index < CoreClass.all.length := by
      cases d <;> decide
    obtain ⟨above, habove⟩ :=
      exists_core ⟨c.index, Nat.lt_of_le_of_lt hle hlt⟩
    have hc : above.id = c := congrArg Ref.mk habove
    rw [← hc]
    exact (sound.core above).2
  cases i with
  | object o => exact clear o rfl c h
  | cls d =>
      unfold World.ownClass at h
      dsimp only at h
      split at h
      · exact core .module h
      · exact core .cls h

theorem Sound.not_madeOf_of_clear (sound : r.Sound) (clear : r.Clear i)
    (kind : r.world.isEigenclass e = true) : ¬ r.world.MadeOf i e := by
  intro made
  have plain := sound.plain_of_clear clear (World.mem_ancestors_self ..)
  rw [(sound.ownClass_eq_iff kind).2 made, kind] at plain
  cases plain

/-- Two identities that keep clear of eigenclasses share none. -/
theorem Sound.not_shared_of_clear (sound : r.Sound) (hij : i ≠ j)
    (hi : r.Clear i) (hj : r.Clear j)
    (kind : r.world.isEigenclass e = true) :
    ¬ (r.world.classOf? i.value = some e
      ∧ r.world.classOf? j.value = some e) := by
  rw [sound.shared_iff hij kind]
  intro shared
  rcases shared with ⟨made, -⟩ | ⟨-, made⟩
  · exact sound.not_madeOf_of_clear hi kind made
  · exact sound.not_madeOf_of_clear hj kind made

/-- Of two identities that keep clear of eigenclasses, the eigenclass of
one is not on the chain of the other. -/
theorem Sound.not_mem_ancestors_of_clear (sound : r.Sound) (hij : i ≠ j)
    (hi : r.Clear i) (hj : r.Clear j)
    (kind : r.world.isEigenclass e = true) {d : ClassId}
    (he : r.world.classOf? i.value = some e)
    (hd : r.world.classOf? j.value = some d) :
    e ∉ r.world.ancestors d := by
  intro hmem
  have own : e ∉ r.world.ancestors (r.world.ownClass j) := by
    intro h
    rw [sound.plain_of_clear hj h] at kind
    cases kind
  have hclass := hd
  rw [World.classOf?_value, Option.some.injEq] at hclass
  cases hs : r.world.singleton? j with
  | none =>
      rw [hs, Option.getD_none] at hclass
      rw [← hclass] at hmem
      exact own hmem
  | some f =>
      rw [hs, Option.getD_some] at hclass
      subst hclass
      have above := (sound.singleton hs).2.2.1
      rw [World.ancestors_of_superclass? above] at hmem
      rcases List.mem_cons.1 hmem with rfl | hmem
      · exact sound.not_shared_of_clear hij hi hj kind ⟨he, hd⟩
      · exact own hmem

/-- For two identities of a reachable realm: which eigenclasses they
share, and when a method defined on the one alone changes what a name
finds on the other. Two that keep clear of eigenclasses are isolated from
each other. -/
theorem isolation_exact (reachable : r.Reachable) (hij : i ≠ j)
    (hv : r.Held v) (hu : r.Held u)
    (hi : v.identity? = some i) (hj : u.identity? = some j) :
    (∀ e, r.world.isEigenclass e = true →
      (r.world.classOf? v = some e ∧ r.world.classOf? u = some e
        ↔ r.world.MadeOf i e
            ∧ (r.world.MadeOf j e ∨ r.world.singleton? j = some e)
          ∨ r.world.singleton? i = some e ∧ r.world.MadeOf j e))
      ∧ (∀ name method,
        (∃ key,
            (r.world.defineSingletonMethod v name method).2.resolve? u key
              ≠ r.world.resolve? u key)
          ↔ ∃ e d, r.world.classOf? v = some e
            ∧ r.world.isEigenclass e = true
            ∧ r.world.classOf? u = some d
            ∧ r.world.SearchReaches d e name
            ∧ r.world.ownMethod? e name ≠ some method)
      ∧ (r.Clear i → r.Clear j →
        (∀ e, r.world.isEigenclass e = true →
          ¬ (r.world.classOf? v = some e ∧ r.world.classOf? u = some e))
        ∧ ∀ name method key,
          (r.world.defineSingletonMethod v name method).2.resolve? u key
            = r.world.resolve? u key) := by
  have sound := sound_of_reachable reachable
  have changes := sound.changes_iff hij hv hu hi hj
  rw [sound.classOf?_eq hv hi, sound.classOf?_eq hu hj] at *
  refine ⟨fun e kind => sound.shared_iff hij kind, changes, ?_⟩
  intro hclear_i hclear_j
  refine ⟨fun e kind =>
    sound.not_shared_of_clear hij hclear_i hclear_j kind, ?_⟩
  intro name method key
  refine Decidable.byContradiction fun hkey => ?_
  obtain ⟨e, d, he, kind, hd, hreach, -⟩ := (changes name method).1
    ⟨key, hkey⟩
  exact sound.not_mem_ancestors_of_clear hij hclear_i hclear_j kind he hd
    hreach.1

-- =========================================== an object made of an eigenclass

/-- A new object, once it has been extended. -/
def extendedObject : Realm :=
  (start.after (.newObject CoreClass.object.id)).after
    (.extend (.object ⟨1⟩))

theorem reachable_extendedObject : extendedObject.Reachable := by
  have there : start.world.HasClass CoreClass.object.id := by decide
  refine .trans (.after (c := .newObject _) there) (.after ?_)
  exact .object (by decide)

/-- Another object, made of the eigenclass of that one. -/
def madeOfEigenclass : Realm :=
  extendedObject.after (.newObject ⟨23⟩)

/-- The two objects share the eigenclass, and a method defined on the
second alone is found on the first. -/
theorem shared_with_instance :
    madeOfEigenclass.Reachable
      ∧ madeOfEigenclass.Held (.object ⟨1⟩)
      ∧ madeOfEigenclass.Held (.object ⟨2⟩)
      ∧ madeOfEigenclass.world.isEigenclass ⟨23⟩ = true
      ∧ madeOfEigenclass.world.classOf? (.object ⟨1⟩) = some ⟨23⟩
      ∧ madeOfEigenclass.world.classOf? (.object ⟨2⟩) = some ⟨23⟩
      ∧ madeOfEigenclass.world.resolve? (.object ⟨1⟩) "hi" = none
      ∧ (madeOfEigenclass.world.defineSingletonMethod (.object ⟨2⟩) "hi"
            (CoreClass.looks 0 .notNil)).2.resolve? (.object ⟨1⟩) "hi"
        = some ⟨⟨23⟩, CoreClass.looks 0 .notNil⟩ := by
  refine ⟨?_, .object (by decide), .object (by decide), rfl, rfl, rfl,
    by decide, by decide⟩
  have there : extendedObject.world.HasClass ⟨23⟩ := by decide
  exact reachable_extendedObject.trans (.after (c := .newObject _) there)

/-- The extended object and the main receiver keep clear of eigenclasses:
what is defined on the object alone is not found on the main receiver. -/
theorem isolation_exact_of_extendedObject :
    extendedObject.Clear (.object ⟨1⟩)
      ∧ (∀ e, extendedObject.world.isEigenclass e = true →
        ¬ (extendedObject.world.classOf? (.object ⟨1⟩) = some e
          ∧ extendedObject.world.classOf? World.main = some e))
      ∧ ∀ name method key,
        (extendedObject.world.defineSingletonMethod (.object ⟨1⟩) name
            method).2.resolve? World.main key
          = extendedObject.world.resolve? World.main key := by
  have clear : ∀ index < 2,
      extendedObject.Clear (.object ⟨index⟩) := by
    intro index hindex o ho
    cases ho
    have : (extendedObject.world.objectInfo ⟨index⟩).cls
        = CoreClass.object.id := by
      match index, hindex with
      | 0, _ => rfl
      | 1, _ => rfl
    rw [this]
    decide
  refine ⟨clear 1 (by decide), ?_⟩
  exact (isolation_exact reachable_extendedObject
    (by decide : Identity.object ⟨1⟩ ≠ .object ⟨0⟩)
    (.object (by decide)) (.object (by decide)) rfl rfl).2.2
    (clear 1 (by decide)) (clear 0 (by decide))

end Realm

end ObjectWorld
