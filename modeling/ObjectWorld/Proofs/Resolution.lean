/-
What a definition does to method resolution.

On a class that is there, the equation for a definition holds in any
world: the name leads to the new method from the classes whose search
comes as far, and nothing else changes. A method defined on one value
alone goes into the eigenclass of the value. If that is a new one, the
definition is made in the world in which it stands empty, and that world
differs from the one before in nothing that a search from an older class
could find.
-/
import ObjectWorld.Proofs.Sound

namespace ObjectWorld.Realm

variable {r : Realm} {v : Value}

/-- A value that can be extended is given an eigenclass that is there
already, and then nothing changes, or a new and empty one, and then no
search from an older class changes. -/
theorem Sound.extend_fresh (sound : r.Sound) (held : r.Held v) {x : Value}
    {c : ClassId} {w : World} (hext : r.world.extend v = (.ok (x, c), w)) :
    w.HasClass c
      ∧ (w = r.world
        ∨ ¬ r.world.HasClass c
          ∧ (∀ key, w.ownMethod? c key = none)
          ∧ ∀ d, r.world.HasClass d → ∀ key,
            w.resolveIn? d key = r.world.resolveIn? d key) := by
  rcases sound.extend_cases held with
    ⟨-, fault, herror⟩ | ⟨e, -, extension, hok⟩ | ⟨current, -, -, -, hok⟩
  · rw [herror] at hext
    cases hext
  · rw [hok] at hext
    cases hext
    exact ⟨extension.there, .inl rfl⟩
  · rw [hok] at hext
    cases hext
    refine ⟨World.hasClass_newEigenclass.2 (.inr rfl),
      .inr ⟨Nat.lt_irrefl _, ?_, ?_⟩⟩
    · intro key
      rw [World.ownMethod?_newEigenclass, if_pos rfl]
    · intro d there key
      exact World.resolveIn?_newEigenclass there ..

/-- In every reachable realm a class has one chain, which ends and meets
no class twice, and a definition has the one effect on what a search
finds: on a class, and on one value alone, where the state before is the
one in which the value's eigenclass is there. -/
theorem definition_exact (reachable : r.Reachable) :
    (∀ c l, r.world.Walk c l ↔ l = r.world.ancestors c)
      ∧ (∀ c, (r.world.ancestors c).Nodup)
      ∧ (∀ c name method, r.world.HasClass c → ∀ d key,
        (r.world.defineMethod c name method).resolveIn? d key
          = if key = name ∧ r.world.SearchReaches d c name
            then some { owner := c, method }
            else r.world.resolveIn? d key)
      ∧ ∀ v name method x c w, r.Held v →
        r.world.extend v = (.ok (x, c), w) →
        (w = r.world
            ∨ ¬ r.world.HasClass c
              ∧ (∀ key, w.ownMethod? c key = none)
              ∧ ∀ d, r.world.HasClass d → ∀ key,
                w.resolveIn? d key = r.world.resolveIn? d key)
          ∧ (r.world.defineSingletonMethod v name method).1 = .ok x
          ∧ ∀ d key,
            (r.world.defineSingletonMethod v name method).2.resolveIn? d key
              = if key = name ∧ w.SearchReaches d c name
                then some { owner := c, method }
                else w.resolveIn? d key := by
  have sound := sound_of_reachable reachable
  refine ⟨fun c l => World.walk_iff, r.world.nodup_ancestors, ?_, ?_⟩
  · intro c name method there d key
    exact World.resolveIn?_defineMethod there name method d key
  · intro v name method x c w held hext
    obtain ⟨there, hfresh⟩ := sound.extend_fresh held hext
    unfold World.defineSingletonMethod
    rw [hext]
    refine ⟨hfresh, rfl, fun d key => ?_⟩
    exact World.resolveIn?_defineMethod there name method d key

/-- At the start: a method defined on Object is found from Integer, and
one defined on the main receiver alone is found from its eigenclass. -/
theorem definition_exact_start :
    (start.world.ancestors CoreClass.integer.id).Nodup
      ∧ (start.world.defineMethod CoreClass.object.id "hi"
            (CoreClass.looks 0 .notNil)).resolveIn? CoreClass.integer.id "hi"
        = some ⟨CoreClass.object.id, CoreClass.looks 0 .notNil⟩
      ∧ (start.world.defineSingletonMethod World.main "hi"
            (CoreClass.looks 0 .notNil)).2.resolveIn? ⟨23⟩ "hi"
        = some ⟨⟨23⟩, CoreClass.looks 0 .notNil⟩ := by
  obtain ⟨-, nodup, onClass, onValue⟩ := definition_exact (r := start) .refl
  refine ⟨nodup _, ?_, ?_⟩
  · rw [onClass _ _ _ (by decide), if_pos]
    exact ⟨rfl, by decide⟩
  · obtain ⟨-, -, effect⟩ := onValue World.main "hi"
      (CoreClass.looks 0 .notNil) (.extended World.main ⟨23⟩) ⟨23⟩ _
      sound_start.main rfl
    rw [effect, if_pos]
    exact ⟨rfl, by decide⟩

end ObjectWorld.Realm
