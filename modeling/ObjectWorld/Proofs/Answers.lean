/-
What a world gives out is at hand.

Whatever is looked up in a sound realm, starting from what is at hand
there, is at hand again, and the classes, scopes and functions it leads
to are there. The same holds of what a query answers, and of what a
change replies, once the change is made.
-/
import ObjectWorld.Host
import ObjectWorld.Proofs.Sound

namespace ObjectWorld.Realm

variable {r s : Realm} {u v : Value} {c : ClassId} {args : List Value}

-- ======================================================= what is looked up

/-- The class of a handle at hand is there. -/
theorem Sound.hasClass_of_class? (sound : r.Sound) (h : r.Held v)
    {c : ClassId} (hc : v.class? = some c) : r.world.HasClass c := by
  have hbare := sound.held_bare h
  rw [Value.class?_eq_some_iff.1 hc, held_cls] at hbare
  exact hbare

/-- So is the class that a native is asked of. -/
theorem Sound.hasClass_of_classFrom (sound : r.Sound) (h : r.Held v)
    {expected : String} {c : ClassId}
    (hc : r.world.classFrom expected v = .ok c) : r.world.HasClass c :=
  sound.hasClass_of_class? h (World.classFrom_eq_ok_iff.1 hc)

/-- The items of an array at hand are at hand. -/
theorem Sound.held_of_itemsOf (sound : r.Sound) (h : r.Held v)
    {items : List Value} (hitems : r.world.itemsOf v = .ok items) :
    ∀ u ∈ items, r.Held u := by
  have hbare := sound.held_bare h
  unfold World.itemsOf at hitems
  split at hitems
  · rename_i harray
    cases hitems
    rw [harray, held_array] at hbare
    exact hbare
  · cases hitems

/-- The class that a user sees is there. -/
theorem Sound.hasClass_nominal (sound : r.Sound) (h : r.Held v)
    {c : ClassId} (hc : r.world.nominalClassOf? v = some c) :
    r.world.HasClass c := by
  obtain ⟨d, hd, rfl⟩ := Option.map_eq_some_iff.1 hc
  exact World.hasClass_nominal (sound.hasClass_classOf? h hd)

/-- What a name means in a scope is at hand. -/
theorem Sound.held_of_lookup? (sound : r.Sound) {here : ScopeId}
    {name : String} (h : r.world.lookup? here name = some v) :
    r.Held v := by
  unfold World.lookup? Forest.findOnPath? at h
  obtain ⟨t, -, ht⟩ := List.exists_of_findSome?_eq_some h
  obtain ⟨table, htable, hget⟩ := Option.bind_eq_some_iff.1 ht
  have hbinding : (r.world.bindings t).get? name = some v := by
    unfold World.bindings
    rw [htable]
    exact hget
  exact sound.binding hbinding

/-- The object of a value at hand is there. -/
theorem Sound.hasObject_of_object? (sound : r.Sound) (h : r.Held v)
    {o : ObjectId} (ho : v.object? = some o) : r.world.HasObject o := by
  have hbare := sound.held_bare h
  rw [Value.object?_eq_some_iff.1 ho, held_object] at hbare
  exact hbare

/-- The function of a value at hand is there. -/
theorem Sound.hasFunction_of_function? (sound : r.Sound) (h : r.Held v)
    {f : FunctionId} {visibility : Visibility}
    (hf : v.function? = some (f, visibility)) : r.world.HasFunction f := by
  have hbare := sound.held_bare h
  rw [Value.function?_eq_some_iff.1 hf, held_function] at hbare
  exact hbare

/-- A method that is found along a chain is known. -/
theorem Sound.knows_of_resolveIn? (sound : r.Sound) {name : String}
    {found : Resolution} (h : r.world.resolveIn? c name = some found) :
    r.Knows found.method :=
  sound.method (World.ownMethod?_of_resolveIn? h)

/-- The class that a method of a value at hand is found in is there. -/
theorem Sound.hasClass_of_resolve? (sound : r.Sound) (h : r.Held v)
    {name : String} {found : Resolution}
    (hfound : r.world.resolve? v name = some found) :
    r.world.HasClass found.owner := by
  obtain ⟨d, hd, hfound⟩ := Option.bind_eq_some_iff.1 hfound
  have there := sound.hasClass_classOf? h hd
  exact there.of_mem_ancestors (World.owner_mem_ancestors hfound)

/-- What is under a return wrapper at hand is at hand. -/
theorem Held.peelReturn (h : r.Held v) : r.Held v.peelReturn := by
  unfold Value.peelReturn
  split
  · cases h with
    | returned h => exact h
  · exact h

-- ============================================================ the outcomes

/-- An outcome that is a fault or a value at hand. -/
def Good (r : Realm) (outcome : Outcome) : Prop :=
  ∀ v, outcome = .ok v → r.Held v

/-- A value at hand is a good outcome. -/
theorem good_ok (h : r.Held v) : r.Good (.ok v) := by
  intro u hu
  cases hu
  exact h

/-- So is any fault: it names things by their texts. -/
theorem good_error {fault : Fault} : r.Good (.error fault) := by
  intro u hu
  cases hu

/-- What goes on from a result is good if it is so from all that the result
may hold. -/
theorem good_bind {α : Type} {x : Except Fault α} {f : α → Outcome}
    (h : ∀ a, x = .ok a → r.Good (f a)) : r.Good (x >>= f) := by
  cases x with
  | error fault => exact good_error
  | ok a => exact h a rfl

/-- An integer is good in any realm, and so is its overflow. -/
theorem good_exactly (operation : String) (n : Int) :
    r.Good (exactly operation n) := by
  unfold exactly
  split
  · exact good_ok (.int _)
  · exact good_error

-- ============================================================= the answers

/-- What a query answers is at hand. -/
theorem Sound.good_answer (sound : r.Sound) (query : Query)
    (hself : r.Held v) (hargs : ∀ u ∈ args, r.Held u) :
    r.Good (r.world.answer query v args) := by
  cases query with
  | classOf =>
      refine good_ok ?_
      cases hc : r.world.nominalClassOf? v with
      | none => exact .nil
      | some c => exact .cls (sound.hasClass_nominal hself hc)
  | methods =>
      refine good_ok (.array ?_)
      intro u hu
      obtain ⟨name, -, rfl⟩ := List.mem_map.1 hu
      exact .symbol name
  | firstItem =>
      refine good_bind fun items hitems => good_ok ?_
      have held := sound.held_of_itemsOf hself hitems
      cases hfirst : items.head? with
      | none => exact .nil
      | some u => exact held u (List.mem_of_head? hfirst)
  | lastItem =>
      refine good_bind fun items hitems => good_ok ?_
      have held := sound.held_of_itemsOf hself hitems
      cases hlast : items.getLast? with
      | none => exact .nil
      | some u => exact held u (List.mem_of_getLast? hlast)
  | append =>
      refine good_bind fun items hitems => good_ok (.array ?_)
      have held := sound.held_of_itemsOf hself hitems
      intro u hu
      rcases List.mem_append.1 hu with hu | hu
      · exact held u hu
      · exact hargs u hu
  | superclass =>
      refine good_bind fun c hc => good_ok ?_
      have there := sound.hasClass_of_classFrom hself hc
      cases habove : r.world.superclassSkippingModules? c with
      | none => exact .nil
      | some d =>
          have hmem := List.mem_of_mem_tail (List.mem_of_find?_eq_some habove)
          exact .cls (there.of_mem_ancestors hmem)
  | notNil => exact good_ok (.bool _)
  | isNil => exact good_ok (.bool _)
  | inspect => exact good_ok (.text _)
  | emptyText => exact good_ok (.text _)
  | require =>
      exact good_bind fun _ _ => good_bind fun _ _ => good_ok (.required _)
  | raise => exact good_bind fun _ _ => good_error
  | respondTo =>
      exact good_bind fun _ _ => good_bind fun _ _ => good_ok (.bool _)
  | equal => exact good_bind fun _ _ => good_ok (.bool _)
  | integerEqual => exact good_bind fun _ _ => good_ok (.bool _)
  | less => exact good_bind fun _ _ => good_ok (.bool _)
  | greater => exact good_bind fun _ _ => good_ok (.bool _)
  | add => exact good_bind fun (_, _) _ => good_exactly _ _
  | subtract => exact good_bind fun (_, _) _ => good_exactly _ _
  | multiply => exact good_bind fun (_, _) _ => good_exactly _ _
  | divide =>
      refine good_bind fun operands _ => ?_
      show r.Good (divideDown operands.1 operands.2)
      unfold divideDown
      split
      · exact good_error
      · split
        · exact good_error
        · split
          · exact good_exactly _ _
          · exact good_ok (.int _)
  | concat =>
      exact good_bind fun _ _ => good_bind fun _ _ => good_bind fun _ _ =>
        good_ok (.text _)
  | textSize => exact good_bind fun _ _ => good_exactly _ _
  | itemCount => exact good_bind fun _ _ => good_exactly _ _
  | textOfText => exact good_bind fun _ _ => good_ok (.text _)
  | symbolOfText => exact good_bind fun _ _ => good_ok (.symbol _)
  | textOfSymbol => exact good_bind fun _ _ => good_ok (.text _)
  | symbolOfSymbol => exact good_bind fun _ _ => good_ok (.symbol _)
  | message => exact good_bind fun _ _ => good_ok (.text _)
  | className => exact good_bind fun _ _ => good_ok (.text _)

-- ============================================================= the replies

/-- What a change gives out is at hand after it. -/
theorem Sound.held_of_given (sound : r.Sound) {c : Change}
    (allowed : r.Allows c) (h : v ∈ given c (c.perform r.world).1) :
    (r.after c).Held v := by
  have mem : v ∈ (r.after c).handed := List.mem_append_left _ h
  obtain ⟨inner, e, rfl, -⟩ := (sound.after allowed).handed v mem
  exact .extended mem

/-- A class that has been defined is there. -/
theorem Sound.hasClass_of_defineClass (sound : r.Sound) {name : String}
    {superclass : Option ClassId}
    (h : (r.world.defineClass name superclass).1 = .ok c) :
    (r.world.defineClass name superclass).2.HasClass c := by
  unfold World.defineClass at h ⊢
  split
  · rename_i d hd
    have there := (sound.registered hd).1
    rw [hd] at h
    dsimp only at h
    split at h
    · cases h
    · split at h
      · cases h
      · cases h
        rename_i hmodule hmismatch
        rw [if_neg hmodule, if_neg hmismatch]
        exact there
  · rename_i hnone
    rw [hnone] at h
    dsimp only at h ⊢
    split at h
    · cases h
    · cases h
      rename_i hmodule
      rw [if_neg hmodule]
      exact World.hasClass_newClass.2 (.inr rfl)

/-- A module that is defined is there, new or from before. -/
theorem Sound.hasClass_of_defineModule (sound : r.Sound) {name : String}
    (h : (r.world.defineModule name).1 = .ok c) :
    (r.world.defineModule name).2.HasClass c := by
  unfold World.defineModule at h ⊢
  split
  · rename_i d hd
    have there := (sound.registered hd).1
    rw [hd] at h
    dsimp only at h
    split at h
    · cases h
      rename_i hmodule
      rw [if_pos hmodule]
      exact there
    · cases h
  · rename_i hnone
    rw [hnone] at h
    cases h
    exact World.hasClass_newClass.2 (.inr rfl)

/-- The eigenclass that extending answers with is there. -/
theorem Sound.hasClass_of_extend (sound : r.Sound) (held : r.Held v)
    {x : Value} (h : (r.world.extend v).1 = .ok (x, c)) :
    (r.world.extend v).2.HasClass c := by
  rcases sound.extend held with ⟨fault, hext⟩ | ⟨e, w, hext, there, -⟩
  · rw [hext] at h
    cases h
  · rw [hext] at h ⊢
    cases h
    exact there

end ObjectWorld.Realm
