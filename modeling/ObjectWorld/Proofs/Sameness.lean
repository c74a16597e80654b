/-
When two values are the same.

Comparing looks through wrappers at every level and, of functions and
builtins, only at what identifies them. What is left of a value after that
is its essence, and two values are the same exactly if they have the same
essence (`same_iff`). So sameness is an equivalence, and it does not see
how a value or anything inside it is wrapped (`Rewraps`).

What can be observed of a value is observed of its essence as well: the
text, the truth, the payload of an integer or a text. The class that a
user sees needs more than the value. An extended handle names its class
itself, and that this is the class of the bare handle again, one
eigenclass further down, is a law of all use.
-/
import ObjectWorld.Proofs.Appearance
import ObjectWorld.Proofs.Sharing

namespace ObjectWorld

namespace Value

variable {u v : Value}

-- =========================================================== the essence

mutual

/-- What counts of a value when it is compared: no wrappers at any level,
of a function its identity, and of a builtin its name. -/
def essence : Value → Value
  | .selfRef inner => inner.essence
  | .extended inner _ => inner.essence
  | .returned inner => .returned inner.essence
  | .array items => .array (essences items)
  | .function f _ => .function f .isPublic
  | .builtin name _ => .builtin name .printLine
  | v => v

/-- What counts of some values, one by one. -/
def essences : List Value → List Value
  | [] => []
  | v :: rest => v.essence :: essences rest

end

theorem essences_eq_map (items : List Value) :
    essences items = items.map essence := by
  induction items with
  | nil => rfl
  | cons v rest ih => rw [essences, ih, List.map_cons]

theorem essence_bare (v : Value) : v.bare.essence = v.essence := by
  fun_induction bare v with
  | case1 inner ih => rw [ih, essence]
  | case2 inner e ih => rw [ih, essence]
  | case3 v _ _ => rfl

/-- Nothing wraps an essence. -/
theorem bare_essence (v : Value) : v.essence.bare = v.essence := by
  rw [← essence_bare]
  cases hv : v.bare with
  | selfRef inner => exact absurd hv bare_ne.1
  | extended inner e => exact absurd hv (bare_ne.2 e)
  | array items => rw [essence, bare] <;> simp
  | returned inner => rw [essence, bare] <;> simp
  | _ => rfl

mutual

/-- Values are the same exactly if they have the same essence. -/
theorem same_iff (a b : Value) :
    a.same b = true ↔ a.essence = b.essence := by
  rw [← essence_bare b]
  cases a with
  | selfRef a => rw [same, essence, essence_bare, same_iff a b]
  | extended a e => rw [same, essence, essence_bare, same_iff a b]
  | array as =>
      rw [same]
      cases hb : b.bare with
      | array bs => simp [essence, sameItems_iff as bs]
      | selfRef inner => exact absurd hb bare_ne.1
      | extended inner e => exact absurd hb (bare_ne.2 e)
      | _ => simp [essence]
  | returned a =>
      rw [same]
      cases hb : b.bare with
      | returned b => simp [essence, same_iff a b]
      | selfRef inner => exact absurd hb bare_ne.1
      | extended inner e => exact absurd hb (bare_ne.2 e)
      | _ => simp [essence]
  | _ =>
      rw [same]
      cases hb : b.bare with
      | selfRef inner => exact absurd hb bare_ne.1
      | extended inner e => exact absurd hb (bare_ne.2 e)
      | _ => simp [essence]

/-- So it is with items at the same places. -/
theorem sameItems_iff (as bs : List Value) :
    sameItems as bs = true ↔ essences as = essences bs := by
  cases as with
  | nil => cases bs <;> simp [sameItems, essences]
  | cons a as =>
      cases bs with
      | nil => simp [sameItems, essences]
      | cons b bs =>
          simp [sameItems, essences, same_iff a b, sameItems_iff as bs]

end

/-- Values with the same essences compare alike. -/
theorem same_congr {u' v' : Value} (hu : u.essence = u'.essence)
    (hv : v.essence = v'.essence) : u.same v = u'.same v' := by
  rw [Bool.eq_iff_iff, same_iff, same_iff, hu, hv]

theorem same_equivalence :
    Equivalence fun u v : Value => u.same v = true where
  refl v := (same_iff v v).2 rfl
  symm h := (same_iff ..).2 ((same_iff ..).1 h).symm
  trans h h' :=
    (same_iff ..).2 (((same_iff ..).1 h).trans ((same_iff ..).1 h'))

-- ============================================================== wrapping

/-- Whether two values differ only in how they, or values inside them, are
wrapped: by self references and by extensions, at the top, in the items of
arrays and under returns. -/
inductive Rewraps : Value → Value → Prop
  | refl (v : Value) : Rewraps v v
  | symm {u v : Value} (h : Rewraps u v) : Rewraps v u
  | trans {u v w : Value} (h : Rewraps u v) (h' : Rewraps v w) :
      Rewraps u w
  | selfRef (v : Value) : Rewraps v (.selfRef v)
  | extended (v : Value) (eigenclass : ClassId) :
      Rewraps v (.extended v eigenclass)
  | item {u v : Value} (before after : List Value) (h : Rewraps u v) :
      Rewraps (.array (before ++ u :: after))
        (.array (before ++ v :: after))
  | returned {u v : Value} (h : Rewraps u v) :
      Rewraps (.returned u) (.returned v)

theorem rewraps_bare (v : Value) : v.Rewraps v.bare := by
  fun_induction bare v with
  | case1 inner ih => exact .trans (.symm (.selfRef inner)) ih
  | case2 inner e ih => exact .trans (.symm (.extended inner e)) ih
  | case3 v _ _ => exact .refl v

/-- Wrapping leaves the essence. -/
theorem Rewraps.essence (h : u.Rewraps v) : u.essence = v.essence := by
  induction h with
  | refl v => rfl
  | symm _ ih => exact ih.symm
  | trans _ _ ih ih' => exact ih.trans ih'
  | selfRef v => rw [Value.essence.eq_1]
  | extended v e => rw [Value.essence.eq_2]
  | item before after _ ih =>
      simp only [Value.essence, essences_eq_map, List.map_append,
        List.map_cons, ih]
  | returned _ ih => rw [Value.essence, Value.essence, ih]

-- ============================================================= observing

/-- Truth and payloads are those of the essence. -/
theorem observe_essence (v : Value) :
    v.essence.isTruthy = v.isTruthy ∧ v.essence.isNil = v.isNil
      ∧ v.essence.text? = v.text? ∧ v.essence.int? = v.int? := by
  unfold isTruthy isNil text? int?
  rw [bare_essence, ← essence_bare]
  cases hv : v.bare with
  | selfRef inner => exact absurd hv bare_ne.1
  | extended inner e => exact absurd hv (bare_ne.2 e)
  | array | returned => simp [essence]
  | _ => exact ⟨rfl, rfl, rfl, rfl⟩

/-- Of values that are the same both are integers, or none is. -/
theorem int?_of_same (h : u.same v = true) : u.int? = v.int? := by
  rw [← u.observe_essence.2.2.2, (same_iff u v).1 h,
    v.observe_essence.2.2.2]

end Value

namespace World

mutual

/-- The text is that of the essence. -/
theorem inspect_essence (w : World) (v : Value) :
    w.inspect v.essence = w.inspect v := by
  cases v with
  | array items =>
      rw [Value.essence, inspect, inspect, w.inspectAll_essences items]
  | selfRef inner | extended inner e =>
      rw [Value.essence, inspect, w.inspect_essence inner]
  | returned inner =>
      rw [Value.essence, inspect, inspect, w.inspect_essence inner]
  | function f visibility => rw [Value.essence, inspect, inspect]
  | builtin name native => rw [Value.essence, inspect, inspect]
  | _ => rfl

theorem inspectAll_essences (w : World) (items : List Value) :
    w.inspectAll (Value.essences items) = w.inspectAll items := by
  cases items with
  | nil => rfl
  | cons v rest =>
      rw [Value.essences, inspectAll, inspectAll, w.inspect_essence v,
        w.inspectAll_essences rest]

end

/-- The class of a bare value is that of its essence. -/
theorem classOf?_essence (w : World) (v : Value) :
    w.classOf? v.essence = w.classOf? v.bare := by
  rw [← Value.essence_bare]
  cases hv : v.bare with
  | selfRef inner => exact absurd hv Value.bare_ne.1
  | extended inner e => exact absurd hv (Value.bare_ne.2 e)
  | array items => rw [Value.essence]; rfl
  | returned inner => rw [Value.essence]; rfl
  | _ => rfl

/-- What extending a value gives is the value, wrapped. -/
theorem rewraps_of_extend {w w' : World} {v x : Value} {e : ClassId}
    (h : w.extend v = (.ok (x, e), w')) : v.Rewraps x := by
  rcases w.extend_cases v with
    ⟨-, fault, hext⟩ | ⟨inner, f, hstrip, hext⟩ | ⟨f, -, -, -, hext⟩
      | ⟨current, -, -, -, hext⟩
  · rw [hext] at h
    cases h
  · rw [hext] at h
    cases h
    have hv : v.bare.Rewraps (Value.extended inner e) := by
      rw [← Value.bare_stripSelf, hstrip]
      exact .symm (Value.rewraps_bare _)
    exact .trans (Value.rewraps_bare v) hv
  · rw [hext] at h
    cases h
    exact .trans (Value.rewraps_bare v) (.extended _ _)
  · rw [hext] at h
    cases h
    exact .trans (Value.rewraps_bare v) (.extended _ _)

end World

namespace Realm

variable {r : Realm} {u v : Value}

/-- Values that are the same have one class for a user. -/
theorem Sound.nominalClassOf?_of_same (sound : r.Sound)
    (layered : r.Layered) (hu : r.Held u) (hv : r.Held v)
    (h : u.same v = true) :
    r.world.nominalClassOf? u = r.world.nominalClassOf? v := by
  rw [← sound.nominalClassOf?_bare layered hu,
    ← sound.nominalClassOf?_bare layered hv]
  unfold World.nominalClassOf?
  rw [← World.classOf?_essence, ← World.classOf?_essence,
    (Value.same_iff u v).1 h]

/-- In every reachable realm sameness is an equivalence that no wrapping
changes, on either side and at any level, the one that extending does
included; and values that are the same agree in all that can be observed
of them. -/
theorem sameness_congruent (reachable : r.Reachable) :
    (Equivalence fun u v : Value => u.same v = true)
      ∧ (∀ u u' v v' : Value, u.Rewraps u' → v.Rewraps v' →
        u.same v = u'.same v')
      ∧ (∀ v x e w, r.world.extend v = (.ok (x, e), w) → v.Rewraps x)
      ∧ ∀ u v, r.Held u → r.Held v → u.same v = true →
        r.world.inspect u = r.world.inspect v
          ∧ u.isTruthy = v.isTruthy
          ∧ u.isNil = v.isNil
          ∧ u.text? = v.text?
          ∧ u.int? = v.int?
          ∧ r.world.nominalClassOf? u = r.world.nominalClassOf? v := by
  have sound := sound_of_reachable reachable
  have layered := layered_of_reachable reachable
  refine ⟨Value.same_equivalence, ?_, ?_, ?_⟩
  · intro u u' v v' hu hv
    exact Value.same_congr hu.essence hv.essence
  · intro v x e w hext
    exact World.rewraps_of_extend hext
  · intro u v hu hv h
    have hessence := (Value.same_iff u v).1 h
    obtain ⟨utruthy, unil, utext, uint⟩ := u.observe_essence
    obtain ⟨vtruthy, vnil, vtext, vint⟩ := v.observe_essence
    refine ⟨?_, ?_, ?_, ?_, ?_,
      sound.nominalClassOf?_of_same layered hu hv h⟩
    · rw [← World.inspect_essence, hessence, World.inspect_essence]
    · rw [← utruthy, hessence, vtruthy]
    · rw [← unil, hessence, vnil]
    · rw [← utext, hessence, vtext]
    · rw [← uint, hessence, vint]

/-- An array of the extended main receiver and an array of a self
reference to it are the same, have one text and are arrays to a user; so
are the two receivers, whose class to a user is Object. -/
theorem sameness_congruent_main :
    (Value.array [.extended World.main ⟨23⟩]).same
        (.array [.selfRef World.main]) = true
      ∧ extendedMain.world.inspect (.array [.extended World.main ⟨23⟩])
        = extendedMain.world.inspect (.array [.selfRef World.main])
      ∧ extendedMain.world.nominalClassOf? (.extended World.main ⟨23⟩)
        = extendedMain.world.nominalClassOf? (.selfRef World.main) := by
  obtain ⟨equivalence, rewraps, -, observed⟩ :=
    sameness_congruent reachable_extendedMain
  have main : extendedMain.Held World.main := .object (by decide)
  have extended : extendedMain.Held (.extended World.main ⟨23⟩) :=
    .extended List.mem_cons_self
  have wrapped : (Value.extended World.main ⟨23⟩).Rewraps
      (.selfRef World.main) :=
    .trans (.symm (.extended _ _)) (.selfRef _)
  have same : (Value.array [.extended World.main ⟨23⟩]).same
      (.array [.selfRef World.main]) = true :=
    (rewraps _ _ _ _ (.item [] [] wrapped) (.refl _)).trans
      (equivalence.refl _)
  refine ⟨same, ?_, ?_⟩
  · refine (observed _ _ (.array ?_) (.array ?_) same).1
    · intro v hv
      rw [List.mem_singleton.1 hv]
      exact extended
    · intro v hv
      rw [List.mem_singleton.1 hv]
      exact .selfRef main
  · have same : (Value.extended World.main ⟨23⟩).same
        (.selfRef World.main) = true :=
      (rewraps _ _ _ _ wrapped (.refl _)).trans (equivalence.refl _)
    exact (observed _ _ extended (.selfRef main) same).2.2.2.2.2

end Realm

end ObjectWorld
