/-
One eigenclass for each identity.

The eigenclass of an object or a class is kept in two places: on record
for the identity, and in every extended handle that was given out. What
ties the two together is the ledger: each of its entries still names the
class of its bare value (`Extension`), and that class, being an
eigenclass, is used again by all further extending. So all handles of an
identity agree, whatever they are wrapped in and wherever they are kept,
and the first eigenclass is the only one.
-/
import ObjectWorld.Proofs.Sound

namespace ObjectWorld

/-- The values that a world keeps: the main receiver, what scopes bind
and what objects keep, and everything inside these. -/
inductive World.Stores (w : World) : Value → Prop
  | main : Stores w World.main
  | binding {s : ScopeId} {name : String} {v : Value}
      (h : (w.bindings s).get? name = some v) : Stores w v
  | ivar {o : ObjectId} {name : String} {v : Value}
      (h : w.ivar? o name = some v) : Stores w v
  | item {items : List Value} {v : Value} (h : Stores w (.array items))
      (hv : v ∈ items) : Stores w v
  | selfRef {v : Value} (h : Stores w (.selfRef v)) : Stores w v
  | returned {v : Value} (h : Stores w (.returned v)) : Stores w v

namespace Realm

variable {r s : Realm} {u v : Value} {i : Identity} {e : ClassId}

-- ======================================================== handles agree

/-- What the world keeps is at hand. -/
theorem Sound.held_of_stores (sound : r.Sound) (h : r.world.Stores v) :
    r.Held v := by
  induction h with
  | main => exact sound.main
  | binding h => exact sound.binding h
  | ivar h => exact sound.ivar h
  | item _ hv ih =>
      cases ih with
      | array h => exact h _ hv
  | selfRef _ ih =>
      cases ih with
      | selfRef h => exact h
  | returned _ ih =>
      cases ih with
      | returned h => exact h

/-- The class of an extended value that is the handle of an identity is
the class of the bare handle. -/
theorem Extension.classOf?_value {inner : Value}
    (h : r.Extension inner e) (hi : inner.identity? = some i) :
    r.world.classOf? i.value = some e := by
  have hinner : inner = i.value := by
    rw [← h.bare]
    exact Value.identity?_eq_some.1 hi
  rcases h.cls with cls | ⟨hnone, -⟩
  · rw [← hinner]
    exact cls
  · rw [hi] at hnone
    cases hnone

/-- Every handle of an identity has the class of the bare one. -/
theorem Sound.classOf?_eq (sound : r.Sound) (held : r.Held v)
    (hi : v.identity? = some i) :
    r.world.classOf? v = r.world.classOf? i.value := by
  induction held with
  | cls h => cases hi; rfl
  | object h => cases hi; rfl
  | extended h =>
      obtain ⟨inner, e, heq, extension⟩ := sound.handed _ h
      cases heq
      rw [extension.classOf?_value hi]
      rfl
  | selfRef _ ih => exact ih hi
  | _ => cases hi

-- ======================================================== and stay agreed

/-- An eigenclass on record is never replaced. -/
theorem Moves.singleton? (sound : r.Sound) (moves : Moves r s)
    (h : r.world.singleton? i = some e) :
    s.world.singleton? i = some e := by
  induction moves with
  | refl => exact h
  | tail moves move ih =>
      rcases move.singleton? (sound.moves moves) with
        same | ⟨j, f, -, hnone, -, -, -, -, -, heq⟩
      · rw [same]
        exact ih
      · rw [heq]
        split
        · rename_i hij
          rw [← hij, ih] at hnone
          cases hnone
        · exact ih

/-- Extending a value whose class is an eigenclass gives that one and
changes nothing. -/
theorem Sound.extend_of_eigenclass (sound : r.Sound) (held : r.Held v)
    (cls : r.world.classOf? v = some e)
    (kind : r.world.isEigenclass e = true) :
    r.world.extend v = (.ok (.extended v.bare e, e), r.world) := by
  rcases sound.extend_cases held with
    ⟨hnone, -⟩ | ⟨f, hf, -, hext⟩ | ⟨current, hcurrent, -, plain, -⟩
  · rw [cls] at hnone
    cases hnone
  · rw [cls, Option.some.injEq] at hf
    rw [hext, hf]
  · rw [cls, Option.some.injEq] at hcurrent
    rw [← hcurrent, kind] at plain
    cases plain

/-- What a ledger entry says of an identity holds of every handle of
it. -/
theorem Sound.settled (sound : r.Sound) {inner : Value}
    (handed : .extended inner e ∈ r.handed)
    (hinner : inner.identity? = some i) (held : r.Held u)
    (hi : u.identity? = some i) :
    r.world.classOf? u = some e
      ∧ r.world.extend u = (.ok (.extended u.bare e, e), r.world)
      ∧ ∀ name method, r.world.defineSingletonMethod u name method
        = (.ok (.extended u.bare e), r.world.defineMethod e name method) := by
  obtain ⟨_, _, heq, extension⟩ := sound.handed _ handed
  cases heq
  have cls : r.world.classOf? u = some e := by
    rw [sound.classOf?_eq held hi]
    exact extension.classOf?_value hinner
  have hext := sound.extend_of_eigenclass held cls extension.kind
  refine ⟨cls, hext, fun name method => ?_⟩
  unfold World.defineSingletonMethod
  rw [hext]

/-- The changes that extend a value. -/
def Extends (c : Change) (v : Value) : Prop :=
  c = .extend v
    ∨ ∃ name method, c = .defineSingletonMethod v name method

/-- A change that extends a value puts it on the ledger. -/
theorem mem_handed_after {c : Change} {x : Value} {w : World}
    (hc : Extends c v)
    (hext : r.world.extend v = (.ok (x, e), w)) :
    x ∈ (r.after c).handed := by
  rcases hc with rfl | ⟨name, method, rfl⟩
  · show x ∈ given (.extend v) (r.world.extend v).1 ++ r.handed
    rw [hext]
    exact List.mem_cons_self
  · show x ∈ given (.defineSingletonMethod v name method)
      (r.world.defineSingletonMethod v name method).1 ++ r.handed
    unfold World.defineSingletonMethod
    rw [hext]
    exact List.mem_cons_self

/-- In every reachable realm all handles of an identity have one class,
those that the world keeps included, and an eigenclass on record is never
replaced. Once some handle of the identity has been extended, every
later extending of any handle, and every later definition on one, uses
that eigenclass and makes no other. -/
theorem one_eigenclass_per_identity (reachable : r.Reachable) :
    (∀ v, r.world.Stores v → r.Held v)
      ∧ (∀ u v i, r.Held u → r.Held v →
        u.identity? = some i → v.identity? = some i →
        r.world.classOf? u = r.world.classOf? v)
      ∧ (∀ s, r.Reaches s → ∀ i e, r.world.singleton? i = some e →
        s.world.singleton? i = some e)
      ∧ ∀ c v i x e w, r.Allows c → Extends c v → v.identity? = some i →
        r.world.extend v = (.ok (x, e), w) →
        ∀ s, (r.after c).Reaches s → ∀ u, s.Held u → u.identity? = some i →
          s.world.classOf? u = some e
            ∧ s.world.extend u = (.ok (.extended u.bare e, e), s.world)
            ∧ ∀ name method, s.world.defineSingletonMethod u name method
              = (.ok (.extended u.bare e),
                s.world.defineMethod e name method) := by
  have sound := sound_of_reachable reachable
  refine ⟨fun _ => sound.held_of_stores, ?_, ?_, ?_⟩
  · intro u v i hu hv hui hvi
    rw [sound.classOf?_eq hu hui, sound.classOf?_eq hv hvi]
  · intro s reaches i e h
    exact (sound.moves_of_reaches reaches).singleton? sound h
  · intro c v i x e w allowed hc hi hext s reaches u held hui
    have held_v : r.Held v := by
      rcases hc with rfl | ⟨name, method, rfl⟩
      · exact allowed
      · exact allowed.1
    have hx : x = .extended v.bare e := by
      rcases sound.extend held_v with ⟨fault, herror⟩ | ⟨f, w', hok, -, -⟩
      · rw [hext] at herror
        cases herror
      · rw [hext] at hok
        cases hok
        rfl
    have soundAfter := sound.moves (moves_after sound allowed)
    have sound' := soundAfter.reaches reaches
    have handed : .extended v.bare e ∈ s.handed := by
      refine (soundAfter.moves_of_reaches reaches).mem_handed _ ?_
      rw [← hx]
      exact mem_handed_after hc hext
    refine sound'.settled handed ?_ held hui
    rw [Value.identity?_bare]
    exact hi

/-- The start, after its main receiver has been extended. -/
def extendedMain : Realm :=
  start.after (.extend World.main)

theorem reachable_extendedMain : extendedMain.Reachable :=
  .after sound_start.main

/-- The eigenclass of the main receiver is the first class after the core
classes. It decides for a self reference as well, it stays on record, and
extending the self reference later gives it again. -/
theorem one_eigenclass_per_identity_main :
    extendedMain.Held World.main
      ∧ extendedMain.world.classOf? World.main
        = extendedMain.world.classOf? (.selfRef World.main)
      ∧ (extendedMain.after (.newModule "M")).world.singleton?
        (.object ⟨0⟩) = some ⟨23⟩
      ∧ (extendedMain.after (.extend World.main)).world.extend
          (.selfRef World.main)
        = (.ok (.extended World.main ⟨23⟩, ⟨23⟩),
          (extendedMain.after (.extend World.main)).world) := by
  have main : extendedMain.Held World.main := .object (by decide)
  obtain ⟨stores, agree, recorded, settled⟩ :=
    one_eigenclass_per_identity reachable_extendedMain
  refine ⟨stores _ .main, ?_, ?_, ?_⟩
  · exact agree _ _ (.object ⟨0⟩) main (.selfRef main) rfl rfl
  · exact recorded _ (.after (c := .newModule "M") trivial) _ _ rfl
  · have after : (extendedMain.after (.extend World.main)).Held
        (.selfRef World.main) := .selfRef (.object (by decide))
    exact (settled (.extend World.main) World.main (.object ⟨0⟩)
      (.extended World.main ⟨23⟩) ⟨23⟩ _ main (.inl rfl) rfl rfl
      _ .refl _ after rfl).2.1

end Realm

end ObjectWorld
