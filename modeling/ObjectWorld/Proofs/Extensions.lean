/-
Extended values, and the one form they have.

An extended value names three classes: the eigenclass that it carries, the
class of the value inside, and what stands above the eigenclass. They hang
together in one of two ways (`NormalForm`): the value inside has gone
through the eigenclass ever since, or it has no place to record one and
its class is still the one right above. Both rest on the ledger alone,
whose entries each keep their form through every change. An extended value
at hand, however deep inside another, is an entry of the ledger, so nothing
needs to be known of where it is kept or of who else has been extended
since.

Extending a value fails for want of a class and for nothing else, and the
fault is worded for the value without its self references.
-/
import ObjectWorld.Proofs.Hosting
import ObjectWorld.Proofs.Sameness

namespace ObjectWorld

-- ============================================================== the inside

/-- What occurs in a value: the value, the items of an array that occurs,
and what is inside a wrapper that occurs. -/
inductive Value.Within (v : Value) : Value → Prop
  | here : Within v v
  | item {items : List Value} {u : Value} (h : Within v (.array items))
      (hu : u ∈ items) : Within v u
  | selfRef {u : Value} (h : Within v (.selfRef u)) : Within v u
  | returned {u : Value} (h : Within v (.returned u)) : Within v u
  | extended {u : Value} {eigenclass : ClassId}
      (h : Within v (.extended u eigenclass)) : Within v u

namespace World

variable {w w' : World} {v x : Value} {e : ClassId}

/-- Whether a value and an eigenclass are fit to be one extended value: the
value is not wrapped itself and has a class; the eigenclass is one, right
below a class that is none; and it decides for the value already, or stands
right below the class that does. -/
structure NormalForm (w : World) (inner : Value) (eigenclass : ClassId) :
    Prop where
  notSelf : ∀ u, inner ≠ .selfRef u
  notExtended : ∀ u e, inner ≠ .extended u e
  classed : (w.classOf? inner).isSome
  kind : w.isEigenclass eigenclass = true
  above : ∃ c, w.superclass? eigenclass = some c
    ∧ w.isEigenclass c = false
  decides : w.classOf? inner = some eigenclass
    ∨ w.superclass? eigenclass = w.classOf? inner

-- ================================================================ extending

/-- A value without a class is not extended. The fault names the kind of
what is under the outer self references. -/
theorem extend_of_classless (h : w.classOf? v = none) :
    w.extend v = (.error (.noSingleton (w.tag v.stripSelf)), w) := by
  rw [← classOf?_stripSelf] at h
  rw [← extend_stripSelf]
  rcases v.stripSelf_cases with ⟨inner, e, hstrip⟩ | hbare
  · -- an extended value has a class
    rw [hstrip] at h
    cases h
  · have bare : v.stripSelf.bare = v.stripSelf := by
      rw [hbare, Value.bare_bare]
    rw [extend_of_bare bare, h]

/-- Nor is a method defined on it. -/
theorem defineSingletonMethod_of_classless (h : w.classOf? v = none)
    (name : String) (method : Method) :
    w.defineSingletonMethod v name method
      = (.error (.noSingleton (w.tag v.stripSelf)), w) := by
  unfold defineSingletonMethod
  rw [extend_of_classless h]

/-- A value with a class is extended, and only such a value. -/
theorem extends_iff :
    (∃ x e w', w.extend v = (.ok (x, e), w')) ↔ (w.classOf? v).isSome := by
  cases hcls : w.classOf? v with
  | none =>
      rw [extend_of_classless hcls]
      simp
  | some c =>
      refine iff_of_true ?_ rfl
      rcases w.extend_cases v with
        ⟨hnone, -⟩ | ⟨inner, e, -, hext⟩ | ⟨e, -, -, -, hext⟩
          | ⟨current, -, -, -, hext⟩
      · rw [hcls] at hnone
        cases hnone
      · exact ⟨_, _, _, hext⟩
      · exact ⟨_, _, _, hext⟩
      · exact ⟨_, _, _, hext⟩

end World

namespace Realm

variable {r s : Realm} {u v x : Value} {w : World} {e : ClassId}

-- ========================================================== the normal form

/-- What is inside a value at hand is at hand. -/
theorem Sound.held_within (sound : r.Sound) (held : r.Held v)
    (within : v.Within u) : r.Held u := by
  induction within with
  | here => exact held
  | item _ hu ih => exact held_array.1 ih _ hu
  | selfRef _ ih =>
      cases ih with
      | selfRef h => exact h
  | returned _ ih =>
      cases ih with
      | returned h => exact h
  | extended _ ih =>
      cases ih with
      | extended h =>
          obtain ⟨_, _, heq, extension⟩ := sound.handed _ h
          cases heq
          exact extension.held

/-- What the ledger says of an entry is its normal form. -/
theorem Extension.normalForm {inner : Value} (layered : r.Layered)
    (h : r.Extension inner e) : r.world.NormalForm inner e where
  notSelf u hu := Value.bare_ne.1 (h.bare.trans hu)
  notExtended u f hu := Value.bare_ne.2 f (h.bare.trans hu)
  classed := by
    rcases h.cls with cls | ⟨-, above⟩
    · rw [cls]
      rfl
    · obtain ⟨c, hc, -⟩ := layered e h.kind
      rw [← above, hc]
      rfl
  kind := h.kind
  above := layered e h.kind
  decides := h.cls.imp_right And.right

/-- An extended value at hand is in normal form. -/
theorem normalForm_of_held (reachable : r.Reachable) {inner : Value}
    (held : r.Held (.extended inner e)) : r.world.NormalForm inner e := by
  cases held with
  | extended h =>
      obtain ⟨_, _, heq, extension⟩ :=
        (sound_of_reachable reachable).handed _ h
      cases heq
      exact extension.normalForm (layered_of_reachable reachable)

/-- So is every extended value inside a value at hand. -/
theorem normalForm_within (reachable : r.Reachable) (held : r.Held v)
    {inner : Value} (within : v.Within (.extended inner e)) :
    r.world.NormalForm inner e :=
  normalForm_of_held reachable
    ((sound_of_reachable reachable).held_within held within)

/-- What extending gives is the bare value with its eigenclass. -/
theorem Sound.extended_of_extend (sound : r.Sound) (held : r.Held v)
    (hext : r.world.extend v = (.ok (x, e), w)) :
    x = .extended v.bare e := by
  rcases sound.extend held with ⟨fault, herror⟩ | ⟨f, w', hok, -, -⟩
  · rw [hext] at herror
    cases herror
  · rw [hext] at hok
    cases hok
    rfl

/-- It is in normal form in the world that it leaves. -/
theorem normalForm_of_extend (reachable : r.Reachable) (held : r.Held v)
    (hext : r.world.extend v = (.ok (x, e), w)) :
    w.NormalForm v.bare e := by
  have after : (r.after (.extend v)).Reachable :=
    reachable.trans (.after held)
  have handed : .extended v.bare e ∈ (r.after (.extend v)).handed := by
    rw [← (sound_of_reachable reachable).extended_of_extend held hext]
    exact mem_handed_after (.inl rfl) hext
  have leaves : (r.after (.extend v)).world = w := by
    show (r.world.extend v).2 = w
    rw [hext]
  rw [← leaves]
  exact normalForm_of_held after (.extended handed)

-- ============================================================ the theorem

/-- In every reachable realm, and wherever use leads from there, the
extended values inside what is at hand are in normal form; that counts for
what the world keeps and for what any call gives while an honest machine
runs. Extending a value works if and only if it has a class. Then it gives
the bare value with its eigenclass, in normal form, the same value as
before, whose class is that eigenclass; and doing it again gives the same
and changes nothing. If it does not work, the fault names the kind of the
value under its self references, for a method to define as well, and
nothing has changed. -/
theorem extended_values_in_normal_form (reachable : r.Reachable) :
    (∀ s, r.Reaches s → ∀ v, r.Held v ∨ s.Held v ∨ s.world.Stores v →
        ∀ inner e, v.Within (.extended inner e) →
          s.world.NormalForm inner e)
      ∧ (∀ {σ : Type} (keeps : Realm → σ → Prop) (host : Host σ)
          (m : Machine σ), host.Honest keeps → m.Honest keeps r →
          ∀ k v, ((Machine.step host)^[k] m).current = .done (.ok v) →
          ∀ inner e, v.Within (.extended inner e) →
            ((Machine.step host)^[k] m).world.NormalForm inner e)
      ∧ ∀ v, r.Held v →
        ((∃ x e w, r.world.extend v = (.ok (x, e), w))
            ↔ (r.world.classOf? v).isSome)
          ∧ (∀ x e w, r.world.extend v = (.ok (x, e), w) →
            x = .extended v.bare e
              ∧ w.NormalForm v.bare e
              ∧ v.same x = true
              ∧ w.classOf? x = some e
              ∧ w.extend x = (.ok (x, e), w))
          ∧ (r.world.classOf? v = none →
            r.world.extend v
                = (.error (.noSingleton (r.world.tag v.stripSelf)), r.world)
              ∧ ∀ name method,
                r.world.defineSingletonMethod v name method
                  = (.error (.noSingleton (r.world.tag v.stripSelf)),
                    r.world)) := by
  have sound := sound_of_reachable reachable
  refine ⟨?_, ?_, ?_⟩
  · intro s reaches v held inner e within
    have there : s.Reachable := reachable.trans reaches
    have moves := sound.moves_of_reaches reaches
    have heldThere : s.Held v := by
      rcases held with before | now | stored
      · exact before.mono moves.later moves.mem_handed
      · exact now
      · exact (sound_of_reachable there).held_of_stores stored
    exact normalForm_within there heldThere within
  · intro σ keeps host m hhost honest k v hdone inner e within
    obtain ⟨s, run, honest'⟩ := honest.iterate hhost k
    have there : s.Reachable := reachable.tail (.run honest.here run)
    have held : s.Held v := by
      have good := honest'.current
      rw [hdone] at good
      exact good v rfl
    rw [honest'.here]
    exact normalForm_within there held within
  · intro v held
    refine ⟨World.extends_iff, ?_, ?_⟩
    · intro x e w hext
      have hx := sound.extended_of_extend held hext
      refine ⟨hx, normalForm_of_extend reachable held hext, ?_, ?_, ?_⟩
      · exact (Value.same_iff v x).2 (World.rewraps_of_extend hext).essence
      · rw [hx]
        rfl
      · rw [hx, World.extend.eq_1]
    · intro classless
      exact ⟨World.extend_of_classless classless,
        World.defineSingletonMethod_of_classless classless⟩

/-- The main receiver is found extended inside an array and under a self
reference; an integer is extended under a class of its own, without a
record; and a builtin has no class, whatever it is wrapped in. -/
theorem extended_values_in_normal_form_main :
    extendedMain.world.NormalForm World.main ⟨23⟩
      ∧ (extendedMain.world.extend (.selfRef (.int 7))).2.NormalForm
        (.int 7) ⟨24⟩
      ∧ extendedMain.world.extend (.selfRef (.builtin "puts" .printLine))
        = (.error (.noSingleton "BUILTIN"), extendedMain.world) := by
  obtain ⟨inside, -, extending⟩ :=
    extended_values_in_normal_form reachable_extendedMain
  have extended : extendedMain.Held (.extended World.main ⟨23⟩) :=
    .extended List.mem_cons_self
  refine ⟨?_, ?_, ?_⟩
  · have held : extendedMain.Held
        (.array [.selfRef (.extended World.main ⟨23⟩)]) :=
      .array fun v hv => by
        rw [List.mem_singleton.1 hv]
        exact .selfRef extended
    exact inside _ .refl _ (.inl held) _ _
      (.selfRef (.item .here List.mem_cons_self))
  · have held : extendedMain.Held (.selfRef (.int 7)) := .selfRef (.int 7)
    exact ((extending _ held).2.1 _ _ _ rfl).2.1
  · have held : extendedMain.Held
        (.selfRef (.builtin "puts" .printLine)) :=
      .selfRef (.builtin ..)
    exact ((extending _ held).2.2 rfl).1

end Realm

end ObjectWorld
