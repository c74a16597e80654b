/-
The class that a user sees of a value is stable.

A value is met through many handles, at many times: raw, behind self
references, extended by one caller and not by another, before and after
others were extended or classes were reopened. What a user is told of its
class is the same each time. The class is never an eigenclass, since an
eigenclass stands right below a class that is none; it is read off the
bare value alone; and it is never changed by anything that happens later
(Appearance.lean). So whatever is worded with it is worded alike: the
description of a receiver, and the fault of every native that is given
a handle of another kind than it calls for.
-/
import Mathlib.Data.List.Forall2
import ObjectWorld.Proofs.Unobserved

namespace ObjectWorld

namespace World

variable {w w' : World} {v x : Value} {args args' : List Value}
  {fault : Fault}

-- ========================================================== failing alike

/-- Two evaluations fail alike if their first steps do, and if after first
steps that go well the rest does. -/
private theorem bind_error_iff {α β : Type} {first first' : Except Fault α}
    {f f' : α → Except Fault β}
    (alike : (∃ e, first = .error e ∧ first' = .error e)
      ∨ ∃ a a', first = .ok a ∧ first' = .ok a'
        ∧ (f' a' = .error fault ↔ f a = .error fault)) :
    first' >>= f' = .error fault ↔ first >>= f = .error fault := by
  rcases alike with ⟨e, rfl, rfl⟩ | ⟨a, a', rfl, rfl, rest⟩
  · exact Iff.rfl
  · exact rest

/-- Two evaluations that go well fail alike. -/
private theorem ok_error_iff {α : Type} {a a' : α} :
    (.ok a' : Except Fault α) = .error fault
      ↔ (.ok a : Except Fault α) = .error fault := by
  simp only [reduceCtorEq]

/-- After a first step that is the same, the rest decides. -/
private theorem bind_error_iff_of_eq {α β : Type}
    {first first' : Except Fault α} {f f' : α → Except Fault β}
    (same : first' = first)
    (rest : ∀ a, f' a = .error fault ↔ f a = .error fault) :
    first' >>= f' = .error fault ↔ first >>= f = .error fault := by
  subst same
  cases first' with
  | error e => exact Iff.rfl
  | ok a => exact rest a

/-- Of arguments that correspond, the one argument is missing on both sides
alike, or there is one on each. -/
theorem soleArgument_cases {R : Value → Value → Prop}
    (related : List.Forall₂ R args args') :
    (∃ e, soleArgument args = .error e ∧ soleArgument args' = .error e)
      ∨ ∃ a a', args = [a] ∧ args' = [a'] ∧ R a a' := by
  have lengths := related.length_eq
  match args, args', related with
  | [], [], _ => exact .inl ⟨_, rfl, rfl⟩
  | [a], [a'], .cons h .nil => exact .inr ⟨a, a', rfl, rfl, h⟩
  | _ :: _ :: rest, _ :: _ :: rest', _ =>
      refine .inl ⟨_, rfl, ?_⟩
      unfold soleArgument
      rw [lengths]

/-- So going on with the one argument fails alike if every argument that
looks alike makes it fail alike. -/
private theorem soleArgument_error_iff {β : Type}
    {f f' : Value → Except Fault β}
    (looks : List.Forall₂ (w.LooksLike w') args args')
    (rest : ∀ a a', w.LooksLike w' a a' →
      (f' a' = .error fault ↔ f a = .error fault)) :
    soleArgument args' >>= f' = .error fault
      ↔ soleArgument args >>= f = .error fault := by
  refine bind_error_iff ?_
  rcases soleArgument_cases looks with missing | ⟨a, a', rfl, rfl, look⟩
  · exact .inl missing
  · exact .inr ⟨a, a', rfl, rfl, rest a a' look⟩

/-- The operands of an integer operation are the same, or are refused
alike. -/
theorem operands_looks (h : w.LooksLike w' v x)
    (looks : List.Forall₂ (w.LooksLike w') args args') :
    w'.operands x args' = w.operands v args := by
  unfold operands
  rcases soleArgument_cases looks with
    ⟨e, ha, ha'⟩ | ⟨a, a', rfl, rfl, look⟩
  · rw [ha, ha']
    rfl
  · show (do let n ← w'.integerOf x; let k ← w'.integerOf a'; pure (n, k))
      = do let n ← w.integerOf v; let k ← w.integerOf a; pure (n, k)
    rw [h.integerOf, look.integerOf]

/-- A query fails alike where receiver and arguments agree in what is read
of an operand. What it answers, where it does, may depend on more. -/
theorem answer_error_iff (h : w.LooksLike w' v x)
    (looks : List.Forall₂ (w.LooksLike w') args args') (q : Query) :
    w'.answer q x args' = .error fault
      ↔ w.answer q v args = .error fault := by
  have operands := operands_looks h looks
  cases q with
  | notNil | isNil | emptyText | classOf | methods | inspect =>
      exact ok_error_iff
  | add | subtract | multiply | divide | less | greater =>
      simp only [answer, operands]
  | textSize | textOfText | symbolOfText => simp only [answer, h.textOf]
  | textOfSymbol | symbolOfSymbol => simp only [answer, h.symbolOf]
  | itemCount | firstItem | lastItem => simp only [answer, h.itemsOf]
  | append => exact bind_error_iff_of_eq h.itemsOf fun _ => ok_error_iff
  | message =>
      exact bind_error_iff_of_eq h.exceptionOf fun _ => ok_error_iff
  | className =>
      exact bind_error_iff_of_eq (h.classFrom _) fun _ => ok_error_iff
  | superclass =>
      exact bind_error_iff_of_eq (h.classFrom _) fun _ => ok_error_iff
  | equal | integerEqual =>
      exact soleArgument_error_iff looks fun _ _ _ => ok_error_iff
  | require =>
      refine soleArgument_error_iff looks fun a a' look => ?_
      rw [look.textOf]
  | raise =>
      refine soleArgument_error_iff looks fun a a' look => ?_
      rw [look.text]
  | respondTo =>
      refine soleArgument_error_iff looks fun a a' look => ?_
      exact bind_error_iff_of_eq look.spellingOf fun _ => ok_error_iff
  | concat =>
      refine soleArgument_error_iff looks fun a a' look => ?_
      rw [h.textOf, look.textOf]

end World

-- ========================================================= a query called

namespace Machine

variable {σ : Type} {host : Host σ} {m : Machine σ} {c : Call σ}
  {method : Method} {q : Query}

/-- A call of a query comes back with its answer, if there is room. -/
theorem comesBack_of_query (hc : m.call? = some c)
    (hallowed : c.allowed = .ok method) (room : m.refusal? = none)
    (body : method.body = .native (.query q)) :
    ComesBack host m { m with
      current := c.next (m.world.answer q c.self c.args) } :=
  comesBack_of_does hc hallowed room body (.query q)

end Machine

-- ====================================================== handles, any time

namespace Realm

variable {r s : Realm} {v x : Value} {c : ClassId}

/-- Whether a value of a later realm is a handle of a value at hand: the
same but for wrappers. Where the value has no class, its name to a user is
the word for the outermost wrapper, so there it is to be the same value. -/
structure Handle (r s : Realm) (v x : Value) : Prop where
  held : r.Held v
  heldThere : s.Held x
  bare : x.bare = v.bare
  same : (r.world.classOf? v).isSome ∨ x = v

/-- Behind at most one eigenclass there is a class that is none. -/
theorem Layered.nominal (layered : r.Layered) (c : ClassId) :
    r.world.isEigenclass (r.world.nominal c) = false := by
  cases kind : r.world.isEigenclass c with
  | false => rw [World.nominal_of_plain kind, kind]
  | true =>
      obtain ⟨above, habove, plain⟩ := layered c kind
      rw [World.nominal_of_eigenclass kind habove]
      exact plain

/-- The class that a user sees is the same for every handle, and at every
later time. -/
theorem Moves.nominalClassOf?_handle (sound : r.Sound) (layered : r.Layered)
    (moves : Moves r s) (held : r.Held v) (heldThere : s.Held x)
    (bare : x.bare = v.bare) :
    s.world.nominalClassOf? x = r.world.nominalClassOf? v := by
  have sound' := sound.moves moves
  have layered' := layered.moves sound moves
  have stays := held.mono (Moves.later moves) (Moves.mem_handed moves)
  calc s.world.nominalClassOf? x
      = s.world.nominalClassOf? x.bare :=
        (sound'.nominalClassOf?_bare layered' heldThere).symm
    _ = s.world.nominalClassOf? v := by
        rw [bare, sound'.nominalClassOf?_bare layered' stays]
    _ = r.world.nominalClassOf? v :=
        moves.nominalClassOf? sound layered held

/-- So is what error messages call it. -/
theorem Handle.classNameOf (h : r.Handle s v x) (sound : r.Sound)
    (layered : r.Layered) (moves : Moves r s) :
    s.world.classNameOf x = r.world.classNameOf v := by
  rcases h.same with hasClass | rfl
  · obtain ⟨d, hd⟩ := Option.isSome_iff_exists.1 hasClass
    have seen : r.world.nominalClassOf? v = some (r.world.nominal d) :=
      congrArg (Option.map r.world.nominal) hd
    have there := World.hasClass_nominal (sound.hasClass_classOf? h.held hd)
    unfold World.classNameOf
    rw [moves.nominalClassOf?_handle sound layered h.held h.heldThere h.bare,
      seen]
    exact moves.later.name there
  · exact moves.classNameOf sound layered h.held

/-- A handle looks, at any later time, as the value did. -/
theorem Handle.looksLike (h : r.Handle s v x) (sound : r.Sound)
    (layered : r.Layered) (moves : Moves r s) :
    r.world.LooksLike s.world v x where
  bare := h.bare
  text := by
    rw [← World.inspect_bare, h.bare, World.inspect_bare]
    exact sound.inspect_later moves.later v h.held
  name := h.classNameOf sound layered moves
  bareName := moves.classNameOf sound layered (sound.held_bare h.held)

/-- Of an object whose own class is no eigenclass a user sees that
class. -/
theorem Sound.nominalClassOf?_object (sound : r.Sound)
    (layered : r.Layered) (held : r.Held v) {o : ObjectId}
    (object : v.bare = .object o)
    (plain : r.world.isEigenclass (r.world.objectInfo o).cls = false) :
    r.world.nominalClassOf? v = some (r.world.objectInfo o).cls := by
  rw [← sound.nominalClassOf?_bare layered held, object]
  refine (sound.nominalClassOf?_value (.object o)).trans ?_
  exact congrArg some (World.nominal_of_plain plain)

/-- The class that a user sees of a value is stable. In a reachable realm
a value with a class shows a class that is no eigenclass, and for an object
whose own class is none it is that one. Whatever use comes after, every
handle of the value shows this class then: asked for the class it gives it,
it is described in the same words, and natives that are handed handles fail
with the same faults, since the class is named alike. -/
theorem visible_class_stable (reachable : r.Reachable) (held : r.Held v)
    (hasClass : (r.world.classOf? v).isSome) :
    ∃ c, r.world.nominalClassOf? v = some c
      ∧ (∀ o, v.bare = .object o →
        r.world.isEigenclass (r.world.objectInfo o).cls = false →
          c = (r.world.objectInfo o).cls)
      ∧ ∀ s, r.Reaches s → s.world.isEigenclass c = false
        ∧ ∀ x, s.Held x → x.bare = v.bare →
          s.world.nominalClassOf? x = some c
          ∧ s.world.classNameOf x = r.world.className c
          ∧ s.world.describe x = r.world.describe v
          ∧ (∀ {σ : Type} (host : Host σ) (m : Machine σ)
              (call : Machine.Call σ) method, m.world = s.world →
              m.call? = some call → call.self = x →
              call.allowed = .ok method → m.refusal? = none →
              method.body = .native (.query .classOf) →
              Machine.ComesBack host m { m with
                current := call.next (.ok (.cls c)) })
          ∧ (∀ expected,
            s.world.unfit expected x = r.world.unfit expected v)
          ∧ ∀ q args args' fault, List.Forall₂ (r.Handle s) args args' →
            (s.world.answer q x args' = .error fault
              ↔ r.world.answer q v args = .error fault) := by
  have sound := sound_of_reachable reachable
  have layered := layered_of_reachable reachable
  obtain ⟨d, hd⟩ := Option.isSome_iff_exists.1 hasClass
  have seen : r.world.nominalClassOf? v = some (r.world.nominal d) :=
    congrArg (Option.map r.world.nominal) hd
  have there := World.hasClass_nominal (sound.hasClass_classOf? held hd)
  refine ⟨r.world.nominal d, seen, ?_, ?_⟩
  · intro o object plain
    rw [sound.nominalClassOf?_object layered held object plain] at seen
    exact (Option.some.inj seen).symm
  · intro s reaches
    have moves := sound.moves_of_reaches reaches
    refine ⟨?_, fun x heldThere bare => ?_⟩
    · rw [moves.later.isEigenclass there]
      exact layered.nominal d
    · have handle : r.Handle s v x := ⟨held, heldThere, bare, .inl hasClass⟩
      have looks := handle.looksLike sound layered moves
      have shown : s.world.nominalClassOf? x = some (r.world.nominal d) :=
        (moves.nominalClassOf?_handle sound layered held heldThere
          bare).trans seen
      refine ⟨shown, ?_, ?_, ?_, looks.unfit, ?_⟩
      · rw [looks.name]
        unfold World.classNameOf
        rw [seen]
      · unfold World.describe
        rw [looks.text, looks.name]
      · intro σ host m call method here hcall self hallowed room body
        have back : Machine.ComesBack host m _ :=
          Machine.comesBack_of_query hcall hallowed room body
        have answer : m.world.answer .classOf call.self call.args
            = .ok (.cls (r.world.nominal d)) := by
          rw [here, self]
          show Except.ok ((s.world.nominalClassOf? x).elim Value.nil Value.cls)
            = _
          rw [shown]
          rfl
        rw [answer] at back
        exact back
      · intro q args args' fault handles
        refine World.answer_error_iff looks (handles.imp ?_) q
        exact fun _ _ handle => handle.looksLike sound layered moves

/-- The main receiver shows the class Object, before and after it has been
extended, also through a self reference to its extended handle; and adding
that handle to a text fails as adding the main receiver did. -/
theorem visible_class_stable_main :
    start.Held World.main ∧ (start.world.classOf? World.main).isSome = true
      ∧ ∃ c, start.world.nominalClassOf? World.main = some c
        ∧ c = CoreClass.object.id
        ∧ extendedMain.world.nominalClassOf?
            (.selfRef (.extended World.main ⟨23⟩)) = some c
        ∧ extendedMain.world.describe (.selfRef (.extended World.main ⟨23⟩))
          = "#<Object>:Object"
        ∧ extendedMain.world.answer .concat
            (.selfRef (.extended World.main ⟨23⟩)) [.text ""]
          = .error (.implicitConversion "String" "Object") := by
  have main := sound_start.main
  have text : start.Handle extendedMain (.text "") (.text "") :=
    ⟨.text _, .text _, rfl, .inr rfl⟩
  have extended : extendedMain.Held (.extended World.main ⟨23⟩) :=
    .extended (mem_handed_after (.inl rfl) rfl)
  obtain ⟨c, seen, own, later⟩ := visible_class_stable .refl main rfl
  obtain ⟨-, handles⟩ := later extendedMain reachable_extendedMain
  obtain ⟨shown, -, described, -, -, faults⟩ :=
    handles _ (.selfRef extended) rfl
  refine ⟨main, rfl, c, seen, own ⟨0⟩ rfl (core_start .object).2, shown,
    described, ?_⟩
  exact (faults .concat _ _ _ (.cons text .nil)).2 rfl

end Realm

end ObjectWorld
