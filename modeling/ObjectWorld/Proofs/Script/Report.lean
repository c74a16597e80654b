/-
What the reports show is at hand.
-/
import ObjectWorld.Proofs.Answers
import ObjectWorld.Script.Report

namespace ObjectWorld.Realm

variable {r : Realm} {v : Value} {c : ClassId}

/-- A class that is reported is at hand if it is there; none is reported as
nil. -/
theorem held_optionalClass {c : Option ClassId}
    (h : ∀ d, c = some d → r.world.HasClass d) :
    r.Held (Value.optionalClass c) := by
  cases c with
  | none => exact .nil
  | some d => exact .cls (h d rfl)

/-- A list of texts is at hand anywhere. -/
theorem held_texts (texts : List String) : r.Held (Value.texts texts) := by
  refine .array ?_
  intro u hu
  obtain ⟨text, -, rfl⟩ := List.mem_map.1 hu
  exact .text text

/-- So is a count. -/
theorem held_count (n : Nat) : r.Held (Value.count n) :=
  .int _

/-- The empty list has nothing that would have to be at hand. -/
theorem held_nil : ∀ u ∈ ([] : List Value), r.Held u := by
  intro u hu
  cases hu

/-- A list is at hand if its head and its rest are. -/
theorem held_cons {items : List Value} (h : r.Held v)
    (hs : ∀ u ∈ items, r.Held u) : ∀ u ∈ v :: items, r.Held u :=
  List.forall_mem_cons.2 ⟨h, hs⟩

/-- A report of a method names its owner and shows the rest as texts and
counts. -/
theorem held_reportMethod {owner : Option ClassId} (method : Method)
    (h : ∀ d, owner = some d → r.world.HasClass d) :
    r.Held (method.report owner) := by
  refine .array (held_cons (held_optionalClass h) (held_cons ?_
    (held_cons (.text _) (held_cons (.text _) held_nil))))
  cases method.arity.fixed? with
  | none => exact .nil
  | some n => exact held_count n

/-- A report of a search is at hand, if what it finds is there. -/
theorem held_reportResolution {found : Option Resolution}
    (h : ∀ f, found = some f → r.world.HasClass f.owner) :
    r.Held (Resolution.report found) := by
  cases found with
  | none => exact .nil
  | some found =>
      refine held_reportMethod found.method ?_
      intro d hd
      cases hd
      exact h found rfl

/-- What a value at hand answers to a question is at hand. -/
theorem Sound.held_view (sound : r.Sound) (here : ScopeId)
    (what : Script.ValueView) (h : r.Held v) :
    r.Held (r.world.view here what v) := by
  have hbare := sound.held_bare h
  cases what with
  | classOf =>
      exact held_optionalClass fun d hd => sound.hasClass_classOf? h hd
  | nominal =>
      exact held_optionalClass fun d hd => sound.hasClass_nominal h hd
  | className => exact .text _
  | describe => exact .text _
  | tag => exact .text _
  | inspect => exact .text _
  | debug => exact .text _
  | truthy => exact .bool _
  | isNil => exact .bool _
  | text =>
      show r.Held (v.text?.elim .nil .text)
      cases v.text? with
      | none => exact .nil
      | some text => exact .text text
  | int =>
      show r.Held (v.int?.elim .nil .int)
      cases v.int? with
      | none => exact .nil
      | some n => exact .int n
  | bare => exact hbare
  | peeled => exact h.peelReturn
  | functionInfo =>
      unfold World.view
      dsimp only
      split
      · exact .array (held_cons (held_texts _) (held_cons (held_count _)
          (held_cons (held_count _) (held_cons (.text _) (held_cons (.bool _)
            held_nil)))))
      · exact .nil
  | exceptionInfo =>
      unfold World.view
      dsimp only
      split
      · rename_i hv
        rw [hv, held_exception] at hbare
        exact .array (held_cons (.cls (sound.ofException hbare))
          (held_cons (.text _) held_nil))
      · exact .nil
  | objectInfo =>
      unfold World.view
      dsimp only
      split
      · rename_i o hv
        rw [hv, held_object] at hbare
        refine .array (held_cons (.cls (sound.ofObject hbare))
          (held_cons (held_optionalClass ?_)
            (held_cons (.text _) held_nil)))
        intro d hd
        exact (sound.singleton (i := .object o) hd).1
      · exact .nil
  | extension =>
      unfold World.view
      dsimp only
      split
      · cases h with
        | extended h =>
            obtain ⟨_, _, heq, extension⟩ := sound.handed _ h
            cases heq
            exact .array (held_cons extension.held
              (held_cons (.cls extension.there) held_nil))
      · exact .nil

/-- What a class that is there answers to a question is at hand. -/
theorem Sound.held_viewClass (sound : r.Sound)
    (what : Script.ClassView) (there : r.world.HasClass c) :
    r.Held (r.world.viewClass what c) := by
  cases what with
  | ancestors => exact held_texts _
  | publicNames => exact held_texts _
  | ownNames => exact held_texts _
  | info =>
      have above : r.Held (Value.optionalClass (r.world.superclass? c)) :=
        held_optionalClass fun d hd => World.HasClass.of_superclass? hd
      have singleton : r.Held
          (Value.optionalClass (r.world.classInfo c).singleton) :=
        held_optionalClass fun d hd =>
          (sound.singleton (i := .cls c) hd).1
      have nominal : r.world.HasClass (r.world.nominal c) :=
        World.hasClass_nominal there
      exact .array (held_cons (.text _) (held_cons (.text _)
        (held_cons above (held_cons (.bool _) (held_cons (.bool _)
          (held_cons singleton (held_cons (.cls nominal)
            (held_cons (.text _) held_nil))))))))

end ObjectWorld.Realm
