/-
Asking for superclasses over and over.

The native that gives a class's superclass looks along the chain for the
nearest class above that is no module. Asked again about its own answer,
and again until it says nil, it visits what is left of the chain of the
first class when the modules are taken out: the chain above an answer is
the rest of the chain that it was found on, so no search begins anew
(`classesAbove_eq`). The searches for methods go along the same chain,
modules included.
-/
import ObjectWorld.Proofs.Responding
import ObjectWorld.Proofs.Sharing

namespace ObjectWorld

-- ============================================================ the climbing

/-- Asking over and over, from a value on, until the answer is nil: the
classes that are answered, in order. -/
inductive Climbs (answers : Value → Value → Prop) :
    Value → List ClassId → Prop
  | top {v : Value} (h : answers v .nil) : Climbs answers v []
  | up {v : Value} {above : ClassId} {rest : List ClassId}
      (h : answers v (.cls above))
      (climbs : Climbs answers (.cls above) rest) :
      Climbs answers v (above :: rest)

namespace World

variable {w : World} {c d : ClassId} {v : Value}

/-- The classes strictly above one that are no modules, nearest first. -/
def classesAbove (w : World) (c : ClassId) : List ClassId :=
  (w.ancestors c).tail.filter fun above => !w.isModule above

/-- The chain of a class on a chain is what is left of that chain. -/
theorem ancestors_of_append {before after : List ClassId}
    (h : w.ancestors c = before ++ d :: after) :
    w.ancestors d = d :: after := by
  induction before generalizing c with
  | nil =>
      have hc : c = d := by
        rw [ancestors_eq] at h
        exact (List.cons.inj h).1
      rw [← hc, h, hc]
      rfl
  | cons b before ih =>
      rw [ancestors_eq] at h
      have hrest := (List.cons.inj h).2
      cases hsuper : w.superclass? c with
      | none =>
          rw [hsuper] at hrest
          simp at hrest
      | some above =>
          rw [hsuper] at hrest
          exact ih hrest

/-- The classes above one are its superclass, as the native sees it, and
the classes above that. -/
theorem classesAbove_eq (w : World) (c : ClassId) :
    w.classesAbove c = match w.superclassSkippingModules? c with
      | none => []
      | some above => above :: w.classesAbove above := by
  unfold superclassSkippingModules?
  cases hfind : (w.ancestors c).tail.find? fun d => !w.isModule d with
  | none =>
      rw [List.find?_eq_none] at hfind
      exact List.filter_eq_nil_iff.2 hfind
  | some above =>
      obtain ⟨hkept, before, after, hsplit, hskipped⟩ :=
        List.find?_eq_some_iff_append.1 hfind
      have hchain : w.ancestors c = (c :: before) ++ above :: after := by
        rw [List.cons_append, ← hsplit, ancestors_eq]
        rfl
      have habove : w.ancestors above = above :: after :=
        ancestors_of_append hchain
      have hnone : before.filter (fun d => !w.isModule d) = [] :=
        List.filter_eq_nil_iff.2 fun b hb => by simpa using hskipped b hb
      simp only [classesAbove, hsplit, habove, List.filter_append, hnone,
        List.nil_append, List.tail_cons]
      exact List.filter_cons_of_pos hkept

/-- If each class on the way up is answered with the nearest class above it
that is no module, and nil at the end, then what is climbed is just the
classes above. -/
theorem climbs_iff {answers : Value → Value → Prop}
    (first : ∀ answer, answers v answer
      ↔ answer = (w.superclassSkippingModules? c).elim .nil .cls)
    (others : ∀ d ∈ w.classesAbove c, ∀ answer, answers (.cls d) answer
      ↔ answer = (w.superclassSkippingModules? d).elim .nil .cls)
    {l : List ClassId} :
    Climbs answers v l ↔ l = w.classesAbove c := by
  induction habove : w.classesAbove c generalizing c v l with
  | nil =>
      have hsuper : w.superclassSkippingModules? c = none := by
        rw [classesAbove_eq] at habove
        split at habove
        · assumption
        · cases habove
      rw [hsuper] at first
      constructor
      · intro climbs
        cases climbs with
        | top _ => rfl
        | up h _ => cases (first _).1 h
      · intro hl
        rw [hl]
        exact .top ((first _).2 rfl)
  | cons d rest ih =>
      obtain ⟨hsuper, hrest⟩ : w.superclassSkippingModules? c = some d
          ∧ w.classesAbove d = rest := by
        rw [classesAbove_eq] at habove
        split at habove
        · cases habove
        · cases habove
          exact ⟨by assumption, rfl⟩
      rw [hsuper] at first
      have fromHere : ∀ {l}, Climbs answers (.cls d) l ↔ l = rest := by
        refine ih (others d ?_) (fun b hb => others b ?_) hrest
        · simp [habove]
        · simp [habove, ← hrest, hb]
      constructor
      · intro climbs
        cases climbs with
        | top h => cases (first _).1 h
        | up h climbs =>
            cases (first _).1 h
            rw [fromHere.1 climbs]
      · intro hl
        rw [hl]
        exact .up ((first _).2 rfl) (fromHere.2 rfl)

/-- What the native answers to a handle of a class. -/
theorem answer_superclass (handle : v.class? = some c)
    (args : List Value) :
    w.answer .superclass v args
      = .ok ((w.superclassSkippingModules? c).elim .nil .cls) := by
  show (w.classFrom "Class" v >>= fun c =>
    pure ((w.superclassSkippingModules? c).elim Value.nil Value.cls)) = _
  rw [classFrom_eq_ok_iff.2 handle]
  rfl

end World

namespace Machine

variable {σ : Type} {host : Host σ} {m : Machine σ} {v : Value}
  {name : String}

/-- A call that gives a value gives no other. -/
theorem Gives.unique {answer other : Value}
    (gives : m.Gives host v name answer)
    (again : m.Gives host v name other) : other = answer := by
  have alike : ({ m with current := .done (.ok other) } : Machine σ)
      = { m with current := .done (.ok answer) } :=
    (gives .explicit .done _).1 ((again .explicit .done _).2 rfl)
  cases congrArg current alike
  rfl

/-- Where a name leads to the native, a call gives what the native
answers. -/
theorem gives_superclass_iff {owner c : ClassId} {answer : Value}
    (resolved : m.world.resolve? v name
      = some ⟨owner, CoreClass.looks 0 .superclass⟩)
    (room : m.refusal? = none) (handle : v.class? = some c) :
    m.Gives host v name answer
      ↔ answer
        = (m.world.superclassSkippingModules? c).elim .nil .cls := by
  have gives := gives_of_looks host resolved room
    (World.answer_superclass handle [])
  constructor
  · exact fun again => gives.unique again
  · intro h
    rw [h]
    exact gives

-- ============================================================ the theorem

/-- Asking for the superclass over and over, from any handle of any class
on, ends with nil, and the classes that are answered are those that a
search for a method consults after the first one, without the modules, each
once and in that order. So it is for the native itself and, with room for a
call, for calls by any name that leads to it along the way, from wherever
they are made; and such calls change nothing. -/
theorem superclasses_climb_chain (host : Host σ) (m : Machine σ)
    {v : Value} {c : ClassId} (handle : v.class? = some c) :
    ∃ rest classes, m.world.Walk c (c :: rest) ∧ (c :: rest).Nodup
      ∧ (∀ name, m.world.resolveIn? c name
        = (c :: rest).findSome? fun owner =>
            (m.world.ownMethod? owner name).map (Resolution.mk owner))
      ∧ classes = rest.filter (fun above => !m.world.isModule above)
      ∧ (∀ l, Climbs (fun asked answer =>
            m.world.answer .superclass asked [] = .ok answer) v l
          ↔ l = classes)
      ∧ ∀ name, m.refusal? = none →
        (∀ asked ∈ v :: classes.map .cls, ∃ owner,
          m.world.resolve? asked name
            = some ⟨owner, CoreClass.looks 0 .superclass⟩) →
        ∀ l, Climbs (fun asked answer => m.Gives host asked name answer) v l
          ↔ l = classes := by
  have hchain : m.world.ancestors c
      = c :: (m.world.ancestors c).tail := by
    rw [World.ancestors_eq]
    rfl
  refine ⟨(m.world.ancestors c).tail, m.world.classesAbove c, ?_, ?_,
    fun name => ?_, rfl, ?_, ?_⟩
  · exact World.walk_iff.2 hchain.symm
  · rw [← hchain]
    exact m.world.nodup_ancestors c
  · rw [← hchain]
    exact m.world.resolveIn?_eq c name
  · have answers : ∀ {asked d}, asked.class? = some d → ∀ answer,
        m.world.answer .superclass asked [] = .ok answer
          ↔ answer
            = (m.world.superclassSkippingModules? d).elim .nil .cls := by
      intro asked d hd answer
      rw [World.answer_superclass hd, Except.ok.injEq, eq_comm]
    intro l
    exact World.climbs_iff (answers handle) fun d _ => answers rfl
  · intro name room leads l
    apply World.climbs_iff
    · obtain ⟨owner, resolved⟩ := leads v List.mem_cons_self
      exact fun answer => gives_superclass_iff resolved room handle
    · intro d hd answer
      obtain ⟨owner, resolved⟩ := leads (.cls d)
        (List.mem_cons_of_mem _ (List.mem_map_of_mem hd))
      exact gives_superclass_iff resolved room rfl

/-- From the eigenclass of the main receiver the way leads to Object, and
ends there: the module above it is left out. -/
theorem superclasses_climb_chain_main :
    Climbs
      (fun asked answer =>
        Gives endless { roomy with world := Realm.extendedMain.world }
          asked "superclass" answer)
      (.selfRef (.cls ⟨23⟩)) [CoreClass.object.id] := by
  obtain ⟨rest, classes, walk, -, -, hclasses, -, climbs⟩ :=
    superclasses_climb_chain endless
      { roomy with world := Realm.extendedMain.world }
      (v := .selfRef (.cls ⟨23⟩)) rfl
  have hrest : rest = [CoreClass.object.id, CoreClass.kernel.id] :=
    (List.cons.inj (World.walk_iff.1 walk)).2
  have hall : classes = [CoreClass.object.id] := by
    rw [hclasses, hrest]
    decide
  rw [hall] at climbs
  refine (climbs "superclass" rfl ?_ _).2 rfl
  intro asked hasked
  have hasked : asked = .selfRef (.cls ⟨23⟩)
      ∨ asked = .cls CoreClass.object.id := by simpa using hasked
  refine ⟨CoreClass.cls.id, ?_⟩
  rcases hasked with h | h <;> rw [h] <;> rfl

end Machine

end ObjectWorld
