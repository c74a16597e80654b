/-
The exception that stands for a fault.

The class of such an exception is looked up by its name, in a registry that
everybody can register in. But the name is always one of a core class
(`Fault.exceptionClass`), and what a core class is registered under it is
registered under for good, whatever is defined or refused to be defined. So
the class that is taken where a name is missing is never taken, and the class
that is found is the one that was there from the start, right below or
further below the class of all exceptions.

An exception never changes. So its class, its message and its text are told
alike at every later time and through every handle.
-/
import ObjectWorld.Proofs.Registry
import ObjectWorld.Proofs.Responding

namespace ObjectWorld

-- =========================================================== the core classes

/-- The core class that stands for a fault. -/
def Fault.exceptionClass : Fault → CoreClass
  | .undefinedMethod .. | .privateMethod .. => .noMethodError
  | .wrongNumberOfArguments .. => .argumentError
  | .implicitConversion .. | .noSingleton .. | .superclassMismatch ..
  | .notA .. => .typeError
  | .zeroDivision => .zeroDivisionError
  | .integerOverflow .. => .rangeError
  | .stackTooDeep .. => .systemStackError
  | .raised .. => .runtimeError

/-- A fault goes by the name of a core class. -/
theorem Fault.name_exceptionClass (fault : Fault) :
    fault.exceptionClass.name = fault.exceptionName := by
  cases fault <;> rfl

/-- Only what is raised on purpose has the class of that. -/
theorem Fault.id_exceptionClass_eq_runtimeError_iff {fault : Fault} :
    fault.exceptionClass.id = CoreClass.runtimeError.id
      ↔ ∃ message, fault = .raised message := by
  constructor
  · intro h
    cases fault with
    | raised message => exact ⟨message, rfl⟩
    | _ => exact absurd h (by simp only [exceptionClass]; decide)
  · rintro ⟨message, rfl⟩
    rfl

/-- Its class has the class of all exceptions above it. -/
theorem Fault.exception_mem_ancestors (fault : Fault) :
    CoreClass.exception.id
      ∈ World.initial.ancestors fault.exceptionClass.id := by
  cases fault <;> simp only [exceptionClass] <;> decide

namespace Realm

variable {r s : Realm} {fault : Fault} {e : ExceptionId} {x : Value}

-- ========================================================== the new exception

/-- In every reachable realm the class of a fault is found under its name. -/
theorem registered?_exceptionName (reachable : r.Reachable)
    (fault : Fault) :
    r.world.registered? fault.exceptionName
      = some fault.exceptionClass.id := by
  rw [← fault.name_exceptionClass]
  exact registered?_core reachable fault.exceptionClass

/-- So the exception that is made for a fault has this class. -/
theorem exceptionInfo_exceptionFor (reachable : r.Reachable)
    (fault : Fault) :
    (r.world.exceptionFor fault).2.exceptionInfo
        (r.world.exceptionFor fault).1
      = ⟨fault.exceptionClass.id, fault.message⟩ := by
  unfold World.exceptionFor World.exceptionClass
  rw [registered?_exceptionName reachable, World.exceptionInfo_newException]
  exact if_pos rfl

/-- It has that class and its message at every later time. -/
theorem exceptionInfo_reaches (reachable : r.Reachable)
    (reaches : (r.after (.exceptionFor fault)).Reaches s) :
    s.world.HasException (r.world.exceptionFor fault).1
      ∧ s.world.exceptionInfo (r.world.exceptionFor fault).1
        = ⟨fault.exceptionClass.id, fault.message⟩ := by
  have sound := sound_of_reachable
    (reachable.trans (.after (c := .exceptionFor fault) trivial))
  have later := (sound.moves_of_reaches reaches).later
  have made : (r.world.exceptionFor fault).2.HasException
      (r.world.exceptionFor fault).1 :=
    World.hasException_newException.2 (.inr rfl)
  refine ⟨later.hasException made, (later.exceptionInfo made).trans ?_⟩
  exact exceptionInfo_exceptionFor reachable fault

-- ============================================================ what it tells

/-- A user sees its class. -/
theorem nominalClassOf?_of_exception (reachable : r.Reachable)
    (held : r.Held x) (bare : x.bare = .exception e) {core : CoreClass}
    (cls : (r.world.exceptionInfo e).cls = core.id) :
    r.world.nominalClassOf? x = some core.id := by
  have sound := sound_of_reachable reachable
  rw [← sound.nominalClassOf?_bare (layered_of_reachable reachable) held,
    bare]
  show some (r.world.nominal (r.world.exceptionInfo e).cls) = _
  rw [cls, World.nominal_of_plain (sound.core core).2]

/-- Its text is the name of its class and its message. -/
theorem inspect_of_exception (bare : x.bare = .exception e) :
    r.world.inspect x = "#<" ++ r.world.className (r.world.exceptionInfo e).cls
      ++ ": " ++ (r.world.exceptionInfo e).message ++ ">" := by
  rw [← World.inspect_bare, bare]
  rfl

/-- A handle of the exception that stands for a fault gives, whichever of
the natives that ask for them are found, its class, its message and its
text. -/
structure Tells {σ : Type} (host : Host σ) (m : Machine σ) (x : Value)
    (c : ClassId) (fault : Fault) : Prop where
  cls : ∀ key d, m.world.resolve? x key
      = some ⟨d, CoreClass.looks 0 .classOf⟩ →
    m.Gives host x key (.cls c)
  message : ∀ key d, m.world.resolve? x key
      = some ⟨d, CoreClass.looks 0 .message⟩ →
    m.Gives host x key (.text fault.message)
  inspect : ∀ key d, m.world.resolve? x key
      = some ⟨d, CoreClass.looks 0 .inspect⟩ →
    m.Gives host x key
      (.text ("#<" ++ fault.exceptionName ++ ": " ++ fault.message ++ ">"))

/-- It does, as what is on record of it is its class and its message. -/
theorem tells_of_info {σ : Type} (host : Host σ) {m : Machine σ}
    (here : m.world = r.world) (room : m.refusal? = none)
    (reachable : r.Reachable) (held : r.Held x)
    (bare : x.bare = .exception e)
    (info : r.world.exceptionInfo e
      = ⟨fault.exceptionClass.id, fault.message⟩) :
    Tells host m x fault.exceptionClass.id fault where
  cls key d resolved := by
    refine Machine.gives_of_looks host resolved room ?_
    rw [here]
    show Except.ok ((r.world.nominalClassOf? x).elim Value.nil Value.cls) = _
    rw [nominalClassOf?_of_exception reachable held bare
      (congrArg ExceptionInfo.cls info)]
    rfl
  message key d resolved := by
    refine Machine.gives_of_looks host resolved room ?_
    have found : r.world.exceptionOf x = .ok e := by
      unfold World.exceptionOf
      rw [bare]
    rw [here]
    show (r.world.exceptionOf x >>= fun e =>
      pure (Value.text (r.world.exceptionInfo e).message)) = _
    rw [found]
    show Except.ok (Value.text (r.world.exceptionInfo e).message) = _
    rw [info]
  inspect key d resolved := by
    refine Machine.gives_of_looks host resolved room ?_
    rw [here]
    show Except.ok (Value.text (r.world.inspect x)) = _
    rw [inspect_of_exception bare, info,
      className_of_registered? reachable
        (registered?_exceptionName reachable fault)]

-- ============================================================== the theorem

/-- Every fault becomes an exception of the right class. In every reachable
realm, whatever has been defined or refused to be defined on the way, the
name for a fault is bound to the class that it was bound to at the start. An
exception that is made for the fault is a new one, of this class and with the
words for the fault, and the class has the class of all exceptions above it.
All that stays so, whatever use comes after; and then every handle of the
exception gives this class, these words and a text of the two, when a native
is found on it that asks for them. -/
theorem failures_become_exceptions (reachable : r.Reachable)
    (fault : Fault) :
    ∃ c e w, r.world.exceptionFor fault = (e, w)
      ∧ (r.after (.exceptionFor fault)).world = w
      ∧ World.initial.registered? fault.exceptionName = some c
      ∧ r.world.registered? fault.exceptionName = some c
      ∧ (c = CoreClass.runtimeError.id
        ↔ ∃ message, fault = .raised message)
      ∧ ¬ r.world.HasException e
      ∧ ∀ s, (r.after (.exceptionFor fault)).Reaches s →
        s.world.HasException e
          ∧ s.world.exceptionInfo e = ⟨c, fault.message⟩
          ∧ CoreClass.exception.id ∈ s.world.ancestors c
          ∧ ∀ x, s.Held x → x.bare = .exception e →
            ∀ {σ : Type} (host : Host σ) (m : Machine σ),
              m.world = s.world → m.refusal? = none →
              Tells host m x c fault := by
  refine ⟨fault.exceptionClass.id, _, _, rfl, rfl,
    registered?_exceptionName .refl fault,
    registered?_exceptionName reachable fault,
    Fault.id_exceptionClass_eq_runtimeError_iff, Nat.lt_irrefl _, ?_⟩
  intro s reaches
  have reachableThere : s.Reachable :=
    (reachable.trans (.after (c := .exceptionFor fault) trivial)).trans
      reaches
  obtain ⟨there, info⟩ := exceptionInfo_reaches reachable reaches
  refine ⟨there, info, ?_, ?_⟩
  · rw [ancestors_core reachableThere]
    exact fault.exception_mem_ancestors
  · intro x held bare σ host m here room
    exact tells_of_info host here room reachableThere held bare info

/-- A realm in which there is another class by the name of a core class, and
in which a module of that name has been asked for. -/
def contested : Realm :=
  (start.after (.newClass "TypeError" none)).after
    (.defineModule "TypeError")

theorem reachable_contested : contested.Reachable :=
  .trans (.after (c := .newClass "TypeError" none) nofun) (.after trivial)

/-- Something of the wrong kind is an exception of the core class there; and
through a self reference it tells class, message and text. -/
theorem failures_become_exceptions_contested :
    ∃ e w, contested.world.exceptionFor (.notA "x" "class") = (e, w)
      ∧ w.exceptionInfo e = ⟨CoreClass.typeError.id, "x is not a class"⟩
      ∧ CoreClass.exception.id ∈ w.ancestors CoreClass.typeError.id
      ∧ let m : Machine Unit := { world := w, limit := some 1, own := () }
        let x : Value := .selfRef (.exception e)
        m.Gives Machine.endless x "class" (.cls CoreClass.typeError.id)
          ∧ m.Gives Machine.endless x "message" (.text "x is not a class")
          ∧ m.Gives Machine.endless x "inspect"
            (.text "#<TypeError: x is not a class>") := by
  obtain ⟨c, e, w, made, -, bound, -, -, -, later⟩ :=
    failures_become_exceptions reachable_contested (.notA "x" "class")
  cases made
  cases bound
  obtain ⟨there, info, above, tells⟩ := later _ .refl
  have told := tells (.selfRef (.exception _)) (.selfRef (.exception there))
    rfl Machine.endless
    { world := (contested.world.exceptionFor (.notA "x" "class")).2
      limit := some 1, own := () } rfl rfl
  exact ⟨_, _, rfl, info, above, told.cls "class" _ rfl,
    told.message "message" _ rfl, told.inspect "inspect" _ rfl⟩

end Realm

end ObjectWorld
