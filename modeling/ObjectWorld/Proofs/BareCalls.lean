/-
Calling a function as a value, and calling it on the main receiver by name.

Both calls have the main receiver as self. What comes before them differs:
one looks a name up along the chain of the main receiver, the other looks
at what is at hand. But a call from within may reach any method, and the
visibility is all that two methods of one function can differ in; what
runs does not read it (`Method.Matches`). So the world answers both
questions alike (`AnswersAlike`): the parameters are counted, and then it
is the same program that asks for room, for the same self. From the first
step on the two runs are one (`SameCourse`), and with it all that they
evaluate, print, change and come back with.

The printing function that the first scope binds goes the same way with
the method that Kernel prints by. Whatever is at hand and is neither a
function nor a builtin is refused.
-/
import ObjectWorld.Proofs.Responding

namespace ObjectWorld

-- ============================================================ one method

/-- Whether two methods take the same arguments and do the same; who may
call them is left open. -/
def Method.Matches (method other : Method) : Prop :=
  method.arity = other.arity ∧ method.body = other.body

/-- What a method does has nothing to do with who may call it. -/
theorem Method.Matches.run {σ : Type} {method other : Method}
    (h : method.Matches other) (host : Host σ) (self : Value)
    (args : List Value) :
    method.run host self args = other.run host self args := by
  unfold Method.run
  rw [h.1, h.2]

/-- Whether two questions for a method are answered alike: with the same
fault, or with methods that match. -/
inductive AnswersAlike : Except Fault Method → Except Fault Method → Prop
  | fault (fault : Fault) : AnswersAlike (.error fault) (.error fault)
  | method {method other : Method} (matching : method.Matches other) :
      AnswersAlike (.ok method) (.ok other)

/-- The method that Kernel starts with for printing. -/
def printing : Method :=
  ⟨.any, .isPrivate, .native .printLine⟩

/-- The function that the first scope starts with for printing. -/
def printingFunction : Value :=
  .builtin "puts" .printLine

namespace World

variable {w : World} {v callee : Value} {name : String} {given : Nat}
  {d : ClassId} {f : FunctionId} {method : Method}
  {visibility shown : Visibility}

-- ============================================================= at hand

/-- Of a function at hand the parameters are counted. -/
theorem methodForCallee_of_function (h : callee.bare = .function f shown) :
    w.methodForCallee callee given
      = match (w.methodOf f shown).arity.check given with
        | .error fault => .error fault
        | .ok _ => .ok (w.methodOf f shown) := by
  unfold methodForCallee
  rw [h]
  show ((w.methodOf f shown).arity.check given >>= fun _ => _) = _
  cases (w.methodOf f shown).arity.check given <;> rfl

/-- A builtin at hand takes any count of arguments. -/
theorem methodForCallee_of_builtin {key : String} {native : Native}
    (h : callee.bare = .builtin key native) :
    w.methodForCallee callee given
      = .ok ⟨.any, .isPublic, .native native⟩ := by
  unfold methodForCallee
  rw [h]

/-- Nothing else can be called. -/
theorem methodForCallee_of_neither
    (function : ∀ f shown, callee.bare ≠ .function f shown)
    (builtin : ∀ key native, callee.bare ≠ .builtin key native) :
    w.methodForCallee callee given
      = .error (.notA (w.inspect callee.bare) "function") := by
  unfold methodForCallee
  split
  · rename_i f shown h
    exact absurd h (function f shown)
  · rename_i key native h
    exact absurd h (builtin key native)
  · rfl

-- ======================================================== by name, within

/-- A call by name from within reaches a method of any visibility, and its
arguments are counted. -/
theorem methodFor_within (resolved : w.resolve? v name = some ⟨d, method⟩) :
    w.methodFor v name given .implicitSelf
      = match method.arity.check given with
        | .error fault => .error fault
        | .ok _ => .ok method :=
  methodFor_of_permitted resolved (CallSite.permits_iff.2 (.inr rfl))

/-- A function is found by name as it is at hand. -/
theorem answersAlike_of_function
    (resolved : w.resolve? v name = some ⟨d, w.methodOf f visibility⟩)
    (h : callee.bare = .function f shown) :
    AnswersAlike (w.methodFor v name given .implicitSelf)
      (w.methodForCallee callee given) := by
  rw [methodFor_within resolved, methodForCallee_of_function h]
  -- one function, so one arity
  show AnswersAlike
    (match (w.methodOf f shown).arity.check given with
      | .error fault => .error fault
      | .ok _ => .ok (w.methodOf f visibility)) _
  cases (w.methodOf f shown).arity.check given with
  | error fault => exact .fault fault
  | ok _ => exact .method ⟨rfl, rfl⟩

/-- So is a native, as a method for any count of arguments. -/
theorem answersAlike_of_builtin {key : String} {native : Native}
    (resolved : w.resolve? v name
      = some ⟨d, ⟨.any, visibility, .native native⟩⟩)
    (h : callee.bare = .builtin key native) :
    AnswersAlike (w.methodFor v name given .implicitSelf)
      (w.methodForCallee callee given) := by
  rw [methodFor_within resolved, methodForCallee_of_builtin h]
  exact .method ⟨rfl, rfl⟩

end World

namespace Machine

variable {σ : Type} {host : Host σ} {m m' n : Machine σ}
  {callee : Value} {name : String} {args : List Value}
  {next : Outcome → Program σ Outcome} {p : Program σ Outcome}
  {allowed allowed' : Except Fault Method} {d : ClassId} {f : FunctionId}
  {visibility shown : Visibility}

-- ============================================================ one course

/-- Whether two machines are the same at every moment after their first
steps. -/
def SameCourse (host : Host σ) (m n : Machine σ) : Prop :=
  ∀ k, (step host)^[k + 1] m = (step host)^[k + 1] n

theorem sameCourse_of_step (h : m.step host = n.step host) :
    SameCourse host m n := by
  intro k
  rw [Function.iterate_succ_apply, Function.iterate_succ_apply, h]

/-- Then they come back to the same state, if to any. -/
theorem SameCourse.comesBack_iff (h : SameCourse host m n)
    (active : m.active = n.active) :
    ComesBack host m m' ↔ ComesBack host n m' := by
  unfold ComesBack
  simp only [h _, active]

/-- A machine that is about to call what is at hand. -/
def applying (m : Machine σ) (callee : Value) (args : List Value)
    (next : Outcome → Program σ Outcome) : Machine σ :=
  { m with current := .apply callee args next }

theorem call?_applying :
    (m.applying callee args next).call? = some
      { allowed := m.world.methodForCallee callee args.length
        self := World.main, args, next } := rfl

/-- What a call does next depends on the answer and on nothing that was
asked. -/
theorem callIfAllowed_congr (host : Host σ) (m : Machine σ)
    (p p' : Program σ Outcome) (alike : AnswersAlike allowed allowed')
    (self : Value) (args : List Value)
    (next : Outcome → Program σ Outcome) :
    callIfAllowed host { m with current := p } allowed self args next
      = callIfAllowed host { m with current := p' } allowed' self args
        next := by
  cases alike with
  | fault fault => rfl
  | method matching =>
      have room : ∀ p, ({ m with current := p } : Machine σ).refusal?
        = m.refusal? := fun _ => rfl
      simp only [callIfAllowed, call, room, matching.run]

/-- Calls that the world answers alike go the same way. -/
theorem sameCourse_of_answersAlike (host : Host σ)
    (alike : AnswersAlike
      (m.world.methodFor World.main name args.length .implicitSelf)
      (m.world.methodForCallee callee args.length)) :
    SameCourse host (m.asking World.main name args .implicitSelf next)
      (m.applying callee args next) := by
  apply sameCourse_of_step
  rw [step_of_call host (call?_of_invoke rfl),
    step_of_call host call?_applying]
  exact callIfAllowed_congr host m _ _ alike ..

-- ============================================================ a function

/-- What becomes of a call of a function with the main receiver as self.
The parameters are counted first, whether or not there is room. A call that
passes both tests comes to the body of the function in a scope of its own,
and it comes back exactly if the body, run one time, leads to its end. -/
structure CallsOnMain (host : Host σ) (m : Machine σ) (f : FunctionId)
    (args : List Value) (next : Outcome → Program σ Outcome)
    (asked : Machine σ) : Prop where
  miscounted : (m.world.functionInfo f).params.length ≠ args.length →
    asked.step host = { m with
      current := next (.error (.wrongNumberOfArguments
        (m.world.functionInfo f).params.length args.length)) }
  full : (m.world.functionInfo f).params.length = args.length →
    ∀ limit, m.limit = some limit → limit ≤ m.depth →
      asked.step host = { m with
        current := next (.error (.stackTooDeep limit)) }
  starts : (m.world.functionInfo f).params.length = args.length →
    m.refusal? = none → ∃ k, (step host)^[k] asked
      = m.inBodyFinished host (m.world.methodOf f .isPublic) World.main args
        next
  comesBack : (m.world.functionInfo f).params.length = args.length →
    m.refusal? = none → ∀ m', ComesBack host asked m' ↔ ∃ last outcome,
      Leads host (m.inBody host (m.world.methodOf f .isPublic) World.main
          args next) last
        ∧ last.current = .done outcome
        ∧ m' = { last with
          depth := m.depth
          current := next (outcome.map Value.peelReturn)
          waiting := m.waiting }

/-- Whoever asks for a call that the world allows to the method of a
function calls the function. -/
theorem callsOnMain_of_call (host : Host σ)
    (hc : ({ m with current := p } : Machine σ).call?
      = some ⟨allowed, World.main, args, next⟩)
    (answer : allowed
      = match (m.world.methodOf f shown).arity.check args.length with
        | .error fault => .error fault
        | .ok _ => .ok (m.world.methodOf f shown)) :
    CallsOnMain host m f args next { m with current := p } := by
  have fixed : (m.world.methodOf f shown).arity
    = .fixed (m.world.functionInfo f).params.length := rfl
  -- the method is allowed if the count is right
  have allows : (m.world.functionInfo f).params.length = args.length →
      allowed = .ok (m.world.methodOf f shown) := by
    intro counted
    have check : (m.world.methodOf f shown).arity.check args.length
        = .ok () := by
      refine Arity.check_eq_ok_iff.2 fun expected arity => ?_
      rw [fixed] at arity
      cases arity
      exact counted
    rw [answer, check]
  refine ⟨fun miscounted => ?_, fun counted limit bound reached => ?_,
    fun counted room => ?_, fun counted room => ?_⟩
  · have check := Arity.check_eq_error_iff.2 ⟨_, fixed, miscounted, rfl⟩
    rw [check] at answer
    exact step_of_disallowed host hc answer
  · have step := step_of_allowed host hc (allows counted)
    have refusal : ({ m with current := p } : Machine σ).refusal? = _ :=
      refusal?_eq_some_iff.2 ⟨limit, bound, reached, rfl⟩
    rw [refusal] at step
    exact step
  · have step := step_of_allowed host hc (allows counted)
    have free : ({ m with current := p } : Machine σ).refusal? = none := room
    rw [free] at step
    exact iterate_inBody (check_of_allowed hc (allows counted)) step
  · exact fun m' => comesBack_iff_of_allowed hc (allows counted) room

-- ============================================================== printing

/-- The printing function that the first scope binds comes back with nil
and one line more, if there is room. -/
theorem comesBack_of_printing (host : Host σ)
    (h : callee.bare = printingFunction) (room : m.refusal? = none) :
    ComesBack host (m.applying callee args next) { m with
      console := m.console.println (String.join (args.map m.world.inspect))
      current := next (.ok .nil) } :=
  comesBack_of_does call?_applying (World.methodForCallee_of_builtin h) room
    rfl .printLine

-- ============================================================ the theorem

/-- Calling what is at hand agrees with calling the main receiver by name
from within. If a name leads the main receiver to the method of a function,
of whatever visibility, then calling by it and calling any handle of the
function are one run from the first step on: the count of arguments is
tested before the room, the body is run for the main receiver, and the
calls come back with the same outcome to the same state. So it is with the
printing function of the first scope, as long as the main receiver prints
by Kernel's method. Of anything else at hand a call is refused, and nothing
is changed. -/
theorem bare_calls_agree (host : Host σ) (m : Machine σ)
    (args : List Value) (next : Outcome → Program σ Outcome) :
    (∀ name d f visibility callee shown,
        m.world.resolve? World.main name
          = some ⟨d, m.world.methodOf f visibility⟩ →
        callee.bare = .function f shown →
        let byName := m.asking World.main name args .implicitSelf next
        let atHand := m.applying callee args next
        SameCourse host byName atHand
          ∧ (∀ m', ComesBack host byName m' ↔ ComesBack host atHand m')
          ∧ CallsOnMain host m f args next byName
          ∧ CallsOnMain host m f args next atHand)
      ∧ (World.initial.resolve? World.main "puts"
            = some ⟨CoreClass.kernel.id, printing⟩
          ∧ World.initial.lookup? World.globals "puts"
            = some printingFunction
          ∧ ∀ callee, callee.bare = printingFunction →
            m.world.resolve? World.main "puts"
              = some ⟨CoreClass.kernel.id, printing⟩ →
            let byName := m.asking World.main "puts" args .implicitSelf next
            let atHand := m.applying callee args next
            SameCourse host byName atHand
              ∧ (∀ m', ComesBack host byName m' ↔ ComesBack host atHand m')
              ∧ (∀ fault, m.refusal? = some fault → ∀ m',
                ComesBack host atHand m'
                  ↔ m' = { m with current := next (.error fault) })
              ∧ (m.refusal? = none → ∀ m', ComesBack host atHand m'
                ↔ m' = { m with
                  console := m.console.println
                    (String.join (args.map m.world.inspect))
                  current := next (.ok .nil) }))
      ∧ ∀ callee, (∀ f shown, callee.bare ≠ .function f shown) →
        (∀ key native, callee.bare ≠ .builtin key native) →
        ∀ m', ComesBack host (m.applying callee args next) m' ↔ m' = { m with
          current := next
            (.error (.notA (m.world.inspect callee.bare) "function")) } := by
  refine ⟨?_, ⟨rfl, rfl, ?_⟩, ?_⟩
  · intro name d f visibility callee shown resolved function
    have course : SameCourse host
        (m.asking World.main name args .implicitSelf next)
        (m.applying callee args next) :=
      sameCourse_of_answersAlike host
        (World.answersAlike_of_function resolved function)
    refine ⟨course, fun m' => course.comesBack_iff rfl, ?_, ?_⟩
    · exact callsOnMain_of_call host (call?_of_invoke rfl)
        (World.methodFor_within resolved)
    · exact callsOnMain_of_call host call?_applying
        (World.methodForCallee_of_function function)
  · intro callee function resolved
    have course : SameCourse host
        (m.asking World.main "puts" args .implicitSelf next)
        (m.applying callee args next) :=
      sameCourse_of_answersAlike host
        (World.answersAlike_of_builtin resolved function)
    refine ⟨course, fun m' => course.comesBack_iff rfl, ?_, ?_⟩
    · exact fun fault full m' => (comesBack_of_full call?_applying
        (World.methodForCallee_of_builtin function) full).iff_eq
    · exact fun room m' => (comesBack_of_printing host function room).iff_eq
  · intro callee function builtin m'
    exact (comesBack_of_disallowed call?_applying
      (World.methodForCallee_of_neither function builtin)).iff_eq

/-- A host whose bodies explicitly return self and what "it" means. -/
def echoing : Host Unit where
  body _ self scope := do
    let w ← Eval.world
    return .returned (.array [self, (w.lookup? scope "it").getD .nil])
  native _ _ _ := return .nil

/-- A machine at the start, with a function that is also a private method
of every object. -/
def echo (limit : Nat) : Machine Unit where
  world := (World.initial.newFunction ⟨["it"], ⟨0⟩, World.globals⟩).2
    |>.defineMethod CoreClass.object.id "echo"
      ⟨.fixed 1, .isPrivate, .interpreted ⟨0⟩⟩
  limit := some limit
  own := ()

/-- By its name and through a self reference to the public function, the
function runs for the main receiver and comes back with the same. Without
room a missing argument is what is at fault. Printing at hand prints, and
nil can not be called. -/
theorem bare_calls_agree_echo :
    (∃ m', ComesBack echoing ((echo 1).asking World.main "echo" [.int 1]
          .implicitSelf .done) m'
        ∧ ComesBack echoing ((echo 1).applying
          (.selfRef (.function ⟨0⟩ .isPublic)) [.int 1] .done) m'
        ∧ m'.current = .done (.ok (.array [World.main, .int 1])))
      ∧ ((echo 0).applying (.function ⟨0⟩ .isPublic) [] .done).step echoing
        = { echo 0 with
          current := .done (.error (.wrongNumberOfArguments 1 0)) }
      ∧ ComesBack echoing
        ((echo 1).applying printingFunction [.int 1, .text "a"] .done)
        { echo 1 with
          console := { kept := "1a\n" }, current := .done (.ok .nil) }
      ∧ ComesBack echoing ((echo 1).applying .nil [] .done) { echo 1 with
        current := .done (.error (.notA "nil" "function")) } := by
  obtain ⟨functions, -, -⟩ :=
    bare_calls_agree echoing (echo 1) [.int 1] .done
  obtain ⟨-, agree, -, calls⟩ := functions "echo" CoreClass.object.id ⟨0⟩
    .isPrivate (.selfRef (.function ⟨0⟩ .isPublic)) .isPublic rfl rfl
  obtain ⟨crowded, -, -⟩ := bare_calls_agree echoing (echo 0) [] .done
  obtain ⟨-, -, -, miscounts⟩ := crowded "echo" CoreClass.object.id ⟨0⟩
    .isPrivate (.function ⟨0⟩ .isPublic) .isPublic rfl rfl
  obtain ⟨-, ⟨-, -, prints⟩, -⟩ :=
    bare_calls_agree echoing (echo 1) [.int 1, .text "a"] .done
  obtain ⟨-, -, -, printed⟩ := prints printingFunction rfl rfl
  obtain ⟨-, -, neither⟩ := bare_calls_agree echoing (echo 1) [] .done
  refine ⟨?_, miscounts.miscounted (by decide), ?_, ?_⟩
  · have back := (calls.comesBack rfl rfl _).2
      ⟨_, _, .of_step rfl rfl, rfl, rfl⟩
    exact ⟨_, (agree _).2 back, back, rfl⟩
  · exact (printed rfl _).2 rfl
  · exact (neither .nil nofun nofun _).2 rfl

end Machine

end ObjectWorld
