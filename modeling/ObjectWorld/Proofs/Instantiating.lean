/-
Making an object of a class.

The native that makes objects looks for an initializer on the class, makes
the object, and calls the initializer on it by name: two searches for one
method, the second one in the world with the new object. They agree, since
the class of a new object is the class it is made of and no class has
changed. So the call can not be declined. What is left of the four tests
that stand before a method (Dispatch.lean) is the count of arguments and
the room, and a refusal for one of these is the outcome of making the
object.

An initializer that runs does so one time, in the course of the native, and
what it gives back does not matter: on success the outcome is the object
that was its receiver (`made`), else its fault. Whatever it does, the object
stays there, of the class it was made of.
-/
import ObjectWorld.Proofs.Lasting
import ObjectWorld.Proofs.Responding

namespace ObjectWorld

/-- The method that the class of classes starts with for making objects. -/
def instantiating : Method :=
  ⟨.any, .isPublic, .native .instantiate⟩

/-- What making an object gives, after its initializer has given an
outcome: the object, or the fault. -/
def made (o : ObjectId) (outcome : Outcome) : Outcome :=
  outcome.map fun _ => .object o

/-- The end of an explicit return in an initializer does not matter. -/
theorem made_finish (o : ObjectId) (method : Method) (outcome : Outcome) :
    made o (method.finish outcome) = made o outcome := by
  unfold made Method.finish
  cases method.body with
  | native native => rfl
  | interpreted f => cases outcome <;> rfl

-- ========================================================== the new object

namespace World

variable {w : World} {c : ClassId} {o : ObjectId}

/-- A new object is none of those there are, and it has the class it is made
of, no eigenclass and nothing else. -/
theorem objectInfo_made (w : World) (c : ClassId) :
    ¬ w.HasObject (w.newObject c).1
      ∧ (w.newObject c).2.objectInfo (w.newObject c).1 = { cls := c } := by
  refine ⟨Nat.lt_irrefl _, ?_⟩
  rw [objectInfo_newObject]
  exact if_pos rfl

theorem classOf?_made (w : World) (c : ClassId) :
    (w.newObject c).2.classOf? (.object (w.newObject c).1) = some c := by
  unfold classOf?
  rw [(w.objectInfo_made c).2]
  rfl

/-- What is found on the class is found on the new object. -/
theorem resolve?_made (w : World) (c : ClassId) (name : String) :
    (w.newObject c).2.resolve? (.object (w.newObject c).1) name
      = w.resolveIn? c name := by
  unfold resolve?
  rw [classOf?_made]
  rfl

end World

namespace Machine

variable {σ : Type} {host : Host σ} {m m' last : Machine σ} {c : ClassId}
  {args : List Value} {next : Outcome → Program σ Outcome} {x : Outcome}
  {found : Resolution}

/-- A machine in which a call of the native has started. -/
def inNative (host : Host σ) (m : Machine σ) (v : Value)
    (args : List Value) (next : Outcome → Program σ Outcome) : Machine σ :=
  { m with
    depth := m.depth + 1
    current := Native.instantiate.run host v args
    waiting := next :: m.waiting }

/-- A machine in which such a call has made the object. -/
def withMade (m : Machine σ) (c : ClassId)
    (next : Outcome → Program σ Outcome) : Machine σ :=
  { m with
    world := (m.world.newObject c).2
    depth := m.depth + 1
    waiting := next :: m.waiting }

/-- How making an object goes on after its initializer. -/
def finishMade (o : ObjectId) (outcome : Outcome) : Program σ Outcome :=
  .done (made o outcome)

/-- A machine in which the new object is asked to initialize itself. -/
def initializing (m : Machine σ) (c : ClassId) (args : List Value)
    (next : Outcome → Program σ Outcome) : Machine σ :=
  (m.withMade c next).asking (.object (m.world.newObject c).1) "initialize"
    args .implicitSelf (finishMade (m.world.newObject c).1)

/-- Making an object that initializes itself, request by request. -/
theorem initialize_eq (c : ClassId) (args : List Value) :
    (do
      let o ← Eval.change (.newObject c)
      let _ ← Eval.invoke (.object o) "initialize" args .implicitSelf
      return .object o : Eval σ Value)
    = (.change (.newObject c) fun o =>
      .invoke (.object o) "initialize" args .implicitSelf fun outcome =>
        .done (made o outcome) : Program σ Outcome) := by
  refine congrArg (Program.change _) (funext fun o => ?_)
  refine congrArg (Program.invoke _ _ _ _) (funext fun outcome => ?_)
  cases outcome <;> rfl

/-- Where there is an initializer, the native makes the object next, and
then it asks the object to initialize itself. -/
theorem step_instantiate_initialized {self : Value}
    (hm : m.current = Native.instantiate.run host self args)
    (fit : m.world.classFrom "Class" self = .ok c)
    (initializer : m.world.resolveIn? c "initialize" = some found) :
    m.step host = { m with
      current := .change (.newObject c) fun o =>
        .invoke (.object o) "initialize" args .implicitSelf fun outcome =>
          .done (made o outcome) } := by
  rw [step_instantiate hm, fit, ← initialize_eq]
  show ({ m with current :=
    (if (m.world.resolveIn? c "initialize").isSome then _ else _
      : Program σ Outcome) } : Machine σ) = _
  rw [initializer]
  rfl

/-- So the native comes to its end through the return of the call that it
asks for. -/
theorem leads_inNative_iff {v : Value} (receiver : v.class? = some c)
    (initializer : m.world.resolveIn? c "initialize" = some found)
    (done : last.current = .done x) :
    Leads host (m.inNative host v args next) last
      ↔ ComesBack host (m.initializing c args next) last := by
  have fit : m.world.classFrom "Class" v = .ok c :=
    World.classFrom_eq_ok_iff.2 receiver
  have look : (m.inNative host v args next).step host = _ :=
    step_instantiate_initialized rfl fit initializer
  have hc : (m.initializing c args next).call? = some _ :=
    call?_of_invoke rfl
  rw [leads_step_iff (by rw [look]) (by rw [look]) (fun y h => by cases h)
    done, look, leads_step_iff rfl rfl (fun y h => by cases h) done]
  change Leads host (m.initializing c args next) last ↔ _
  rw [leads_call_iff hc done]
  constructor
  · rintro ⟨mid, back, rest⟩
    obtain ⟨-, -, outcome, ended⟩ := back.balanced hc
    rw [rest.eq_of_done ended]
    exact back
  · exact fun back => ⟨last, back, .refl last⟩

variable {v : Value} {name : String} {site : CallSite} {d : ClassId}

/-- A call of the native starts it. -/
theorem step_asking_new (host : Host σ)
    (resolved : m.world.resolve? v name = some ⟨d, instantiating⟩)
    (room : m.refusal? = none) :
    (m.asking v name args site next).step host
      = m.inNative host v args next := by
  have permitted : site.permits instantiating.visibility = true :=
    CallSite.permits_iff.2 (.inl rfl)
  rw [step_of_permitted host resolved permitted, room]
  show ({ m with
    depth := m.depth + 1
    current := instantiating.run host v args
    waiting := next :: m.waiting } : Machine σ) = _
  rw [Method.run_native rfl rfl]
  rfl

/-- Where there is an initializer, it is asked for two steps later. -/
theorem iterate_initializing (host : Host σ)
    (resolved : m.world.resolve? v name = some ⟨d, instantiating⟩)
    (room : m.refusal? = none) (receiver : v.class? = some c)
    (initializer : m.world.resolveIn? c "initialize" = some found) :
    (step host)^[3] (m.asking v name args site next)
      = m.initializing c args next := by
  have fit : m.world.classFrom "Class" v = .ok c :=
    World.classFrom_eq_ok_iff.2 receiver
  have look : (m.inNative host v args next).step host = _ :=
    step_instantiate_initialized rfl fit initializer
  show (((m.asking v name args site next).step host).step host).step host = _
  rw [step_asking_new host resolved room, look]
  rfl

/-- It comes back exactly if the native leads to its end. -/
theorem comesBack_asking_new_iff
    (resolved : m.world.resolve? v name = some ⟨d, instantiating⟩)
    (room : m.refusal? = none) :
    ComesBack host (m.asking v name args site next) m' ↔ ∃ last x,
      Leads host (m.inNative host v args next) last
        ∧ last.current = .done x
        ∧ m' = { last with
          depth := m.depth
          current := next x
          waiting := m.waiting } := by
  have hc : (m.asking v name args site next).call? = some _ :=
    call?_of_invoke rfl
  have hallowed : (m.asking v name args site next).world.methodFor v name
      args.length site = .ok instantiating := by
    refine World.methodFor_eq_ok_iff.2 ⟨_, resolved, ?_, rfl, rfl⟩
    exact CallSite.permits_iff.2 (.inl rfl)
  exact comesBack_iff_of_allowed hc hallowed room

/-- Without an initializer there is nothing to give arguments to. -/
theorem comesBack_of_plain (host : Host σ)
    (resolved : m.world.resolve? v name = some ⟨d, instantiating⟩)
    (room : m.refusal? = none) (receiver : v.class? = some c)
    (plain : m.world.resolveIn? c "initialize" = none) :
    ComesBack host (m.asking v name args site next)
      (match args with
      | [] => { m with
        world := (m.world.newObject c).2
        current := next (.ok (.object (m.world.newObject c).1)) }
      | _ :: _ => { m with
        current :=
          next (.error (.wrongNumberOfArguments 0 args.length)) }) := by
  have fit : m.world.classFrom "Class" v = .ok c :=
    World.classFrom_eq_ok_iff.2 receiver
  refine (comesBack_asking_new_iff resolved room).2 ?_
  cases args with
  | nil =>
      exact ⟨_, _, leads_of_does rfl (.instantiate fit plain rfl), rfl, rfl⟩
  | cons arg args =>
      exact ⟨_, _, leads_of_does rfl (.tooMany fit plain rfl), rfl, rfl⟩

/-- Of the tests before a method only the count of arguments and the room
can be in the way of an initializer. -/
theorem verdict_initializing (args : List Value)
    (next : Outcome → Program σ Outcome)
    (initializer : m.world.resolveIn? c "initialize" = some found) :
    ∃ decided, (m.initializing c args next).Verdict
        (.object (m.world.newObject c).1) "initialize" args .implicitSelf
        decided
      ∧ (decided = .ok found.method
        ∨ (∃ expected, found.method.arity = .fixed expected
          ∧ expected ≠ args.length
          ∧ decided = .error (.wrongNumberOfArguments expected args.length))
        ∨ ∃ limit, m.limit = some limit ∧ limit ≤ m.depth + 1
          ∧ decided = .error (.stackTooDeep limit)) := by
  refine ⟨_, verdict_iff.2 rfl, ?_⟩
  have allowed : (m.initializing c args next).world.methodFor _ "initialize"
      args.length .implicitSelf = _ :=
    World.methodFor_of_permitted
      ((m.world.resolve?_made c "initialize").trans initializer)
      (CallSite.permits_iff.2 (.inr rfl))
  unfold verdict
  rw [allowed]
  cases check : found.method.arity.check args.length with
  | error fault =>
      obtain ⟨expected, arity, count, rfl⟩ := Arity.check_eq_error_iff.1 check
      exact .inr (.inl ⟨expected, arity, count, rfl⟩)
  | ok _ =>
      cases refusal : (m.initializing c args next).refusal? with
      | none => exact .inl rfl
      | some fault =>
          obtain ⟨limit, bound, reached, rfl⟩ :=
            refusal?_eq_some_iff.1 refusal
          exact .inr (.inr ⟨limit, bound, reached, rfl⟩)

/-- With an initializer, making the object comes back exactly if the call
of that does. -/
theorem comesBack_iff_of_initializing
    (resolved : m.world.resolve? v name = some ⟨d, instantiating⟩)
    (room : m.refusal? = none) (receiver : v.class? = some c)
    (initializer : m.world.resolveIn? c "initialize" = some found) :
    ComesBack host (m.asking v name args site next) m' ↔ ∃ last x,
      ComesBack host (m.initializing c args next) last
        ∧ last.current = .done x
        ∧ m' = { last with
          depth := m.depth
          current := next x
          waiting := m.waiting } := by
  rw [comesBack_asking_new_iff resolved room]
  constructor
  · rintro ⟨last, x, leads, done, rfl⟩
    exact ⟨last, x, (leads_inNative_iff receiver initializer done).1 leads,
      done, rfl⟩
  · rintro ⟨last, x, back, done, rfl⟩
    exact ⟨last, x, (leads_inNative_iff receiver initializer done).2 back,
      done, rfl⟩

/-- An initializer that is refused ends the making of the object. -/
theorem comesBack_of_refusedInitializer {fault : Fault}
    (resolved : m.world.resolve? v name = some ⟨d, instantiating⟩)
    (room : m.refusal? = none) (receiver : v.class? = some c)
    (initializer : m.world.resolveIn? c "initialize" = some found)
    (decided : (m.initializing c args next).Verdict
      (.object (m.world.newObject c).1) "initialize" args .implicitSelf
      (.error fault)) :
    ComesBack host (m.asking v name args site next) { m with
      world := (m.world.newObject c).2
      current := next (.error fault) } := by
  have stopped : (m.initializing c args next).step host = _ :=
    step_of_fault host rfl (verdict_iff.1 decided)
  have back : ComesBack host (m.initializing c args next) _ :=
    ⟨0, stopped, rfl, fun j hj => absurd hj (Nat.not_lt_zero j)⟩
  refine (comesBack_iff_of_initializing resolved room receiver
    initializer).2 ?_
  exact ⟨_, .error fault, back, rfl, rfl⟩

/-- A method's body does not depend on what the machine was about to ask. -/
theorem inBody_asking (host : Host σ) (m : Machine σ) (u v : Value)
    (name : String) (args args' : List Value) (site : CallSite)
    (method : Method) (next next' : Outcome → Program σ Outcome) :
    (m.asking u name args site next).inBody host method v args' next'
      = m.inBody host method v args' next' := by
  unfold inBody
  cases method.body <;> rfl

/-- An initializer that runs does so one time: making the object comes back
exactly if the initializer's body leads to its end. -/
theorem comesBack_iff_of_initializer
    (resolved : m.world.resolve? v name = some ⟨d, instantiating⟩)
    (room : m.refusal? = none) (receiver : v.class? = some c)
    (initializer : m.world.resolveIn? c "initialize" = some found)
    (decided : (m.initializing c args next).Verdict
      (.object (m.world.newObject c).1) "initialize" args .implicitSelf
      (.ok found.method)) :
    ComesBack host (m.asking v name args site next) m' ↔ ∃ last outcome,
      Leads host ((m.withMade c next).inBody host found.method
          (.object (m.world.newObject c).1) args
          (finishMade (m.world.newObject c).1)) last
        ∧ last.current = .done outcome
        ∧ m' = { last with
          depth := m.depth
          current := next (made (m.world.newObject c).1 outcome)
          waiting := m.waiting } := by
  have hc : (m.initializing c args next).call? = some _ :=
    call?_of_invoke rfl
  obtain ⟨hallowed, room'⟩ := verdict_eq_ok_iff.1 (verdict_iff.1 decided)
  have body : ∀ last, ComesBack host (m.initializing c args next) last ↔ _ :=
    fun last => comesBack_iff_of_allowed hc hallowed room'
  have alike : (m.initializing c args next).inBody host found.method
      (.object (m.world.newObject c).1) args
      (finishMade (m.world.newObject c).1) = _ := inBody_asking ..
  rw [comesBack_iff_of_initializing resolved room receiver initializer]
  simp only [body, alike]
  constructor
  · rintro ⟨_, x, ⟨last, outcome, leads, done, rfl⟩, hx, rfl⟩
    cases hx
    exact ⟨last, outcome, leads, done, by rw [made_finish]⟩
  · rintro ⟨last, outcome, leads, done, rfl⟩
    refine ⟨_, _, ⟨last, outcome, leads, done, rfl⟩, rfl, ?_⟩
    rw [made_finish]

/-- And it runs, whether or not it ever comes to an end. -/
theorem iterate_initializer
    (resolved : m.world.resolve? v name = some ⟨d, instantiating⟩)
    (room : m.refusal? = none) (receiver : v.class? = some c)
    (initializer : m.world.resolveIn? c "initialize" = some found)
    (decided : (m.initializing c args next).Verdict
      (.object (m.world.newObject c).1) "initialize" args .implicitSelf
      (.ok found.method)) :
    ∃ k, (step host)^[k] (m.asking v name args site next)
      = (m.withMade c next).inBodyFinished host found.method
        (.object (m.world.newObject c).1) args
        (finishMade (m.world.newObject c).1) := by
  have hc : (m.initializing c args next).call? = some _ :=
    call?_of_invoke rfl
  obtain ⟨hallowed, room'⟩ := verdict_eq_ok_iff.1 (verdict_iff.1 decided)
  have hs := step_of_allowed host hc hallowed
  rw [room'] at hs
  obtain ⟨k, hk⟩ := iterate_inBody (check_of_allowed hc hallowed) hs
  refine ⟨k + 3, ?_⟩
  rw [Function.iterate_add_apply,
    iterate_initializing host resolved room receiver initializer, hk]
  unfold inBodyFinished initializing
  rw [inBody_asking]

/-- Coming to a method's body takes nothing away. -/
theorem later_inBody (host : Host σ) (m : Machine σ) (method : Method)
    (self : Value) (args : List Value)
    (next : Outcome → Program σ Outcome) :
    m.world.Later (m.inBody host method self args next).world := by
  unfold inBody
  cases method.body with
  | native native => exact .refl _
  | interpreted f => exact World.later_newScope ..

/-- Whatever an initializer does, the new object stays there, of the class
it was made of. -/
theorem object_of_leads {method : Method}
    (leads : Leads host ((m.withMade c next).inBody host method
      (.object (m.world.newObject c).1) args
      (finishMade (m.world.newObject c).1)) last) :
    last.world.HasObject (m.world.newObject c).1
      ∧ (last.world.objectInfo (m.world.newObject c).1).cls = c := by
  obtain ⟨k, rfl, -⟩ := leads.steps
  have there : (m.withMade c next).world.HasObject (m.world.newObject c).1 :=
    World.hasObject_newObject.2 (.inr rfl)
  have later := (later_inBody host (m.withMade c next) method
    (.object (m.world.newObject c).1) args
    (finishMade (m.world.newObject c).1)).trans (later_iterate host _ k)
  refine ⟨later.hasObject there, (later.cls there).trans ?_⟩
  exact congrArg ObjectInfo.cls (m.world.objectInfo_made c).2

-- ============================================================ the theorem

/-- Making an object of a class, from wherever it is called. The object is
none of those there are, and it is of the class. Where the class has no
initializer, nothing else happens, and arguments are refused before the
object is made. Where there is one, the new object is asked for it next, by
a call from within, and finds what the class found. That call is refused
for no more than its count of arguments or for want of room, and such a
refusal is the outcome. Else the initializer comes to its body, with the
arguments and the new object as its receiver, and making the object comes
back exactly if the body, run one time, leads to its end: with the body's
fault, or with that very object, which is still there, of the class it was
made of. -/
theorem instantiate_exact (host : Host σ) (m : Machine σ) (v : Value)
    (name : String)
    (resolved : m.world.resolve? v name = some ⟨d, instantiating⟩)
    (room : m.refusal? = none) (receiver : v.class? = some c)
    (args : List Value) (site : CallSite)
    (next : Outcome → Program σ Outcome) {o : ObjectId} {w : World}
    (object : m.world.newObject c = (o, w)) :
    (¬ m.world.HasObject o ∧ w.objectInfo o = { cls := c }
        ∧ w.classOf? (.object o) = some c)
      ∧ (m.world.resolveIn? c "initialize" = none → ∀ m',
        ComesBack host (m.asking v name args site next) m' ↔ m' =
          match args with
          | [] => { m with world := w, current := next (.ok (.object o)) }
          | _ :: _ => { m with
            current :=
              next (.error (.wrongNumberOfArguments 0 args.length)) })
      ∧ ∀ found, m.world.resolveIn? c "initialize" = some found →
        (step host)^[3] (m.asking v name args site next)
            = (m.withMade c next).asking (.object o) "initialize" args
              .implicitSelf (finishMade o)
        ∧ w.resolve? (.object o) "initialize" = some found
        ∧ ∃ decided, (m.initializing c args next).Verdict (.object o)
            "initialize" args .implicitSelf decided
          ∧ (decided = .ok found.method
            ∨ (∃ expected, found.method.arity = .fixed expected
              ∧ expected ≠ args.length
              ∧ decided
                = .error (.wrongNumberOfArguments expected args.length))
            ∨ ∃ limit, m.limit = some limit ∧ limit ≤ m.depth + 1
              ∧ decided = .error (.stackTooDeep limit))
          ∧ (∀ fault, decided = .error fault → ∀ m',
            ComesBack host (m.asking v name args site next) m'
              ↔ m' = { m with
                world := w
                current := next (.error fault) })
          ∧ (decided = .ok found.method →
            (∃ k, (step host)^[k] (m.asking v name args site next)
                = (m.withMade c next).inBodyFinished host found.method
                  (.object o) args (finishMade o))
            ∧ ∀ m', ComesBack host (m.asking v name args site next) m'
              ↔ ∃ last outcome, Leads host ((m.withMade c next).inBody host
                  found.method (.object o) args (finishMade o)) last
                ∧ last.current = .done outcome
                ∧ (last.world.HasObject o
                  ∧ (last.world.objectInfo o).cls = c)
                ∧ m' = { last with
                  depth := m.depth
                  current := next (made o outcome)
                  waiting := m.waiting }) := by
  obtain rfl : (m.world.newObject c).1 = o := congrArg Prod.fst object
  obtain rfl : (m.world.newObject c).2 = w := congrArg Prod.snd object
  obtain ⟨new, info⟩ := m.world.objectInfo_made c
  refine ⟨⟨new, info, m.world.classOf?_made c⟩, ?_, ?_⟩
  · intro plain m'
    exact (comesBack_of_plain host resolved room receiver plain).iff_eq
  intro found initializer
  refine ⟨iterate_initializing host resolved room receiver initializer,
    (m.world.resolve?_made c _).trans initializer, ?_⟩
  obtain ⟨decided, verdict, cases⟩ :=
    verdict_initializing args next initializer
  refine ⟨decided, verdict, cases, ?_, ?_⟩
  · rintro fault rfl m'
    exact (comesBack_of_refusedInitializer resolved room receiver initializer
      verdict).iff_eq
  rintro rfl
  refine ⟨iterate_initializer resolved room receiver initializer verdict,
    fun m' => ?_⟩
  rw [comesBack_iff_of_initializer resolved room receiver initializer verdict]
  constructor
  · rintro ⟨last, outcome, leads, done, rfl⟩
    exact ⟨last, outcome, leads, done, object_of_leads leads, rfl⟩
  · rintro ⟨last, outcome, leads, done, -, rfl⟩
    exact ⟨last, outcome, leads, done, rfl⟩

/-- A machine at the start, where objects are initialized by a private
method that takes one argument. -/
def initialized (limit : Nat) : Machine Unit where
  world := World.initial.defineMethod CoreClass.object.id "initialize"
    ⟨.fixed 1, .isPrivate, .native (.query .equal)⟩
  limit := some limit
  own := ()

/-- With room for two calls, making an object with one argument gives the
object, and not what the initializer gave back; without an argument it
gives the initializer's fault. With room for one call only it gives that of
the initializer too. -/
theorem instantiate_exact_initialized :
    (∃ m', ComesBack endless ((initialized 2).asking
          (.selfRef (.cls CoreClass.object.id)) "new" [.nil] .explicit .done)
        m' ∧ m'.current = .done (.ok (.object ⟨1⟩)))
      ∧ (∃ m', ComesBack endless ((initialized 2).asking
          (.cls CoreClass.object.id) "new" [] .explicit .done) m'
        ∧ m'.current = .done (.error (.wrongNumberOfArguments 1 0)))
      ∧ ∃ m', ComesBack endless ((initialized 1).asking
          (.cls CoreClass.object.id) "new" [.nil] .explicit .done) m'
        ∧ m'.current = .done (.error (.stackTooDeep 1)) := by
  refine ⟨?_, ?_, ?_⟩
  · obtain ⟨-, -, initializes⟩ := instantiate_exact endless (initialized 2)
      (.selfRef (.cls CoreClass.object.id)) "new" rfl rfl rfl [.nil]
      .explicit .done rfl
    obtain ⟨-, -, decided, verdict, -, -, runs⟩ := initializes _ rfl
    obtain ⟨-, back⟩ := runs (verdict_iff.1 verdict).symm
    refine ⟨_, (back _).2 ⟨_, _, leads_of_does rfl (.query .equal), rfl, ?_,
      rfl⟩, rfl⟩
    exact object_of_leads (leads_of_does rfl (.query .equal))
  · obtain ⟨-, -, initializes⟩ := instantiate_exact endless (initialized 2)
      (.cls CoreClass.object.id) "new" rfl rfl rfl [] .explicit .done rfl
    obtain ⟨-, -, decided, verdict, -, fails, -⟩ := initializes _ rfl
    exact ⟨_, (fails _ (verdict_iff.1 verdict).symm _).2 rfl, rfl⟩
  · obtain ⟨-, -, initializes⟩ := instantiate_exact endless (initialized 1)
      (.cls CoreClass.object.id) "new" rfl rfl rfl [.nil] .explicit .done rfl
    obtain ⟨-, -, decided, verdict, -, fails, -⟩ := initializes _ rfl
    exact ⟨_, (fails _ (verdict_iff.1 verdict).symm _).2 rfl, rfl⟩

end Machine

end ObjectWorld
