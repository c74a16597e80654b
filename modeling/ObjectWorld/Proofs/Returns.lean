/-
What an explicit return leaves to the caller.

The value of an explicit return travels in a wrapper to the end of the body
that it stands in, and the end of the call takes the wrapper off. It takes
one off and looks no further, whatever is inside. So of a value that is
wrapped twice, by a return of a return or by a return of what was returned
to the body as such, the caller gets one wrapper (`TakesOneReturn`); and
there is no other way for a call of a function to give one.
-/
import ObjectWorld.Proofs.BareCalls
import ObjectWorld.Proofs.Realm
import ObjectWorld.Script.Hosting

namespace ObjectWorld

/-- A value is a return after one is taken off just if it was two. -/
theorem Value.peelReturn_eq_returned_iff {v u : Value} :
    v.peelReturn = .returned u ↔ v = .returned (.returned u) := by
  cases v <;> simp [peelReturn]

namespace Machine

variable {σ : Type} {host : Host σ} {m asked : Machine σ} {method : Method}
  {self v : Value} {args : List Value} {f : FunctionId} {starts : Prop}
  {c : Call σ}

-- ================================================================ what comes

/-- Whether a call that is about to be made comes back with a value. -/
def Yields (host : Host σ) (asked : Machine σ) (v : Value) : Prop :=
  ∃ m', ComesBack host asked m' ∧ m'.current = .done (.ok v)

/-- Whether what a method does, run for a call, comes to its end with a
value. -/
def BodyGives (host : Host σ) (m : Machine σ) (method : Method)
    (self : Value) (args : List Value) (v : Value) : Prop :=
  ∃ last, Leads host (m.inBody host method self args .done) last
    ∧ last.current = .done (.ok v)

/-- A run that has come to an end comes to it again, however much longer it
is run. -/
theorem Leads.eq_of_le {last later : Machine σ} {x : Outcome} {k l : Nat}
    (hk : (step host)^[k] m = last) (hl : (step host)^[l] m = later)
    (done : last.current = .done x) (back : last.waiting = m.waiting)
    (stays : ∀ j ≤ l, m.active ≤ ((step host)^[j] m).active)
    (le : k ≤ l) : later = last := by
  have apart : ∀ j, (step host)^[j] last = (step host)^[j + k] m := by
    intro j
    rw [Function.iterate_add_apply, hk]
  have same : last.active = m.active := congrArg List.length back
  rw [← hl, show l = (l - k) + k by omega, ← apart]
  refine iterate_of_done done fun j hj => ?_
  rw [same, apart]
  exact stays (j + k) (by omega)

/-- A run has one end. -/
theorem Leads.unique {last last' : Machine σ} {x y : Outcome}
    (leads : Leads host m last) (leads' : Leads host m last')
    (done : last.current = .done x) (done' : last'.current = .done y) :
    last' = last := by
  obtain ⟨k, hk, stays⟩ := leads.steps
  obtain ⟨l, hl, stays'⟩ := leads'.steps
  rcases Nat.le_total k l with le | le
  · exact Leads.eq_of_le hk hl done leads.waiting stays' le
  · exact (Leads.eq_of_le hl hk done' leads'.waiting stays le).symm

/-- So a body gives one value at most. -/
theorem BodyGives.unique {other : Value}
    (h : m.BodyGives host method self args v)
    (h' : m.BodyGives host method self args other) : other = v := by
  obtain ⟨last, leads, done⟩ := h
  obtain ⟨last', leads', done'⟩ := h'
  obtain rfl := leads.unique leads' done done'
  rw [done] at done'
  cases done'
  rfl

/-- A call whose caller takes what comes yields nothing where it fails. -/
theorem not_yields_of_fault {fault : Fault}
    (back : ComesBack host asked
      { m with current := .done (.error fault) }) :
    ¬ asked.Yields host v := by
  rintro ⟨m', back', current⟩
  obtain rfl := back.unique back'
  cases current

/-- A call of a function that is allowed and has room yields what its body
gives, less one return. -/
theorem yields_iff_of_allowed (hc : asked.call? = some c)
    (takes : c.next = .done) (hallowed : c.allowed = .ok method)
    (room : asked.refusal? = none) (body : method.body = .interpreted f) :
    asked.Yields host v ↔ ∃ given,
      asked.BodyGives host method c.self c.args given
        ∧ v = given.peelReturn := by
  have finish : ∀ outcome, method.finish outcome
      = outcome.map Value.peelReturn := by
    intro outcome
    unfold Method.finish
    rw [body]
  constructor
  · rintro ⟨m', back, current⟩
    obtain ⟨last, outcome, leads, done, rfl⟩ :=
      (comesBack_iff_of_allowed hc hallowed room).1 back
    rw [takes] at leads current
    have result := Program.done.inj current
    rw [finish] at result
    cases outcome with
    | error fault => cases result
    | ok given =>
        cases result
        exact ⟨given, ⟨last, leads, done⟩, rfl⟩
  · rintro ⟨given, ⟨last, leads, done⟩, rfl⟩
    rw [← takes] at leads
    refine ⟨_, (comesBack_iff_of_allowed hc hallowed room).2
      ⟨last, _, leads, done, rfl⟩, ?_⟩
    show c.next (method.finish (.ok given)) = _
    rw [takes, finish]
    rfl

-- ============================================================= the returns

/-- What becomes of explicit returns at the end of a call of a function.
The call yields a value just if it starts and the body gives one, and then
that value less one return; and it yields a return just if the body gives
two, one in the other. -/
structure TakesOneReturn (host : Host σ) (m : Machine σ) (method : Method)
    (receiver : Value) (args : List Value) (starts : Prop)
    (asked : Machine σ) : Prop where
  once : ∀ given other, m.BodyGives host method receiver args given →
    m.BodyGives host method receiver args other → other = given
  yields : ∀ v, asked.Yields host v ↔ starts ∧ ∃ given,
    m.BodyGives host method receiver args given ∧ v = given.peelReturn
  escapes : (∃ u, asked.Yields host (.returned u)) ↔ starts ∧ ∃ u,
    m.BodyGives host method receiver args (.returned (.returned u))

/-- What a call yields says which returns are left. -/
theorem takesOneReturn_of_yields
    (yields : ∀ v, asked.Yields host v ↔ starts ∧ ∃ given,
      m.BodyGives host method self args given ∧ v = given.peelReturn) :
    TakesOneReturn host m method self args starts asked := by
  refine ⟨fun given other h h' => h.unique h', yields, ?_⟩
  constructor
  · rintro ⟨u, yielded⟩
    obtain ⟨started, given, gives, peeled⟩ := (yields _).1 yielded
    rw [eq_comm, Value.peelReturn_eq_returned_iff] at peeled
    rw [peeled] at gives
    exact ⟨started, u, gives⟩
  · rintro ⟨started, u, gives⟩
    exact ⟨u, (yields _).2 ⟨started, _, gives, rfl⟩⟩

-- ============================================================ the theorem

/-- A call of a function takes one explicit return off what the body gives,
and no more. So it is for a call by a name that leads to a function's method,
which starts where the verdict is that method, and for a call of a function
at hand, which starts where the parameters are counted right and there is
room. Whatever the body does, and whatever it is given, it is told exactly
when a return comes through to the caller: when the body gives a return of a
return. -/
theorem one_return_taken (host : Host σ) (m : Machine σ) :
    (∀ v name d method f args site,
        m.world.resolve? v name = some ⟨d, method⟩ →
        method.body = .interpreted f →
        TakesOneReturn host m method v args
          (m.verdict v name args site = .ok method)
          (m.asking v name args site .done))
      ∧ ∀ callee f shown args, callee.bare = .function f shown →
        TakesOneReturn host m (m.world.methodOf f shown) World.main args
          ((m.world.functionInfo f).params.length = args.length
            ∧ m.refusal? = none)
          (m.applying callee args .done) := by
  refine ⟨?_, ?_⟩
  · intro v name d method f args site resolved body
    refine takesOneReturn_of_yields fun result => ?_
    cases decided : m.verdict v name args site with
    | error fault =>
        have nothing : ¬ (m.asking v name args site .done).Yields host result :=
          not_yields_of_fault (comesBack_of_verdict host decided)
        exact iff_of_false nothing nofun
    | ok found =>
        obtain ⟨allowed, room⟩ := verdict_eq_ok_iff.1 decided
        obtain rfl := eq_of_verdict resolved decided
        have yields : (m.asking v name args site .done).Yields host result
            ↔ _ :=
          yields_iff_of_allowed (call?_of_invoke rfl) rfl allowed room body
        exact ⟨fun h => ⟨rfl, yields.1 h⟩, fun h => yields.2 h.2⟩
  · intro callee f shown args function
    refine takesOneReturn_of_yields fun result => ?_
    have answer : m.world.methodForCallee callee args.length = _ :=
      World.methodForCallee_of_function function
    by_cases counted :
        (m.world.functionInfo f).params.length = args.length
    · have check : (m.world.methodOf f shown).arity.check args.length
          = .ok () := Arity.check_eq_ok_iff.2 fun expected fixed => by
        cases fixed
        exact counted
      rw [check] at answer
      cases room : m.refusal? with
      | some fault =>
          have nothing : ¬ (m.applying callee args .done).Yields host result :=
            not_yields_of_fault (comesBack_of_full call?_applying answer room)
          exact iff_of_false nothing nofun
      | none =>
          have yields : (m.applying callee args .done).Yields host result
              ↔ _ :=
            yields_iff_of_allowed call?_applying rfl answer room rfl
          exact ⟨fun h => ⟨⟨counted, rfl⟩, yields.1 h⟩,
            fun h => yields.2 h.2⟩
    · have check : (m.world.methodOf f shown).arity.check args.length
          = .error _ := Arity.check_eq_error_iff.2 ⟨_, rfl, counted, rfl⟩
      rw [check] at answer
      have nothing : ¬ (m.applying callee args .done).Yields host result :=
        not_yields_of_fault (comesBack_of_disallowed call?_applying answer)
      exact iff_of_false nothing fun starts => counted starts.1.1

/-- The start, with a function without parameters. -/
def withFunction : Realm :=
  Realm.start.after (.newFunction ⟨[], ⟨0⟩, World.globals⟩)

/-- A machine of the language there, with what the function is to do. -/
def returning (body : Script.Expr) : Machine Script.Notes where
  world := withFunction.world
  limit := some 1
  own := { bodies := #[body] }

/-- What is returned once comes to the caller as it was, by name and at hand;
and in no call of that function does a return come through. -/
theorem one_return_taken_once :
    ((echo 1).asking World.main "echo" [.int 1] .implicitSelf .done).Yields
        echoing (.array [World.main, .int 1])
      ∧ ((returning (.ret (.int 1))).applying (.function ⟨0⟩ .isPublic) []
          .done).Yields Script.host (.int 1)
      ∧ ¬ ∃ u, ((returning (.ret (.int 1))).applying
        (.function ⟨0⟩ .isPublic) [] .done).Yields Script.host
          (.returned u) := by
  obtain ⟨byName, -⟩ := one_return_taken echoing (echo 1)
  obtain ⟨-, atHand⟩ :=
    one_return_taken Script.host (returning (.ret (.int 1)))
  have named := byName World.main "echo" CoreClass.object.id _ ⟨0⟩ [.int 1]
    .implicitSelf rfl rfl
  have called := atHand (.function ⟨0⟩ .isPublic) ⟨0⟩ .isPublic [] rfl
  have gives : (returning (.ret (.int 1))).BodyGives Script.host
      (withFunction.world.methodOf ⟨0⟩ .isPublic) World.main []
      (.returned (.int 1)) :=
    ⟨_, (Leads.of_step rfl rfl).trans (.of_step rfl rfl), rfl⟩
  refine ⟨?_, ?_, ?_⟩
  · exact (named.yields _).2 ⟨rfl, _, ⟨_, .of_step rfl rfl, rfl⟩, rfl⟩
  · exact (called.yields _).2 ⟨⟨rfl, rfl⟩, _, gives, rfl⟩
  · intro escapes
    obtain ⟨-, u, twice⟩ := called.escapes.1 escapes
    cases called.once _ _ gives twice

/-- What is returned twice over comes to the caller as a return. -/
theorem return_of_return_escapes :
    withFunction.Reachable ∧ withFunction.Held (.function ⟨0⟩ .isPublic)
      ∧ ((returning (.ret (.ret (.int 1)))).applying
        (.function ⟨0⟩ .isPublic) [] .done).Yields Script.host
          (.returned (.int 1)) := by
  have there : Realm.start.world.HasScope World.globals := by decide
  have added : withFunction.world.HasFunction ⟨0⟩ := Nat.zero_lt_one
  have allowed : withFunction.world.methodForCallee
      (.function ⟨0⟩ .isPublic) 0
      = .ok (withFunction.world.methodOf ⟨0⟩ .isPublic) := rfl
  have yields : ((returning (.ret (.ret (.int 1)))).applying
      (.function ⟨0⟩ .isPublic) [] .done).Yields Script.host
        (.returned (.int 1)) ↔ _ :=
    yields_iff_of_allowed call?_applying rfl allowed rfl rfl
  refine ⟨.after there, .function added _, yields.2 ?_⟩
  exact ⟨.returned (.returned (.int 1)),
    ⟨_, (Leads.of_step rfl rfl).trans (.of_step rfl rfl), rfl⟩, rfl⟩

end Machine

end ObjectWorld
