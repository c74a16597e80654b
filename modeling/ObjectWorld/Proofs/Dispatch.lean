/-
What becomes of a call by name.

Four tests stand before a method: is there a definition along the chain of
the receiver, may the first one be called from here, does it take so many
arguments, is there room. The verdict is the first of them that fails, or
that the first definition runs (`Verdict`, `verdict_iff`). A call that
fails a test has changed nothing at all: its caller goes on with the fault
in the very state that the call was made in.

# The body

A call that passes all tests comes to what its method does, the code of a
native or the body of a function in a scope of its own (`inBody`). What is
left around that is the end of an explicit return, which only rewords the
outcome. So such a call comes back exactly if what the method does leads to
its end, and it does it one time (`comesBack_iff_of_allowed`).
-/
import ObjectWorld.Proofs.Ancestry
import ObjectWorld.Proofs.Builtins
import ObjectWorld.Proofs.Sequence

namespace ObjectWorld

-- =================================================== the first definition

namespace World

variable {w : World} {v : Value} {name : String} {d : ClassId}
  {method : Method}

/-- Whether a class is the first along the chain of a value to define a
name, and by which method. -/
def FirstDefinition (w : World) (v : Value) (name : String) (d : ClassId)
    (method : Method) : Prop :=
  ∃ before after, w.chainOf v = before ++ d :: after
    ∧ (∀ b ∈ before, w.ownMethod? b name = none)
    ∧ w.ownMethod? d name = some method

/-- The search along the chain of a value finds its first definition of the
name. -/
theorem resolve?_eq_some_iff :
    w.resolve? v name = some ⟨d, method⟩
      ↔ w.FirstDefinition v name d method := by
  rw [resolve?_eq, List.findSome?_eq_some_iff]
  constructor
  · rintro ⟨before, owner, after, chain, here, none⟩
    obtain ⟨own, defines, heq⟩ := Option.map_eq_some_iff.1 here
    cases heq
    exact ⟨before, after, chain,
      fun b mem => Option.map_eq_none_iff.1 (none b mem), defines⟩
  · rintro ⟨before, after, chain, none, defines⟩
    refine ⟨before, d, after, chain, ?_, fun b mem => ?_⟩
    · rw [defines]
      rfl
    · rw [none b mem]
      rfl

/-- It finds nothing just if no class of the chain defines the name. -/
theorem resolve?_eq_none_iff :
    w.resolve? v name = none
      ↔ ∀ d ∈ w.chainOf v, w.ownMethod? d name = none := by
  rw [resolve?_eq, List.findSome?_eq_none_iff]
  simp only [Option.map_eq_none_iff]

end World

-- ============================================================== the tests

/-- A public method may be called from anywhere, any method from within. -/
theorem CallSite.permits_iff {site : CallSite} {visibility : Visibility} :
    site.permits visibility = true
      ↔ visibility = .isPublic ∨ site = .implicitSelf := by
  cases site <;> cases visibility <;> decide

/-- So what is refused is a private method, called from outside. -/
theorem CallSite.permits_eq_false_iff {site : CallSite}
    {visibility : Visibility} :
    site.permits visibility = false
      ↔ visibility = .isPrivate ∧ site = .explicit := by
  cases site <;> cases visibility <;> decide

/-- Arguments are counted right if no count is fixed, or just that many are
given. -/
theorem Arity.check_eq_ok_iff {arity : Arity} {given : Nat} :
    arity.check given = .ok ()
      ↔ ∀ expected, arity = .fixed expected → expected = given := by
  cases arity <;> simp [check]

/-- They are counted wrong against a fixed count only, and the fault names
both counts. -/
theorem Arity.check_eq_error_iff {arity : Arity} {given : Nat}
    {fault : Fault} :
    arity.check given = .error fault
      ↔ ∃ expected, arity = .fixed expected ∧ expected ≠ given
        ∧ fault = .wrongNumberOfArguments expected given := by
  cases arity with
  | any => simp [check]
  | fixed count =>
      by_cases h : count = given
      · simp [check, h]
      · simpa [check, h] using eq_comm

namespace World

variable {w : World} {v : Value} {name : String} {site : CallSite}
  {given : Nat} {found : Resolution} {fault : Fault}

/-- Where there is no definition, nothing else is tested. -/
theorem methodFor_of_undefined (h : w.resolve? v name = none) :
    w.methodFor v name given site
      = .error (.undefinedMethod name (w.describe v)) := by
  unfold methodFor
  rw [h]

/-- Where the first definition may not be called, the arguments are not
counted. -/
theorem methodFor_of_hidden (h : w.resolve? v name = some found)
    (hidden : site.permits found.method.visibility = false) :
    w.methodFor v name given site
      = .error (.privateMethod name (w.describe v)) := by
  unfold methodFor
  rw [h]
  exact if_neg (Bool.eq_false_iff.1 hidden)

/-- Where it may, the count of arguments decides. -/
theorem methodFor_of_permitted (h : w.resolve? v name = some found)
    (permitted : site.permits found.method.visibility = true) :
    w.methodFor v name given site
      = match found.method.arity.check given with
        | .error fault => .error fault
        | .ok _ => .ok found.method := by
  unfold methodFor
  rw [h]
  refine (if_pos permitted).trans ?_
  cases found.method.arity.check given <;> rfl

end World

variable {σ : Type} {host : Host σ}

-- =============================================================== the body

/-- What a method of the language does, once its arguments are counted:
it makes a scope for the call, and the function's body runs there. -/
theorem Method.run_interpreted {method : Method} {self : Value}
    {args : List Value} {f : FunctionId}
    (takes : method.arity.check args.length = .ok ())
    (body : method.body = .interpreted f) :
    method.run host self args = Program.look fun w =>
      .change (.bindArguments f args) fun scope =>
        Program.bind (host.body (w.functionInfo f).body self scope)
          fun outcome => .done (outcome.map Value.peelReturn) := by
  unfold Method.run
  rw [takes, body]
  refine congrArg Program.look (funext fun w => ?_)
  refine congrArg (Program.change _) (funext fun scope => ?_)
  change Program.bind (host.body (w.functionInfo f).body self scope) _ = _
  refine congrArg (Program.bind _) (funext fun outcome => ?_)
  cases outcome <;> rfl

/-- What the outcome of a method's body is to the caller: an explicit
return ends with the function that it stands in. -/
def Method.finish (method : Method) (outcome : Outcome) : Outcome :=
  match method.body with
  | .native _ => outcome
  | .interpreted _ => outcome.map Value.peelReturn

namespace Machine

variable {m m' last : Machine σ} {receiver : Value} {name : String}
  {args : List Value} {site : CallSite} {next : Outcome → Program σ Outcome}
  {method : Method} {outcome : Outcome} {d : ClassId}

/-- A machine in which a call of a method has come to what the method does,
and nothing else runs. -/
def inBody (host : Host σ) (m : Machine σ) (method : Method) (self : Value)
    (args : List Value) (next : Outcome → Program σ Outcome) : Machine σ :=
  match method.body with
  | .native native =>
      { m with
        depth := m.depth + 1
        current := native.run host self args
        waiting := next :: m.waiting }
  | .interpreted f =>
      { m with
        world := (m.world.bindArguments f args).2
        depth := m.depth + 1
        current := host.body (m.world.functionInfo f).body self
          (m.world.bindArguments f args).1
        waiting := next :: m.waiting }

/-- The same, with the end of an explicit return to follow. -/
def inBodyFinished (host : Host σ) (m : Machine σ) (method : Method)
    (self : Value) (args : List Value)
    (next : Outcome → Program σ Outcome) : Machine σ :=
  { m.inBody host method self args next with
    current := (m.inBody host method self args next).current.bind
      fun outcome => .done (method.finish outcome) }

/-- The start of a native is its body. -/
theorem inBodyFinished_of_native {c : Call σ} {native : Native}
    (takes : method.arity.check c.args.length = .ok ())
    (body : method.body = .native native) :
    m.inBodyFinished host method c.self c.args c.next
      = m.entered host c method := by
  have finish : (fun outcome => Program.done (method.finish outcome))
      = (Program.done : Outcome → Program σ Outcome) := by
    funext outcome
    unfold Method.finish
    rw [body]
  unfold inBodyFinished inBody entered
  rw [finish, Program.bind_done, body, method.run_native takes body]

/-- A method of the language is in its body after two steps. -/
theorem inBodyFinished_of_interpreted {c : Call σ} {f : FunctionId}
    (takes : method.arity.check c.args.length = .ok ())
    (body : method.body = .interpreted f) :
    ((m.entered host c method).step host).step host
      = m.inBodyFinished host method c.self c.args c.next := by
  have finish : (fun outcome => Program.done (method.finish outcome))
      = fun outcome : Outcome =>
        (Program.done (outcome.map Value.peelReturn) : Program σ Outcome) := by
    funext outcome
    unfold Method.finish
    rw [body]
  unfold inBodyFinished inBody entered
  rw [finish, body, method.run_interpreted takes body]
  rfl

/-- From its start a call comes to the body, and to an end it comes only
through that. -/
theorem leads_entered_iff {c : Call σ}
    (takes : method.arity.check c.args.length = .ok ())
    (done : last.current = .done outcome) :
    Leads host (m.entered host c method) last
      ↔ Leads host (m.inBodyFinished host method c.self c.args c.next)
        last := by
  cases body : method.body with
  | native native => rw [inBodyFinished_of_native takes body]
  | interpreted f =>
      have look : (m.entered host c method).step host = _ :=
        step_of_look (method.run_interpreted takes body)
      rw [← inBodyFinished_of_interpreted takes body,
        leads_step_iff (by rw [look]) (by rw [look]) ?_ done,
        leads_step_iff (by rw [look]; rfl) (by rw [look]; rfl) ?_ done]
      · rw [look]
        intro y h
        cases h
      · show ∀ y, method.run host c.self c.args ≠ .done y
        rw [method.run_interpreted takes body]
        intro y h
        cases h

/-- A call that starts comes to the method's body, whatever that does. -/
theorem iterate_inBody {c : Call σ}
    (takes : method.arity.check c.args.length = .ok ())
    (hs : m.step host = m.entered host c method) :
    ∃ k, (step host)^[k] m
      = m.inBodyFinished host method c.self c.args c.next := by
  cases body : method.body with
  | native native =>
      exact ⟨1, hs.trans (inBodyFinished_of_native takes body).symm⟩
  | interpreted f =>
      refine ⟨3, ?_⟩
      rw [← inBodyFinished_of_interpreted takes body, ← hs]
      rfl

/-- A call that is allowed and has room comes back exactly if what its
method does leads to an end, one time: with the outcome of that, and in
the state that it leaves. -/
theorem comesBack_iff_of_allowed {c : Call σ} (hc : m.call? = some c)
    (hallowed : c.allowed = .ok method) (room : m.refusal? = none) :
    ComesBack host m m' ↔ ∃ last outcome,
      Leads host (m.inBody host method c.self c.args c.next) last
        ∧ last.current = .done outcome
        ∧ m' = { last with
          depth := m.depth
          current := c.next (method.finish outcome)
          waiting := m.waiting } := by
  have takes := check_of_allowed hc hallowed
  have hs := step_of_allowed host hc hallowed
  rw [room] at hs
  rw [comesBack_iff_of_entered hs]
  constructor
  · rintro ⟨last, outcome, entered, done, rfl⟩
    obtain ⟨first, y, leads, hy, rfl⟩ :=
      (leads_map_iff done).1 ((leads_entered_iff takes done).1 entered)
    cases done
    exact ⟨first, y, leads, hy, rfl⟩
  · rintro ⟨first, y, leads, hy, rfl⟩
    refine ⟨{ first with current := .done (method.finish y) }, _, ?_, rfl,
      rfl⟩
    exact (leads_entered_iff takes rfl).2
      ((leads_map_iff rfl).2 ⟨first, y, leads, hy, rfl⟩)

-- ============================================================ the verdict

/-- What becomes of a call by name: a fault, or the method that runs. -/
inductive Verdict (m : Machine σ) (receiver : Value) (name : String)
    (args : List Value) (site : CallSite) : Except Fault Method → Prop
  /-- No class of the chain defines the name; a receiver without a class
  has no chain. -/
  | undefined
      (absent : ∀ d ∈ m.world.chainOf receiver,
        m.world.ownMethod? d name = none) :
      Verdict m receiver name args site
        (.error (.undefinedMethod name (m.world.describe receiver)))
  /-- The first definition is private, and the call comes from outside. -/
  | hidden {d : ClassId} {method : Method}
      (first : m.world.FirstDefinition receiver name d method)
      (visibility : method.visibility = .isPrivate)
      (outside : site = .explicit) :
      Verdict m receiver name args site
        (.error (.privateMethod name (m.world.describe receiver)))
  /-- It may be called, but it takes another count of arguments; whether
  there is room does not matter. -/
  | miscounted {d : ClassId} {method : Method} {expected : Nat}
      (first : m.world.FirstDefinition receiver name d method)
      (permitted : method.visibility = .isPublic ∨ site = .implicitSelf)
      (arity : method.arity = .fixed expected)
      (count : expected ≠ args.length) :
      Verdict m receiver name args site
        (.error (.wrongNumberOfArguments expected args.length))
  /-- It takes the arguments, but there is no room for a call. -/
  | full {d : ClassId} {method : Method} {limit : Nat}
      (first : m.world.FirstDefinition receiver name d method)
      (permitted : method.visibility = .isPublic ∨ site = .implicitSelf)
      (takes : ∀ expected, method.arity = .fixed expected →
        expected = args.length)
      (bound : m.limit = some limit) (reached : limit ≤ m.depth) :
      Verdict m receiver name args site (.error (.stackTooDeep limit))
  | runs {d : ClassId} {method : Method}
      (first : m.world.FirstDefinition receiver name d method)
      (permitted : method.visibility = .isPublic ∨ site = .implicitSelf)
      (takes : ∀ expected, method.arity = .fixed expected →
        expected = args.length)
      (room : ∀ limit, m.limit = some limit → m.depth < limit) :
      Verdict m receiver name args site (.ok method)

/-- The verdict, computed. -/
def verdict (m : Machine σ) (receiver : Value) (name : String)
    (args : List Value) (site : CallSite) : Except Fault Method :=
  match m.world.methodFor receiver name args.length site with
  | .error fault => .error fault
  | .ok method => match m.refusal? with
    | some fault => .error fault
    | none => .ok method

/-- There is no room exactly where the depth has reached the limit, and
that is what a refusal tells. -/
theorem refusal?_eq_some_iff {fault : Fault} :
    m.refusal? = some fault
      ↔ ∃ limit, m.limit = some limit ∧ limit ≤ m.depth
        ∧ fault = .stackTooDeep limit := by
  unfold refusal?
  cases m.limit with
  | none => simp
  | some limit =>
      by_cases h : limit ≤ m.depth
      · simpa [h] using eq_comm
      · simp [h]

/-- Each call by name has the one verdict that is computed. -/
theorem verdict_iff {decided : Except Fault Method} :
    m.Verdict receiver name args site decided
      ↔ m.verdict receiver name args site = decided := by
  constructor
  · intro h
    unfold verdict
    cases h with
    | undefined absent =>
        rw [World.methodFor_of_undefined
          (World.resolve?_eq_none_iff.2 absent)]
    | hidden first visibility outside =>
        rw [World.methodFor_of_hidden (World.resolve?_eq_some_iff.2 first)
          (CallSite.permits_eq_false_iff.2 ⟨visibility, outside⟩)]
    | miscounted first permitted arity count =>
        rw [World.methodFor_of_permitted (World.resolve?_eq_some_iff.2 first)
          (CallSite.permits_iff.2 permitted),
          Arity.check_eq_error_iff.2 ⟨_, arity, count, rfl⟩]
    | full first permitted takes bound reached =>
        rw [World.methodFor_of_permitted (World.resolve?_eq_some_iff.2 first)
          (CallSite.permits_iff.2 permitted), Arity.check_eq_ok_iff.2 takes,
          refusal?_eq_some_iff.2 ⟨_, bound, reached, rfl⟩]
    | runs first permitted takes room =>
        rw [World.methodFor_of_permitted (World.resolve?_eq_some_iff.2 first)
          (CallSite.permits_iff.2 permitted), Arity.check_eq_ok_iff.2 takes,
          refusal?_eq_none_iff.2 room]
  · -- The tests are split in the order in which they are made.
    rintro rfl
    unfold verdict
    cases resolved : m.world.resolve? receiver name with
    | none =>
        rw [World.methodFor_of_undefined resolved]
        exact .undefined (World.resolve?_eq_none_iff.1 resolved)
    | some found =>
        have first := World.resolve?_eq_some_iff.1 resolved
        cases permits : site.permits found.method.visibility with
        | false =>
            obtain ⟨visibility, outside⟩ :=
              CallSite.permits_eq_false_iff.1 permits
            rw [World.methodFor_of_hidden resolved permits]
            exact .hidden first visibility outside
        | true =>
            have permitted := CallSite.permits_iff.1 permits
            rw [World.methodFor_of_permitted resolved permits]
            cases check : found.method.arity.check args.length with
            | error fault =>
                obtain ⟨expected, arity, count, rfl⟩ :=
                  Arity.check_eq_error_iff.1 check
                exact .miscounted first permitted arity count
            | ok _ =>
                have takes := Arity.check_eq_ok_iff.1 check
                cases refusal : m.refusal? with
                | none =>
                    exact .runs first permitted takes
                      (refusal?_eq_none_iff.1 refusal)
                | some fault =>
                    obtain ⟨limit, bound, reached, rfl⟩ :=
                      refusal?_eq_some_iff.1 refusal
                    exact .full first permitted takes bound reached

/-- The first definition runs if all tests of the world are passed, and
then there is room. -/
theorem verdict_eq_ok_iff :
    m.verdict receiver name args site = .ok method
      ↔ m.world.methodFor receiver name args.length site = .ok method
        ∧ m.refusal? = none := by
  unfold verdict
  cases m.world.methodFor receiver name args.length site <;>
    cases m.refusal? <;> simp

/-- Where a name leads to a method, no other runs. -/
theorem eq_of_verdict {found : Method}
    (resolved : m.world.resolve? receiver name = some ⟨d, found⟩)
    (decided : m.verdict receiver name args site = .ok method) :
    method = found := by
  obtain ⟨allowed, -⟩ := verdict_eq_ok_iff.1 decided
  obtain ⟨first, same, -, -, rfl⟩ := World.methodFor_eq_ok_iff.1 allowed
  rw [resolved] at same
  cases same
  rfl

/-- Asking for a call by name is a call. -/
theorem call?_of_invoke
    (asked : m.current = .invoke receiver name args site next) :
    m.call? = some
      { allowed := m.world.methodFor receiver name args.length site
        self := receiver, args, next } := by
  unfold call?
  rw [asked]

/-- A fault is where a call by name ends. -/
theorem step_of_fault (host : Host σ) {fault : Fault}
    (asked : m.current = .invoke receiver name args site next)
    (decided : m.verdict receiver name args site = .error fault) :
    m.step host = { m with current := next (.error fault) } := by
  have hc := call?_of_invoke asked
  unfold verdict at decided
  cases allowed : m.world.methodFor receiver name args.length site with
  | error early =>
      rw [allowed] at decided hc
      cases decided
      exact step_of_disallowed host hc rfl
  | ok method =>
      rw [allowed] at decided hc
      have hs := step_of_allowed host hc rfl
      cases refusal : m.refusal? with
      | none =>
          rw [refusal] at decided
          cases decided
      | some early =>
          rw [refusal] at decided hs
          cases decided
          exact hs

-- ============================================================ the theorem

/-- A call by name has one verdict. Where that is a fault, the caller goes
on with it after one step, and nothing else has changed. Where it is the
first definition, the call comes to the body of that one, with the receiver
as it was passed; and it comes back exactly if the body, run one time,
leads to its end. -/
theorem invoke_decided (host : Host σ)
    (asked : m.current = .invoke receiver name args site next) :
    (∃! decided, m.Verdict receiver name args site decided)
      ∧ (∀ fault, m.Verdict receiver name args site (.error fault) →
        m.step host = { m with current := next (.error fault) }
          ∧ ∀ m', ComesBack host m m'
            ↔ m' = { m with current := next (.error fault) })
      ∧ ∀ method, m.Verdict receiver name args site (.ok method) →
        (∃ k, (step host)^[k] m
            = m.inBodyFinished host method receiver args next)
          ∧ ∀ m', ComesBack host m m' ↔ ∃ last outcome,
            Leads host (m.inBody host method receiver args next) last
              ∧ last.current = .done outcome
              ∧ m' = { last with
                depth := m.depth
                current := next (method.finish outcome)
                waiting := m.waiting } := by
  have hc := call?_of_invoke asked
  refine ⟨⟨_, verdict_iff.2 rfl, fun _ h => (verdict_iff.1 h).symm⟩, ?_, ?_⟩
  · intro fault decided
    have stopped := step_of_fault host asked (verdict_iff.1 decided)
    refine ⟨stopped, fun m' => ComesBack.iff_eq ?_⟩
    exact ⟨0, stopped, rfl, fun j hj => absurd hj (Nat.not_lt_zero j)⟩
  · intro method decided
    obtain ⟨hallowed, room⟩ := verdict_eq_ok_iff.1 (verdict_iff.1 decided)
    have hs := step_of_allowed host hc hallowed
    rw [room] at hs
    have started := iterate_inBody (check_of_allowed hc hallowed) hs
    have back : ∀ m', ComesBack host m m' ↔ _ :=
      fun m' => comesBack_iff_of_allowed hc hallowed room
    exact ⟨started, back⟩

/-- A machine that is about to ask nil whether it is nil. -/
def askingNil (limit : Nat) (args : List Value) : Machine Unit where
  limit := some limit
  own := ()
  current := .invoke .nil "nil?" args .explicit .done

/-- The count of arguments is tested before the room: without room for any
call, an argument too many is what is at fault, and else the room. With
room for a call the method that nil's own class defines runs. -/
theorem invoke_decided_nil :
    (askingNil 0 [.nil]).step endless = { askingNil 0 [.nil] with
        current := .done (.error (.wrongNumberOfArguments 0 1)) }
      ∧ (askingNil 0 []).step endless = { askingNil 0 [] with
        current := .done (.error (.stackTooDeep 0)) }
      ∧ ∃ k, (step endless)^[k] (askingNil 1 [])
        = (askingNil 1 []).inBodyFinished endless
          (CoreClass.looks 0 .isNil) .nil [] .done := by
  obtain ⟨-, crowded, -⟩ := invoke_decided endless
    (m := askingNil 0 [.nil]) rfl
  obtain ⟨-, alone, -⟩ := invoke_decided endless (m := askingNil 0 []) rfl
  obtain ⟨-, -, runs⟩ := invoke_decided endless (m := askingNil 1 []) rfl
  exact ⟨(crowded _ (verdict_iff.2 rfl)).1,
    (alone _ (verdict_iff.2 rfl)).1,
    (runs _ (verdict_iff.2 rfl)).1⟩

end Machine

end ObjectWorld
