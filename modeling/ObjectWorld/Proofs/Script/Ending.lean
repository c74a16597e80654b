/-
With a limit on the depth every session goes on to its end.

A call comes back, and so a step of a session is answered, given steps of
the machine enough, and always with the same answer. What a session has
defined does not matter, nor what it defines on the way: the only loops of
the language are calls.

One loop is none of the machine's: a routine that runs a method directly
may run itself again. It does so with two arguments fewer each time,
which is why the hosts for the inner runs, built from the count of
arguments, are all the same host (`native_host`).
-/
import ObjectWorld.Proofs.Ending
import ObjectWorld.Proofs.Script.Evaluations
import ObjectWorld.Proofs.Script.Session

namespace ObjectWorld

open Script

-- ========================================================= direct runs

/-- What a method does depends on a host only through the bodies and
through its natives on that receiver and those arguments. -/
theorem Method.run_congr {inner inner' : Host Notes} {self : Value}
    {args : List Value} (method : Method) (body : inner.body = inner'.body)
    (native : ∀ label,
      inner.native label self args = inner'.native label self args) :
    method.run inner self args = method.run inner' self args := by
  unfold Method.run
  rw [body]
  cases hbody : method.body with
  | interpreted f => rfl
  | native n =>
      cases n with
      | foreign label =>
          simp only [Native.run, native]
      | query | printLine | instantiate => rfl

namespace Script

variable {self : Value} {args : List Value}

/-- What a routine does depends on the host for direct runs only through
what that makes of two arguments fewer, and not at all where there are
no two. -/
theorem Routine.run_congr {inner inner' : Host Notes} (routine : Routine)
    (body : inner.body = inner'.body)
    (native : 2 ≤ args.length → ∀ label,
      inner.native label self (args.drop 2)
        = inner'.native label self (args.drop 2)) :
    routine.run inner self args = routine.run inner' self args := by
  cases routine with
  | methodCall =>
      by_cases h : 2 ≤ args.length
      · have same : ∀ method : Method,
            method.run inner self (args.drop 2)
              = method.run inner' self (args.drop 2) :=
          fun method => method.run_congr body (native h)
        simp only [Routine.run, same]
      · -- the name is missing, and nil spells none
        have missing : args[1]?.getD .nil = .nil := by
          rw [List.getElem?_eq_none (by omega)]
          rfl
        simp only [Routine.run, missing]
        rfl
  | args | first | receiver | sendSelf | sendTo | println | eval
  | className | fail => rfl

/-- The host for inner runs is deep enough as soon as it is deeper than
the count of arguments. -/
theorem native_hostWithin {levels : Nat} (label : String)
    (h : args.length < levels) :
    (hostWithin levels).native label self args
      = host.native label self args := by
  suffices ∀ (levels levels' : Nat) (args : List Value),
      args.length < levels → args.length < levels' → ∀ label,
        (hostWithin levels).native label self args
          = (hostWithin levels').native label self args from
    this levels (args.length + 1) args h (Nat.lt_succ_self _) label
  intro levels
  induction levels with
  | zero => exact fun _ args h => absurd h (Nat.not_lt_zero _)
  | succ levels ih =>
      intro levels' args h h' label
      cases levels' with
      | zero => exact absurd h' (Nat.not_lt_zero _)
      | succ levels' =>
          have body : (hostWithin levels).body = (hostWithin levels').body := by
            cases levels <;> cases levels' <;> rfl
          unfold hostWithin
          dsimp only
          cases Routine.ofLabel? label with
          | none => rfl
          | some routine =>
              refine routine.run_congr body fun two label => ?_
              have hdrop : (args.drop 2).length + 2 = args.length := by
                rw [List.length_drop]
                omega
              exact ih levels' (args.drop 2) (by omega) (by omega) label

/-- A direct run of a method means what a call of it would: the host for
inner runs is the host itself. -/
theorem native_host (label : String) (self : Value) (args : List Value) :
    host.native label self args = match Routine.ofLabel? label with
      | some routine => routine.run host self args
      | none => return .nil := by
  show (hostWithin (args.length + 1)).native label self args = _
  unfold hostWithin
  dsimp only
  cases Routine.ofLabel? label with
  | none => rfl
  | some routine =>
      refine routine.run_congr ?_ fun two label => ?_
      · cases args.length <;> rfl
      · refine native_hostWithin label ?_
        rw [List.length_drop]
        omega

-- ============================================================ the sessions

namespace Session

variable {session next : Session} {answer : Answer} {fuel n : Nat}
  {e : Expr}

/-- Where an evaluation ends, more steps of the machine change nothing. -/
theorem step_eq_of_outcome {k : Nat} {outcome : Outcome}
    (h : ((Machine.step host)^[k]
      (session.machine.load (e.run World.main top))).outcome?
        = some outcome) (hk : k ≤ fuel) :
    session.step fuel e = session.step k e := by
  unfold step
  rw [Machine.run_eq_iterate_of_outcome hk h,
    Machine.run_eq_iterate_of_outcome (Nat.le_refl k) h]

/-- No step of a session changes the limit. -/
theorem limit_step (h : session.step fuel e = some (answer, next)) :
    next.machine.limit = session.machine.limit := by
  obtain ⟨k, hmachine⟩ := machine_of_step h
  rw [hmachine]
  exact Machine.limit_iterate host _ k

/-- With a limit every step of a session is answered. -/
theorem step_answers (limited : session.machine.limit = some n)
    (e : Expr) :
    ∃ k answer next, ∀ fuel, k ≤ fuel →
      session.step fuel e = some (answer, next) := by
  obtain ⟨k, outcome, h⟩ := Machine.run_ends host
    (m := session.machine.load (e.run World.main top)) limited
  have answered : (session.step k e).isSome := by
    unfold step
    rw [Machine.run_eq_iterate_of_outcome (Nat.le_refl k) h,
      Option.isSome_map, h]
    rfl
  obtain ⟨⟨answer, next⟩, hstep⟩ := Option.isSome_iff_exists.1 answered
  refine ⟨k, answer, next, fun fuel hk => ?_⟩
  rw [step_eq_of_outcome h hk, hstep]

/-- And so is every run of steps. -/
theorem run_answers (limited : session.machine.limit = some n)
    (steps : List Expr) :
    ∃ k answers next, ∀ fuel, k ≤ fuel →
      session.run fuel steps = some (answers, next) := by
  induction steps generalizing session with
  | nil => exact ⟨0, [], session, fun _ _ => rfl⟩
  | cons e rest ih =>
      obtain ⟨k, answer, middle, hstep⟩ := step_answers limited e
      have limitedThere : middle.machine.limit = some n :=
        (limit_step (hstep k (Nat.le_refl k))).trans limited
      obtain ⟨l, answers, next, hrun⟩ := ih limitedThere
      refine ⟨max k l, answer :: answers, next, fun fuel hfuel => ?_⟩
      unfold run
      rw [hstep fuel (by omega)]
      show (middle.run fuel rest >>= fun p =>
        pure (answer :: p.1, p.2)) = _
      rw [hrun fuel (by omega)]
      rfl

end Session

-- ============================================================ every run

/-- A finite limit on the depth bounds every run. In any world, however
its methods came to be and whatever they do: a call comes back, and its
caller goes on with an outcome; a session answers each step and each run
of steps; and the evaluator is never entered again but in a frame of its
own, which the machine took just for that. Direct runs of methods need no
bound beside that. -/
theorem ends_within_limit (m : Machine Notes) {n : Nat}
    (limited : m.limit = some n) :
    (∀ c, m.call? = some c → ∃ m' outcome,
        Machine.ComesBack host m m' ∧ m'.current = c.next outcome)
      ∧ (∀ session : Session, session.machine = m →
        (∀ e, ∃ k answer next, ∀ fuel, k ≤ fuel →
          session.step fuel e = some (answer, next))
        ∧ ∀ steps, ∃ k answers next, ∀ fuel, k ≤ fuel →
          session.run fuel steps = some (answers, next))
      ∧ (m.waiting = [] → ∀ (e : Expr) self here k,
        let loaded := m.load (e.run self here)
        let now := (Machine.step host)^[k] loaded
        (now.step host).own.evaluated = now.own.evaluated
          ∨ (∃ one, (now.step host).own.evaluated
              = one :: now.own.evaluated)
            ∧ ∃ i, Machine.Unused host loaded i k)
      ∧ ∀ label self args,
        host.native label self args = match Routine.ofLabel? label with
          | some routine => routine.run host self args
          | none => return .nil := by
  refine ⟨fun c hc => ?_, ?_, ?_, native_host⟩
  · obtain ⟨m', back⟩ := Machine.call_comesBack host limited hc
    obtain ⟨-, -, outcome, hcurrent⟩ := back.balanced hc
    exact ⟨m', outcome, back, hcurrent⟩
  · rintro session rfl
    exact ⟨Session.step_answers limited, Session.run_answers limited⟩
  · intro alone e self here k
    refine Machine.evaluation_in_frame frugal_host ⟨?_, ?_⟩ k
    · exact e.frugal_run self here m.own
    · show ∀ next ∈ m.waiting, _
      rw [alone]
      exact fun next hnext => absurd hnext List.not_mem_nil

/-- A function that is called with itself, and calls that with itself. -/
def selfApplied : Expr :=
  .seq
    [.define "f" (.function ["x"] (.apply (.get "x") [.get "x"]) .isPublic),
      .apply (.get "f") [.get "f"]]

/-- A machine with room for two calls, about to make one. -/
def calling : Machine Notes :=
  { (Session.start .buffer (some 2)).machine with
    current := .invoke World.main "inspect" [] .explicit .done }

/-- The call comes back, the endless calls of the function are answered,
and their second evaluation of its body, at step eighteen, has a frame of
its own. -/
theorem ends_within_limit_selfApplied :
    (∃ m' outcome, Machine.ComesBack host calling m'
        ∧ m'.current = .done outcome)
      ∧ (∃ k answer next, ∀ fuel, k ≤ fuel →
        ({ machine := calling } : Session).step fuel selfApplied
          = some (answer, next))
      ∧ ∃ i, Machine.Unused host
          (calling.load (selfApplied.run World.main Session.top)) i 17 := by
  obtain ⟨calls, sessions, frames, -⟩ :=
    ends_within_limit calling (n := 2) rfl
  refine ⟨calls _ rfl, (sessions _ rfl).1 selfApplied, ?_⟩
  rcases frames rfl selfApplied World.main Session.top 17 with
    same | ⟨-, unused⟩
  · exact absurd (congrArg List.length same) (by decide +kernel)
  · exact unused

end Script

end ObjectWorld
