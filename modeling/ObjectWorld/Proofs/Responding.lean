/-
Who answers to a name, and which calls reach a method.

Three places decide whether a value answers to a name: the question to the
world, the tests before a call, and the native that is asked in the
language. The first two look for the same definition and ask the same
about its visibility, so the world says no exactly where a call is
declined, whatever the arguments, and where it says yes only the count of
arguments and the room are left to test. The native looks at the world
and asks it on behalf of a call from outside; where it is called from
itself does not matter to the answer.
-/
import ObjectWorld.Proofs.Dispatch

namespace ObjectWorld

namespace World

variable {w : World} {v : Value} {name : String} {site : CallSite}

/-- A value answers to a name if there is a definition that may be
called. -/
theorem responds_iff :
    w.responds v name site = true ↔ ∃ found,
      w.resolve? v name = some found
        ∧ site.permits found.method.visibility = true := by
  rw [responds_eq, Option.any_eq_true]

/-- If it does not, no count of arguments makes a call lead to a method. -/
theorem methodFor_of_not_responds (h : w.responds v name site = false) :
    ∃ fault, (fault = .undefinedMethod name (w.describe v)
        ∨ fault = .privateMethod name (w.describe v))
      ∧ ∀ given, w.methodFor v name given site = .error fault := by
  cases resolved : w.resolve? v name with
  | none => exact ⟨_, .inl rfl, fun _ => methodFor_of_undefined resolved⟩
  | some found =>
      cases permits : site.permits found.method.visibility with
      | false =>
          exact ⟨_, .inr rfl, fun _ => methodFor_of_hidden resolved permits⟩
      | true =>
          rw [responds_iff.2 ⟨found, resolved, permits⟩] at h
          cases h

end World

namespace Machine

-- ================================================== calls that are declined

variable {σ : Type} {host : Host σ} {m : Machine σ} {v : Value}
  {name : String} {args : List Value} {site : CallSite}
  {next : Outcome → Program σ Outcome}

/-- A machine that is about to call a method by name. -/
def asking (m : Machine σ) (v : Value) (name : String) (args : List Value)
    (site : CallSite) (next : Outcome → Program σ Outcome) : Machine σ :=
  { m with current := .invoke v name args site next }

/-- A call whose verdict is a fault comes back with it. -/
theorem comesBack_of_verdict (host : Host σ) {fault : Fault}
    (decided : m.verdict v name args site = .error fault) :
    ComesBack host (m.asking v name args site next)
      { m with current := next (.error fault) } := by
  have stopped : (m.asking v name args site next).step host
      = { m with current := next (.error fault) } :=
    step_of_fault host rfl decided
  exact ⟨0, stopped, rfl, fun j hj => absurd hj (Nat.not_lt_zero j)⟩

/-- Whether a call by name is declined before anything runs: the name is
undefined, or its first definition is private. -/
def Declines (host : Host σ) (m : Machine σ) (v : Value) (name : String)
    (args : List Value) (site : CallSite) : Prop :=
  ∃ fault, (fault = .undefinedMethod name (m.world.describe v)
      ∨ fault = .privateMethod name (m.world.describe v))
    ∧ ∀ next, (m.asking v name args site next).step host
      = { m with current := next (.error fault) }

/-- Where there is a definition that may be called, the count of arguments
and the room are left to test. -/
theorem step_of_permitted (host : Host σ) {found : Resolution}
    (resolved : m.world.resolve? v name = some found)
    (permitted : site.permits found.method.visibility = true) :
    (m.asking v name args site next).step host
      = match found.method.arity.check args.length, m.refusal? with
        | .error fault, _ => { m with current := next (.error fault) }
        | .ok _, some fault => { m with current := next (.error fault) }
        | .ok _, none => { m with
            depth := m.depth + 1
            current := found.method.run host v args
            waiting := next :: m.waiting } := by
  have hc : (m.asking v name args site next).call? = some _ :=
    call?_of_invoke rfl
  have allowed : (m.asking v name args site next).world.methodFor v name
      args.length site = _ := World.methodFor_of_permitted resolved permitted
  rw [step_of_call host hc, allowed]
  cases found.method.arity.check args.length with
  | error fault => rfl
  | ok _ =>
      have alike : (m.asking v name args site next).refusal?
        = m.refusal? := rfl
      cases refusal : m.refusal? <;>
        simp only [callIfAllowed, call, alike, refusal] <;> rfl

/-- A value that does not answer to a name declines every call by it. -/
theorem declines_of_not_responds (host : Host σ)
    (h : m.world.responds v name site = false) :
    m.Declines host v name args site := by
  obtain ⟨fault, words, refused⟩ := World.methodFor_of_not_responds h
  refine ⟨fault, words, fun next => ?_⟩
  exact step_of_disallowed host
    (call?_of_invoke (m := m.asking v name args site next) rfl)
    (refused args.length)

/-- A call that reaches a definition which may be called is not declined:
it fails for its count of arguments or for want of room, or it starts. -/
theorem not_declines_of_responds (host : Host σ)
    (h : m.world.responds v name site = true) :
    ¬ m.Declines host v name args site := by
  rintro ⟨fault, words, declined⟩
  obtain ⟨found, resolved, permitted⟩ := World.responds_iff.1 h
  have step : (m.asking v name args site .done).step host = _ :=
    step_of_permitted host resolved permitted
  rw [declined] at step
  cases check : found.method.arity.check args.length with
  | error miscounted =>
      obtain ⟨expected, -, -, rfl⟩ := Arity.check_eq_error_iff.1 check
      rw [check] at step
      cases congrArg current step
      rcases words with words | words <;> cases words
  | ok _ =>
      rw [check] at step
      cases refusal : m.refusal? with
      | none =>
          rw [refusal] at step
          exact absurd (congrArg depth step) (Nat.succ_ne_self _).symm
      | some full =>
          obtain ⟨limit, -, -, rfl⟩ := refusal?_eq_some_iff.1 refusal
          rw [refusal] at step
          cases congrArg current step
          rcases words with words | words <;> cases words

-- =============================================================== the native

/-- A public method that only looks gives its answer, from wherever it is
called, if the arguments are counted right and there is room. -/
theorem comesBack_looks (host : Host σ) {d : ClassId} {count : Nat}
    {q : Query}
    (resolved : m.world.resolve? v name
      = some ⟨d, CoreClass.looks count q⟩)
    (room : m.refusal? = none) (counted : args.length = count) :
    ComesBack host (m.asking v name args site next) { m with
      current := next (m.world.answer q v args) } := by
  have hc : (m.asking v name args site next).call? = some _ :=
    call?_of_invoke rfl
  have hallowed : (m.asking v name args site next).world.methodFor v name
      args.length site = .ok (CoreClass.looks count q) := by
    refine World.methodFor_eq_ok_iff.2 ⟨_, resolved, ?_, ?_, rfl⟩
    · exact CallSite.permits_iff.2 (.inl rfl)
    · exact Arity.check_eq_ok_iff.2 fun expected fixed => by
        cases fixed
        exact counted.symm
  exact comesBack_of_does hc hallowed room rfl (.query q)

/-- Whether a call by name without arguments gives a value, from wherever it
is made, and changes nothing. -/
def Gives (host : Host σ) (m : Machine σ) (v : Value) (name : String)
    (answer : Value) : Prop :=
  ∀ site next m', ComesBack host (m.asking v name [] site next) m'
    ↔ m' = { m with current := next (.ok answer) }

/-- So does a call of a public method that only looks. -/
theorem gives_of_looks (host : Host σ) {d : ClassId} {q : Query}
    {answer : Value}
    (resolved : m.world.resolve? v name = some ⟨d, CoreClass.looks 0 q⟩)
    (room : m.refusal? = none)
    (answers : m.world.answer q v [] = .ok answer) :
    m.Gives host v name answer := by
  intro site next m'
  rw [← answers]
  exact (comesBack_looks host resolved room rfl).iff_eq

/-- The native that is asked whether its receiver answers to a name gives
what a call from outside would find, from wherever it is called itself. -/
theorem comesBack_respondTo (host : Host σ) {d : ClassId} {arg : Value}
    {key : String}
    (resolved : m.world.resolve? v "respond_to?"
      = some ⟨d, CoreClass.looks 1 .respondTo⟩)
    (room : m.refusal? = none)
    (spells : arg.bare = .symbol key ∨ arg.bare = .text key) :
    ComesBack host (m.asking v "respond_to?" [arg] site next) { m with
      current := next (.ok (.bool (m.world.responds v key .explicit))) } := by
  have answer : m.world.answer .respondTo v [arg]
      = .ok (.bool (m.world.responds v key .explicit)) := by
    show (m.world.spellingOf arg >>= fun name =>
      pure (Value.bool (m.world.responds v name .explicit))) = _
    unfold World.spellingOf
    rw [Value.spelling?_eq_some_iff.2 spells]
    rfl
  rw [← answer]
  exact comesBack_looks host resolved room rfl

-- ============================================================ the theorem

/-- Answering to a name agrees with calling by it. The world says no exactly
where a call is declined, whatever the arguments. Where it says yes there
is a definition, no call is declined, and the count of arguments, the room
and what its method does decide what becomes of one. The native that is
asked, with a symbol or a text under any wrappers, says what the world says
of a call from outside, wherever it is called from. -/
theorem responds_agrees (host : Host σ) (m : Machine σ) (v : Value) :
    (∀ name site, m.world.responds v name site = false
        ↔ ∀ args, m.Declines host v name args site)
      ∧ (∀ name site, m.world.responds v name site = true →
        ∃ found, m.world.resolve? v name = some found
          ∧ ∀ args, ¬ m.Declines host v name args site
            ∧ ∀ next, (m.asking v name args site next).step host
              = match found.method.arity.check args.length, m.refusal? with
                | .error fault, _ =>
                    { m with current := next (.error fault) }
                | .ok _, some fault =>
                    { m with current := next (.error fault) }
                | .ok _, none =>
                    { m with
                      depth := m.depth + 1
                      current := found.method.run host v args
                      waiting := next :: m.waiting })
      ∧ ∀ d, m.world.resolve? v "respond_to?"
          = some ⟨d, CoreClass.looks 1 .respondTo⟩ →
        m.refusal? = none →
        ∀ arg name, arg.bare = .symbol name ∨ arg.bare = .text name →
        ∀ site next m',
          ComesBack host (m.asking v "respond_to?" [arg] site next) m'
            ↔ m' = { m with
              current :=
                next (.ok (.bool (m.world.responds v name .explicit))) } := by
  refine ⟨fun name site => ⟨?_, fun declined => ?_⟩, ?_, ?_⟩
  · exact fun h args => declines_of_not_responds host h
  · exact Bool.eq_false_iff.2 fun h =>
      not_declines_of_responds host h (declined [])
  · intro name site h
    obtain ⟨found, resolved, permitted⟩ := World.responds_iff.1 h
    exact ⟨found, resolved, fun args => ⟨not_declines_of_responds host h,
      fun next => step_of_permitted host resolved permitted⟩⟩
  · intro d resolved room arg name spells site next m'
    exact (comesBack_respondTo host resolved room spells).iff_eq

/-- A machine at the start, with room for one call. -/
def roomy : Machine Unit where
  limit := some 1
  own := ()

/-- Printing is private, so the main receiver declines it from outside; and
asked about it from within, by a symbol under a wrapper, it says so. Asked
by a text about inspection, which is public, it says yes. -/
theorem responds_agrees_puts :
    roomy.Declines endless World.main "puts" [.text "hi"] .explicit
      ∧ ComesBack endless
        (roomy.asking World.main "respond_to?" [.selfRef (.symbol "puts")]
          .implicitSelf .done)
        { roomy with current := .done (.ok (.bool false)) }
      ∧ ComesBack endless
        (roomy.asking World.main "respond_to?" [.text "inspect"] .explicit
          .done)
        { roomy with current := .done (.ok (.bool true)) } := by
  obtain ⟨declines, -, native⟩ := responds_agrees endless roomy World.main
  have asked := native CoreClass.kernel.id rfl rfl
  refine ⟨(declines "puts" .explicit).1 rfl _, ?_, ?_⟩
  · exact (asked _ "puts" (.inl rfl) _ _ _).2 rfl
  · exact (asked _ "inspect" (.inr rfl) _ _ _).2 rfl

end Machine

end ObjectWorld
