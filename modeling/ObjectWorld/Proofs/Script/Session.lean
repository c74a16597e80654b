/-
The language is an honest host.

Its routines hand on what they were given and call only what the world
leads them to. So a session, whatever it evaluates, never leaves the
realms that use leads to (`Session.reachable`).
-/
import ObjectWorld.Proofs.Hosting
import ObjectWorld.Proofs.Script.Meaning
import ObjectWorld.Script.Session

namespace ObjectWorld.Script

variable {r s : Realm} {α : Type} {gives : Realm → α → Prop}
  {here : ScopeId}

-- =============================================================== the host

section Host

variable {self : Value} {args : List Value}

/-- A body is an expression, evaluated at a place that is there. -/
theorem honest_evaluate (body : BodyId) (ready : Ready r self here) :
    (evaluate body self here).Honest Keeps Realm.Held r := by
  refine .own fun notes h => .keep h ?_
  split
  · rename_i e _
    exact e.honest_run ready
  · exact .pure .nil

/-- A value that spells no name ends the routine; one that does names
nothing but the method to call. -/
theorem honest_calledName (sound : r.Sound) (v : Value)
    {rest : String → Act α}
    (hrest : ∀ s name, r.Grows s → s.Sound →
      (rest name).Honest Keeps gives s) :
    (calledName v >>= rest).Honest Keeps gives r := by
  refine .bind (fun _ _ => True) sound ?_
    fun s name grows soundThere _ => hrest s name grows soundThere
  unfold calledName
  split
  · exact .pure trivial
  · exact .world .throw

/-- What is printed are texts, so nothing has to be at hand for it. -/
theorem honest_printEach (args : List Value) :
    (printEach args).Honest Keeps (fun _ _ => True) r := by
  induction args with
  | nil => exact .pure trivial
  | cons v args ih => exact .world (.print ih)

/-- An argument is at hand, also one that is missing: it counts as nil. -/
theorem held_argument (hargs : ∀ v ∈ args, r.Held v) (i : Nat) :
    r.Held (args[i]?.getD .nil) := by
  cases h : args[i]? with
  | none => exact .nil
  | some v => exact hargs v (List.mem_of_getElem? h)

/-- What is left of the arguments is at hand. -/
theorem held_drop (hargs : ∀ v ∈ args, r.Held v) (n : Nat) :
    ∀ v ∈ args.drop n, r.Held v :=
  fun v hv => hargs v (List.mem_of_mem_drop hv)

/-- A routine names only what is at hand, if the host for the methods it
runs directly does. -/
theorem Routine.honest_run {inner : Host Notes}
    (hinner : inner.Honest Keeps) (routine : Routine) (sound : r.Sound)
    (hself : r.Held self) (hargs : ∀ v ∈ args, r.Held v) :
    (routine.run inner self args).Honest Keeps Realm.Held r := by
  have argument := held_argument hargs
  cases routine with
  | args => exact .pure (.array hargs)
  | first => exact .pure (argument 0)
  | receiver => exact .pure hself
  | sendSelf =>
      refine honest_calledName sound _ ?_
      intro s name grows _
      exact .invoke (grows.held hself)
        fun v hv => grows.held (held_drop hargs 1 v hv)
  | sendTo =>
      refine honest_calledName sound _ ?_
      intro s name grows _
      exact .invoke (grows.held (argument 0))
        fun v hv => grows.held (held_drop hargs 2 v hv)
  | println =>
      exact .bind _ sound (honest_printEach args)
        fun s _ _ _ _ => .pure (Realm.held_count _)
  | eval =>
      unfold Routine.run
      dsimp only
      split
      · exact .pure .nil
      · rename_i f visibility hf
        have there := sound.hasFunction_of_function? (argument 0) hf
        have allowed : r.Allows (.bindArguments f (args.drop 1)) :=
          ⟨there, held_drop hargs 1⟩
        refine .world (.change allowed (honest_evaluate _
          ⟨sound.after allowed, ?_, ?_⟩))
        · exact (sound.grows_after allowed).held hself
        · exact World.hasScope_newScope.2 (.inr rfl)
  | className => exact .world (.pure (.text _))
  | fail => exact .world .throw
  | methodCall =>
      refine honest_calledName sound _ ?_
      intro s name grows soundThere
      refine .world ?_
      split
      · exact .throw
      · rename_i found hfound
        obtain ⟨c, -, hc⟩ := Option.bind_eq_some_iff.1 hfound
        exact Method.honest_run hinner (soundThere.knows_of_resolveIn? hc)
          soundThere (grows.held hself)
          fun v hv => grows.held (held_drop hargs 2 v hv)

/-- Names of scopes keep naming ones that are there. -/
theorem Keeps.mono {notes : Notes} (grows : r.Grows s)
    (h : Keeps r notes) : Keeps s notes :=
  fun name t ht => grows.later.hasScope (h name t ht)

/-- The hosts are honest one after the other, however deep methods are run
directly. -/
theorem honest_hostWithin (levels : Nat) :
    (hostWithin levels).Honest Keeps := by
  induction levels with
  | zero =>
      exact {
        mono := Keeps.mono
        body := fun b _ _ sound hself there =>
          honest_evaluate b ⟨sound, hself, there⟩
        native := fun _ _ _ _ _ _ => .pure .nil }
  | succ levels ih =>
      exact {
        mono := Keeps.mono
        body := fun b _ _ sound hself there =>
          honest_evaluate b ⟨sound, hself, there⟩
        native := by
          intro r label self args sound hself hargs
          unfold hostWithin
          dsimp only
          split
          · rename_i routine _
            exact Routine.honest_run ih routine sound hself hargs
          · exact .pure .nil }

/-- The language is an honest host. -/
theorem honest_host : host.Honest Keeps where
  mono := Keeps.mono
  body b _ _ sound hself there := honest_evaluate b ⟨sound, hself, there⟩
  native label _ args sound hself hargs :=
    (honest_hostWithin (args.length + 1)).native label sound hself hargs

end Host

-- ============================================================ the sessions

/-- The realm that sessions begin in: the start, with the scope that
their steps are evaluated in. -/
def sessionStart : Realm :=
  .after .start (.newScope (some World.globals))

/-- Sessions begin where use leads to. -/
theorem reachable_sessionStart : sessionStart.Reachable := by
  refine .after ?_
  intro s hs
  cases hs
  show World.globals.index < World.initial.scopes.size
  decide

/-- A session that only went where use leads, and stands still. -/
def Session.Settled (session : Session) : Prop :=
  ∃ r, sessionStart.Reaches r ∧ session.machine.Honest Keeps r

/-- A session settles before its first step: the names it starts with are of
scopes that are there, and nothing waits. -/
theorem Session.settled_start (sink : Sink) (limit : Option Nat) :
    (Session.start sink limit).Settled := by
  have sound := Realm.sound_of_reachable reachable_sessionStart
  refine ⟨sessionStart, .refl, rfl, sound, ?_, ?_, ?_⟩
  · intro name s hs
    have hmem := Table.mem_of_get?_ofList hs
    have : s = World.globals ∨ s = Session.top := by
      simp only [List.mem_cons, Prod.mk.injEq, List.not_mem_nil,
        or_false] at hmem
      rcases hmem with ⟨-, h⟩ | ⟨-, h⟩
      · exact .inl h
      · exact .inr h
    rcases this with rfl | rfl
    · exact (by decide : 0 < sessionStart.world.scopes.size)
    · exact (by decide : 1 < sessionStart.world.scopes.size)
  · exact Realm.good_ok .nil
  · intro next hnext
    cases hnext

/-- Every state that the evaluation of an expression goes through has the
world of a realm that use leads to. -/
theorem Session.Settled.iterate {session : Session}
    (settled : session.Settled) (e : Expr) (k : Nat) :
    ∃ r, sessionStart.Reaches r
      ∧ ((Machine.step host)^[k]
          (session.machine.load (e.run World.main top))).Honest Keeps r := by
  obtain ⟨r, reaches, honest⟩ := settled
  have sound := Realm.sound_of_reachable reachable_sessionStart
  have there : r.world.HasScope top :=
    (sound.moves_of_reaches reaches).later.hasScope
      (by decide : 1 < sessionStart.world.scopes.size)
  have loaded : (session.machine.load (e.run World.main top)).Honest
      Keeps r :=
    { honest with
      current := e.honest_run ⟨honest.sound, honest.sound.main, there⟩ }
  obtain ⟨s, run, hs⟩ := loaded.iterate honest_host k
  exact ⟨s, reaches.tail (.run loaded.here run), hs⟩

/-- Running a machine is stepping it some number of times. -/
theorem run_eq_iterate (fuel : Nat) (m : Machine Notes) :
    ∃ k, m.run host fuel = (Machine.step host)^[k] m := by
  induction fuel generalizing m with
  | zero => exact ⟨0, rfl⟩
  | succ fuel ih =>
      unfold Machine.run
      split
      · exact ⟨0, rfl⟩
      · obtain ⟨k, hk⟩ := ih (m.step host)
        exact ⟨k + 1, hk⟩

/-- What a step of a session leaves is the machine on which the
evaluation of its expression has ended, with the console emptied. -/
theorem Session.machine_of_step {session next : Session} {answer : Answer}
    {fuel : Nat} {e : Expr}
    (h : session.step fuel e = some (answer, next)) :
    ∃ k,
      let m := (Machine.step host)^[k]
        (session.machine.load (e.run World.main top))
      next.machine = { m with console := { sink := m.console.sink } } := by
  unfold Session.step at h
  obtain ⟨outcome, -, heq⟩ := Option.map_eq_some_iff.1 h
  obtain ⟨k, hk⟩ := run_eq_iterate fuel
    (session.machine.load (e.run World.main top))
  refine ⟨k, ?_⟩
  rw [← hk]
  cases outcome with
  | error fault => cases heq; rfl
  | ok v => cases heq; rfl

/-- After an answered step it is settled again. -/
theorem Session.Settled.step {session next : Session} {answer : Answer}
    (settled : session.Settled) {fuel : Nat} {e : Expr}
    (h : session.step fuel e = some (answer, next)) : next.Settled := by
  obtain ⟨k, hmachine⟩ := Session.machine_of_step h
  obtain ⟨r, reaches, honest⟩ := settled.iterate e k
  -- the console, which alone is changed then, is not of the world
  refine ⟨r, reaches, ?_⟩
  rw [hmachine]
  exact { honest with }

/-- So it is after any number of them. -/
theorem Session.Settled.run {session next : Session}
    {answers : List Answer} (settled : session.Settled) {fuel : Nat}
    {steps : List Expr}
    (h : session.run fuel steps = some (answers, next)) :
    next.Settled := by
  induction steps generalizing session answers with
  | nil =>
      cases h
      exact settled
  | cons e rest ih =>
      unfold Session.run at h
      obtain ⟨⟨answer, session'⟩, hstep, h⟩ := Option.bind_eq_some_iff.1 h
      obtain ⟨⟨answers', next'⟩, hrun, h⟩ := Option.bind_eq_some_iff.1 h
      cases h
      exact ih (settled.step hstep) hrun

/-- A session, whatever it evaluates, never leaves the realms that use
leads to: every state of every evaluation has the world of a reachable
one. -/
theorem Session.reachable {sink : Sink} {limit : Option Nat} {fuel : Nat}
    {steps : List Expr} {answers : List Answer} {session : Session}
    (h : (Session.start sink limit).run fuel steps
      = some (answers, session)) (e : Expr) (k : Nat) :
    ∃ r : Realm, r.Reachable
      ∧ ((Machine.step host)^[k]
          (session.machine.load (e.run World.main top))).world
        = r.world := by
  have settled := (Session.settled_start sink limit).run h
  obtain ⟨r, reaches, honest⟩ := settled.iterate e k
  exact ⟨r, reachable_sessionStart.trans reaches, honest.here⟩

end ObjectWorld.Script
