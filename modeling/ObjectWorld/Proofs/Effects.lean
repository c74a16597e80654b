/-
All that a call of an installed native changes.

Whatever its receiver and its arguments are, and on whichever class it
stands, an installed native gives way to nobody: between its start and its
end nothing else is called, so no body of a function runs and no native of
the host (`ComesBackAlone`). What it leaves behind is told by its kind
(`Effect`). A query answers, and that is all. The native for printing adds
one line. The one that makes objects adds one object, and only if its
receiver is a class and no argument is given.

A fault changes nothing. So it is where the native finds one, and so it is
where the call is refused before the native starts.
-/
import ObjectWorld.Proofs.Instantiating
import ObjectWorld.Proofs.Responding

namespace ObjectWorld

-- =========================================================== one new object

/-- Whether a world differs from an earlier one by an object of a class
alone: it has no eigenclass and keeps nothing. -/
structure World.AddsObject (w : World) (o : ObjectId) (c : ClassId)
    (after : World) : Prop where
  new : ¬ w.HasObject o
  info : after.objectInfo o = { cls := c, singleton := none, ivars := {} }
  hasObject : ∀ p, after.HasObject p ↔ w.HasObject p ∨ p = o
  others : ∀ p, p ≠ o → after.objectInfo p = w.objectInfo p
  rest : { after with objects := w.objects } = w

theorem World.addsObject_newObject (w : World) (c : ClassId) :
    w.AddsObject (w.newObject c).1 c (w.newObject c).2 where
  new := (w.objectInfo_made c).1
  info := (w.objectInfo_made c).2
  hasObject _ := hasObject_newObject
  others p other := by
    rw [objectInfo_newObject]
    exact if_neg other
  rest := rfl

namespace Machine

variable {σ : Type} {host : Host σ} {m m' n : Machine σ} {native : Native}
  {method : Method} {v : Value} {name : String} {args : List Value}
  {site : CallSite} {next : Outcome → Program σ Outcome}
  {outcome : Outcome} {w : World} {console : Console} {d : ClassId}
  {c : Call σ}

-- =============================================================== giving way

/-- Whether the next step starts anything other than an installed native:
the body of a function or a native of the host. -/
def GivesWay (m : Machine σ) : Prop :=
  ∃ c method, m.call? = some c ∧ c.allowed = .ok method
    ∧ m.refusal? = none
    ∧ ∀ native, method.body = .native native → ¬ native.Installed

/-- Whether a call comes back, and no step on the way gives way to
others. -/
def ComesBackAlone (host : Host σ) (m m' : Machine σ) : Prop :=
  ∃ k, (step host)^[k + 1] m = m' ∧ m'.active = m.active
    ∧ (∀ j < k, m.active < ((step host)^[j + 1] m).active)
    ∧ ∀ j ≤ k, ¬ ((step host)^[j] m).GivesWay

theorem ComesBackAlone.comesBack (h : ComesBackAlone host m m') :
    ComesBack host m m' := by
  obtain ⟨k, hk, back, more, -⟩ := h
  exact ⟨k, hk, back, more⟩

theorem not_givesWay_of_uncalled (h : m.call? = none) : ¬ m.GivesWay := by
  rintro ⟨c, method, called, -⟩
  rw [h] at called
  cases called

/-- A call gives way to nobody if it can only lead to an installed
native. -/
theorem not_givesWay_of_call (hc : m.call? = some c)
    (installed : ∀ method, c.allowed = .ok method → ∃ native,
      method.body = .native native ∧ native.Installed) : ¬ m.GivesWay := by
  rintro ⟨c', method, called, allowed, -, foreign⟩
  obtain rfl : c = c' := Option.some.inj (hc.symm.trans called)
  obtain ⟨native, body, here⟩ := installed method allowed
  exact foreign native body here

/-- A call that a step refuses comes back alone. -/
theorem comesBackAlone_of_refused {fault : Fault}
    (hs : m.step host = m.refused c fault) (alone : ¬ m.GivesWay) :
    ComesBackAlone host m (m.refused c fault) := by
  refine ⟨0, hs, rfl, nofun, fun j hj => ?_⟩
  obtain rfl : j = 0 := by omega
  exact alone

/-- A call that starts a program which serves itself up to its end comes
back alone, if the start gives way to nobody. -/
theorem comesBackAlone_of_serves (alone : ¬ m.GivesWay)
    (hs : m.step host = m.entered host c method)
    (serves : Serves host (m.entered host c method) n)
    (done : n.current = .done outcome) :
    ComesBackAlone host m { n with
      depth := m.depth
      current := c.next outcome
      waiting := m.waiting } := by
  obtain ⟨depth, k, hk, waiting, calls⟩ := serves.steps
  have entered : ∀ j, (step host)^[j + 1] m
      = (step host)^[j] (m.entered host c method) := by
    intro j
    rw [Function.iterate_succ_apply, hs]
  have last := step_of_done host done (hk ▸ waiting k (Nat.le_refl k))
  refine ⟨k + 1, ?_, rfl, fun j hj => ?_, fun j hj => ?_⟩
  · rw [entered, Function.iterate_succ_apply', hk, last, depth]
    rfl
  · have deeper := congrArg List.length (waiting j (by omega))
    rw [entered]
    unfold active
    rw [deeper]
    exact Nat.lt_succ_self _
  -- the call itself, the steps of its program, and the end of that
  · cases j with
    | zero => exact alone
    | succ j =>
        rw [entered]
        refine not_givesWay_of_uncalled ?_
        rcases Nat.lt_or_ge j k with before | here
        · exact calls j before
        · obtain rfl : j = k := by omega
          rw [hk, call?, done]

/-- So a call of an installed native does, with what the native does. -/
theorem comesBackAlone_of_does (alone : ¬ m.GivesWay)
    (hc : m.call? = some c) (hallowed : c.allowed = .ok method)
    (room : m.refusal? = none) (body : method.body = .native native)
    (does : native.Does m.world m.console c.self c.args outcome w console) :
    ComesBackAlone host m { m with
      world := w, console, current := c.next outcome } := by
  have hs := step_of_allowed host hc hallowed
  rw [room] at hs
  have current : (m.entered host c method).current
      = native.run host c.self c.args :=
    method.run_native (check_of_allowed hc hallowed) body
  exact comesBackAlone_of_serves alone hs (serves_of_does current does) rfl

-- =============================================================== the effect

/-- What a call of an installed native gives, and the world and the console
that it leaves. -/
structure Effect (m : Machine σ) (native : Native) (receiver : Value)
    (args : List Value) (outcome : Outcome) (w : World)
    (console : Console) : Prop where
  /-- Only a native that makes objects changes the world. -/
  world : native ≠ .instantiate → w = m.world
  /-- Only the native for printing prints. -/
  silent : native ≠ .printLine → console = m.console
  answers : ∀ q, native = .query q → outcome = m.world.answer q receiver args
  /-- Printing prints the texts of the arguments in a row and one line
  break. -/
  prints : native = .printLine → outcome = .ok .nil
    ∧ console = m.console.receive
      (String.join (args.map m.world.inspect) ++ "\n")
  /-- A class makes one object, if no argument is given. -/
  makes : native = .instantiate → ∀ c, receiver.class? = some c → args = [] →
    ∃ o, outcome = .ok (.object o) ∧ m.world.AddsObject o c w
  miscounted : native = .instantiate → ∀ c, receiver.class? = some c →
    args ≠ [] → w = m.world
      ∧ outcome = .error (.wrongNumberOfArguments 0 args.length)
  /-- Nothing else makes anything. -/
  unfit : native = .instantiate → receiver.class? = none →
    w = m.world ∧ outcome = .error (m.world.unfit "Class" receiver)

/-- What an installed native does has just this effect. -/
theorem effect_of_does
    (does : native.Does m.world m.console v args outcome w console) :
    m.Effect native v args outcome w console := by
  cases does with
  | query q =>
      refine ⟨fun _ => rfl, fun _ => rfl, ?_, nofun, nofun, nofun, nofun⟩
      rintro _ ⟨⟩
      rfl
  | printLine =>
      refine ⟨fun _ => rfl, fun other => absurd rfl other, nofun, ?_, nofun,
        nofun, nofun⟩
      exact fun _ => ⟨rfl, Console.println_eq⟩
  | @noClass fault missing =>
      -- a receiver that is a class would fit
      have unfit : ∀ c, v.class? ≠ some c := by
        intro c hc
        rw [World.classFrom_eq_ok_iff.2 hc] at missing
        cases missing
      refine ⟨fun _ => rfl, fun _ => rfl, nofun, nofun, ?_, ?_, ?_⟩
      · exact fun _ c hc => absurd hc (unfit c)
      · exact fun _ c hc => absurd hc (unfit c)
      · intro _ none
        unfold World.classFrom at missing
        rw [none] at missing
        cases missing
        exact ⟨rfl, rfl⟩
  | tooMany fit plain check =>
      obtain ⟨count, fixed, given, rfl⟩ := Arity.check_eq_error_iff.1 check
      cases fixed
      have fits := World.classFrom_eq_ok_iff.1 fit
      refine ⟨fun _ => rfl, fun _ => rfl, nofun, nofun, ?_, ?_, ?_⟩
      · rintro - c - rfl
        exact absurd rfl given
      · exact fun _ c _ _ => ⟨rfl, rfl⟩
      · exact fun _ missing => by simp [missing] at fits
  | @instantiate made fit plain check =>
      have count := Arity.check_eq_ok_iff.1 check 0 rfl
      have fits := World.classFrom_eq_ok_iff.1 fit
      refine ⟨fun other => absurd rfl other, fun _ => rfl, nofun, nofun, ?_,
        ?_, ?_⟩
      · rintro - c hc -
        obtain rfl : made = c := Option.some.inj (fits.symm.trans hc)
        exact ⟨_, rfl, m.world.addsObject_newObject made⟩
      · exact fun _ c _ given =>
          absurd (List.eq_nil_of_length_eq_zero count.symm) given
      · exact fun _ missing => by simp [missing] at fits

-- ============================================================== the theorem

/-- Installed natives leave the world alone. Let a name lead a receiver to a
method that runs an installed native; if it makes objects, let nothing
initialize what it makes. Then a call by the name, with whatever arguments
and from wherever, comes back to one state, and neither the body of a
function nor a native of the host runs before it does. A call that is refused
has changed nothing. Any other has just the effect of its native: nothing is
changed but what that says, neither the depth nor anything that the evaluator
keeps. -/
theorem natives_leave_world_alone (host : Host σ) (m : Machine σ)
    (v : Value) (name : String)
    (resolved : m.world.resolve? v name = some ⟨d, method⟩)
    (body : method.body = .native native) (installed : native.Installed)
    (plain : native.Plain m.world v) (args : List Value) (site : CallSite)
    (next : Outcome → Program σ Outcome) :
    ∃ outcome w console,
      let asked := m.asking v name args site next
      let after := { m with world := w, console, current := next outcome }
      (∀ m', ComesBack host asked m' ↔ m' = after)
        ∧ ComesBackAlone host asked after
        ∧ match m.verdict v name args site with
          | .error fault =>
              outcome = .error fault ∧ w = m.world ∧ console = m.console
          | .ok _ => m.Effect native v args outcome w console := by
  have hc : (m.asking v name args site next).call? = some _ :=
    call?_of_invoke rfl
  have leads : ∀ found, m.world.methodFor v name args.length site
      = .ok found → found = method := by
    intro found allowed
    obtain ⟨_, same, -, -, rfl⟩ := World.methodFor_eq_ok_iff.1 allowed
    rw [resolved] at same
    cases same
    rfl
  have alone : ¬ (m.asking v name args site next).GivesWay := by
    refine not_givesWay_of_call hc fun found allowed => ?_
    obtain rfl := leads found allowed
    exact ⟨native, body, installed⟩
  -- coming back alone says where the call comes back to
  suffices back : ∃ outcome w console,
      ComesBackAlone host (m.asking v name args site next)
          { m with world := w, console, current := next outcome }
        ∧ match m.verdict v name args site with
          | .error fault =>
              outcome = .error fault ∧ w = m.world ∧ console = m.console
          | .ok _ => m.Effect native v args outcome w console by
    obtain ⟨outcome, w, console, back, effect⟩ := back
    exact ⟨outcome, w, console, fun m' => back.comesBack.iff_eq, back,
      effect⟩
  unfold verdict
  cases hallowed : m.world.methodFor v name args.length site with
  | error fault =>
      have hs := step_of_disallowed host hc hallowed
      exact ⟨.error fault, m.world, m.console,
        comesBackAlone_of_refused hs alone, rfl, rfl, rfl⟩
  | ok found =>
      obtain rfl := leads found hallowed
      have alike : (m.asking v name args site next).refusal? = m.refusal? :=
        rfl
      cases room : m.refusal? with
      | some fault =>
          have hs := step_of_allowed host hc hallowed
          rw [alike, room] at hs
          exact ⟨.error fault, m.world, m.console,
            comesBackAlone_of_refused hs alone, rfl, rfl, rfl⟩
      | none =>
          obtain ⟨outcome, w, console, does⟩ :=
            installed.does plain m.console args
          exact ⟨outcome, w, console,
            comesBackAlone_of_does alone hc hallowed room body does,
            effect_of_does does⟩

/-- A machine at the start, where the native that appends to an array is a
method of integers as well. -/
def lent : Machine Unit where
  world := World.initial.defineMethod CoreClass.integer.id "push"
    ⟨.any, .isPublic, .native (.query .append)⟩
  limit := some 1
  own := ()

/-- From within, printing adds its line and that is all, and from outside it
is refused. An integer can not be appended to, and nothing comes of it. The
class of objects makes one of them. -/
theorem natives_leave_world_alone_lent :
    ComesBack endless (lent.asking World.main "puts"
        [.selfRef (.int 1), .text "a"] .implicitSelf .done)
      { lent with console := { kept := "1a\n" }, current := .done (.ok .nil) }
    ∧ ComesBack endless (lent.asking World.main "puts" [] .explicit .done)
      { lent with
        current := .done
          (.error (.privateMethod "puts" (lent.world.describe World.main))) }
    ∧ ComesBackAlone endless
      (lent.asking (.int 1) "push" [.nil] .explicit .done)
      { lent with
        current := .done (.error (.implicitConversion "Array" "Integer")) }
    ∧ ∃ o w, lent.world.AddsObject o CoreClass.object.id w
      ∧ ComesBack endless
        (lent.asking (.cls CoreClass.object.id) "new" [] .explicit .done)
        { lent with world := w, current := .done (.ok (.object o)) } := by
  have prints : Native.printLine.Installed := ⟨.kernel, _, .head _, rfl⟩
  have appends : (Native.query .append).Installed :=
    ⟨.array, _, .tail _ (.tail _ (.tail _ (.head _))), rfl⟩
  have makes : Native.instantiate.Installed :=
    ⟨.cls, _, .tail _ (.head _), rfl⟩
  refine ⟨?_, ?_, ?_, ?_⟩
  · obtain ⟨_, _, _, back, -, effect⟩ := natives_leave_world_alone endless
      lent World.main "puts" rfl rfl prints nofun
      [.selfRef (.int 1), .text "a"] .implicitSelf .done
    have effect : lent.Effect .printLine World.main _ _ _ _ := effect
    obtain ⟨rfl, rfl⟩ := effect.prints rfl
    obtain rfl := effect.world nofun
    exact (back _).2 rfl
  · obtain ⟨_, _, _, back, -, rfl, rfl, rfl⟩ := natives_leave_world_alone
      endless lent World.main "puts" rfl rfl prints nofun [] .explicit .done
    exact (back _).2 rfl
  · obtain ⟨_, _, _, -, alone, effect⟩ := natives_leave_world_alone endless
      lent (.int 1) "push" rfl rfl appends nofun [.nil] .explicit .done
    have effect : lent.Effect (.query .append) (.int 1) _ _ _ _ := effect
    obtain rfl := effect.answers _ rfl
    obtain rfl := effect.world nofun
    obtain rfl := effect.silent nofun
    exact alone
  · obtain ⟨_, w, _, back, -, effect⟩ := natives_leave_world_alone endless
      lent (.cls CoreClass.object.id) "new" rfl rfl makes
      (by rintro - c ⟨⟩; rfl) [] .explicit .done
    have effect : lent.Effect .instantiate (.cls CoreClass.object.id) _ _ _ _
      := effect
    obtain ⟨o, rfl, adds⟩ := effect.makes rfl _ rfl rfl
    obtain rfl := effect.silent nofun
    exact ⟨o, w, adds, (back _).2 rfl⟩

end Machine

end ObjectWorld
