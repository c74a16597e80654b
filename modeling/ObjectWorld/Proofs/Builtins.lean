/-
What a call of an installed native does.

The natives that the core classes start with are not the host's
(`Native.Installed`). What one of them does is settled by the world, the
receiver and the arguments: a query answers, printing adds one line and
gives nil, and making an object fails or makes one (`Native.Does`). Where
an initializer is found, making an object calls back into code, and that
is the one case left out.

Such a native ends after a few steps that call nothing (`Serves`). So a call
of one comes back with just that, or it is refused (`comesBack_of_does`).
-/
import ObjectWorld.Proofs.Printing

namespace ObjectWorld

variable {σ : Type} {host : Host σ} {native : Native}

-- ============================================================ the effects

namespace Native

/-- Whether a native is among those that a core class starts with. -/
def Installed (native : Native) : Prop :=
  ∃ core : CoreClass, ∃ entry ∈ core.methods, entry.2.body = .native native

/-- No installed native is the host's. -/
theorem Installed.ne_foreign (h : native.Installed) (label : String) :
    native ≠ .foreign label := by
  rintro rfl
  obtain ⟨core, entry, hmem, hbody⟩ := h
  have own : ∀ entry ∈ core.methods,
      entry.2.body ≠ .native (.foreign label) := by
    cases core <;> simp [CoreClass.methods, CoreClass.looks]
  exact own entry hmem hbody

/-- What a native does to a receiver and arguments: its outcome, and the
world and the console that it leaves. -/
inductive Does (w : World) (console : Console) (self : Value)
    (args : List Value) : Native → Outcome → World → Console → Prop
  | query (q : Query) :
      Does w console self args (.query q) (w.answer q self args) w console
  | printLine :
      Does w console self args .printLine (.ok .nil) w
        (console.println (String.join (args.map w.inspect)))
  | noClass {fault : Fault} (unfit : w.classFrom "Class" self = .error fault) :
      Does w console self args .instantiate (.error fault) w console
  | tooMany {c : ClassId} {fault : Fault}
      (fit : w.classFrom "Class" self = .ok c)
      (plain : w.resolveIn? c "initialize" = none)
      (check : (Arity.fixed 0).check args.length = .error fault) :
      Does w console self args .instantiate (.error fault) w console
  | instantiate {c : ClassId} (fit : w.classFrom "Class" self = .ok c)
      (plain : w.resolveIn? c "initialize" = none)
      (check : (Arity.fixed 0).check args.length = .ok ()) :
      Does w console self args .instantiate
        (.ok (.object (w.newObject c).1)) (w.newObject c).2 console

/-- Whether nothing initializes what a native makes of a receiver, if it
makes something. -/
def Plain (native : Native) (w : World) (self : Value) : Prop :=
  native = .instantiate → ∀ c, self.class? = some c →
    w.resolveIn? c "initialize" = none

/-- Every installed native does something. -/
theorem Installed.does (h : native.Installed) {w : World} {self : Value}
    (plain : native.Plain w self) (console : Console)
    (args : List Value) : ∃ outcome after console',
      native.Does w console self args outcome after console' := by
  cases native with
  | query q => exact ⟨_, _, _, .query q⟩
  | printLine => exact ⟨_, _, _, .printLine⟩
  | instantiate =>
      cases fit : w.classFrom "Class" self with
      | error fault => exact ⟨_, _, _, .noClass fit⟩
      | ok c =>
          have plain := plain rfl c (World.classFrom_eq_ok_iff.1 fit)
          cases check : (Arity.fixed 0).check args.length with
          | error fault => exact ⟨_, _, _, .tooMany fit plain check⟩
          | ok _ => exact ⟨_, _, _, .instantiate fit plain check⟩
  | foreign label => exact absurd rfl (h.ne_foreign label)

end Native

-- ============================================================== the calls

/-- What a native method does, once its arguments are counted. -/
theorem Method.run_native {method : Method} {self : Value}
    {args : List Value}
    (takes : method.arity.check args.length = .ok ())
    (body : method.body = .native native) :
    method.run host self args = native.run host self args := by
  unfold Method.run
  rw [takes, body]
  rfl

namespace Machine

variable {m : Machine σ} {self : Value} {args : List Value}
  {outcome : Outcome} {w : World} {console : Console}

/-- A program that looks at the world first. -/
theorem step_of_look {next : World → Program σ Outcome}
    (hm : m.current = .look next) :
    m.step host = { m with current := next m.world } := by
  simp only [step, hm]

/-- Making an object looks for the class first, for an initializer then,
and where there is none it counts the arguments. -/
theorem step_instantiate
    (hm : m.current = Native.instantiate.run host self args) :
    m.step host = { m with
      current := (liftM (m.world.classFrom "Class" self) >>= fun c =>
        if (m.world.resolveIn? c "initialize").isSome then do
          let o ← Eval.change (.newObject c)
          let _ ← Eval.invoke (.object o) "initialize" args .implicitSelf
          return .object o
        else do
          (Arity.fixed 0).check args.length
          let o ← Eval.change (.newObject c)
          return .object o : Eval σ Value) } := by
  rw [step_of_look hm]
  rfl

/-- Where nothing initializes, only the count is left to test. -/
theorem step_instantiate_plain
    (hm : m.current = Native.instantiate.run host self args) {c : ClassId}
    (fit : m.world.classFrom "Class" self = .ok c)
    (plain : m.world.resolveIn? c "initialize" = none) :
    m.step host = { m with
      current := (liftM ((Arity.fixed 0).check args.length) >>= fun _ => do
        let o ← Eval.change (.newObject c)
        return .object o : Eval σ Value) } := by
  rw [step_instantiate hm, fit]
  show ({ m with current :=
    (if (m.world.resolveIn? c "initialize").isSome then _ else _
      : Program σ Outcome) } : Machine σ) = _
  rw [plain]
  rfl

/-- Whether a machine comes to another by requests that are served at once:
none of them is a call, and none the end of a program. -/
inductive Serves (host : Host σ) : Machine σ → Machine σ → Prop
  | refl (m : Machine σ) : Serves host m m
  | serve {m n : Machine σ} (uncalled : m.call? = none)
      (more : ∀ outcome, m.current ≠ .done outcome)
      (rest : Serves host (m.step host) n) : Serves host m n

/-- All the way the same callers wait, and no call is made. -/
theorem Serves.steps {n : Machine σ} (serves : Serves host m n) :
    n.depth = m.depth ∧ ∃ k, (step host)^[k] m = n
      ∧ (∀ j ≤ k, ((step host)^[j] m).waiting = m.waiting)
      ∧ ∀ j < k, ((step host)^[j] m).call? = none := by
  induction serves with
  | refl m =>
      refine ⟨rfl, 0, rfl, fun j hj => ?_, nofun⟩
      obtain rfl : j = 0 := by omega
      rfl
  | @serve m n uncalled more rest ih =>
      obtain ⟨depth, k, hk, waiting, calls⟩ := ih
      have here : (m.step host).depth = m.depth
          ∧ (m.step host).waiting = m.waiting := by
        rcases step_cases host m with
          ⟨outcome, -, -, done, -⟩ | ⟨c, -, called, -⟩ | same
        · exact absurd done (more outcome)
        · rw [uncalled] at called
          cases called
        · exact same
      refine ⟨depth.trans here.1, k + 1, hk, fun j hj => ?_, fun j hj => ?_⟩
      · cases j with
        | zero => rfl
        | succ j => exact (waiting j (by omega)).trans here.2
      · cases j with
        | zero => exact uncalled
        | succ j => exact calls j (by omega)

theorem Serves.leads {n : Machine σ} (serves : Serves host m n) :
    Leads host m n := by
  obtain ⟨depth, k, hk, waiting, -⟩ := serves.steps
  refine ⟨⟨k, hk, fun j hj => ?_⟩, hk ▸ waiting k (Nat.le_refl k), depth⟩
  exact Nat.le_of_eq (congrArg List.length (waiting j hj)).symm

/-- The program of an installed native comes to its end with what the
native does, and it calls nothing. -/
theorem serves_of_does
    (hm : m.current = native.run host self args)
    (does : native.Does m.world m.console self args outcome w console) :
    Serves host m
      { m with world := w, console, current := .done outcome } := by
  -- one request, the world, comes before everything else
  have first : ∀ {next : World → Program σ Outcome} {p m'},
      m.current = .look next → m.step host = { m with current := p } →
      Serves host { m with current := p } m' → Serves host m m' := by
    intro next p m' asks look rest
    refine .serve (by simp only [call?, asks]) (by simp [asks]) ?_
    rw [look]
    exact rest
  cases does with
  | query q => exact first hm (step_of_look hm) (.refl _)
  | printLine =>
      exact first hm (step_of_look hm)
        (.serve rfl (fun _ h => by cases h) (.refl _))
  | noClass unfit =>
      have look := step_instantiate hm
      rw [unfit] at look
      exact first hm look (.refl _)
  | tooMany fit plain check =>
      have look := step_instantiate_plain hm fit plain
      rw [check] at look
      exact first hm look (.refl _)
  | instantiate fit plain check =>
      have look := step_instantiate_plain hm fit plain
      rw [check] at look
      exact first hm look (.serve rfl (fun _ h => by cases h) (.refl _))

/-- So it comes there with the callers that it began with. -/
theorem leads_of_does
    (hm : m.current = native.run host self args)
    (does : native.Does m.world m.console self args outcome w console) :
    Leads host m { m with world := w, console, current := .done outcome } :=
  (serves_of_does hm does).leads

/-- A call that the world does not allow comes back with the fault. -/
theorem comesBack_of_disallowed {c : Call σ} {fault : Fault}
    (hc : m.call? = some c) (hallowed : c.allowed = .error fault) :
    ComesBack host m { m with current := c.next (.error fault) } :=
  comesBack_of_refused (step_of_disallowed host hc hallowed)

/-- So does a call for which there is no room. -/
theorem comesBack_of_full {c : Call σ} {method : Method} {fault : Fault}
    (hc : m.call? = some c) (hallowed : c.allowed = .ok method)
    (full : m.refusal? = some fault) :
    ComesBack host m { m with current := c.next (.error fault) } := by
  have hs := step_of_allowed host hc hallowed
  rw [full] at hs
  exact comesBack_of_refused hs

/-- A call of an installed native comes back with what the native does,
if there is room for it. -/
theorem comesBack_of_does {c : Call σ} {method : Method}
    (hc : m.call? = some c) (hallowed : c.allowed = .ok method)
    (room : m.refusal? = none) (body : method.body = .native native)
    (does : native.Does m.world m.console c.self c.args outcome w console) :
    ComesBack host m { m with
      world := w, console, current := c.next outcome } := by
  have hs := step_of_allowed host hc hallowed
  rw [room] at hs
  have current : (m.entered host c method).current
      = native.run host c.self c.args :=
    method.run_native (check_of_allowed hc hallowed) body
  exact comesBack_of_done hs (leads_of_does current does) rfl

end Machine

end ObjectWorld
