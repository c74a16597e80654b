/-
Every evaluation of a body has a frame of its own.

Bodies are not evaluated by calling the evaluator: what an expression
can do is to make a call, and the method that the call leads to evaluates
a body if it is a function. So a program evaluates at most one body, and
that before it makes a call of its own (`Program.Frugal`); expressions
evaluate none. A machine whose programs are all like that begins an
evaluation only where a call has started just before: on its way from the
start of the call to the evaluation the frame is still the innermost one,
and no other body has been evaluated (`Machine.evaluation_in_frame`).

Evaluations are told by the record that the language keeps of them. It
is written in one place, at the start of an evaluation.
-/
import ObjectWorld.Proofs.Depth
import ObjectWorld.Script.Hosting

namespace ObjectWorld

open Script

-- ============================================================== the trees

section Programs

variable {α β : Type} {fresh : Bool} {notes : Notes}

/-- Whether a program evaluates only as many bodies as a frame allows: one
if the frame is fresh, and none after that or once it has made a call. -/
def Program.Frugal : Bool → Notes → Program Notes α → Prop
  | _, _, .done _ => True
  | fresh, notes, .look next => ∀ w, (next w).Frugal fresh notes
  | fresh, notes, .own next => (next notes).Frugal fresh notes
  | fresh, notes, .keep state next =>
      (state.evaluated = notes.evaluated ∧ next.Frugal fresh state)
        ∨ fresh = true
          ∧ (∃ e, state.evaluated = e :: notes.evaluated)
          ∧ next.Frugal false state
  | fresh, notes, .depth next => ∀ n, (next n).Frugal fresh notes
  | fresh, notes, .limit next => ∀ n, (next n).Frugal fresh notes
  | fresh, notes, .output next => ∀ text, (next text).Frugal fresh notes
  | fresh, notes, .clear next => next.Frugal fresh notes
  | fresh, notes, .print _ next => next.Frugal fresh notes
  | fresh, notes, .change _ next =>
      ∀ reply, (next reply).Frugal fresh notes
  | _, _, .invoke _ _ _ _ next =>
      ∀ outcome notes, (next outcome).Frugal false notes
  | _, _, .apply _ _ next =>
      ∀ outcome notes, (next outcome).Frugal false notes

/-- A program that evaluates nothing may run in any frame. -/
theorem Program.Frugal.of_spent {p : Program Notes α}
    (h : p.Frugal false notes) : p.Frugal fresh notes := by
  induction p generalizing notes with
  | done a => trivial
  | look next ih => exact fun w => ih w (h w)
  | own next ih => exact ih notes h
  | keep state next ih =>
      rcases h with ⟨same, h⟩ | ⟨impossible, -⟩
      · exact .inl ⟨same, ih h⟩
      · cases impossible
  | depth next ih => exact fun n => ih n (h n)
  | limit next ih => exact fun n => ih n (h n)
  | output next ih => exact fun text => ih text (h text)
  | clear next ih => exact ih h
  | print line next ih => exact ih h
  | change c next ih => exact fun reply => ih reply (h reply)
  | invoke | apply => exact h

/-- Going on with programs that evaluate nothing takes no more frames. -/
theorem Program.Frugal.bind {p : Program Notes α}
    {rest : α → Program Notes β} (h : p.Frugal fresh notes)
    (hrest : ∀ a notes, (rest a).Frugal false notes) :
    (p.bind rest).Frugal fresh notes := by
  induction p generalizing fresh notes with
  | done a => exact (hrest a notes).of_spent
  | look next ih => exact fun w => ih w (h w)
  | own next ih => exact ih notes h
  | keep state next ih =>
      rcases h with ⟨same, h⟩ | ⟨hfresh, one, h⟩
      · exact .inl ⟨same, ih h⟩
      · exact .inr ⟨hfresh, one, ih h⟩
  | depth next ih => exact fun n => ih n (h n)
  | limit next ih => exact fun n => ih n (h n)
  | output next ih => exact fun text => ih text (h text)
  | clear next ih => exact ih h
  | print line next ih => exact ih h
  | change c next ih => exact fun reply => ih reply (h reply)
  | invoke receiver name args site next ih =>
      exact fun outcome notes => ih outcome (h outcome notes)
  | apply callee args next ih =>
      exact fun outcome notes => ih outcome (h outcome notes)

-- ======================================================== the evaluations

/-- Whether an evaluation evaluates only as many bodies as a frame
allows. -/
def Eval.Frugal (fresh : Bool) (notes : Notes) (e : Act α) : Prop :=
  Program.Frugal fresh notes e.run

namespace Eval.Frugal

variable {a : α} {fault : Fault}

/-- Ending evaluates nothing. -/
theorem pure : (Pure.pure a : Act α).Frugal fresh notes := trivial

/-- Nor does failing. -/
theorem throw : (throw fault : Act α).Frugal fresh notes := trivial

/-- Nor does handing on a result. -/
theorem lift {result : Except Fault α} :
    (liftM result : Act α).Frugal fresh notes := trivial

/-- What evaluates nothing may run in any frame. -/
theorem of_spent {e : Act α} (h : e.Frugal false notes) :
    e.Frugal fresh notes :=
  Program.Frugal.of_spent h

/-- What follows the first part can not count on the frame any more, and so
it may evaluate nothing. -/
theorem bind {e : Act α} {rest : α → Act β} (h : e.Frugal fresh notes)
    (hrest : ∀ a notes, (rest a).Frugal false notes) :
    (e >>= rest).Frugal fresh notes := by
  refine Program.Frugal.bind h ?_
  intro result notes
  cases result with
  | error fault => trivial
  | ok a => exact hrest a notes

/-- A handler comes after the evaluation it is for, so it may evaluate
nothing either. -/
theorem tryCatch {e : Act α} {handler : Fault → Act α}
    (h : e.Frugal fresh notes)
    (hhandler : ∀ fault notes, (handler fault).Frugal false notes) :
    (tryCatch e handler).Frugal fresh notes := by
  refine Program.Frugal.bind h ?_
  intro result notes
  cases result with
  | error fault => exact hhandler fault notes
  | ok a => trivial

/-- After a result that is at hand the frame is as fresh as before. -/
theorem lift_bind {result : Except Fault α} {rest : α → Act β}
    (h : ∀ a, (rest a).Frugal fresh notes) :
    (liftM result >>= rest).Frugal fresh notes := by
  cases result with
  | error fault => trivial
  | ok a => exact h a

/-- Looking at the world leaves the frame as it is. -/
theorem world {rest : World → Act β}
    (h : ∀ w, (rest w).Frugal fresh notes) :
    (Eval.world >>= rest).Frugal fresh notes := h

/-- So does looking at the notes, which tell what was evaluated. -/
theorem own {rest : Notes → Act β} (h : (rest notes).Frugal fresh notes) :
    (Eval.own >>= rest).Frugal fresh notes := h

/-- Notes with the same record say of no further evaluation. -/
theorem keep {state : Notes} {rest : Unit → Act β}
    (same : state.evaluated = notes.evaluated)
    (h : (rest ()).Frugal fresh state) :
    (Eval.keep state >>= rest).Frugal fresh notes :=
  .inl ⟨same, h⟩

/-- A change of the world is no evaluation. -/
theorem change {c : Change} {rest : c.Reply → Act β}
    (h : ∀ reply, (rest reply).Frugal fresh notes) :
    (Eval.change c >>= rest).Frugal fresh notes := h

/-- Nor is asking how many calls are running. -/
theorem depth {rest : Nat → Act β}
    (h : ∀ n, (rest n).Frugal fresh notes) :
    (Eval.depth >>= rest).Frugal fresh notes := h

/-- Nor is asking how many may run. -/
theorem limit {rest : Option Nat → Act β}
    (h : ∀ n, (rest n).Frugal fresh notes) :
    (Eval.limit >>= rest).Frugal fresh notes := h

/-- Nor is asking what was printed. -/
theorem output {rest : String → Act β}
    (h : ∀ text, (rest text).Frugal fresh notes) :
    (Eval.output >>= rest).Frugal fresh notes := h

/-- Nor is emptying the console. -/
theorem clear {rest : Unit → Act β} (h : (rest ()).Frugal fresh notes) :
    (Eval.clear >>= rest).Frugal fresh notes := h

/-- Nor is printing. -/
theorem print {line : String} {rest : Unit → Act β}
    (h : (rest ()).Frugal fresh notes) :
    (Eval.print line >>= rest).Frugal fresh notes := h

/-- A call by name evaluates nothing itself; its method does, in a frame of
its own. -/
theorem invoke {receiver : Value} {name : String} {args : List Value}
    {site : CallSite} :
    (Eval.invoke receiver name args site : Act Value).Frugal fresh
      notes :=
  fun _ _ => trivial

/-- Nor does a call of a value. -/
theorem apply {callee : Value} {args : List Value} :
    (Eval.apply callee args : Act Value).Frugal fresh notes :=
  fun _ _ => trivial

end Eval.Frugal

end Programs

-- ======================================================== the expressions

namespace Script

variable {α β : Type} {fresh : Bool} {notes : Notes} {here : ScopeId}

/-- Asking for an operand of use evaluates nothing: one of no use leaves a
mark and fails. -/
theorem frugal_needed {o : Option α} : (needed o).Frugal fresh notes := by
  cases o with
  | none => exact .own (.keep rfl .throw)
  | some a => exact .pure

/-- An operand that must be of use is evaluated, and then looked at. -/
theorem frugal_operand {e : Act α} {part : α → Option β} {γ : Type}
    {rest : β → Act γ} (h : e.Frugal fresh notes)
    (hrest : ∀ b notes, (rest b).Frugal false notes) :
    (e >>= fun a => needed (part a) >>= rest).Frugal fresh notes :=
  .bind h fun _ _ => .bind frugal_needed hrest

/-- Finding a scope evaluates nothing. -/
theorem frugal_scopeNamed {name : String} :
    (scopeNamed here name).Frugal fresh notes := by
  unfold scopeNamed
  split
  · exact .pure
  · exact .own frugal_needed

/-- Naming a scope changes the notes, but not the record in them. -/
theorem frugal_nameScope {name : String} {s : ScopeId} :
    (nameScope name s).Frugal fresh notes :=
  .own (.inl ⟨rfl, trivial⟩)

/-- Making an exception of a fault evaluates nothing. -/
theorem frugal_exceptionFor {fault : Fault} :
    (exceptionFor fault).Frugal fresh notes :=
  .change fun _ => .pure

/-- Nor does finding a method. -/
theorem frugal_methodFound {c : ClassId} {name : String} :
    (methodFound c name).Frugal fresh notes :=
  .world fun _ => .bind frugal_needed fun _ _ => .pure

mutual

/-- An expression evaluates no body. -/
theorem Expr.frugal_run (e : Expr) (self : Value) (here : ScopeId)
    (notes : Notes) : (e.run self here).Frugal false notes := by
  cases e with
  | nil | bool | int | text | symbol | required | repeated | main | self
  | builtin | coreClasses => rw [Expr.run]; exact .pure
  | fail fault => rw [Expr.run]; exact .throw
  | get | const | exceptionClass | isBound =>
      rw [Expr.run]
      exact .world fun _ => .pure
  | depth => rw [Expr.run]; exact .depth fun _ => .pure
  | limit => rw [Expr.run]; exact .limit fun _ => .pure
  | evals => rw [Expr.run]; exact .own .pure
  | output => rw [Expr.run]; exact .output fun _ => .pure
  | clear => rw [Expr.run]; exact .clear .pure
  | print line => rw [Expr.run]; exact .print .pure
  | nested _ e | selfRef e | ret e =>
      rw [Expr.run]
      exact .bind (e.frugal_run self here notes) fun _ _ => .pure
  | view _ e | resolve e | debugMethod e | responds e | ivar e =>
      rw [Expr.run]
      exact .bind (e.frugal_run self here notes) fun _ _ =>
        .world fun _ => .pure
  | viewClass _ cls | ownMethod cls | resolveIn cls | respondsIn cls =>
      rw [Expr.run]
      exact frugal_operand (cls.frugal_run self here notes) fun _ _ =>
        .world fun _ => .pure
  | set _ e | define _ e =>
      rw [Expr.run]
      exact .bind (e.frugal_run self here notes) fun _ _ =>
        .change fun _ => .pure
  | exception cls | object cls | newSubclass _ cls =>
      rw [Expr.run]
      exact frugal_operand (cls.frugal_run self here notes) fun _ _ =>
        .change fun _ => .pure
  | newClass | newModule =>
      rw [Expr.run]
      exact .change fun _ => .pure
  | defineClass | defineModule =>
      rw [Expr.run]
      exact .change fun _ => .lift_bind fun _ => .pure
  | defineSubclass _ cls =>
      rw [Expr.run]
      exact frugal_operand (cls.frugal_run self here notes) fun _ _ =>
        .change fun _ => .lift_bind fun _ => .pure
  | eigenclass e =>
      rw [Expr.run]
      exact .bind (e.frugal_run self here notes) fun _ _ =>
        .change fun _ => .lift_bind fun _ => .pure
  | withVisibility e =>
      rw [Expr.run]
      exact frugal_operand (e.frugal_run self here notes) fun _ _ => .pure
  | array items =>
      rw [Expr.run]
      exact .bind (frugal_runAll items self here notes) fun _ _ => .pure
  | seq steps =>
      rw [Expr.run]
      exact frugal_runSteps steps self here .nil notes
  | branch test thenBranch elseBranch =>
      rw [Expr.run]
      refine .bind (test.frugal_run self here notes) fun v notes => ?_
      split
      · exact thenBranch.frugal_run self here notes
      · exact elseBranch.frugal_run self here notes
  | rescue e handler =>
      rw [Expr.run]
      refine .tryCatch (e.frugal_run self here notes) fun fault _ => ?_
      exact .bind frugal_exceptionFor fun _ notes =>
        .change fun _ => handler.frugal_run self here notes
  | attempt e =>
      rw [Expr.run]
      refine .tryCatch (.bind (e.frugal_run self here notes) ?_) ?_
      · exact fun _ _ => .pure
      · exact fun _ _ => .bind frugal_exceptionFor fun _ _ => .pure
  | call name args =>
      rw [Expr.run]
      exact .bind (frugal_runAll args self here notes) fun _ _ => .invoke
  | invoke receiver name site args =>
      rw [Expr.run]
      refine .bind (receiver.frugal_run self here notes) fun _ notes => ?_
      exact .bind (frugal_runAll args self here notes) fun _ _ => .invoke
  | apply callee args =>
      rw [Expr.run]
      refine .bind (callee.frugal_run self here notes) fun _ notes => ?_
      exact .bind (frugal_runAll args self here notes) fun _ _ => .apply
  | setIvar e name value =>
      rw [Expr.run]
      refine .bind (e.frugal_run self here notes) fun _ notes => ?_
      refine .bind (value.frugal_run self here notes) fun _ _ => ?_
      split
      · exact .change fun _ => .pure
      · exact .pure
  | named name =>
      rw [Expr.run]
      exact .world fun _ => .bind frugal_needed fun _ _ => .pure
  | method cls name source =>
      rw [Expr.run]
      refine frugal_operand (cls.frugal_run self here notes) ?_
      exact fun _ notes =>
        .bind (source.frugal_run self here notes) fun _ _ =>
          .change fun _ => .pure
  | singletonMethod e name source =>
      rw [Expr.run]
      refine .bind (e.frugal_run self here notes) fun _ notes => ?_
      exact .bind (source.frugal_run self here notes) fun _ _ =>
        .change fun _ => .lift
  | function params body visibility =>
      rw [Expr.run]
      exact .own (.keep rfl (.change fun _ => .pure))
  | newScope name =>
      rw [Expr.run]
      exact .change fun _ => .bind frugal_nameScope fun _ _ => .pure
  | newScopeIn name outer =>
      rw [Expr.run]
      exact .bind frugal_scopeNamed fun _ _ =>
        .change fun _ => .bind frugal_nameScope fun _ _ => .pure
  | saveScope name =>
      rw [Expr.run]
      exact .bind frugal_nameScope fun _ _ => .pure
  | outerScope scope name =>
      rw [Expr.run]
      refine .bind frugal_scopeNamed fun _ _ => .world fun _ => ?_
      split
      · exact .bind frugal_nameScope fun _ _ => .pure
      · exact .pure
  | within scope e =>
      rw [Expr.run]
      exact .bind frugal_scopeNamed fun s notes =>
        e.frugal_run self s notes
  | bindArguments function name args =>
      rw [Expr.run]
      refine frugal_operand (function.frugal_run self here notes) ?_
      exact fun _ notes =>
        .bind (frugal_runAll args self here notes) fun _ _ =>
          .change fun _ => .bind frugal_nameScope fun _ _ => .pure
  | same a b =>
      rw [Expr.run]
      refine .bind (a.frugal_run self here notes) fun _ notes => ?_
      exact .bind (b.frugal_run self here notes) fun _ _ => .pure
  | sameClass a b =>
      rw [Expr.run]
      refine frugal_operand (a.frugal_run self here notes) ?_
      exact fun _ notes =>
        frugal_operand (b.frugal_run self here notes) fun _ _ => .pure
  | sameScope a b =>
      rw [Expr.run]
      exact .bind frugal_scopeNamed fun _ _ =>
        .bind frugal_scopeNamed fun _ _ => .pure
  | debugScope scope =>
      rw [Expr.run]
      exact .bind frugal_scopeNamed fun _ _ => .world fun _ => .pure

/-- Nor do any number of expressions, one after the other. -/
theorem frugal_runAll (es : List Expr) (self : Value) (here : ScopeId)
    (notes : Notes) : (runAll self here es).Frugal false notes := by
  cases es with
  | nil => rw [runAll]; exact .pure
  | cons e rest =>
      rw [runAll]
      refine .bind (e.frugal_run self here notes) fun _ notes => ?_
      exact .bind (frugal_runAll rest self here notes) fun _ _ => .pure

/-- Nor do steps, which may end early. -/
theorem frugal_runSteps (es : List Expr) (self : Value) (here : ScopeId)
    (last : Value) (notes : Notes) :
    (runSteps self here last es).Frugal false notes := by
  cases es with
  | nil => rw [runSteps]; exact .pure
  | cons e rest =>
      rw [runSteps]
      refine .bind (e.frugal_run self here notes) fun v notes => ?_
      split
      · exact .pure
      · exact frugal_runSteps rest self here _ notes

/-- Nor does what a method is given by. -/
theorem MethodExpr.frugal_run (m : MethodExpr) (self : Value)
    (here : ScopeId) (notes : Notes) :
    (m.run self here).Frugal false notes := by
  cases m with
  | native => rw [MethodExpr.run]; exact .pure
  | found cls name =>
      rw [MethodExpr.run]
      exact frugal_operand (cls.frugal_run self here notes) fun _ _ =>
        frugal_methodFound
  | recast cls name arity visibility =>
      rw [MethodExpr.run]
      refine frugal_operand (cls.frugal_run self here notes) fun _ _ => ?_
      exact .bind frugal_methodFound fun _ _ => .world fun _ => .pure
  | function e =>
      rw [MethodExpr.run]
      exact frugal_operand (e.frugal_run self here notes) fun _ _ =>
        .world fun _ => .pure

end

end Script

-- ============================================================= the methods

/-- Whether what a host fills in evaluates one body at most, and that
before it makes a call. -/
structure Host.Frugal (host : Host Notes) : Prop where
  body : ∀ b self scope notes, (host.body b self scope).Frugal true notes
  native : ∀ label self args notes,
    (host.native label self args).Frugal true notes

section Methods

variable {host : Host Notes} {notes : Notes} {self : Value}
  {args : List Value}

/-- A native evaluates a body only if it is filled in by the host: making an
instance leaves that to the call of its initializer. -/
theorem Native.frugal_run (hhost : host.Frugal) (native : Native) :
    (native.run host self args).Frugal true notes := by
  cases native with
  | query q => exact .world fun _ => .lift
  | foreign label => exact hhost.native label self args notes
  | printLine => exact .world fun _ => .print .pure
  | instantiate =>
      refine .world fun w => .lift_bind fun c => ?_
      split
      · exact .change fun _ => .bind .invoke fun _ _ => .pure
      · exact .lift_bind fun _ => .change fun _ => .pure

/-- A method evaluates one body at most, that of its function. -/
theorem Method.frugal_run (hhost : host.Frugal) (method : Method) :
    (method.run host self args).Frugal true notes := by
  unfold Method.run
  refine .lift_bind fun _ => ?_
  split
  · exact Native.frugal_run hhost _
  · refine .world fun w => .change fun scope => ?_
    exact .bind (hhost.body _ self scope notes) fun _ _ => .pure

namespace Script

/-- The evaluation of a body is recorded once, at its start. -/
theorem frugal_evaluate (body : BodyId) (self : Value) (scope : ScopeId) :
    (evaluate body self scope).Frugal true notes := by
  refine .own (.inr ⟨rfl, ⟨_, rfl⟩, ?_⟩)
  cases notes.bodies[body.index]? with
  | none => trivial
  | some e => exact e.frugal_run self scope _

/-- The name to call is read off a value, before anything else. -/
theorem frugal_calledName {α : Type} {v : Value} {rest : String → Act α}
    (h : ∀ name, (rest name).Frugal true notes) :
    (calledName v >>= rest).Frugal true notes := by
  unfold calledName
  split
  · exact h _
  · exact .world fun _ => .throw

/-- Printing any number of lines evaluates nothing. -/
theorem frugal_printEach (vs : List Value) :
    (printEach vs).Frugal true notes := by
  induction vs with
  | nil => exact .pure
  | cons v vs ih => exact .world fun _ => .print ih

/-- A routine evaluates one body at most. One of them runs another method
within its own frame, so the host for that one has to be frugal as well. -/
theorem Routine.frugal_run {inner : Host Notes} (hinner : inner.Frugal)
    (routine : Routine) : (routine.run inner self args).Frugal true notes := by
  cases routine with
  | args | first | receiver => exact .pure
  | sendSelf | sendTo => exact frugal_calledName fun _ => .invoke
  | println => exact .bind (frugal_printEach args) fun _ _ => .pure
  | eval =>
      unfold Routine.run
      dsimp only
      split
      · exact .pure
      · exact .world fun _ => .change fun scope =>
          frugal_evaluate _ self scope
  | className => exact .world fun _ => .pure
  | fail => exact .world fun _ => .throw
  | methodCall =>
      refine frugal_calledName fun name => .world fun w => ?_
      split
      · exact .throw
      · exact Method.frugal_run hinner _

/-- So the hosts are frugal one after the other, however deep methods are
run directly. -/
theorem frugal_hostWithin (levels : Nat) : (hostWithin levels).Frugal := by
  induction levels with
  | zero =>
      exact {
        body := fun b self s _ => frugal_evaluate b self s
        native := fun _ _ _ _ => .pure }
  | succ levels ih =>
      exact {
        body := fun b self s _ => frugal_evaluate b self s
        native := by
          intro label self args notes
          unfold hostWithin
          dsimp only
          split
          · exact Routine.frugal_run ih _
          · exact .pure }

/-- In the language a method evaluates one body at most, and that before
it makes a call. -/
theorem frugal_host : Script.host.Frugal where
  body b self s _ := frugal_evaluate b self s
  native label self args notes :=
    (frugal_hostWithin (args.length + 1)).native label self args notes

end Script

end Methods

-- ============================================================ the machines

namespace Machine

variable {host : Host Notes} {m : Machine Notes} {fresh : Bool}

/-- Whether the next step takes a frame: it makes a call that the world
allows and for which there is room. -/
def TakesFrame (m : Machine Notes) : Prop :=
  ∃ c method, m.call? = some c ∧ c.allowed = .ok method
    ∧ m.refusal? = none

/-- Whether the program of a machine evaluates only as many bodies as its
frame allows, and the callers none. -/
structure Frugal (fresh : Bool) (m : Machine Notes) : Prop where
  current : m.current.Frugal fresh m.own
  waiting : ∀ next ∈ m.waiting, ∀ outcome notes,
    (next outcome).Frugal false notes

/-- Who makes a call goes on without a frame for evaluations. -/
theorem Frugal.next (h : m.Frugal fresh) {c : Call Notes}
    (hc : m.call? = some c) (outcome : Outcome) (notes : Notes) :
    (c.next outcome).Frugal false notes := by
  have current := h.current
  rcases call?_cases hc with ⟨name, site, hm, -⟩ | ⟨callee, hm, -⟩
  · rw [hm] at current
    exact current outcome notes
  · rw [hm] at current
    exact current outcome notes

/-- A call takes a fresh frame, or it is refused and takes none. -/
theorem Frugal.step_of_call (hhost : host.Frugal) (h : m.Frugal fresh)
    {c : Call Notes} (hc : m.call? = some c) :
    (m.step host).own = m.own
      ∧ (m.TakesFrame ∧ (m.step host).Frugal true
        ∨ (m.step host).Frugal false) := by
  have refused : ∀ fault, (m.refused c fault).Frugal false := fun fault =>
    { h with current := h.next hc (.error fault) m.own }
  cases hallowed : c.allowed with
  | error fault =>
      rw [step_of_disallowed host hc hallowed]
      exact ⟨rfl, .inr (refused fault)⟩
  | ok method =>
      rw [step_of_allowed host hc hallowed]
      cases hr : m.refusal? with
      | some fault => exact ⟨rfl, .inr (refused fault)⟩
      | none =>
          refine ⟨rfl, .inl ⟨⟨c, method, hc, hallowed, hr⟩, ?_, ?_⟩⟩
          · exact Method.frugal_run hhost method
          · intro next hmem
            rcases List.mem_cons.1 hmem with rfl | hmem
            · exact h.next hc
            · exact h.waiting next hmem

/-- What a step does to the frame and to the record: it takes a frame, it
uses up a fresh one for an evaluation, or it evaluates nothing and leaves
the frame as fresh as it was, if at all. -/
theorem Frugal.step (hhost : host.Frugal) (h : m.Frugal fresh) :
    (m.TakesFrame ∧ (m.step host).Frugal true
        ∧ (m.step host).own = m.own)
      ∨ (fresh = true ∧ (m.step host).Frugal false
        ∧ ∃ e, (m.step host).own.evaluated = e :: m.own.evaluated)
      ∨ ((m.step host).own.evaluated = m.own.evaluated
        ∧ ((m.step host).Frugal false ∨ (m.step host).Frugal fresh
          ∧ (m.step host).waiting = m.waiting)) := by
  cases hcall : m.call? with
  | some c =>
      obtain ⟨own, ⟨taken, after⟩ | after⟩ := h.step_of_call hhost hcall
      · exact .inl ⟨taken, after, own⟩
      · exact .inr (.inr ⟨congrArg Notes.evaluated own, .inl after⟩)
  | none =>
      have current := h.current
      cases hm : m.current with
      | invoke receiver name args site next => simp [call?, hm] at hcall
      | apply callee args next => simp [call?, hm] at hcall
      | done outcome =>
          refine .inr (.inr ?_)
          cases hw : m.waiting with
          | nil =>
              simp only [Machine.step, hm, hw, true_and, and_true]
              exact .inr h
          | cons next rest =>
              have waiting := h.waiting
              rw [hw] at waiting
              simp only [Machine.step, hm, hw, true_and]
              refine .inl ⟨?_, fun later hlater => ?_⟩
              · exact waiting next List.mem_cons_self outcome m.own
              · exact waiting later (List.mem_cons_of_mem _ hlater)
      | keep state next =>
          rw [hm] at current
          simp only [Machine.step, hm, and_true]
          rcases current with ⟨same, current⟩ | ⟨hfresh, one, current⟩
          · exact .inr (.inr ⟨same, .inr { h with current }⟩)
          · exact .inr (.inl ⟨hfresh, { h with current }, one⟩)
      | own next | clear next | print line next =>
          rw [hm] at current
          simp only [Machine.step, hm, true_and, and_true]
          exact .inr (.inr (.inr { h with current }))
      | look next | depth next | limit next | output next
      | change c next =>
          rw [hm] at current
          simp only [Machine.step, hm, true_and, and_true]
          exact .inr (.inr (.inr { h with current := current _ }))

/-- Whether the frame that the `i`-th step of a run takes is still the
innermost one before the `j`-th, and no body was evaluated since. -/
structure Unused (host : Host Notes) (m : Machine Notes) (i j : Nat) :
    Prop where
  before : i < j
  taken : ((Machine.step host)^[i] m).TakesFrame
  since : ∀ l, i < l → l ≤ j →
    ((Machine.step host)^[l] m).waiting
        = ((Machine.step host)^[i + 1] m).waiting
      ∧ ((Machine.step host)^[l] m).own.evaluated
        = ((Machine.step host)^[i] m).own.evaluated

/-- A frame that was unused stays so in a step that keeps the callers and
records no evaluation. -/
theorem Unused.succ {i j : Nat} (h : Unused host m i j)
    (waiting : ((Machine.step host)^[j + 1] m).waiting
      = ((Machine.step host)^[j] m).waiting)
    (evaluated : ((Machine.step host)^[j + 1] m).own.evaluated
      = ((Machine.step host)^[j] m).own.evaluated) :
    Unused host m i (j + 1) where
  before := Nat.lt_succ_of_lt h.before
  taken := h.taken
  since := by
    intro l hil hlj
    by_cases hl : l = j + 1
    · obtain ⟨waiting', evaluated'⟩ := h.since j h.before (Nat.le_refl j)
      rw [hl]
      exact ⟨waiting.trans waiting', evaluated.trans evaluated'⟩
    · exact h.since l hil (by omega)

/-- What holds at every step of a run that begins with no frame: there
is none for an evaluation, or one was taken and is still unused. -/
theorem Frugal.iterate (hhost : host.Frugal) (h : m.Frugal false)
    (k : Nat) :
    ((Machine.step host)^[k] m).Frugal false
      ∨ ((Machine.step host)^[k] m).Frugal true
        ∧ ∃ i, Unused host m i k := by
  induction k with
  | zero => exact .inl h
  | succ k ih =>
      -- a frame that the step takes is unused at once
      have fresh_of_taken : ((Machine.step host)^[k] m).TakesFrame →
          ((Machine.step host)^[k + 1] m).own
            = ((Machine.step host)^[k] m).own →
          Unused host m k (k + 1) := fun taken own =>
        { before := Nat.lt_succ_self k
          taken
          since := by
            intro l hkl hlk
            obtain rfl : l = k + 1 := by omega
            exact ⟨rfl, congrArg Notes.evaluated own⟩ }
      rcases ih with spent | ⟨fresh, i, unused⟩
      · have hstep := spent.step hhost
        rw [← Function.iterate_succ_apply' (Machine.step host)] at hstep
        rcases hstep with ⟨taken, after, own⟩ | ⟨impossible, -⟩
          | ⟨-, after | ⟨after, -⟩⟩
        · exact .inr ⟨after, k, fresh_of_taken taken own⟩
        · cases impossible
        · exact .inl after
        · exact .inl after
      · have hstep := fresh.step hhost
        rw [← Function.iterate_succ_apply' (Machine.step host)] at hstep
        rcases hstep with ⟨taken, after, own⟩ | ⟨-, after, -⟩
          | ⟨evaluated, after | ⟨after, waiting⟩⟩
        · exact .inr ⟨after, k, fresh_of_taken taken own⟩
        · exact .inl after
        · exact .inl after
        · exact .inr ⟨after, i, unused.succ waiting evaluated⟩

/-- Every evaluation of a body has a frame of its own: a step leaves the
record as it is, or it adds one evaluation in a frame that an earlier
step took and that nothing was evaluated in since. -/
theorem evaluation_in_frame (hhost : host.Frugal) (h : m.Frugal false)
    (k : Nat) :
    let now := (Machine.step host)^[k] m
    (now.step host).own.evaluated = now.own.evaluated
      ∨ (∃ one, (now.step host).own.evaluated = one :: now.own.evaluated)
        ∧ ∃ i, Unused host m i k := by
  rcases h.iterate hhost k with spent | ⟨fresh, unused⟩
  · rcases spent.step hhost with ⟨-, -, own⟩ | ⟨impossible, -⟩ | ⟨same, -⟩
    · exact .inl (congrArg Notes.evaluated own)
    · cases impossible
    · exact .inl same
  · rcases fresh.step hhost with ⟨-, -, own⟩ | ⟨-, -, one⟩ | ⟨same, -⟩
    · exact .inl (congrArg Notes.evaluated own)
    · exact .inr ⟨one, unused⟩
    · exact .inl same

end Machine

end ObjectWorld
