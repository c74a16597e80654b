/-
Where lines go is the console's own affair.

A program gets something back from the console in one way only: by asking
for what it holds. Every other request is served alike whatever console
there is, so two runs that differ in the console alone go step by step
through the same programs, worlds and callers, and none of them ever
changes the sink (`iterate_withConsole`).

What the consoles then hold is told by the lines that the run prints, one
after the other (`lines`). A buffer that is never emptied and the standard
output have received the same text: each line and a line break, in the
order of printing, for as far as the run has come. The native for printing
prints one line for each call of it, whoever makes the call.
-/
import ObjectWorld.Proofs.Ending

namespace ObjectWorld

-- ============================================================ the consoles

namespace Console

variable {console : Console} {line text : String}

/-- A console that has received a text. -/
def receive (console : Console) (text : String) : Console :=
  match console.sink with
  | .buffer => { console with kept := console.kept ++ text }
  | .standardOutput => { console with written := console.written ++ text }
  | .silent => console

@[simp] theorem sink_receive :
    (console.receive text).sink = console.sink := by
  unfold receive
  split <;> rfl

/-- Printing is receiving the line and a line break. -/
theorem println_eq : console.println line = console.receive (line ++ "\n") := by
  obtain ⟨sink, kept, written⟩ := console
  cases sink with
  | buffer => simp only [println, receive, String.append_assoc]
  | standardOutput => simp only [println, receive, String.append_assoc]
  | silent => rfl

theorem receive_empty : console.receive "" = console := by
  obtain ⟨sink, kept, written⟩ := console
  cases sink with
  | buffer => simp only [receive, String.append_empty]
  | standardOutput => simp only [receive, String.append_empty]
  | silent => rfl

/-- Receiving one text after another is receiving the two in a row. -/
theorem receive_receive {text' : String} :
    (console.receive text).receive text'
      = console.receive (text ++ text') := by
  obtain ⟨sink, kept, written⟩ := console
  cases sink with
  | buffer => simp only [receive, String.append_assoc]
  | standardOutput => simp only [receive, String.append_assoc]
  | silent => rfl

@[simp] theorem sink_clear : console.clear.sink = console.sink := by
  unfold clear
  split <;> rfl

end Console

namespace Machine

variable {σ : Type} {host : Host σ} {m : Machine σ} {console : Console}

-- =============================================== what a step has of them

/-- Whether the next step asks for what the console holds. -/
def asksOutput (m : Machine σ) : Bool :=
  match m.current with
  | .output _ => true
  | _ => false

/-- Whether the next step empties the console's buffer. -/
def clears (m : Machine σ) : Bool :=
  match m.current with
  | .clear _ => true
  | _ => false

/-- The line that the next step prints, if it prints one. -/
def line? (m : Machine σ) : Option String :=
  match m.current with
  | .print line _ => some line
  | _ => none

/-- What the next step makes of a console. -/
def onConsole (m : Machine σ) (console : Console) : Console :=
  match m.current with
  | .clear _ => console.clear
  | .print line _ => console.println line
  | _ => console

/-- A machine with another console. -/
def withConsole (m : Machine σ) (console : Console) : Machine σ :=
  { m with console }

/-- No step changes the sink. -/
theorem sink_onConsole : (m.onConsole console).sink = console.sink := by
  unfold onConsole
  split
  · exact Console.sink_clear
  · rw [Console.println_eq, Console.sink_receive]
  · rfl

/-- A step that does not empty the buffer adds the line that it prints. -/
theorem onConsole_eq (unclear : m.clears = false) :
    m.onConsole console
      = (m.line?.map (· ++ "\n")).elim console console.receive := by
  unfold onConsole line?
  cases hm : m.current with
  | clear next => simp [clears, hm] at unclear
  | print line next => exact Console.println_eq
  | _ => rfl

/-- A call itself does nothing to a console. -/
theorem quiet_of_call {c : Call σ} (hc : m.call? = some c) :
    m.line? = none ∧ m.clears = false := by
  rcases call?_cases hc with ⟨name, site, hm, -⟩ | ⟨callee, hm, -⟩
  · simp only [line?, clears, hm, and_self]
  · simp only [line?, clears, hm, and_self]

/-- A call is served alike whatever console there is. -/
theorem step_withConsole_of_call {c : Call σ} (hc : m.call? = some c) :
    (m.withConsole console).step host = (m.step host).withConsole console := by
  have hc' : (m.withConsole console).call? = some c := hc
  have hr : (m.withConsole console).refusal? = m.refusal? := rfl
  cases hallowed : c.allowed with
  | error fault =>
      rw [step_of_disallowed host hc hallowed,
        step_of_disallowed host hc' hallowed]
      rfl
  | ok method =>
      rw [step_of_allowed host hc hallowed,
        step_of_allowed host hc' hallowed, hr]
      cases m.refusal? <;> rfl

/-- A step that does not ask for what the console holds is the same with
another console, and does to that what it does to any. -/
theorem step_withConsole (unasked : m.asksOutput = false) :
    (m.withConsole console).step host
      = (m.step host).withConsole (m.onConsole console) := by
  cases hcall : m.call? with
  | some c =>
      obtain ⟨silent, unclear⟩ := quiet_of_call hcall
      rw [step_withConsole_of_call hcall, onConsole_eq unclear, silent]
      rfl
  | none =>
      cases hm : m.current with
      | done outcome =>
          cases hw : m.waiting <;>
            simp only [withConsole, step, onConsole, hm, hw]
      | output next => simp [asksOutput, hm] at unasked
      | invoke receiver name args site next => simp [call?, hm] at hcall
      | apply callee args next => simp [call?, hm] at hcall
      | look | own | keep | depth | limit | clear | print | change =>
          simp only [withConsole, step, onConsole, hm]

-- ============================================================== the runs

/-- What the first steps of a run make of a console. -/
def consoleAfter (host : Host σ) (m : Machine σ) (console : Console) :
    Nat → Console
  | 0 => console
  | k + 1 =>
      ((step host)^[k] m).onConsole (consoleAfter host m console k)

/-- The lines that the first steps of a run print, in order. -/
def lines (host : Host σ) (m : Machine σ) : Nat → List String
  | 0 => []
  | k + 1 => lines host m k ++ ((step host)^[k] m).line?.toList

/-- Lines as a text: each is followed by a line break. -/
def text (lines : List String) : String :=
  String.join (lines.map (· ++ "\n"))

/-- A run that does not ask for what the console holds is the same run
with another console. -/
theorem iterate_withConsole (host : Host σ) (k : Nat)
    (unasked : ∀ j < k, ((step host)^[j] m).asksOutput = false) :
    (step host)^[k] (m.withConsole console)
      = ((step host)^[k] m).withConsole (consoleAfter host m console k) := by
  induction k with
  | zero => rfl
  | succ k ih =>
      rw [Function.iterate_succ_apply', Function.iterate_succ_apply',
        ih fun j hj => unasked j (by omega)]
      exact step_withConsole (unasked k (by omega))

theorem sink_consoleAfter (k : Nat) :
    (consoleAfter host m console k).sink = console.sink := by
  induction k with
  | zero => rfl
  | succ k ih => exact sink_onConsole.trans ih

/-- A run that does not empty the buffer leaves its lines with the
console, in order, and nothing else. -/
theorem consoleAfter_eq (k : Nat)
    (unclear : ∀ j < k, ((step host)^[j] m).clears = false) :
    consoleAfter host m console k
      = console.receive (text (lines host m k)) := by
  induction k with
  | zero => exact Console.receive_empty.symm
  | succ k ih =>
      have ih := ih fun j hj => unclear j (by omega)
      unfold consoleAfter lines
      rw [onConsole_eq (unclear k (by omega)), ih]
      cases ((step host)^[k] m).line? with
      | none => simp [text]
      | some line =>
          show (console.receive _).receive (line ++ "\n") = _
          rw [Console.receive_receive]
          simp [text]

-- ============================================================ the native

/-- A method that is called takes as many arguments as it is given. -/
theorem check_of_allowed {c : Call σ} {method : Method}
    (hc : m.call? = some c) (hallowed : c.allowed = .ok method) :
    method.arity.check c.args.length = .ok () := by
  rcases call?_cases hc with ⟨name, site, -, h⟩ | ⟨callee, -, h⟩
  · rw [hallowed] at h
    obtain ⟨found, -, -, takes, rfl⟩ := World.methodFor_eq_ok_iff.1 h.symm
    exact takes
  · rw [hallowed] at h
    rcases World.methodForCallee_cases h.symm with
      ⟨f, visibility, -, -, takes⟩ | ⟨name, native, -, rfl⟩
    · exact takes
    · rfl

/-- The native for printing looks at the world, prints one line and gives
nil. -/
theorem run_printLine {method : Method} {self : Value} {args : List Value}
    (takes : method.arity.check args.length = .ok ())
    (body : method.body = .native .printLine) :
    method.run host self args = Program.look fun w =>
      .print (String.join (args.map w.inspect)) (.done (.ok .nil)) := by
  unfold Method.run
  rw [takes, body]
  rfl

/-- A run's lines are those of its beginning and then those of the
rest. -/
theorem lines_add (k l : Nat) :
    lines host m (k + l)
      = lines host m k ++ lines host ((step host)^[k] m) l := by
  induction l with
  | zero => exact (List.append_nil _).symm
  | succ l ih =>
      show lines host m (k + l) ++ ((step host)^[k + l] m).line?.toList = _
      rw [ih, List.append_assoc, Nat.add_comm k l,
        Function.iterate_add_apply]
      rfl

/-- A call of the native prints one line and changes nothing else. -/
theorem iterate_printLine (host : Host σ) {c : Call σ} {method : Method}
    (hc : m.call? = some c) (hallowed : c.allowed = .ok method)
    (body : method.body = .native .printLine) (room : m.refusal? = none) :
    let line := String.join (c.args.map m.world.inspect)
    lines host m 4 = [line]
      ∧ (step host)^[4] m = { m with
          console := m.console.println line
          current := c.next (.ok .nil) } := by
  intro line
  obtain ⟨silent, -⟩ := quiet_of_call hc
  have entered : m.step host = { m with
      depth := m.depth + 1
      current := .look fun w =>
        .print (String.join (c.args.map w.inspect)) (.done (.ok .nil))
      waiting := c.next :: m.waiting } := by
    rw [step_of_allowed host hc hallowed, room]
    show m.entered host c method = _
    unfold Machine.entered
    rw [run_printLine (check_of_allowed hc hallowed) body]
  constructor
  · rw [show 4 = 1 + 3 from rfl, lines_add]
    show m.line?.toList ++ lines host (m.step host) 3 = [line]
    rw [silent, entered]
    rfl
  · rw [Function.iterate_succ_apply, entered]
    rfl

-- ======================================================== every console

/-- Which console a machine has is unobservable. A run that never asks
for what it holds is, with another console, the same run at every step in
the program, the world and all that the evaluator keeps, and the sink
stays what it is. If the run never empties the buffer, then a buffer and
the standard output receive the same text: its lines in the order in which
they are printed. A silent console stays as it is. Each call of the native
for printing adds one line to that text, at the place where it runs. -/
theorem console_unobservable (host : Host σ) (m : Machine σ)
    (unasked : ∀ k, ((step host)^[k] m).asksOutput = false) :
    (∀ console k, ∃ console' : Console, console'.sink = console.sink
        ∧ (step host)^[k] { m with console }
          = { (step host)^[k] m with console := console' })
      ∧ ((∀ k, ((step host)^[k] m).clears = false) → ∀ k before,
        let received := text (lines host m k)
        ((step host)^[k] { m with
            console := { sink := .buffer, kept := before } }).console
          = { sink := .buffer, kept := before ++ received }
        ∧ ((step host)^[k] { m with
            console := { sink := .standardOutput, written := before } }).console
          = { sink := .standardOutput, written := before ++ received }
        ∧ ((step host)^[k] { m with console := { sink := .silent } }).console
          = { sink := .silent })
      ∧ ∀ k c method, ((step host)^[k] m).call? = some c →
        c.allowed = .ok method → method.body = .native .printLine →
        ((step host)^[k] m).refusal? = none →
        let now := (step host)^[k] m
        let line := String.join (c.args.map now.world.inspect)
        lines host m (k + 4) = lines host m k ++ [line]
          ∧ (step host)^[k + 4] m = { now with
              console := now.console.println line
              current := c.next (.ok .nil) } := by
  have same : ∀ console k, (step host)^[k] { m with console }
      = ((step host)^[k] m).withConsole (consoleAfter host m console k) :=
    fun console k => iterate_withConsole host k fun j _ => unasked j
  refine ⟨fun console k => ?_, fun unclear k before => ?_, ?_⟩
  · exact ⟨_, sink_consoleAfter k, same console k⟩
  · have received : ∀ console : Console,
        ((step host)^[k] { m with console }).console
          = console.receive (text (lines host m k)) := by
      intro console
      rw [same]
      exact consoleAfter_eq k fun j _ => unclear j
    exact ⟨received _, received _, received _⟩
  · intro k c method hc hallowed body room
    obtain ⟨hlines, hlast⟩ :=
      iterate_printLine host hc hallowed body room
    refine ⟨?_, ?_⟩
    · rw [lines_add, hlines]
    · rw [Nat.add_comm k 4, Function.iterate_add_apply, hlast]

/-- A machine about to print by a call of a method, to make a call that
fails, and to print by a call of the builtin. -/
def speaking : Machine Unit where
  limit := some 1
  own := ()
  current := .invoke World.main "puts" [.text "one"] .implicitSelf fun _ =>
    .invoke World.main "missing" [] .explicit fun _ =>
      .apply (.builtin "puts" .printLine) [.text "two"] .done

/-- Both lines arrive, in order, at the buffer and at the standard output,
and the second is the line of the call that is made at step five. -/
theorem console_unobservable_speaking :
    ((step endless)^[9] { speaking with
        console := { sink := .buffer } }).console
      = { sink := .buffer, kept := "one\ntwo\n" }
    ∧ ((step endless)^[9] { speaking with
        console := { sink := .standardOutput } }).console
      = { sink := .standardOutput, written := "one\ntwo\n" }
    ∧ ((step endless)^[9] { speaking with
        console := { sink := .silent } }).console = { sink := .silent }
    ∧ (∃ console' : Console, console'.sink = .silent
        ∧ (step endless)^[9] { speaking with console := { sink := .silent } }
          = { (step endless)^[9] speaking with console := console' })
    ∧ lines endless speaking 9 = lines endless speaking 5 ++ ["two"] := by
  have ends : ((step endless)^[9] speaking).outcome? = some (.ok .nil) :=
    rfl
  obtain ⟨same, received, calls⟩ := console_unobservable endless speaking
    (forall_iterate_of_outcome (P := fun m => m.asksOutput = false) ends
      (by decide +kernel))
  obtain ⟨buffer, standard, silent⟩ := received
    (forall_iterate_of_outcome (P := fun m => m.clears = false) ends
      (by decide +kernel)) 9 ""
  have both : "" ++ text (lines endless speaking 9) = "one\ntwo\n" := by
    decide +kernel
  rw [both] at buffer standard
  refine ⟨buffer, standard, silent, same { sink := .silent } 9, ?_⟩
  exact (calls 5 _ _ rfl rfl rfl rfl).1

end Machine

end ObjectWorld
