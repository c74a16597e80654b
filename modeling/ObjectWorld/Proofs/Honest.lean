/-
Programs that name only what is at hand.

A program is honest in a realm if each request on each of its branches
names only what is at hand where it is made. What is at hand grows along
the way: by the replies to changes, and by whatever a call leaves behind,
of which a caller knows only that the realm has grown and that the
outcome is at hand. So honesty is a property of the tree, told by
recursion on it, and evaluations are shown to be honest piece by piece,
one rule for each way of putting them together.

Beside the world an evaluator has a state of its own, which can keep
references as well. What it promises about them is a parameter (`keeps`).
-/
import ObjectWorld.Proofs.Answers

namespace ObjectWorld

namespace Realm

variable {r s t : Realm} {v : Value} {c : Change}

-- =========================================================== how realms grow

/-- How a realm differs from an earlier one, at most. -/
structure Grows (r s : Realm) : Prop where
  later : r.world.Later s.world
  mem_handed : ∀ x ∈ r.handed, x ∈ s.handed

/-- A realm grows from itself by nothing. -/
theorem Grows.refl (r : Realm) : r.Grows r :=
  ⟨World.Later.refl _, fun _ h => h⟩

/-- What has grown twice has grown once. -/
theorem Grows.trans (h : r.Grows s) (h' : s.Grows t) : r.Grows t :=
  ⟨h.later.trans h'.later, fun x hx => h'.mem_handed x (h.mem_handed x hx)⟩

/-- Growing takes nothing out of hand. -/
theorem Grows.held (h : r.Grows s) (hv : r.Held v) : s.Held v :=
  hv.mono h.later h.mem_handed

/-- An allowed change only adds to a realm. -/
theorem Sound.grows_after (sound : r.Sound) (allowed : r.Allows c) :
    r.Grows (r.after c) :=
  ⟨(moves_after sound allowed).later, (moves_after sound allowed).mem_handed⟩

end Realm

-- ============================================================== the trees

section Programs

variable {σ α β : Type} {keeps : Realm → σ → Prop} {r s : Realm}

/-- Whether a program names only what is at hand, and what it gives at
its end. -/
def Program.Honest (keeps : Realm → σ → Prop) (gives : Realm → α → Prop) :
    Realm → Program σ α → Prop
  | r, .done a => gives r a
  | r, .look next => (next r.world).Honest keeps gives r
  | r, .own next => ∀ state, keeps r state →
      (next state).Honest keeps gives r
  | r, .keep state next => keeps r state ∧ next.Honest keeps gives r
  | r, .depth next => ∀ n, (next n).Honest keeps gives r
  | r, .limit next => ∀ n, (next n).Honest keeps gives r
  | r, .output next => ∀ text, (next text).Honest keeps gives r
  | r, .clear next => next.Honest keeps gives r
  | r, .print _ next => next.Honest keeps gives r
  | r, .change c next => r.Allows c
      ∧ (next (c.perform r.world).1).Honest keeps gives (r.after c)
  | r, .invoke receiver _ args _ next => r.Held receiver
      ∧ (∀ v ∈ args, r.Held v)
      ∧ ∀ s outcome, r.Grows s → s.Sound → s.Good outcome →
        (next outcome).Honest keeps gives s
  | r, .apply callee args next => r.Held callee
      ∧ (∀ v ∈ args, r.Held v)
      ∧ ∀ s outcome, r.Grows s → s.Sound → s.Good outcome →
        (next outcome).Honest keeps gives s

/-- Going on after an honest program is honest if it is so wherever that
program can end. -/
theorem Program.Honest.bind {mid : Realm → α → Prop}
    {gives : Realm → β → Prop} {p : Program σ α}
    {rest : α → Program σ β} (sound : r.Sound)
    (h : p.Honest keeps mid r)
    (hrest : ∀ s a, r.Grows s → s.Sound → mid s a →
      (rest a).Honest keeps gives s) :
    (p.bind rest).Honest keeps gives r := by
  induction p generalizing r with
  | done a => exact hrest r a (.refl r) sound h
  | look next ih => exact ih _ sound h hrest
  | own next ih => exact fun state hs => ih _ sound (h state hs) hrest
  | keep state next ih => exact ⟨h.1, ih sound h.2 hrest⟩
  | depth next ih => exact fun n => ih _ sound (h n) hrest
  | limit next ih => exact fun n => ih _ sound (h n) hrest
  | output next ih => exact fun text => ih _ sound (h text) hrest
  | clear next ih => exact ih sound h hrest
  | print line next ih => exact ih sound h hrest
  | change c next ih =>
      obtain ⟨allowed, h⟩ := h
      refine ⟨allowed, ih _ (sound.after allowed) h ?_⟩
      intro s a grows
      exact hrest s a ((sound.grows_after allowed).trans grows)
  | invoke receiver name args site next ih =>
      obtain ⟨hreceiver, hargs, h⟩ := h
      refine ⟨hreceiver, hargs, ?_⟩
      intro s outcome grows soundThere good
      refine ih _ soundThere (h s outcome grows soundThere good) ?_
      intro t a grows'
      exact hrest t a (grows.trans grows')
  | apply callee args next ih =>
      obtain ⟨hcallee, hargs, h⟩ := h
      refine ⟨hcallee, hargs, ?_⟩
      intro s outcome grows soundThere good
      refine ih _ soundThere (h s outcome grows soundThere good) ?_
      intro t a grows'
      exact hrest t a (grows.trans grows')

-- ======================================================== the evaluations

/-- Whether an evaluation names only what is at hand, and what it gives
if it ends well. -/
def Eval.Honest (keeps : Realm → σ → Prop) (gives : Realm → α → Prop)
    (r : Realm) (e : Eval σ α) : Prop :=
  Program.Honest keeps (fun s result => ∀ a, result = .ok a → gives s a)
    r e.run

namespace Eval.Honest

variable {gives : Realm → α → Prop} {a : α} {fault : Fault}

/-- Ending is honest with anything that may be given. -/
theorem pure (h : gives r a) :
    Eval.Honest keeps gives r (Pure.pure a : Eval σ α) := by
  intro b hb
  cases hb
  exact h

/-- A fault is no value, so failing is always honest. -/
theorem throw :
    Eval.Honest keeps gives r (throw fault : Eval σ α) := by
  intro b hb
  cases hb

/-- A result at hand is honest if what it may hold may be given. -/
theorem lift {result : Except Fault α}
    (h : ∀ a, result = .ok a → gives r a) :
    Eval.Honest keeps gives r (liftM result : Eval σ α) := h

/-- Going on is honest if it is so with all that may come of the first part,
in every realm that may be left by then; a fault of it ends both. -/
theorem bind (mid : Realm → α → Prop) {gives : Realm → β → Prop}
    {e : Eval σ α} {rest : α → Eval σ β} (sound : r.Sound)
    (h : e.Honest keeps mid r)
    (hrest : ∀ s a, r.Grows s → s.Sound → mid s a →
      (rest a).Honest keeps gives s) :
    (e >>= rest).Honest keeps gives r := by
  refine Program.Honest.bind sound h ?_
  intro s result grows soundThere hresult
  cases result with
  | error fault =>
      intro b hb
      cases hb
  | ok a => exact hrest s a grows soundThere (hresult a rfl)

/-- The world that is looked at is that of the realm. -/
theorem world {gives : Realm → β → Prop} {rest : World → Eval σ β}
    (h : (rest r.world).Honest keeps gives r) :
    (Eval.world >>= rest).Honest keeps gives r := h

/-- What is found in the state is what was promised of it, and no more. -/
theorem own {gives : Realm → β → Prop} {rest : σ → Eval σ β}
    (h : ∀ state, keeps r state → (rest state).Honest keeps gives r) :
    (Eval.own >>= rest).Honest keeps gives r := h

/-- A state that is kept has to meet the promise where it is kept. -/
theorem keep {gives : Realm → β → Prop} {rest : Unit → Eval σ β}
    {state : σ} (hstate : keeps r state)
    (h : (rest ()).Honest keeps gives r) :
    (Eval.keep state >>= rest).Honest keeps gives r :=
  ⟨hstate, h⟩

/-- A change has to be allowed, and its reply is at hand in the realm that
it makes. -/
theorem change {gives : Realm → β → Prop} {c : Change}
    {rest : c.Reply → Eval σ β} (allowed : r.Allows c)
    (h : (rest (c.perform r.world).1).Honest keeps gives (r.after c)) :
    (Eval.change c >>= rest).Honest keeps gives r :=
  ⟨allowed, h⟩

/-- How many calls are running is anything, for all that a program knows. -/
theorem depth {gives : Realm → β → Prop} {rest : Nat → Eval σ β}
    (h : ∀ n, (rest n).Honest keeps gives r) :
    (Eval.depth >>= rest).Honest keeps gives r := h

/-- So is how many may run. -/
theorem limit {gives : Realm → β → Prop} {rest : Option Nat → Eval σ β}
    (h : ∀ n, (rest n).Honest keeps gives r) :
    (Eval.limit >>= rest).Honest keeps gives r := h

/-- And so is what has been printed. -/
theorem output {gives : Realm → β → Prop} {rest : String → Eval σ β}
    (h : ∀ text, (rest text).Honest keeps gives r) :
    (Eval.output >>= rest).Honest keeps gives r := h

/-- Emptying the console concerns no value. -/
theorem clear {gives : Realm → β → Prop} {rest : Unit → Eval σ β}
    (h : (rest ()).Honest keeps gives r) :
    (Eval.clear >>= rest).Honest keeps gives r := h

/-- Nor does printing: a line is a text. -/
theorem print {gives : Realm → β → Prop} {rest : Unit → Eval σ β}
    {line : String} (h : (rest ()).Honest keeps gives r) :
    (Eval.print line >>= rest).Honest keeps gives r := h

/-- A call by name is honest if receiver and arguments are at hand; what
comes of it is. -/
theorem invoke {receiver : Value} {name : String} {args : List Value}
    {site : CallSite} (hreceiver : r.Held receiver)
    (hargs : ∀ v ∈ args, r.Held v) :
    (Eval.invoke receiver name args site : Eval σ Value).Honest keeps
      Realm.Held r :=
  ⟨hreceiver, hargs, fun _ _ _ _ good => good⟩

/-- So is a call of a value, if that and the arguments are. -/
theorem apply {callee : Value} {args : List Value}
    (hcallee : r.Held callee) (hargs : ∀ v ∈ args, r.Held v) :
    (Eval.apply callee args : Eval σ Value).Honest keeps Realm.Held r :=
  ⟨hcallee, hargs, fun _ _ _ _ good => good⟩

/-- Recovering is honest if the handler is, in every realm that the fault
can leave. -/
theorem tryCatch {e : Eval σ α} {handler : Fault → Eval σ α}
    (sound : r.Sound) (h : e.Honest keeps gives r)
    (hhandler : ∀ s fault, r.Grows s → s.Sound →
      (handler fault).Honest keeps gives s) :
    (tryCatch e handler).Honest keeps gives r := by
  refine Program.Honest.bind sound h ?_
  intro s result grows soundThere hresult
  cases result with
  | error fault => exact hhandler s fault grows soundThere
  | ok a => exact hresult

end Eval.Honest

end Programs

end ObjectWorld
