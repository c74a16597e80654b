/-
One program after another, and what a call comes back with.

A program with something that follows its end (`Program.bind`) is one
tree. The machine runs it as if there were two programs: it takes the
steps that it would take for the first one alone, and from the end of that
one it goes on with what follows (`leads_bind_iff`). So the course of a
call can be told in parts, and each part is run one time.

The two runs are compared step by step. While the first program runs,
what follows waits at the bottom of all that this program has made: at
the end of the program itself, or, while a call that it has made is
running, at the end of what its outermost caller goes on with
(`Followed`). No step reads it there before the first program has ended.

# Coming back

A call comes back to one state only. One that has started comes back
exactly if the method's program leads to its end
(`comesBack_iff_of_entered`), which is the converse of what Ending.lean
needs.
-/
import Mathlib.Data.Nat.Find
import ObjectWorld.Proofs.Ending

namespace ObjectWorld.Machine

variable {σ : Type} {host : Host σ} {m m' n : Machine σ}
  {below : List (Outcome → Program σ Outcome)}
  {rest : Outcome → Program σ Outcome} {x : Outcome} {base k : Nat}

-- ====================================================== for so many steps

/-- Whether for so many steps at least so many callers wait. -/
def Stays (host : Host σ) (base k : Nat) (m : Machine σ) : Prop :=
  ∀ j ≤ k, base ≤ ((step host)^[j] m).active

theorem Stays.now (h : Stays host base k m) : base ≤ m.active :=
  h 0 (Nat.zero_le k)

theorem stays_zero : Stays host base 0 m ↔ base ≤ m.active := by
  refine ⟨Stays.now, fun h j hj => ?_⟩
  obtain rfl : j = 0 := by omega
  exact h

theorem stays_succ :
    Stays host base (k + 1) m
      ↔ base ≤ m.active ∧ Stays host base k (m.step host) := by
  constructor
  · intro h
    exact ⟨h.now, fun j hj => h (j + 1) (by omega)⟩
  · rintro ⟨now, later⟩ j hj
    cases j with
    | zero => exact now
    | succ j => exact later j (by omega)

/-- A run that comes back to the callers it began with has left the depth
as it was. -/
theorem Leads.of_steps (steps : (step host)^[k] m = m')
    (stays : Stays host m.active k m) (waiting : m'.waiting = m.waiting) :
    Leads host m m' where
  steps := ⟨k, steps, stays⟩
  waiting := waiting
  depth := by
    have here : Above m.depth m.waiting m := ⟨[], rfl, rfl⟩
    obtain ⟨upper, hw, hd⟩ := here.iterate host k fun j hj => stays (j + 1) hj
    rw [steps] at hw hd
    have none := congrArg List.length (waiting.symm.trans hw)
    rw [List.length_append] at none
    omega

/-- A program that has ended stays where it is, if it may not go on with a
caller. -/
theorem iterate_of_done (done : m.current = .done x)
    (stays : Stays host m.active k m) : (step host)^[k] m = m := by
  cases k with
  | zero => rfl
  | succ k =>
      cases waiting : m.waiting with
      | nil =>
          refine Function.iterate_fixed ?_ _
          simp only [step, done, waiting]
      | cons next rest =>
          have later := (stays_succ.1 stays).2.now
          rw [step_of_done host done waiting, active, waiting] at later
          exact absurd later (Nat.not_succ_le_self _)

theorem Leads.eq_of_done (leads : Leads host m m')
    (done : m.current = .done x) : m' = m := by
  obtain ⟨k, rfl, stays⟩ := leads.steps
  exact iterate_of_done done stays

/-- A program comes to its end through its next step, if that neither makes
a call nor ends one. -/
theorem leads_step_iff (waiting : (m.step host).waiting = m.waiting)
    (depth : (m.step host).depth = m.depth)
    (more : ∀ y, m.current ≠ .done y) (done : m'.current = .done x) :
    Leads host m m' ↔ Leads host (m.step host) m' := by
  constructor
  · intro leads
    obtain ⟨k, hk, stays⟩ := leads.steps
    cases k with
    | zero =>
        cases hk
        exact absurd done (more x)
    | succ k =>
        refine .of_steps hk ?_ (leads.waiting.trans waiting.symm)
        rw [active, waiting]
        exact (stays_succ.1 stays).2
  · exact (Leads.of_step waiting depth).trans

-- ============================================================ coming back

/-- A call comes back to one state only: the first one will do. -/
theorem ComesBack.unique (h : ComesBack host m m')
    (h' : ComesBack host m n) : m' = n := by
  obtain ⟨k, hk, back, more⟩ := h
  obtain ⟨l, hl, back', more'⟩ := h'
  rcases Nat.lt_trichotomy k l with hlt | rfl | hlt
  · have := more' k hlt
    rw [hk, back] at this
    exact absurd this (Nat.lt_irrefl _)
  · rw [← hk, hl]
  · have := more l hlt
    rw [hl, back'] at this
    exact absurd this (Nat.lt_irrefl _)

theorem ComesBack.iff_eq (h : ComesBack host m n) :
    ComesBack host m m' ↔ m' = n :=
  ⟨fun h' => h'.unique h, fun heq => heq ▸ h⟩

/-- A step that goes below the layers is the end of a program. -/
theorem Above.done_of_step_below {next : Outcome → Program σ Outcome}
    (h : Above base (next :: below) m)
    (hlt : (m.step host).active ≤ below.length) :
    (∃ outcome, m.current = .done outcome) ∧ m.waiting = next :: below := by
  obtain ⟨upper, hw, -⟩ := h
  have hlen : m.active = upper.length + below.length + 1 := by
    rw [active, hw, List.length_append, List.length_cons]
    omega
  rcases step_cases host m with
    ⟨outcome, u, us, done, hcons, hs⟩ | ⟨c, method, -, -, -, hs⟩ | ⟨-, hw'⟩
  · have fewer : us.length ≤ below.length := by
      rw [hs] at hlt
      exact hlt
    have one : m.active = us.length + 1 := by
      rw [active, hcons, List.length_cons]
    obtain rfl : upper = [] := List.eq_nil_of_length_eq_zero (by omega)
    exact ⟨⟨outcome, done⟩, hw⟩
  · have : (m.step host).active = m.active + 1 := by
      rw [hs]
      rfl
    omega
  · have : (m.step host).active = m.active := congrArg List.length hw'
    omega

/-- A call that has started comes back exactly if the method's program
leads to its end, and then its caller goes on with the outcome. -/
theorem comesBack_iff_of_entered {c : Call σ} {method : Method}
    (hs : m.step host = m.entered host c method) :
    ComesBack host m m' ↔ ∃ last outcome,
      Leads host (m.entered host c method) last
        ∧ last.current = .done outcome
        ∧ m' = { last with
          depth := m.depth
          current := c.next outcome
          waiting := m.waiting } := by
  constructor
  · rintro ⟨k, hk, back, more⟩
    cases k with
    | zero =>
        rw [Function.iterate_one, hs] at hk
        rw [← hk] at back
        exact absurd back (Nat.succ_ne_self _)
    | succ k =>
        rw [Function.iterate_succ_apply, hs] at hk
        have start : Above (m.depth + 1) (c.next :: m.waiting)
            (m.entered host c method) := ⟨[], rfl, rfl⟩
        have stays : Stays host (m.entered host c method).active k
            (m.entered host c method) := by
          intro j hj
          have := more j (by omega)
          rwa [Function.iterate_succ_apply, hs] at this
        have above := start.iterate host k fun j hj => stays (j + 1) hj
        rw [Function.iterate_succ_apply'] at hk
        rw [← hk] at back
        obtain ⟨⟨outcome, done⟩, waiting⟩ :=
          above.done_of_step_below (Nat.le_of_eq back)
        have leads := Leads.of_steps rfl stays waiting
        refine ⟨_, outcome, leads, done, ?_⟩
        rw [← hk, step_of_done host done waiting, leads.depth]
        rfl
  · rintro ⟨last, outcome, leads, done, rfl⟩
    have back := comesBack_of_done hs leads done
    rw [leads.depth] at back
    exact back

/-- A program that makes a call comes to its end through the return of the
call: that is the first moment at which as few callers wait again. -/
theorem leads_call_iff {c : Call σ} (hc : m.call? = some c)
    (done : m'.current = .done x) :
    Leads host m m' ↔ ∃ mid, ComesBack host m mid ∧ Leads host mid m' := by
  constructor
  · intro leads
    obtain ⟨k, hk, stays⟩ := leads.steps
    have more : k ≠ 0 := by
      rintro rfl
      rw [← hk, Function.iterate_zero_apply] at done
      unfold call? at hc
      rw [done] at hc
      cases hc
    obtain ⟨l, rfl⟩ := Nat.exists_eq_succ_of_ne_zero more
    have last : ((step host)^[l + 1] m).active = m.active := by
      rw [hk]
      exact congrArg List.length leads.waiting
    have returns : ∃ j, ((step host)^[j + 1] m).active = m.active := ⟨l, last⟩
    obtain ⟨j, hj, hlt⟩ : ∃ j, ((step host)^[j + 1] m).active = m.active
        ∧ ∀ i < j, ((step host)^[i + 1] m).active ≠ m.active :=
      ⟨Nat.find returns, Nat.find_spec returns,
        fun i hi => Nat.find_min returns hi⟩
    have hle : j ≤ l := Nat.le_of_not_lt fun h => hlt l h last
    have back : ComesBack host m ((step host)^[j + 1] m) := by
      refine ⟨j, rfl, hj, fun i hi => ?_⟩
      have := stays (i + 1) (by omega)
      exact Nat.lt_of_le_of_ne this (hlt i hi).symm
    refine ⟨_, back, .of_steps (k := l - j) ?_ ?_ ?_⟩
    · rw [← Function.iterate_add_apply, ← hk]
      congr 1
      omega
    · intro i hi
      rw [hj, ← Function.iterate_add_apply]
      exact stays _ (by omega)
    · obtain ⟨-, waiting, -⟩ := back.balanced hc
      exact leads.waiting.trans waiting.symm
  · rintro ⟨mid, back, rest⟩
    exact (Leads.of_comesBack hc back).trans rest

-- ============================================= a program and what follows

/-- A program with what follows has ended only where both have. -/
theorem bind_eq_done {p : Program σ Outcome} (h : p.bind rest = .done x) :
    ∃ y, p = .done y ∧ rest y = .done x := by
  cases p with
  | done y => exact ⟨y, rfl, h⟩
  | _ => cases h

/-- Whether one machine runs what another does with something that follows
once no more than the given callers wait. -/
inductive Followed (rest : Outcome → Program σ Outcome)
    (below : List (Outcome → Program σ Outcome)) :
    Machine σ → Machine σ → Prop
  | here {m : Machine σ} (waiting : m.waiting = below) :
      Followed rest below m { m with current := m.current.bind rest }
  | called {m : Machine σ} (upper : List (Outcome → Program σ Outcome))
      (frame : Outcome → Program σ Outcome)
      (waiting : m.waiting = upper ++ frame :: below) :
      Followed rest below m { m with
        waiting := upper ++ (fun o => (frame o).bind rest) :: below }

namespace Followed

theorem active (h : Followed rest below m n) : n.active = m.active := by
  cases h with
  | here waiting => rfl
  | called upper frame waiting =>
      show (_ ++ _ :: _).length = m.waiting.length
      rw [waiting]
      simp only [List.length_append, List.length_cons]

/-- The callers that wait are the same ones, as soon as no more do. -/
theorem waiting (h : Followed rest below m n) (back : n.waiting = below) :
    m.waiting = below := by
  cases h with
  | here waiting => exact waiting
  | called upper frame waiting =>
      have := congrArg List.length back
      rw [List.length_append, List.length_cons] at this
      omega

/-- Where no more than the given callers wait it is the program that is
followed. -/
theorem eq_of_waiting (h : Followed rest below m n)
    (waiting : m.waiting = below) :
    n = { m with current := m.current.bind rest } := by
  cases h with
  | here _ => rfl
  | called upper frame hw =>
      have := congrArg List.length (waiting.symm.trans hw)
      rw [List.length_append, List.length_cons] at this
      omega

/-- Where the program has ended, what follows is next. -/
theorem eq_of_done (h : Followed rest below m n) (waiting : m.waiting = below)
    (done : m.current = .done x) : n = { m with current := rest x } := by
  rw [h.eq_of_waiting waiting, done]
  rfl

/-- Both serve a call alike, if the program itself makes it. -/
private theorem callIfAllowed_here (waiting : m.waiting = below)
    (allowed : Except Fault Method) (self : Value) (args : List Value)
    (next : Outcome → Program σ Outcome) (p : Program σ Outcome) :
    Followed rest below (m.callIfAllowed host allowed self args next)
      (callIfAllowed host { m with current := p } allowed self args
        fun o => (next o).bind rest) := by
  cases allowed with
  | error fault => exact .here waiting
  | ok method =>
      have alike : ({ m with current := p } : Machine σ).refusal?
        = m.refusal? := rfl
      cases hr : m.refusal? with
      | some fault =>
          simp only [callIfAllowed, call, alike, hr]
          exact .here waiting
      | none =>
          simp only [callIfAllowed, call, alike, hr]
          subst waiting
          exact .called [] next rfl

/-- So they do if something that it has called makes it. -/
private theorem callIfAllowed_called
    (upper : List (Outcome → Program σ Outcome))
    (frame : Outcome → Program σ Outcome)
    (waiting : m.waiting = upper ++ frame :: below)
    (allowed : Except Fault Method) (self : Value) (args : List Value)
    (next : Outcome → Program σ Outcome) :
    Followed rest below (m.callIfAllowed host allowed self args next)
      (callIfAllowed host { m with
          waiting := upper ++ (fun o => (frame o).bind rest) :: below }
        allowed self args next) := by
  cases allowed with
  | error fault => exact .called upper frame waiting
  | ok method =>
      have alike : ({ m with
          waiting := upper ++ (fun o => (frame o).bind rest) :: below }
            : Machine σ).refusal? = m.refusal? := rfl
      cases hr : m.refusal? with
      | some fault =>
          simp only [callIfAllowed, call, alike, hr]
          exact .called upper frame waiting
      | none =>
          simp only [callIfAllowed, call, alike, hr]
          exact .called (next :: upper) frame (congrArg _ waiting)

/-- Both take the same step, until the program has ended. -/
theorem step (host : Host σ) (h : Followed rest below m n)
    (more : m.waiting = below → ∀ x, m.current ≠ .done x) :
    Followed rest below (m.step host) (n.step host) := by
  cases h with
  | here waiting =>
      cases hm : m.current with
      | done x => exact absurd hm (more waiting x)
      | invoke receiver name args site next =>
          simp only [Machine.step, hm, Program.bind]
          exact callIfAllowed_here waiting ..
      | apply callee args next =>
          simp only [Machine.step, hm, Program.bind]
          exact callIfAllowed_here waiting ..
      | look | own | keep | depth | limit | output | clear | print
      | change =>
          simp only [Machine.step, hm, Program.bind]
          exact .here waiting
  | called upper frame waiting =>
      cases hm : m.current with
      | done x =>
          -- If it is the outermost caller that goes on, what follows is at
          -- the end of the program itself again.
          cases upper with
          | nil =>
              simp only [Machine.step, hm, waiting, List.nil_append]
              exact .here rfl
          | cons u upper =>
              simp only [Machine.step, hm, waiting, List.cons_append]
              exact .called upper frame rfl
      | invoke receiver name args site next =>
          simp only [Machine.step, hm]
          exact callIfAllowed_called upper frame waiting ..
      | apply callee args next =>
          simp only [Machine.step, hm]
          exact callIfAllowed_called upper frame waiting ..
      | look | own | keep | depth | limit | output | clear | print
      | change =>
          simp only [Machine.step, hm]
          exact .called upper frame waiting

-- ============================================================= whole runs

/-- If the first program comes to its end, then with what follows it comes
to that. The induction is on the steps. -/
theorem forward (h : Followed rest below m n)
    (waiting : ((Machine.step host)^[k] m).waiting = below)
    (done : ((Machine.step host)^[k] m).current = .done x)
    (stays : Stays host below.length k m) :
    ∃ l, (Machine.step host)^[l] n
        = { (Machine.step host)^[k] m with current := rest x }
      ∧ Stays host below.length l n := by
  have now : below.length ≤ n.active := by
    rw [h.active]
    exact stays.now
  induction k generalizing m n with
  | zero => exact ⟨0, h.eq_of_done waiting done, stays_zero.2 now⟩
  | succ k ih =>
      by_cases ended : m.waiting = below ∧ ∃ y, m.current = .done y
      · -- Then it has stayed there, and only what follows goes on.
        obtain ⟨here, y, hy⟩ := ended
        have still : (Machine.step host)^[k + 1] m = m := by
          refine iterate_of_done hy ?_
          rw [Machine.active, here]
          exact stays
        rw [still] at done ⊢
        exact ⟨0, h.eq_of_done here done, stays_zero.2 now⟩
      · have next := h.step host fun here y hy => ended ⟨here, y, hy⟩
        have later := (stays_succ.1 stays).2
        obtain ⟨l, steps, stays'⟩ := ih next waiting done later (by
          rw [next.active]
          exact later.now)
        exact ⟨l + 1, steps, stays_succ.2 ⟨now, stays'⟩⟩

end Followed

/-- Whether a machine comes to the end of its program, with the given
callers, and from there with what follows to another state. -/
def PassesEnd (host : Host σ) (rest : Outcome → Program σ Outcome)
    (below : List (Outcome → Program σ Outcome)) (m last : Machine σ) :
    Prop :=
  ∃ k mid x, (step host)^[k] m = mid
    ∧ Stays host below.length k m
    ∧ mid.waiting = below
    ∧ mid.current = .done x
    ∧ ∃ l, (step host)^[l] { mid with current := rest x } = last
      ∧ Stays host below.length l { mid with current := rest x }

/-- With what follows a program comes to an end only through its own. -/
theorem Followed.backward (h : Followed rest below m n)
    (waiting : ((Machine.step host)^[k] n).waiting = below)
    (done : ((Machine.step host)^[k] n).current = .done x)
    (stays : Stays host below.length k n) :
    PassesEnd host rest below m ((Machine.step host)^[k] n) := by
  have at_end : ∀ {m n : Machine σ} {k : Nat} {y : Outcome},
      Followed rest below m n → m.waiting = below → m.current = .done y →
        Stays host below.length k n →
          PassesEnd host rest below m ((Machine.step host)^[k] n) := by
    intro m n k y h here hy stays
    have now := stays.now
    rw [h.active] at now
    cases h.eq_of_done here hy
    exact ⟨0, m, y, rfl, stays_zero.2 now, here, hy, k, rfl, stays⟩
  induction k generalizing m n with
  | zero =>
      have here := h.waiting waiting
      rw [Function.iterate_zero_apply, h.eq_of_waiting here] at done
      obtain ⟨y, hy, -⟩ := bind_eq_done done
      exact at_end h here hy stays
  | succ k ih =>
      by_cases ended : m.waiting = below ∧ ∃ y, m.current = .done y
      · obtain ⟨here, y, hy⟩ := ended
        exact at_end h here hy stays
      · have next := h.step host fun here y hy => ended ⟨here, y, hy⟩
        obtain ⟨now, later⟩ := stays_succ.1 stays
        rw [h.active] at now
        obtain ⟨i, mid, y, steps, stays', rest⟩ := ih next waiting done later
        exact ⟨i + 1, mid, y, steps, stays_succ.2 ⟨now, stays'⟩, rest⟩

-- =========================================================== two programs

/-- A program with what follows comes to its end through the end of the
first program: it leads there, and then what follows leads on. -/
theorem leads_bind_iff {p : Program σ Outcome}
    (done : m'.current = .done x) :
    Leads host { m with current := p.bind rest } m' ↔ ∃ mid y,
      Leads host { m with current := p } mid
        ∧ mid.current = .done y
        ∧ Leads host { mid with current := rest y } m' := by
  have followed : Followed rest m.waiting { m with current := p }
      { m with current := p.bind rest } := .here rfl
  constructor
  · intro leads
    obtain ⟨k, rfl, stays⟩ := leads.steps
    obtain ⟨i, mid, y, steps, stays', back, hy, l, steps', stays''⟩ :=
      followed.backward leads.waiting done stays
    refine ⟨mid, y, .of_steps steps stays' back, hy, ?_⟩
    refine .of_steps steps' ?_ (leads.waiting.trans back.symm)
    have same : mid.waiting.length = m.waiting.length :=
      congrArg List.length back
    show Stays host mid.waiting.length l _
    rw [same]
    exact stays''
  · rintro ⟨mid, y, first, hy, second⟩
    obtain ⟨k, rfl, stays⟩ := first.steps
    obtain ⟨l, steps, stays'⟩ := followed.forward first.waiting hy stays
    exact .trans (.of_steps steps stays' first.waiting) second

/-- Where what follows only rewords the outcome, it takes no step. -/
theorem leads_map_iff {p : Program σ Outcome} {f : Outcome → Outcome}
    (done : m'.current = .done x) :
    Leads host { m with current := p.bind fun y => .done (f y) } m'
      ↔ ∃ last y, Leads host { m with current := p } last
        ∧ last.current = .done y
        ∧ m' = { last with current := .done (f y) } := by
  rw [leads_bind_iff done]
  constructor
  · rintro ⟨mid, y, first, hy, leads⟩
    exact ⟨mid, y, first, hy, leads.eq_of_done rfl⟩
  · rintro ⟨last, y, first, hy, rfl⟩
    exact ⟨last, y, first, hy, .refl _⟩

end ObjectWorld.Machine
