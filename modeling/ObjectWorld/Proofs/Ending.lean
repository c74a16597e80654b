/-
With a limit on the depth every run ends.

Two things are used up. A program is a tree without infinite branches,
so the requests that it serves itself run out. A call leads into another
tree, which can be any of the trees that methods stand for at that
moment, and it may be the same one again; but it takes a place, and with
a limit there are finitely many. So the induction is on the places left,
and for each number of them on the tree: a caller goes on, after a call,
with a smaller tree and with all the places that it had before
(`program_ends`).

That the caller has its places back is the balance of calls, which is why
ending and balance are told together: a program leads to its end with the
callers and the depth it began with (`Leads`).
-/
import ObjectWorld.Proofs.Depth

namespace ObjectWorld.Machine

variable {σ : Type} {host : Host σ} {m m' m'' : Machine σ}
  {outcome : Outcome}

-- ==================================================== leading to a state

/-- Whether a machine comes to a state with the same callers and the same
depth, and never touches those callers on the way. -/
structure Leads (host : Host σ) (m m' : Machine σ) : Prop where
  steps : ∃ k, (step host)^[k] m = m'
    ∧ ∀ j ≤ k, m.active ≤ ((step host)^[j] m).active
  waiting : m'.waiting = m.waiting
  depth : m'.depth = m.depth

namespace Leads

theorem refl (m : Machine σ) : Leads host m m where
  steps := by
    refine ⟨0, rfl, fun j hj => ?_⟩
    obtain rfl : j = 0 := by omega
    exact Nat.le_refl _
  waiting := rfl
  depth := rfl

theorem trans (h : Leads host m m') (h' : Leads host m' m'') :
    Leads host m m'' where
  steps := by
    obtain ⟨k, hk, hactive⟩ := h.steps
    obtain ⟨l, hl, hactive'⟩ := h'.steps
    refine ⟨l + k, by rw [Function.iterate_add_apply, hk, hl], ?_⟩
    intro j hj
    by_cases hjk : j ≤ k
    · exact hactive j hjk
    · obtain ⟨i, rfl⟩ : ∃ i, j = i + k := ⟨j - k, by omega⟩
      have hi := hactive' i (by omega)
      rw [Function.iterate_add_apply, hk]
      unfold active at hi ⊢
      rwa [h.waiting] at hi
  waiting := h'.waiting.trans h.waiting
  depth := h'.depth.trans h.depth

/-- A step that neither makes a call nor ends one. -/
theorem of_step (waiting : (m.step host).waiting = m.waiting)
    (depth : (m.step host).depth = m.depth) :
    Leads host m (m.step host) where
  steps := by
    refine ⟨1, rfl, fun j hj => ?_⟩
    match j, hj with
    | 0, _ => exact Nat.le_refl _
    | 1, _ => exact Nat.le_of_eq (congrArg List.length waiting).symm
  waiting := waiting
  depth := depth

/-- A call that comes back. -/
theorem of_comesBack {c : Call σ} (hc : m.call? = some c)
    (back : ComesBack host m m') : Leads host m m' := by
  obtain ⟨depth, waiting, -⟩ := back.balanced hc
  obtain ⟨k, hk, hactive, hmore⟩ := back
  refine ⟨⟨k + 1, hk, fun j hj => ?_⟩, waiting, depth⟩
  match j with
  | 0 => exact Nat.le_refl _
  | j + 1 =>
      by_cases hjk : j = k
      · rw [hjk, hk]
        exact Nat.le_of_eq hactive.symm
      · exact Nat.le_of_lt (hmore j (by omega))

/-- No run changes the limit. -/
theorem limit (h : Leads host m m') : m'.limit = m.limit := by
  obtain ⟨k, rfl, -⟩ := h.steps
  exact limit_iterate host m k

end Leads

/-- A machine whose current program comes to its end. -/
def Ends (host : Host σ) (m : Machine σ) : Prop :=
  ∃ m' outcome, Leads host m m' ∧ m'.current = .done outcome

theorem Leads.ends (h : Leads host m m') (h' : Ends host m') :
    Ends host m := by
  obtain ⟨m'', outcome, leads, hdone⟩ := h'
  exact ⟨m'', outcome, h.trans leads, hdone⟩

-- ========================================================= coming back

/-- The end of a program lets the innermost caller go on. -/
theorem step_of_done (host : Host σ)
    {next : Outcome → Program σ Outcome}
    {rest : List (Outcome → Program σ Outcome)}
    (hm : m.current = .done outcome) (hw : m.waiting = next :: rest) :
    m.step host = { m with
      depth := m.depth - 1, current := next outcome, waiting := rest } := by
  simp only [step, hm, hw]

/-- A call that is refused is back at once. -/
theorem comesBack_of_refused {c : Call σ} {fault : Fault}
    (hs : m.step host = m.refused c fault) :
    ComesBack host m (m.refused c fault) :=
  ⟨0, hs, rfl, fun j hj => absurd hj (Nat.not_lt_zero j)⟩

/-- A call that starts a method is back one step after the method has
ended: its caller goes on with the outcome. -/
theorem comesBack_of_done {c : Call σ} {method : Method}
    (hs : m.step host = m.entered host c method)
    (leads : Leads host (m.entered host c method) m')
    (hdone : m'.current = .done outcome) :
    ComesBack host m { m' with
      depth := m'.depth - 1
      current := c.next outcome
      waiting := m.waiting } := by
  obtain ⟨k, hk, hactive⟩ := leads.steps
  have last := step_of_done host hdone leads.waiting
  -- one step in, the steps of the callee, one step out
  refine ⟨k + 1, ?_, rfl, ?_⟩
  · rw [Function.iterate_succ_apply, hs, Function.iterate_succ_apply', hk,
      last]
  · intro j hj
    rw [Function.iterate_succ_apply, hs]
    exact hactive j (by omega)

/-- A call comes back if it is refused, or if the method that it starts
ends. -/
theorem comesBack_of_callee {c : Call σ} (hc : m.call? = some c)
    (callee : ∀ method, c.allowed = .ok method → m.refusal? = none →
      Ends host (m.entered host c method)) :
    ∃ m', ComesBack host m m' := by
  cases hallowed : c.allowed with
  | error fault =>
      have hs := step_of_disallowed host hc hallowed
      exact ⟨_, comesBack_of_refused hs⟩
  | ok method =>
      have hs := step_of_allowed host hc hallowed
      cases hr : m.refusal? with
      | some fault =>
          rw [hr] at hs
          exact ⟨_, comesBack_of_refused hs⟩
      | none =>
          rw [hr] at hs
          obtain ⟨m', outcome, leads, hdone⟩ := callee method hallowed hr
          exact ⟨_, comesBack_of_done hs leads hdone⟩

-- ============================================================ the ending

/-- A program ends if the methods that it calls do. The induction is on
the tree: what goes on after a request is a smaller one. -/
theorem ends_of_callees {n room : Nat}
    (callees : ∀ (m : Machine σ) c method, m.limit = some n →
      m.depth < n → n ≤ m.depth + room →
        Ends host (m.entered host c method))
    (p : Program σ Outcome) :
    ∀ m : Machine σ, m.limit = some n → n ≤ m.depth + room →
      m.current = p → Ends host m := by
  have after_call : ∀ (m : Machine σ) (c : Call σ), m.limit = some n →
      n ≤ m.depth + room → m.call? = some c →
      (∀ outcome (m' : Machine σ), m'.limit = some n →
        n ≤ m'.depth + room → m'.current = c.next outcome →
          Ends host m') → Ends host m := by
    intro m c hl hroom hc hnext
    obtain ⟨m', back⟩ : ∃ m', ComesBack host m m' := by
      refine comesBack_of_callee hc fun method _ hr => ?_
      exact callees m c method hl (refusal?_eq_none_iff.1 hr n hl) hroom
    have leads := Leads.of_comesBack hc back
    obtain ⟨hdepth, -, outcome, hcurrent⟩ := back.balanced hc
    refine leads.ends (hnext outcome m' ?_ ?_ hcurrent)
    · rw [leads.limit, hl]
    · omega
  induction p with
  | done outcome =>
      intro m _ _ hm
      exact ⟨m, outcome, .refl m, hm⟩
  | invoke receiver name args site next ih =>
      intro m hl hroom hm
      refine after_call m _ hl hroom (by simp only [call?, hm]; rfl) ?_
      exact fun outcome m' => ih outcome m'
  | apply callee args next ih =>
      intro m hl hroom hm
      refine after_call m _ hl hroom (by simp only [call?, hm]; rfl) ?_
      exact fun outcome m' => ih outcome m'
  | look next ih | own next ih | depth next ih | limit next ih
  | output next ih | change c next ih =>
      intro m hl hroom hm
      refine (Leads.of_step ?_ ?_).ends ?_ <;> simp only [step, hm]
      exact ih _ _ hl hroom rfl
  | keep state next ih | clear next ih | print line next ih =>
      intro m hl hroom hm
      refine (Leads.of_step ?_ ?_).ends ?_ <;> simp only [step, hm]
      exact ih _ hl hroom rfl

/-- With a limit, a program comes to its end, whatever it calls. The
induction is on the places left, and a call takes one. -/
theorem program_ends (host : Host σ) {n : Nat} (hl : m.limit = some n) :
    Ends host m := by
  suffices ∀ (room : Nat) (m : Machine σ), m.limit = some n →
      n ≤ m.depth + room → Ends host m from
    this n m hl (Nat.le_add_left _ _)
  intro room
  induction room with
  | zero =>
      intro m hl hroom
      refine ends_of_callees (fun m c method _ hfree hfull => ?_)
        m.current m hl hroom rfl
      exact absurd hfull (Nat.not_le_of_lt hfree)
  | succ room ih =>
      intro m hl hroom
      refine ends_of_callees (fun m c method hl _ hroom => ?_)
        m.current m hl hroom rfl
      exact ih (m.entered host c method) hl
        (by show n ≤ m.depth + 1 + room; omega)

/-- With a limit, every call comes back. -/
theorem call_comesBack (host : Host σ) {n : Nat} (hl : m.limit = some n)
    {c : Call σ} (hc : m.call? = some c) :
    ∃ m', ComesBack host m m' :=
  comesBack_of_callee hc fun method _ _ =>
    program_ends host (m := m.entered host c method) hl

/-- With a limit, every run ends: the program does, and then so does each
caller that waits. -/
theorem run_ends (host : Host σ) {n : Nat} (hl : m.limit = some n) :
    ∃ k outcome, ((step host)^[k] m).outcome? = some outcome := by
  suffices ∀ (waiting : List (Outcome → Program σ Outcome))
      (m : Machine σ), m.limit = some n → m.waiting = waiting →
        ∃ k outcome, ((step host)^[k] m).outcome? = some outcome from
    this m.waiting m hl rfl
  intro waiting
  induction waiting with
  | nil =>
      intro m hl hw
      obtain ⟨m', outcome, leads, hdone⟩ := program_ends host hl
      obtain ⟨k, rfl, -⟩ := leads.steps
      refine ⟨k, outcome, ?_⟩
      simp only [outcome?, hdone, leads.waiting, hw]
  | cons next rest ih =>
      intro m hl hw
      obtain ⟨m', outcome, leads, hdone⟩ := program_ends host hl
      obtain ⟨k, hk, -⟩ := leads.steps
      have hs := step_of_done host hdone (leads.waiting.trans hw)
      obtain ⟨l, final, hfinal⟩ := ih (m'.step host)
        (by rw [limit_step, leads.limit, hl]) (by rw [hs])
      refine ⟨l + 1 + k, final, ?_⟩
      rw [Function.iterate_add_apply, hk, Function.iterate_succ_apply]
      exact hfinal

-- ========================================================= running to it

/-- A run that has ended stays as it is. -/
theorem step_of_outcome (h : m.outcome? = some outcome) :
    m.step host = m := by
  unfold outcome? at h
  split at h
  · rename_i hm hw
    simp only [step, hm, hw]
  · cases h

theorem iterate_of_outcome (h : m.outcome? = some outcome) (k : Nat) :
    (step host)^[k] m = m :=
  Function.iterate_fixed (step_of_outcome h) k

/-- What holds at each step up to the end holds at every step. -/
theorem forall_iterate_of_outcome {P : Machine σ → Prop} {n : Nat}
    (h : ((step host)^[n] m).outcome? = some outcome)
    (hP : ∀ k ≤ n, P ((step host)^[k] m)) (k : Nat) :
    P ((step host)^[k] m) := by
  by_cases hk : k ≤ n
  · exact hP k hk
  · obtain ⟨i, rfl⟩ : ∃ i, k = i + n := ⟨k - n, by omega⟩
    rw [Function.iterate_add_apply, iterate_of_outcome h]
    exact hP n (Nat.le_refl n)

/-- Running with steps enough leads to the state in which the run has
ended. -/
theorem run_eq_iterate_of_outcome {k fuel : Nat} (hk : k ≤ fuel)
    (h : ((step host)^[k] m).outcome? = some outcome) :
    m.run host fuel = (step host)^[k] m := by
  induction fuel generalizing k m with
  | zero =>
      obtain rfl : k = 0 := by omega
      rfl
  | succ fuel ih =>
      unfold run
      cases hm : m.outcome? with
      | some early =>
          rw [iterate_of_outcome hm]
          rfl
      | none =>
          cases k with
          | zero =>
              rw [Function.iterate_zero_apply, hm] at h
              cases h
          | succ k =>
              rw [Function.iterate_succ_apply] at h ⊢
              exact ih (by omega) h

end ObjectWorld.Machine
