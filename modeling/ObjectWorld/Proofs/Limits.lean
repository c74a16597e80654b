/-
The limit on the depth only cuts off.

Two machines that differ in the limit alone take the same steps for as
long as no step tells them apart. Two kinds of step can: the one that asks
for the limit, and a call that the world allows and that one machine has
no room for. A larger limit leaves room wherever a smaller one did, so a
run under the smaller limit that refuses no call for depth is, step by
step, the run under any larger one and under none
(`limit_only_cuts_off`).

That is about every evaluator. What it keeps of its own goes along
unchanged, a record of the bodies that it was given among it.
-/
import ObjectWorld.Proofs.Ending

namespace ObjectWorld.Machine

variable {σ : Type} {host : Host σ} {m : Machine σ} {l : Option Nat}

-- ============================================ what can tell limits apart

/-- Whether the next step asks for the limit. -/
def asksLimit (m : Machine σ) : Bool :=
  match m.current with
  | .limit _ => true
  | _ => false

/-- Whether the next step refuses a call for depth alone: the world allows
it. -/
def cutsOff (m : Machine σ) : Bool :=
  match m.call? with
  | some { allowed := .ok _, .. } => m.refusal?.isSome
  | _ => false

/-- A machine with another limit. -/
def withLimit (m : Machine σ) (l : Option Nat) : Machine σ :=
  { m with limit := l }

/-- Whether a limit, or none, leaves at least the room of another. -/
def Roomier (l l' : Option Nat) : Prop :=
  ∀ n', l' = some n' → ∃ n, l = some n ∧ n ≤ n'

/-- Where there is room under a limit, there is under a larger one. -/
theorem refusal?_withLimit (hl : Roomier m.limit l)
    (room : m.refusal? = none) : (m.withLimit l).refusal? = none := by
  rw [refusal?_eq_none_iff] at room ⊢
  intro n' hn'
  obtain ⟨n, hn, hle⟩ := hl n' hn'
  have hdepth : m.depth < n := room n hn
  show m.depth < n'
  omega

/-- A call that is not cut off is served alike under a larger limit. -/
theorem step_withLimit_of_call (hl : Roomier m.limit l)
    (uncut : m.cutsOff = false) {c : Call σ} (hc : m.call? = some c) :
    (m.withLimit l).step host = (m.step host).withLimit l := by
  have hc' : (m.withLimit l).call? = some c := hc
  cases hallowed : c.allowed with
  | error fault =>
      rw [step_of_disallowed host hc hallowed,
        step_of_disallowed host hc' hallowed]
      rfl
  | ok method =>
      have room : m.refusal? = none := by
        obtain ⟨allowed, self, args, next⟩ := c
        obtain rfl : allowed = .ok method := hallowed
        simpa [cutsOff, hc] using uncut
      rw [step_of_allowed host hc hallowed,
        step_of_allowed host hc' hallowed, room,
        refusal?_withLimit hl room]
      rfl

/-- A step that neither asks for the limit nor cuts a call off is the same
under a larger limit. -/
theorem step_withLimit (hl : Roomier m.limit l)
    (unasked : m.asksLimit = false) (uncut : m.cutsOff = false) :
    (m.withLimit l).step host = (m.step host).withLimit l := by
  cases hcall : m.call? with
  | some c => exact step_withLimit_of_call hl uncut hcall
  | none =>
      cases hm : m.current with
      | done outcome =>
          cases hw : m.waiting <;> simp only [withLimit, step, hm, hw]
      | limit next => simp [asksLimit, hm] at unasked
      | invoke receiver name args site next => simp [call?, hm] at hcall
      | apply callee args next => simp [call?, hm] at hcall
      | look | own | keep | depth | output | clear | print | change =>
          simp only [withLimit, step, hm]

/-- As far as a run neither asks for the limit nor cuts a call off, it is
the same run under a larger limit. -/
theorem iterate_withLimit (host : Host σ) (hl : Roomier m.limit l)
    (k : Nat)
    (unasked : ∀ j < k, ((step host)^[j] m).asksLimit = false)
    (uncut : ∀ j < k, ((step host)^[j] m).cutsOff = false) :
    (step host)^[k] (m.withLimit l)
      = ((step host)^[k] m).withLimit l := by
  induction k with
  | zero => rfl
  | succ k ih =>
      rw [Function.iterate_succ_apply', Function.iterate_succ_apply',
        ih (fun j hj => unasked j (by omega)) fun j hj => uncut j (by omega)]
      refine step_withLimit ?_ (unasked k (by omega)) (uncut k (by omega))
      rwa [limit_iterate]

/-- The limit only cuts off. Under a limit, a run that never asks for it
and refuses no call for depth is the same run under a larger limit or
none: the two agree at every step in the program, the world, the console
and all that the evaluator keeps, and they end at the same step with the
same outcome. -/
theorem limit_only_cuts_off (host : Host σ) (m : Machine σ) {n : Nat}
    (l : Option Nat) (limited : m.limit = some n)
    (larger : ∀ n', l = some n' → n ≤ n')
    (unasked : ∀ k, ((step host)^[k] m).asksLimit = false)
    (uncut : ∀ k, ((step host)^[k] m).cutsOff = false) :
    (∀ k, (step host)^[k] { m with limit := l }
        = { (step host)^[k] m with limit := l })
      ∧ ∃ k outcome, ((step host)^[k] m).outcome? = some outcome
        ∧ ((step host)^[k] { m with limit := l }).outcome?
          = some outcome := by
  have hl : Roomier m.limit l :=
    fun n' hn' => ⟨n, limited, larger n' hn'⟩
  have same : ∀ k, (step host)^[k] { m with limit := l }
      = { (step host)^[k] m with limit := l } := fun k =>
    iterate_withLimit host hl k (fun j _ => unasked j) fun j _ => uncut j
  obtain ⟨k, outcome, hend⟩ := run_ends host limited
  refine ⟨same, k, outcome, hend, ?_⟩
  rw [same]
  exact hend

/-- A machine with room for one call, about to make one that fails, and
then one that prints. -/
def handling : Machine Unit where
  limit := some 1
  own := ()
  current := .invoke World.main "missing" [] .explicit fun _ =>
    .invoke World.main "puts" [.text "handled"] .implicitSelf .done

/-- The run refuses a call, but not for depth; so without a limit it is
the same run, down to the line that it prints. -/
theorem limit_only_cuts_off_handling :
    (step endless)^[5] { handling with limit := none }
        = { (step endless)^[5] handling with limit := none }
      ∧ ((step endless)^[5] handling).console.output = "handled\n"
      ∧ ∃ k outcome, ((step endless)^[k] handling).outcome? = some outcome
        ∧ ((step endless)^[k] { handling with limit := none }).outcome?
          = some outcome := by
  have ends : ((step endless)^[5] handling).outcome? = some (.ok .nil) :=
    rfl
  obtain ⟨same, ended⟩ := limit_only_cuts_off endless handling none rfl
    (fun n' hn' => by cases hn')
    (forall_iterate_of_outcome (P := fun m => m.asksLimit = false) ends
      (by decide +kernel))
    (forall_iterate_of_outcome (P := fun m => m.cutsOff = false) ends
      (by decide +kernel))
  exact ⟨same 5, by decide +kernel, ended⟩

end ObjectWorld.Machine
