/-
The depth of calls.

A machine counts the calls that are running; beside the count it keeps
the callers that wait for them. The two agree in every run that starts
with neither, so the count is never wrong by a call that failed, and the
limit on it is a limit on the callers.

# Coming back

A call comes back at the first step after which no more callers wait than
did before it. Between the two ends of a call the callers that waited
before it stay untouched below the ones it adds (`Above`), and the depth
is the one at its start plus the callers on top of them. Only the end of
the call itself reaches below, and it takes off exactly one. So a call
comes back with the depth it was made at, however the code it ran ended
and whatever that code called.
-/
import Mathlib.Logic.Function.Iterate
import ObjectWorld.Machine

namespace ObjectWorld.Machine

variable {σ : Type} {host : Host σ} {m m' : Machine σ}

-- ============================================================= the calls

/-- How many calls are in progress: each has one caller, who waits for
it. -/
def active (m : Machine σ) : Nat :=
  m.waiting.length

/-- A call that a machine is asked to make. -/
structure Call (σ : Type) where
  /-- The method, or why the world allows none: lookup, visibility and
  the count of arguments have been tested. -/
  allowed : Except Fault Method
  self : Value
  args : List Value
  /-- How the caller goes on with the outcome. -/
  next : Outcome → Program σ Outcome

/-- The call that the next step makes, if it makes one. -/
def call? (m : Machine σ) : Option (Call σ) :=
  match m.current with
  | .invoke receiver name args site next => some
      { allowed := m.world.methodFor receiver name args.length site
        self := receiver, args, next }
  | .apply callee args next => some
      { allowed := m.world.methodForCallee callee args.length
        self := World.main, args, next }
  | _ => none

/-- A machine whose next call has started. -/
def entered (host : Host σ) (m : Machine σ) (c : Call σ)
    (method : Method) : Machine σ :=
  { m with
    depth := m.depth + 1
    current := method.run host c.self c.args
    waiting := c.next :: m.waiting }

/-- A machine whose next call has been refused; nothing else changes. -/
def refused (m : Machine σ) (c : Call σ) (fault : Fault) : Machine σ :=
  { m with current := c.next (.error fault) }

/-- A call comes back at the first step that leaves as many callers
waiting as there were before it. -/
def ComesBack (host : Host σ) (m m' : Machine σ) : Prop :=
  ∃ k, (step host)^[k + 1] m = m' ∧ m'.active = m.active
    ∧ ∀ j < k, m.active < ((step host)^[j + 1] m).active

-- ========================================================= what steps do

/-- Both kinds of call are served alike. -/
theorem step_of_call (host : Host σ) {c : Call σ} (h : m.call? = some c) :
    m.step host = m.callIfAllowed host c.allowed c.self c.args c.next := by
  unfold call? at h
  split at h
  case h_1 hc => cases h; simp only [step, hc]
  case h_2 hc => cases h; simp only [step, hc]
  case h_3 => cases h

/-- What is called is a method by its name, or a callee at hand. -/
theorem call?_cases {c : Call σ} (h : m.call? = some c) :
    (∃ name site, m.current = .invoke c.self name c.args site c.next
        ∧ c.allowed = m.world.methodFor c.self name c.args.length site)
      ∨ ∃ callee, m.current = .apply callee c.args c.next
        ∧ c.allowed = m.world.methodForCallee callee c.args.length := by
  unfold call? at h
  split at h
  case h_1 name _ site _ hc => cases h; exact .inl ⟨name, site, hc, rfl⟩
  case h_2 callee _ _ hc => cases h; exact .inr ⟨callee, hc, rfl⟩
  case h_3 => cases h

/-- A call that the world does not allow is refused with its fault. -/
theorem step_of_disallowed (host : Host σ) {c : Call σ} {fault : Fault}
    (h : m.call? = some c) (hc : c.allowed = .error fault) :
    m.step host = m.refused c fault := by
  rw [step_of_call host h, hc]
  rfl

/-- A call that the world allows starts, unless there is no room. -/
theorem step_of_allowed (host : Host σ) {c : Call σ} {method : Method}
    (h : m.call? = some c) (hc : c.allowed = .ok method) :
    m.step host = match m.refusal? with
      | some fault => m.refused c fault
      | none => m.entered host c method := by
  rw [step_of_call host h, hc]
  rfl

/-- What a step can do to the callers: it lets the innermost go on, it
adds one, or it leaves them and the depth alone. -/
theorem step_cases (host : Host σ) (m : Machine σ) :
    (∃ outcome next rest, m.current = .done outcome
        ∧ m.waiting = next :: rest
        ∧ m.step host = { m with
            depth := m.depth - 1, current := next outcome,
            waiting := rest })
      ∨ (∃ c method, m.call? = some c ∧ c.allowed = .ok method
        ∧ m.refusal? = none ∧ m.step host = m.entered host c method)
      ∨ ((m.step host).depth = m.depth
        ∧ (m.step host).waiting = m.waiting) := by
  cases hcall : m.call? with
  | some c =>
      cases hc : c.allowed with
      | error fault =>
          rw [step_of_disallowed host hcall hc]
          exact Or.inr (Or.inr ⟨rfl, rfl⟩)
      | ok method =>
          have hstep := step_of_allowed host hcall hc
          cases hr : m.refusal? with
          | some fault =>
              rw [hr] at hstep
              rw [hstep]
              exact Or.inr (Or.inr ⟨rfl, rfl⟩)
          | none =>
              rw [hr] at hstep
              exact Or.inr (Or.inl ⟨c, method, rfl, hc, rfl, hstep⟩)
  | none =>
      cases hm : m.current with
      | done outcome =>
          cases hw : m.waiting with
          | nil =>
              refine Or.inr (Or.inr ?_)
              simp only [step, hm, hw, and_self]
          | cons next rest =>
              refine Or.inl ⟨outcome, next, rest, rfl, rfl, ?_⟩
              simp only [step, hm, hw]
      | invoke receiver name args site next => simp [call?, hm] at hcall
      | apply callee args next => simp [call?, hm] at hcall
      | look | own | keep | depth | limit | output | clear | print
      | change =>
          refine Or.inr (Or.inr ?_)
          simp only [step, hm, and_self]

/-- No step changes the limit. -/
theorem limit_step (host : Host σ) (m : Machine σ) :
    (m.step host).limit = m.limit := by
  cases hcall : m.call? with
  | some c =>
      cases hc : c.allowed with
      | error fault => rw [step_of_disallowed host hcall hc]; rfl
      | ok method =>
          rw [step_of_allowed host hcall hc]
          cases m.refusal? <;> rfl
  | none =>
      cases hm : m.current with
      | done outcome => cases hw : m.waiting <;> simp only [step, hm, hw]
      | invoke receiver name args site next => simp [call?, hm] at hcall
      | apply callee args next => simp [call?, hm] at hcall
      | look | own | keep | depth | limit | output | clear | print
      | change => simp only [step, hm]

/-- There is no room exactly when the depth has reached the limit. -/
theorem refusal?_eq_none_iff :
    m.refusal? = none ↔ ∀ n, m.limit = some n → m.depth < n := by
  unfold refusal?
  cases m.limit with
  | none => simp
  | some n =>
      by_cases h : n ≤ m.depth
      · simp [h]
      · simp [h]; omega

/-- Where the depth is within the limit, a refusal tells the limit that
is reached. -/
theorem refusal?_eq_of_le (h : ∀ n, m.limit = some n → m.depth ≤ n) :
    m.refusal? = if m.limit = some m.depth
      then some (.stackTooDeep m.depth) else none := by
  unfold refusal?
  cases hl : m.limit with
  | none => simp
  | some n =>
      have hle := h n hl
      by_cases heq : n = m.depth
      · simp [heq]
      · have : ¬ n ≤ m.depth := by omega
        simp [heq, this]

-- ===================================================== callers in layers

/-- The callers that a machine has on top of given ones are what its
depth counts beyond a given number. -/
def Above (base : Nat) (below : List (Outcome → Program σ Outcome))
    (m : Machine σ) : Prop :=
  ∃ upper, m.waiting = upper ++ below ∧ m.depth = base + upper.length

/-- A step keeps the layers, unless it takes off one of the callers
below. -/
theorem Above.step {base : Nat}
    {below : List (Outcome → Program σ Outcome)}
    (h : Above base below m)
    (hle : below.length ≤ (m.step host).active) :
    Above base below (m.step host) := by
  obtain ⟨upper, hw, hd⟩ := h
  rcases step_cases host m with
    ⟨outcome, next, rest, -, hcons, hs⟩ | ⟨c, method, -, -, -, hs⟩ | ⟨hd', hw'⟩
  · cases upper with
    | nil =>
        rw [hs, active] at hle
        rw [List.nil_append, hcons] at hw
        rw [← hw, List.length_cons] at hle
        exact absurd hle (by simp)
    | cons u us =>
        rw [hcons, List.cons_append, List.cons.injEq] at hw
        refine ⟨us, ?_, ?_⟩
        · rw [hs]
          exact hw.2
        · rw [hs, List.length_cons] at *
          simp only
          omega
  · refine ⟨c.next :: upper, ?_, ?_⟩
    · rw [hs, entered, hw, List.cons_append]
    · rw [hs, entered, List.length_cons, hd]
      rfl
  · exact ⟨upper, by rw [hw', hw], by rw [hd', hd]⟩

/-- The layers hold along a run for as long as enough callers wait. -/
theorem Above.iterate (host : Host σ) {base : Nat}
    {below : List (Outcome → Program σ Outcome)}
    (h : Above base below m) (k : Nat)
    (hle : ∀ j < k, below.length ≤ ((Machine.step host)^[j + 1] m).active) :
    Above base below ((Machine.step host)^[k] m) := by
  induction k with
  | zero => exact h
  | succ k ih =>
      have hk := hle k (Nat.lt_succ_self k)
      rw [Function.iterate_succ_apply'] at hk ⊢
      exact (ih fun j hj => hle j (Nat.lt_succ_of_lt hj)).step hk

/-- A step that goes below the layers is the end of the innermost of the
callers below, and it leaves the depth one less than the base. -/
theorem Above.step_below {base : Nat} {next : Outcome → Program σ Outcome}
    {below : List (Outcome → Program σ Outcome)}
    (h : Above (base + 1) (next :: below) m)
    (hlt : (m.step host).active ≤ below.length) :
    (m.step host).depth = base ∧ (m.step host).waiting = below
      ∧ ∃ outcome, (m.step host).current = next outcome := by
  obtain ⟨upper, hw, hd⟩ := h
  have hlen : m.waiting.length = upper.length + below.length + 1 := by
    rw [hw, List.length_append, List.length_cons]
    omega
  unfold active at hlt
  rcases step_cases host m with
    ⟨outcome, next', rest, -, hcons, hs⟩ | ⟨c, method, -, -, -, hs⟩ | ⟨-, hw'⟩
  · cases upper with
    | nil =>
        rw [hcons, List.nil_append, List.cons.injEq] at hw
        obtain ⟨rfl, rfl⟩ := hw
        refine ⟨?_, by rw [hs], outcome, by rw [hs]⟩
        rw [hs]
        simp only [hd, List.length_nil]
        omega
    | cons u us =>
        rw [hs] at hlt
        rw [hcons, List.length_cons, List.length_cons] at hlen
        simp only at hlt
        omega
  · rw [hs, entered, List.length_cons] at hlt
    omega
  · rw [hw'] at hlt
    omega

-- =============================================================== balance

/-- A call comes back with the depth and the callers it was made with,
and its caller goes on with its outcome. -/
theorem ComesBack.balanced {c : Call σ} (hb : ComesBack host m m')
    (hc : m.call? = some c) :
    m'.depth = m.depth ∧ m'.waiting = m.waiting
      ∧ ∃ outcome, m'.current = c.next outcome := by
  obtain ⟨k, hk, hactive, hmore⟩ := hb
  -- a call that is refused is back after its first step
  have back_at_once : ∀ fault, m.step host = m.refused c fault →
      m' = m.refused c fault := by
    intro fault hs
    cases k with
    | zero => rw [← hk, ← hs]; rfl
    | succ k =>
        have hlt := hmore 0 (Nat.succ_pos k)
        rw [Function.iterate_one, hs] at hlt
        exact absurd hlt (Nat.lt_irrefl _)
  cases hallowed : c.allowed with
  | error fault =>
      rw [back_at_once fault (step_of_disallowed host hc hallowed)]
      exact ⟨rfl, rfl, .error fault, rfl⟩
  | ok method =>
      have hs := step_of_allowed host hc hallowed
      cases hr : m.refusal? with
      | some fault =>
          rw [hr] at hs
          rw [back_at_once fault hs]
          exact ⟨rfl, rfl, .error fault, rfl⟩
      | none =>
          rw [hr] at hs
          have hstart : Above (m.depth + 1) (c.next :: m.waiting)
              (m.step host) := ⟨[], by rw [hs]; rfl, by rw [hs]; rfl⟩
          cases k with
          | zero =>
              rw [← hk, Function.iterate_one, hs] at hactive
              simp [active, entered] at hactive
          | succ k =>
              rw [Function.iterate_succ_apply] at hk
              have habove := hstart.iterate host k fun j hj =>
                hmore (j + 1) (Nat.succ_lt_succ hj)
              rw [Function.iterate_succ_apply'] at hk
              rw [← hk] at hactive ⊢
              exact habove.step_below (Nat.le_of_eq hactive)

-- ================================================================= bound

/-- From no calls on, the depth is the number of calls in progress. -/
theorem depth_eq_active (host : Host σ) (hd : m.depth = 0)
    (hw : m.waiting = []) (k : Nat) :
    ((step host)^[k] m).depth = ((step host)^[k] m).active := by
  have h : Above 0 [] m := ⟨[], by simpa using hw, by simpa using hd⟩
  obtain ⟨upper, hw', hd'⟩ :=
    h.iterate host k fun _ _ => Nat.zero_le _
  rw [hd', active, hw', List.append_nil, Nat.zero_add]

/-- No run changes the limit. -/
theorem limit_iterate (host : Host σ) (m : Machine σ) (k : Nat) :
    ((step host)^[k] m).limit = m.limit := by
  induction k with
  | zero => rfl
  | succ k ih => rw [Function.iterate_succ_apply', limit_step, ih]

/-- A step from a depth within the limit stays within it. -/
theorem depth_step_le {n : Nat} (hl : m.limit = some n) (hd : m.depth ≤ n) :
    (m.step host).depth ≤ n := by
  rcases step_cases host m with
    ⟨outcome, next, rest, -, -, hs⟩ | ⟨c, method, -, -, hr, hs⟩ | ⟨hd', -⟩
  · rw [hs]
    simp only
    omega
  · have := refusal?_eq_none_iff.1 hr n hl
    rw [hs, entered]
    simp only
    omega
  · omega

/-- From a depth within the limit on, the depth stays within it. -/
theorem depth_iterate_le {n : Nat} (hl : m.limit = some n)
    (hd : m.depth ≤ n) (k : Nat) : ((step host)^[k] m).depth ≤ n := by
  induction k with
  | zero => exact hd
  | succ k ih =>
      rw [Function.iterate_succ_apply']
      exact depth_step_le ((limit_iterate host m k).trans hl) ih

/-- Calls are balanced, counted and bounded. A call comes back with the
depth it was made at, whatever its outcome. In a run that starts with no
call, the depth is at every step the number of calls in progress and
within the limit, and a call that the world allows is refused for depth
exactly when as many calls are in progress as the limit says; otherwise
it starts. -/
theorem depth_balanced_and_bounded (host : Host σ) (m : Machine σ) :
    (∀ c m', m.call? = some c → ComesBack host m m' →
        m'.depth = m.depth ∧ m'.waiting = m.waiting
          ∧ ∃ outcome, m'.current = c.next outcome)
      ∧ (m.depth = 0 → m.waiting = [] → ∀ k,
        let now := (step host)^[k] m
        now.depth = now.active
          ∧ (∀ n, m.limit = some n → now.active ≤ n)
          ∧ ∀ c method, now.call? = some c → c.allowed = .ok method →
            now.step host = if m.limit = some now.active
              then now.refused c (.stackTooDeep now.active)
              else now.entered host c method) := by
  refine ⟨fun c m' hc hb => hb.balanced hc, fun hd hw k => ?_⟩
  have hactive := depth_eq_active host hd hw k
  have hlimit := limit_iterate host m k
  have hbound : ∀ n, m.limit = some n → ((step host)^[k] m).depth ≤ n :=
    fun n hn => depth_iterate_le hn (by omega) k
  refine ⟨hactive, fun n hn => hactive ▸ hbound n hn, ?_⟩
  intro c method hc hallowed
  have hr := refusal?_eq_of_le fun n hn => hbound n (hlimit ▸ hn)
  rw [step_of_allowed host hc hallowed, hr, hlimit, hactive]
  by_cases hfull : m.limit = some ((step host)^[k] m).active
  · rw [if_pos hfull, if_pos hfull]
  · rw [if_neg hfull, if_neg hfull]

/-- A host whose one native does nothing but call itself. -/
def endless : Host Unit where
  body _ _ _ := return .nil
  native label _ _ := Eval.apply (.builtin label (.foreign label)) []

/-- A machine with room for one call, about to make an endless one. -/
def endlessCall : Machine Unit where
  limit := some 1
  own := ()
  current := .apply (.builtin "again" (.foreign "again")) [] .done

/-- The endless call enters once, is refused inside itself at depth one,
and is back at depth zero after three steps. -/
theorem depth_balanced_and_bounded_endless :
    ((step endless)^[3] endlessCall).depth = 0
      ∧ ((step endless)^[1] endlessCall).depth = 1
      ∧ ∃ c, ((step endless)^[1] endlessCall).call? = some c
        ∧ ((step endless)^[1] endlessCall).step endless
          = ((step endless)^[1] endlessCall).refused c (.stackTooDeep 1) := by
  obtain ⟨balanced, counted⟩ := depth_balanced_and_bounded endless endlessCall
  have back : ComesBack endless endlessCall
      ((step endless)^[3] endlessCall) := by
    refine ⟨2, rfl, rfl, fun j hj => ?_⟩
    match j, hj with
    | 0, _ => exact Nat.zero_lt_one
    | 1, _ => exact Nat.zero_lt_one
  obtain ⟨hactive, -, hroom⟩ := counted rfl rfl 1
  refine ⟨(balanced _ _ rfl back).1, hactive, _, rfl, ?_⟩
  exact (hroom _ _ rfl rfl).trans (if_pos rfl)

end ObjectWorld.Machine
