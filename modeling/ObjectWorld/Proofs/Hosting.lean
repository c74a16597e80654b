/-
Honest hosts, and the machines that run them.

The natives of a world only hand on what they were given and what the
world keeps, so they are honest; and so is every method, if the host is
honest in what the world leaves to it. A machine whose program is honest
takes one step that the realm permits, and its program is honest again:
in the realm after a change, with the outcome of a call, or at the start
of the method that is called. So an honest machine runs on its realm for
as long as it runs at all, and every world it goes through is that of a
realm that use leads to.
-/
import Mathlib.Logic.Function.Iterate
import ObjectWorld.Proofs.Honest

namespace ObjectWorld

variable {σ : Type} {keeps : Realm → σ → Prop} {host : Host σ}
  {r s : Realm} {u v : Value} {args : List Value}

-- ============================================================= the methods

/-- Whether what a host fills in names only what is at hand, and keeps
its promise about its own state. -/
structure Host.Honest (keeps : Realm → σ → Prop) (host : Host σ) :
    Prop where
  mono : ∀ {r s : Realm} {state : σ}, r.Grows s → keeps r state →
    keeps s state
  body : ∀ {r : Realm} (b : BodyId) {self : Value} {scope : ScopeId},
    r.Sound → r.Held self → r.world.HasScope scope →
      (host.body b self scope).Honest keeps Realm.Held r
  native : ∀ {r : Realm} (label : String) {self : Value}
    {args : List Value}, r.Sound → r.Held self →
      (∀ v ∈ args, r.Held v) →
        (host.native label self args).Honest keeps Realm.Held r

/-- A native hands on what it was given and what the world keeps. -/
theorem Native.honest_run (hhost : host.Honest keeps) (native : Native)
    (sound : r.Sound) (hself : r.Held v) (hargs : ∀ u ∈ args, r.Held u) :
    (native.run host v args).Honest keeps Realm.Held r := by
  cases native with
  | query q => exact .world (.lift (sound.good_answer q hself hargs))
  | foreign label => exact hhost.native label sound hself hargs
  | printLine => exact .world (.print (.pure .nil))
  | instantiate =>
      refine .world ?_
      refine .bind (fun s c => s.world.HasClass c) sound
        (.lift fun c hc => sound.hasClass_of_classFrom hself hc) ?_
      intro s c grows soundThere there
      have made : (s.after (.newObject c)).Held
          (.object ⟨s.world.objects.size⟩) :=
        .object (World.hasObject_newObject.2 (.inr rfl))
      have growsAfter := soundThere.grows_after (c := .newObject c) there
      split
      · refine .change there ?_
        refine .bind Realm.Held (soundThere.after there)
          (.invoke made ?_) ?_
        · exact fun u hu => growsAfter.held (grows.held (hargs u hu))
        · exact fun t _ grows' _ _ => .pure (grows'.held made)
      · refine .bind (fun _ _ => True) soundThere
          (.lift fun _ _ => trivial) ?_
        intro t _ grows' soundLater _
        have thereLater := grows'.later.hasClass there
        refine .change thereLater (.pure ?_)
        exact .object (World.hasObject_newObject.2 (.inr rfl))

/-- A method names only what is at hand. -/
theorem Method.honest_run (hhost : host.Honest keeps) {method : Method}
    (known : r.Knows method) (sound : r.Sound) (hself : r.Held v)
    (hargs : ∀ u ∈ args, r.Held u) :
    (method.run host v args).Honest keeps Realm.Held r := by
  unfold Method.run
  refine .bind (fun s _ => s.Knows method) sound
    (.lift fun _ _ => known) ?_
  intro s _ grows soundThere known
  unfold Realm.Knows at known
  split
  · exact Native.honest_run hhost _ soundThere (grows.held hself)
      fun u hu => grows.held (hargs u hu)
  · rename_i f hbody
    rw [hbody] at known
    have allowed : s.Allows (.bindArguments f args) :=
      ⟨known, fun u hu => grows.held (hargs u hu)⟩
    have growsAfter := soundThere.grows_after allowed
    refine .world (.change allowed ?_)
    refine .bind Realm.Held (soundThere.after allowed)
      (hhost.body _ (soundThere.after allowed) ?_ ?_) ?_
    · exact growsAfter.held (grows.held hself)
    · exact World.hasScope_newScope.2 (.inr rfl)
    · exact fun t _ _ _ held => .pure held.peelReturn

/-- The function of a method that a call by name leads to is there. -/
theorem Realm.Sound.knows_of_methodFor (sound : r.Sound) {name : String}
    {given : Nat} {site : CallSite} {method : Method}
    (h : r.world.methodFor v name given site = .ok method) :
    r.Knows method := by
  obtain ⟨found, hfound, -, -, rfl⟩ := World.methodFor_eq_ok_iff.1 h
  obtain ⟨c, -, hc⟩ := Option.bind_eq_some_iff.1 hfound
  exact sound.method (World.ownMethod?_of_resolveIn? hc)

/-- So is the function of a method that stands for a callee. -/
theorem Realm.Sound.knows_of_methodForCallee (sound : r.Sound)
    (h : r.Held v) {given : Nat} {method : Method}
    (hmethod : r.world.methodForCallee v given = .ok method) :
    r.Knows method := by
  have held := sound.held_bare h
  rcases World.methodForCallee_cases hmethod with
    ⟨f, visibility, hbare, rfl, -⟩ | ⟨name, native, -, rfl⟩
  · rw [hbare, held_function] at held
    exact held
  · trivial

-- ============================================================ the machines

/-- Whether a machine runs on a realm and names only what is at hand
there, now and when a caller goes on. -/
structure Machine.Honest (keeps : Realm → σ → Prop) (r : Realm)
    (m : Machine σ) : Prop where
  here : m.world = r.world
  sound : r.Sound
  own : keeps r m.own
  current : m.current.Honest keeps Realm.Good r
  waiting : ∀ next ∈ m.waiting, ∀ s outcome, r.Grows s → s.Sound →
    s.Good outcome → (next outcome).Honest keeps Realm.Good s

namespace Machine.Honest

variable {m : Machine σ}

/-- Starting a call, or refusing it, is honest. -/
theorem callIfAllowed (hhost : host.Honest keeps)
    (h : m.Honest keeps r) {allowed : Except Fault Method}
    (known : ∀ method, allowed = .ok method → r.Knows method)
    (hself : r.Held v) (hargs : ∀ u ∈ args, r.Held u)
    {next : Outcome → Program σ Outcome}
    (hnext : ∀ s outcome, r.Grows s → s.Sound → s.Good outcome →
      (next outcome).Honest keeps Realm.Good s) :
    (m.callIfAllowed host allowed v args next).Honest keeps r := by
  have refused : ∀ fault,
      ({ m with current := next (.error fault) } : Machine σ).Honest
        keeps r := fun fault =>
    { h with
      current := hnext r _ (.refl r) h.sound Realm.good_error }
  unfold Machine.callIfAllowed Machine.call
  split
  · exact refused _
  · rename_i method
    split
    · exact refused _
    · exact { h with
        current := Method.honest_run hhost (known method rfl) h.sound hself
          hargs
        waiting := by
          intro later hlater
          rcases List.mem_cons.1 hlater with rfl | hlater
          · exact hnext
          · exact h.waiting later hlater }

/-- An honest machine takes a step that the realm permits, and is honest
in the realm that the step leads to. -/
theorem step (hhost : host.Honest keeps) (h : m.Honest keeps r) :
    r.Permits m ∧ (m.step host).Honest keeps (r.passing m) := by
  have current := h.current
  constructor
  · intro c next hc
    rw [hc] at current
    exact current.1
  · unfold Realm.passing Machine.step
    cases hc : m.current with
    | done outcome =>
        rw [hc] at current
        cases hw : m.waiting with
        | nil => exact h
        | cons next rest =>
            have waiting := h.waiting
            rw [hw] at waiting
            exact { h with
              current := waiting next List.mem_cons_self r outcome
                (.refl r) h.sound current
              waiting := fun later hlater =>
                waiting later (List.mem_cons_of_mem _ hlater) }
    | change c next =>
        rw [hc] at current
        obtain ⟨allowed, current⟩ := current
        have grows := h.sound.grows_after allowed
        exact {
          here := by
            show (c.perform m.world).2 = (c.perform r.world).2
            rw [h.here]
          sound := h.sound.after allowed
          own := hhost.mono grows h.own
          current := by
            show (next (c.perform m.world).1).Honest keeps Realm.Good
              (r.after c)
            rw [h.here]
            exact current
          waiting := fun later hlater s outcome grows' =>
            h.waiting later hlater s outcome (grows.trans grows') }
    | invoke receiver name args site next =>
        rw [hc] at current
        obtain ⟨hreceiver, hargs, hnext⟩ := current
        refine h.callIfAllowed hhost ?_ hreceiver hargs hnext
        intro method hmethod
        rw [h.here] at hmethod
        exact h.sound.knows_of_methodFor hmethod
    | apply callee args next =>
        rw [hc] at current
        obtain ⟨hcallee, hargs, hnext⟩ := current
        refine h.callIfAllowed hhost ?_ h.sound.main hargs hnext
        intro method hmethod
        rw [h.here] at hmethod
        exact h.sound.knows_of_methodForCallee hcallee hmethod
    | look next =>
        rw [hc] at current
        refine { h with current := ?_ }
        show (next m.world).Honest keeps Realm.Good r
        rw [h.here]
        exact current
    | own next =>
        rw [hc] at current
        exact { h with current := current m.own h.own }
    | keep own next =>
        rw [hc] at current
        exact { h with own := current.1, current := current.2 }
    | depth next =>
        rw [hc] at current
        exact { h with current := current m.depth }
    | limit next =>
        rw [hc] at current
        exact { h with current := current m.limit }
    | output next =>
        rw [hc] at current
        exact { h with current := current m.console.output }
    | clear next =>
        rw [hc] at current
        exact { h with current := current }
    | print line next =>
        rw [hc] at current
        exact { h with current := current }

/-- So an honest machine runs on its realm for as long as it runs at all,
and stays honest. -/
theorem iterate (hhost : host.Honest keeps) (h : m.Honest keeps r)
    (k : Nat) : ∃ s, Realm.Runs host r m s ((Machine.step host)^[k] m)
      ∧ ((Machine.step host)^[k] m).Honest keeps s := by
  induction k generalizing r m with
  | zero => exact ⟨r, .refl r m, h⟩
  | succ k ih =>
      obtain ⟨permitted, hstep⟩ := h.step hhost
      obtain ⟨s, run, hs⟩ := ih hstep
      exact ⟨s, .step permitted run, hs⟩

/-- The worlds of its run are worlds of realms that use leads to. -/
theorem reaches (hhost : host.Honest keeps) (h : m.Honest keeps r)
    (k : Nat) : ∃ s, r.Reaches s
      ∧ ((Machine.step host)^[k] m).world = s.world := by
  obtain ⟨s, run, hs⟩ := h.iterate hhost k
  exact ⟨s, .tail .refl (.run h.here run), hs.here⟩

end Machine.Honest

end ObjectWorld
