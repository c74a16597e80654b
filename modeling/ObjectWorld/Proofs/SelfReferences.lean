/-
Self references around the operands of a native.

A native looks through self references, on its receiver and on its
arguments, and so it does the same with them as without: what it reads of a
value is read of the bare value, of its text, or of its class, and none of
these changes (`standsFor_of_selfWraps`). One thing that is read is not of this
kind. An argument that is to be made an integer or a text, and is neither,
is named in the fault as it was given; and a value without a class is named
by its outermost wrapper (`Renames`). There, and nowhere else, the wrapper
shows (`Misnames`).
-/
import ObjectWorld.Proofs.Responding
import ObjectWorld.Proofs.VisibleClass

namespace ObjectWorld

-- ============================================================ the wrapping

/-- Whether a value is another one with self references around it, some or
none. -/
inductive Value.SelfWraps (v : Value) : Value → Prop
  | refl : SelfWraps v v
  | selfRef {x : Value} (h : SelfWraps v x) : SelfWraps v (.selfRef x)

/-- Whether two outcomes are the same: values that are the same, or one
fault. -/
inductive SameOutcome : Outcome → Outcome → Prop
  | value {y y' : Value} (same : y.same y' = true) :
      SameOutcome (.ok y) (.ok y')
  | fault (f : Fault) : SameOutcome (.error f) (.error f)

theorem SameOutcome.refl (outcome : Outcome) :
    SameOutcome outcome outcome := by
  cases outcome with
  | error f => exact .fault f
  | ok y => exact .value ((Value.same_iff y y).2 rfl)

theorem SameOutcome.of_eq {outcome outcome' : Outcome}
    (h : outcome' = outcome) : SameOutcome outcome outcome' := by
  rw [h]
  exact .refl outcome

theorem SameOutcome.fault_eq {f g : Fault}
    (h : SameOutcome (.error f) (.error g)) : f = g := by
  cases h
  rfl

/-- What a query calls for in its argument, once it has come so far as to
look at that. -/
def Query.converts? (q : Query) (self : Value) : Option String :=
  match q with
  | .require => some "String"
  | .concat => if self.text?.isSome then some "String" else none
  | .add | .subtract | .multiply | .divide | .less | .greater =>
      if self.int?.isSome then some "Integer" else none
  | _ => none

namespace World

variable {w : World} {v x a a' : Value} {args args' : List Value} {q : Query}
  {expected : String}

/-- Whether self references change what a value is called: it has no class
to be called by, and there was none around it before. -/
def Renames (w : World) (v x : Value) : Prop :=
  w.classOf? v = none ∧ (∀ u, v ≠ .selfRef u) ∧ ∃ u, x = .selfRef u

-- ================================================= what wrapping leaves

/-- Self references leave the bare value. -/
theorem bare_of_selfWraps (h : v.SelfWraps x) : x.bare = v.bare := by
  induction h with
  | refl => rfl
  | selfRef _ ih => exact ih

/-- They leave the class. -/
theorem classOf?_of_selfWraps (h : v.SelfWraps x) :
    w.classOf? x = w.classOf? v := by
  induction h with
  | refl => rfl
  | selfRef _ ih => exact ih

theorem essence_of_selfWraps (h : v.SelfWraps x) : x.essence = v.essence := by
  rw [← Value.essence_bare, bare_of_selfWraps h, Value.essence_bare]

theorem inspect_of_selfWraps (h : v.SelfWraps x) :
    w.inspect x = w.inspect v := by
  rw [← inspect_bare, bare_of_selfWraps h, inspect_bare]

/-- What self references leave of each argument they leave of the list. -/
theorem map_of_selfWraps {α : Type} {f : Value → α}
    (leaves : ∀ {v x : Value}, v.SelfWraps x → f x = f v)
    (h : List.Forall₂ Value.SelfWraps args args') :
    args'.map f = args.map f := by
  induction h with
  | nil => rfl
  | cons h _ ih => rw [List.map_cons, List.map_cons, ih, leaves h]

theorem spellingOf_of_selfWraps (h : v.SelfWraps x) :
    w.spellingOf x = w.spellingOf v := by
  unfold spellingOf Value.spelling? unfit
  rw [bare_of_selfWraps h]

/-- And what the value is called, where they do not change that. -/
theorem classNameOf_of_selfWraps (h : v.SelfWraps x)
    (fit : ¬ w.Renames v x) : w.classNameOf x = w.classNameOf v := by
  unfold classNameOf nominalClassOf?
  rw [classOf?_of_selfWraps h]
  cases hc : w.classOf? v with
  | some c => rfl
  | none =>
      show w.tag x = w.tag v
      cases h with
      | refl => rfl
      | @selfRef y h =>
          -- the outermost self reference names the value, before and after
          have inside : ∃ u, v = .selfRef u := by
            by_contra none
            exact fit ⟨hc, fun u hu => none ⟨u, hu⟩, _, rfl⟩
          obtain ⟨u, rfl⟩ := inside
          rfl

/-- So an operand that is wrapped reads as it did. -/
theorem looksLike_of_selfWraps (h : v.SelfWraps x) (fit : ¬ w.Renames v x) :
    w.LooksLike w v x where
  bare := bare_of_selfWraps h
  text := inspect_of_selfWraps h
  name := classNameOf_of_selfWraps h fit
  bareName := rfl

/-- And a receiver stands for what it was, since it has a class. -/
theorem standsFor_of_selfWraps (h : v.SelfWraps x)
    (hasClass : (w.classOf? v).isSome) : w.StandsFor w v x := by
  have cls : w.classOf? x = w.classOf? v := classOf?_of_selfWraps h
  have fit : ¬ w.Renames v x := fun renames => by
    rw [renames.1] at hasClass
    cases hasClass
  refine ⟨looksLike_of_selfWraps h fit, ?_, ?_, ?_, fun _ _ => rfl,
    fun _ _ => ⟨rfl, rfl, fun _ => rfl⟩⟩
  · unfold nominalClassOf?
    rw [cls]
  · intro key
    unfold resolve?
    rw [cls]
  · unfold listed
    rw [cls]

/-- The word for a self reference is the word for nothing else. -/
theorem tag_ne_self (bare : ∀ u, v ≠ .selfRef u) : w.tag v ≠ "SELF" := by
  cases v with
  | selfRef u => exact absurd rfl (bare u)
  | cls c => by_cases kind : w.isModule c <;> simp [tag, kind]
  | _ => simp [tag]

-- ====================================================== classless operands

/-- The bare value of one without a class has none. -/
theorem classOf?_bare_of_classless (h : w.classOf? a = none) :
    w.classOf? a.bare = none := by
  rcases a.stripSelf_cases with ⟨inner, e, hstrip⟩ | hbare
  · rw [← classOf?_stripSelf, hstrip] at h
    cases h
  · rw [← hbare, classOf?_stripSelf]
    exact h

/-- A value without a class is neither an integer nor a text. -/
theorem not_operand_of_classless (h : w.classOf? a = none) :
    a.int? = none ∧ a.text? = none := by
  have bare := classOf?_bare_of_classless h
  unfold Value.int? Value.text?
  cases hv : a.bare <;> simp_all [classOf?]

/-- So where it is called for as one, the fault names its kind. -/
theorem answer_of_classless (converts : q.converts? v = some expected)
    (classless : w.classOf? a = none) :
    w.answer q v [a]
      = .error (.implicitConversion expected (w.tag a)) := by
  have name : w.classNameOf a = w.tag a := by
    unfold classNameOf nominalClassOf?
    rw [classless]
    rfl
  obtain ⟨noInt, noText⟩ := not_operand_of_classless classless
  have integer : w.integerOf a
      = .error (.implicitConversion "Integer" (w.tag a)) := by
    unfold integerOf
    rw [noInt, name]
  have text : w.textOf a
      = .error (.implicitConversion "String" (w.tag a)) := by
    unfold textOf
    rw [noText, name]
  cases q with
  | require =>
      cases converts
      show (w.textOf a >>= fun name => pure (Value.required name)) = _
      rw [text]
      rfl
  | concat =>
      cases hv : v.text? with
      | none => simp [Query.converts?, hv] at converts
      | some first =>
          obtain rfl : "String" = expected := by
            simpa [Query.converts?, hv] using converts
          have self : w.textOf v = .ok first := by
            unfold textOf
            rw [hv]
          show (w.textOf v >>= fun first =>
            w.textOf a >>= fun rest => pure (Value.text (first ++ rest))) = _
          rw [self, text]
          rfl
  | add | subtract | multiply | divide | less | greater =>
      cases hv : v.int? with
      | none => simp [Query.converts?, hv] at converts
      | some n =>
          obtain rfl : "Integer" = expected := by
            simpa [Query.converts?, hv] using converts
          have self : w.integerOf v = .ok n := by
            unfold integerOf
            rw [hv]
          have refused : w.operands v [a]
              = .error (.implicitConversion "Integer" (w.tag a)) := by
            show (w.integerOf v >>= fun n =>
              w.integerOf a >>= fun k => pure (n, k)) = _
            rw [self, integer]
            rfl
          simp only [answer, refused]
          rfl
  | _ => cases converts

-- ============================================================= the queries

/-- Going on with the one argument comes to the same if it does so with each
argument and its wrapped form. -/
private theorem sameOutcome_of_sole {f : Value → Outcome}
    (wraps : List.Forall₂ Value.SelfWraps args args')
    (rest : ∀ a a', args = [a] → args' = [a'] → a.SelfWraps a' →
      f a' = f a) :
    SameOutcome (soleArgument args >>= f) (soleArgument args' >>= f) := by
  rcases soleArgument_cases wraps with ⟨e, ha, ha'⟩ | ⟨a, a', rfl, rfl, h⟩
  · rw [ha, ha']
    exact .refl _
  · exact .of_eq (rest a a' rfl rfl h)

/-- The operands of an integer operation are the same or are refused alike,
if the name of the argument does not come into it. -/
theorem operands_of_selfWraps (wraps : List.Forall₂ Value.SelfWraps args args')
    (fit : v.int?.isSome → ∀ a a', args = [a] → args' = [a'] →
      ¬ w.Renames a a') : w.operands v args' = w.operands v args := by
  unfold operands
  rcases soleArgument_cases wraps with ⟨e, ha, ha'⟩ | ⟨a, a', rfl, rfl, h⟩
  · rw [ha, ha']
  · show (w.integerOf v >>= fun n =>
        w.integerOf a' >>= fun k => pure (n, k))
      = (w.integerOf v >>= fun n =>
        w.integerOf a >>= fun k => pure (n, k))
    cases hv : v.int? with
    | none =>
        unfold integerOf
        rw [hv]
        rfl
    | some n =>
        have plain := fit (by rw [hv]; rfl) a a' rfl rfl
        rw [(looksLike_of_selfWraps h plain).integerOf]

/-- A query answers the same if it does not call for an argument that is
renamed. -/
theorem answer_of_selfWraps (wraps : List.Forall₂ Value.SelfWraps args args')
    (fit : ∀ expected a a', q.converts? v = some expected → args = [a] →
      args' = [a'] → ¬ w.Renames a a') :
    SameOutcome (w.answer q v args) (w.answer q v args') := by
  cases q with
  | notNil | isNil | emptyText | classOf | methods | inspect | textSize
  | textOfText | symbolOfText | textOfSymbol | symbolOfSymbol | itemCount
  | firstItem | lastItem | message | className | superclass =>
      exact .refl _
  | append =>
      show SameOutcome
        (w.itemsOf v >>= fun items => pure (Value.array (items ++ args)))
        (w.itemsOf v >>= fun items => pure (Value.array (items ++ args')))
      cases w.itemsOf v with
      | error f => exact .fault f
      | ok items =>
          refine .value ((Value.same_iff ..).2 ?_)
          simp only [Value.essence, Value.essences_eq_map, List.map_append,
            map_of_selfWraps essence_of_selfWraps wraps]
  | add | subtract | multiply | divide | less | greater =>
      have operands : w.operands v args' = w.operands v args :=
        operands_of_selfWraps wraps
          fun isInt a a' => fit "Integer" a a' (if_pos isInt)
      refine .of_eq ?_
      simp only [answer, operands]
  | equal =>
      refine sameOutcome_of_sole wraps fun a a' _ _ h => ?_
      rw [Value.same_congr rfl (essence_of_selfWraps h)]
  | integerEqual =>
      refine sameOutcome_of_sole wraps fun a a' _ _ h => ?_
      rw [Value.same_congr rfl (essence_of_selfWraps h)]
  | raise =>
      refine sameOutcome_of_sole wraps fun a a' _ _ h => ?_
      rw [inspect_of_selfWraps h]
  | respondTo =>
      refine sameOutcome_of_sole wraps fun a a' _ _ h => ?_
      rw [spellingOf_of_selfWraps h]
  | require =>
      refine sameOutcome_of_sole wraps fun a a' ha ha' h => ?_
      have looks := looksLike_of_selfWraps h (fit _ a a' rfl ha ha')
      rw [looks.textOf]
  | concat =>
      refine sameOutcome_of_sole wraps fun a a' ha ha' h => ?_
      cases hv : v.text? with
      | none =>
          -- the receiver is refused first
          have refused : w.textOf v
              = .error (.implicitConversion "String" (w.classNameOf v)) := by
            unfold textOf
            rw [hv]
          rw [refused]
          rfl
      | some first =>
          have text : v.text?.isSome := by rw [hv]; rfl
          have looks := looksLike_of_selfWraps h
            (fit "String" a a' (if_pos text) ha ha')
          rw [looks.textOf]

end World

-- ============================================================= the natives

/-- Whether a native calls for an argument, as what is expected of it, that
self references rename. -/
def Native.Misnames (native : Native) (w : World) (self : Value)
    (args args' : List Value) (expected : String) (a : Value) : Prop :=
  ∃ q a', native = .query q ∧ q.converts? self = some expected
    ∧ args = [a] ∧ args' = [a'] ∧ w.Renames a a'

/-- How the outcome without self references and the one with them compare:
they are the same if nothing is misnamed, and else they are one fault, worded
for the argument here and for the wrapper there. -/
structure Compared (w : World) (misnamed : String → Value → Prop)
    (outcome outcome' : Outcome) : Prop where
  same : (¬ ∃ expected a, misnamed expected a) →
    SameOutcome outcome outcome'
  apart : ∀ expected a, misnamed expected a → w.tag a ≠ "SELF"
    ∧ outcome = .error (.implicitConversion expected (w.tag a))
    ∧ outcome' = .error (.implicitConversion expected "SELF")

/-- So they are the same just if nothing is misnamed. -/
theorem Compared.same_iff {w : World} {misnamed : String → Value → Prop}
    {outcome outcome' : Outcome}
    (h : Compared w misnamed outcome outcome') :
    SameOutcome outcome outcome' ↔ ¬ ∃ expected a, misnamed expected a := by
  refine ⟨fun same misnames => ?_, h.same⟩
  obtain ⟨expected, a, misnames⟩ := misnames
  obtain ⟨other, here, there⟩ := h.apart expected a misnames
  rw [here, there] at same
  exact other (Fault.implicitConversion.inj same.fault_eq).2

namespace Native

variable {w after : World} {v x : Value} {args args' : List Value}
  {native : Native} {outcome : Outcome} {console console' : Console}

/-- A query answers the same, or it names the wrapper. -/
theorem compared_of_query (stands : w.StandsFor w v x)
    (wraps : List.Forall₂ Value.SelfWraps args args') (q : Query) :
    Compared w (Misnames (.query q) w v args args')
      (w.answer q v args) (w.answer q x args') := by
  -- the receiver comes first; it reads as it did, whatever the arguments
  rw [World.answer_congr stands (fun _ _ => ⟨rfl, rfl, rfl, rfl⟩) q]
  constructor
  · intro fit
    refine World.answer_of_selfWraps wraps ?_
    intro expected a a' converts ha ha' renames
    exact fit ⟨expected, a, q, a', rfl, converts, ha, ha', renames⟩
  · rintro expected a ⟨_, _, ⟨⟩, converts, rfl, rfl, renames⟩
    obtain ⟨classless, bare, u, rfl⟩ := renames
    have wrapped : w.classOf? (.selfRef u) = none := by
      cases wraps with
      | cons h _ => rw [World.classOf?_of_selfWraps h, classless]
    refine ⟨World.tag_ne_self bare, ?_, ?_⟩
    · exact World.answer_of_classless converts classless
    · exact World.answer_of_classless converts wrapped

/-- An installed native does the same, or it names the wrapper. -/
theorem Does.selfWraps (stands : w.StandsFor w v x)
    (wraps : List.Forall₂ Value.SelfWraps args args')
    (does : native.Does w console v args outcome after console') :
    ∃ outcome', native.Does w console x args' outcome' after console'
      ∧ Compared w (native.Misnames w v args args') outcome outcome' := by
  have alike : ∀ {outcome}, (∀ q, native ≠ .query q) →
      Compared w (native.Misnames w v args args') outcome outcome := by
    intro outcome other
    refine ⟨fun _ => .refl outcome, ?_⟩
    rintro - - ⟨q, -, rfl, -⟩
    exact absurd rfl (other q)
  cases does with
  | query q => exact ⟨_, .query q, compared_of_query stands wraps q⟩
  | printLine =>
      refine ⟨_, ?_, alike nofun⟩
      rw [← World.map_of_selfWraps World.inspect_of_selfWraps wraps]
      exact .printLine
  | noClass unfit =>
      rw [← stands.classFrom] at unfit
      exact ⟨_, .noClass unfit, alike nofun⟩
  | tooMany fit plain check =>
      rw [← stands.classFrom] at fit
      rw [wraps.length_eq] at check
      exact ⟨_, .tooMany fit plain check, alike nofun⟩
  | instantiate fit plain check =>
      rw [← stands.classFrom] at fit
      rw [wraps.length_eq] at check
      exact ⟨_, .instantiate fit plain check, alike nofun⟩

end Native

-- =============================================================== the calls

namespace Machine

variable {σ : Type} {m : Machine σ} {v x : Value} {name : String}
  {d : ClassId} {method : Method} {native : Native}
  {args args' : List Value} {site : CallSite}
  {next : Outcome → Program σ Outcome}

/-- Whether a call comes so far that a native calls for an argument that self
references rename. -/
def Misnames (m : Machine σ) (native : Native) (v : Value) (name : String)
    (args args' : List Value) (site : CallSite) (expected : String)
    (a : Value) : Prop :=
  (∃ method, m.verdict v name args site = .ok method)
    ∧ native.Misnames m.world v args args' expected a

/-- The verdict does not depend on self references. -/
theorem verdict_of_standsFor (stands : m.world.StandsFor m.world v x)
    (count : args'.length = args.length) :
    m.verdict x name args' site = m.verdict v name args site := by
  unfold verdict
  rw [stands.methodFor, count]

-- ============================================================ the theorem

/-- Self references show in nothing that a native does but in one fault. Let
a name lead a receiver to a method that runs an installed native; if it makes
objects, let nothing initialize what it makes. Then a call by the name comes
back with an outcome; and a call with self references around the receiver and
the arguments, any number of them each, comes back from the same state to the
same world and to the same printed text, and with the same outcome, unless it
is misnamed. In that case it fails just as the other, except that it calls an
argument without a class by the word for its wrapper. -/
theorem self_references_exact (host : Host σ) (m : Machine σ)
    (resolved : m.world.resolve? v name = some ⟨d, method⟩)
    (body : method.body = .native native) (installed : native.Installed)
    (plain : native.Plain m.world v) (self : v.SelfWraps x)
    (wraps : List.Forall₂ Value.SelfWraps args args') (site : CallSite)
    (next : Outcome → Program σ Outcome) :
    ∃ outcome outcome' w console,
      (∀ m', ComesBack host (m.asking v name args site next) m'
          ↔ m' = { m with world := w, console, current := next outcome })
        ∧ (∀ m', ComesBack host (m.asking x name args' site next) m'
          ↔ m' = { m with world := w, console, current := next outcome' })
        ∧ (SameOutcome outcome outcome' ↔ ¬ ∃ expected a,
          m.Misnames native v name args args' site expected a)
        ∧ ∀ expected a, m.Misnames native v name args args' site expected a →
          outcome = .error (.implicitConversion expected (m.world.tag a))
            ∧ outcome' = .error (.implicitConversion expected "SELF") := by
  have hasClass : (m.world.classOf? v).isSome := by
    obtain ⟨c, hc, -⟩ := Option.bind_eq_some_iff.1 resolved
    rw [hc]
    rfl
  have stands := World.standsFor_of_selfWraps self hasClass
  have alike : m.verdict x name args' site = m.verdict v name args site :=
    verdict_of_standsFor stands wraps.length_eq.symm
  -- what the two come back with is enough
  suffices back : ∃ outcome outcome' w console,
      ComesBack host (m.asking v name args site next)
          { m with world := w, console, current := next outcome }
        ∧ ComesBack host (m.asking x name args' site next)
          { m with world := w, console, current := next outcome' }
        ∧ Compared m.world (m.Misnames native v name args args' site)
          outcome outcome' by
    obtain ⟨outcome, outcome', w, console, back, back', compared⟩ := back
    exact ⟨outcome, outcome', w, console, fun _ => back.iff_eq,
      fun _ => back'.iff_eq, compared.same_iff,
      fun expected a misnames => (compared.apart expected a misnames).2⟩
  cases decided : m.verdict v name args site with
  | error fault =>
      have refused : m.verdict x name args' site = .error fault :=
        alike.trans decided
      refine ⟨.error fault, .error fault, m.world, m.console,
        comesBack_of_verdict host decided, comesBack_of_verdict host refused,
        fun _ => .refl _, ?_⟩
      rintro - - ⟨⟨_, allowed⟩, -⟩
      rw [decided] at allowed
      cases allowed
  | ok found =>
      obtain ⟨allowed, room⟩ := verdict_eq_ok_iff.1 decided
      obtain ⟨allowed', -⟩ := verdict_eq_ok_iff.1 (alike.trans decided)
      obtain rfl := eq_of_verdict resolved decided
      obtain ⟨outcome, w, console, does⟩ :=
        installed.does plain m.console args
      obtain ⟨outcome', does', compared⟩ := does.selfWraps stands wraps
      refine ⟨outcome, outcome', w, console,
        comesBack_of_does (call?_of_invoke rfl) allowed room body does,
        comesBack_of_does (call?_of_invoke rfl) allowed' room body does',
        fun fit => compared.same fun ⟨expected, a, misnames⟩ => ?_,
        fun expected a misnames => compared.apart expected a misnames.2⟩
      exact fit ⟨expected, a, ⟨found, decided⟩, misnames⟩

/-- What a call that changes nothing comes back with is all that it comes
back with. -/
theorem settled_of_comesBack {host : Host σ} {n : Machine σ} {w : World}
    {console : Console} {outcome given : Outcome}
    (back : ∀ m', ComesBack host n m'
      ↔ m' = { m with world := w, console, current := .done outcome })
    (plain : ComesBack host n { m with current := .done given }) :
    m.world = w ∧ m.console = console ∧ given = outcome := by
  have here := (back _).1 plain
  refine ⟨congrArg world here, congrArg Machine.console here, ?_⟩
  exact Program.done.inj (congrArg current here)

/-- The function for printing, in a self reference, is appended to an array
in one as it would be without them; and where it is to be added to an
integer, its wrapper is what the fault names. -/
theorem self_references_exact_roomy :
    (∃ outcome, SameOutcome (.ok (.array [.builtin "puts" .printLine])) outcome
      ∧ ComesBack endless
        (roomy.asking (.selfRef (.array [])) "push"
          [.selfRef (.builtin "puts" .printLine)] .explicit .done)
        { roomy with current := .done outcome })
    ∧ ComesBack endless
      (roomy.asking (.int 1) "+" [.selfRef (.builtin "puts" .printLine)]
        .explicit .done)
      { roomy with
        current := .done (.error (.implicitConversion "Integer" "SELF")) } := by
  have appends : (Native.query .append).Installed :=
    ⟨.array, _, .tail _ (.tail _ (.tail _ (.head _))), rfl⟩
  have adds : (Native.query .add).Installed :=
    ⟨.integer, _, .head _, rfl⟩
  have onArray : roomy.world.resolve? (.array []) "push"
      = some ⟨CoreClass.array.id, .any, .isPublic, .native _⟩ := rfl
  have onInteger : roomy.world.resolve? (.int 1) "+"
      = some ⟨CoreClass.integer.id, CoreClass.looks 1 .add⟩ := rfl
  have wraps : List.Forall₂ Value.SelfWraps [.builtin "puts" .printLine]
      [.selfRef (.builtin "puts" .printLine)] :=
    .cons (.selfRef .refl) .nil
  refine ⟨?_, ?_⟩
  · obtain ⟨outcome, outcome', w, console, back, back', same, -⟩ :=
      self_references_exact endless roomy onArray rfl appends nofun
        (.selfRef .refl) wraps .explicit .done
    obtain ⟨rfl, rfl, rfl⟩ := settled_of_comesBack back
      (comesBack_of_query (call?_of_invoke rfl) rfl rfl rfl)
    refine ⟨outcome', same.2 ?_, (back' _).2 rfl⟩
    rintro ⟨_, _, -, _, _, ⟨⟩, ⟨⟩, -⟩
  · obtain ⟨outcome, outcome', w, console, back, back', -, apart⟩ :=
      self_references_exact endless roomy onInteger rfl adds nofun .refl
        wraps .explicit .done
    obtain ⟨rfl, rfl, -⟩ := settled_of_comesBack back
      (comesBack_of_query (call?_of_invoke rfl) rfl rfl rfl)
    have misnames : roomy.Misnames (.query .add) (.int 1) "+"
        [.builtin "puts" .printLine]
        [.selfRef (.builtin "puts" .printLine)] .explicit "Integer"
        (.builtin "puts" .printLine) :=
      ⟨⟨_, rfl⟩, .add, _, rfl, rfl, rfl, rfl, rfl, nofun, _, rfl⟩
    rw [← (apart _ _ misnames).2]
    exact (back' _).2 rfl

/-- So at the start a self reference around the one argument of an installed
native changes what comes of a call: the two faults have different words. -/
theorem self_reference_named :
    Realm.start.Reachable ∧ roomy.world = Realm.start.world
      ∧ roomy.world.resolve? (.int 1) "+"
        = some ⟨CoreClass.integer.id, CoreClass.looks 1 .add⟩
      ∧ (Native.query .add).Installed
      ∧ (∀ m', ComesBack endless
          (roomy.asking (.int 1) "+" [.builtin "puts" .printLine] .explicit
            .done) m'
        ↔ m' = { roomy with
          current := .done (.error (.implicitConversion "Integer" "BUILTIN")) })
      ∧ (∀ m', ComesBack endless
          (roomy.asking (.int 1) "+"
            [.selfRef (.builtin "puts" .printLine)] .explicit .done) m'
        ↔ m' = { roomy with
          current := .done (.error (.implicitConversion "Integer" "SELF")) })
      ∧ ¬ SameOutcome (.error (.implicitConversion "Integer" "BUILTIN"))
        (.error (.implicitConversion "Integer" "SELF")) := by
  have comes : ∀ a, ComesBack endless
      (roomy.asking (.int 1) "+" [a] .explicit .done)
      { roomy with
        current := .done (roomy.world.answer .add (.int 1) [a]) } :=
    fun a => comesBack_looks endless rfl rfl rfl
  refine ⟨.refl, rfl, rfl, ⟨.integer, _, .head _, rfl⟩,
    fun _ => (comes _).iff_eq, fun _ => (comes _).iff_eq, fun same => ?_⟩
  have words := (Fault.implicitConversion.inj same.fault_eq).2
  exact absurd words (by decide)

end Machine

end ObjectWorld
