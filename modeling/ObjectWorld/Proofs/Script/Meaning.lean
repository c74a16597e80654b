/-
What expressions mean is honest.

An expression names scopes and classes only by looking them up, and every
value it works with comes from an operand, from the world or from a
reply. What the language keeps beside the world are the names of scopes,
and each of them names a scope that is there (`Keeps`). The proof goes
along the meaning: pieces first, then one case for each expression.
-/
import ObjectWorld.Proofs.Honest
import ObjectWorld.Proofs.Script.Report
import ObjectWorld.Script.Meaning

namespace ObjectWorld.Script

variable {r s : Realm} {v : Value} {c : ClassId}

-- ============================================================= the pieces

/-- What the language promises of its notes: every name of a scope names
one that is there. -/
def Keeps (r : Realm) (notes : Notes) : Prop :=
  ∀ name s, notes.scopes.get? name = some s → r.world.HasScope s

variable {α : Type} {gives : Realm → α → Prop} {here : ScopeId}

/-- Giving up on an operand names no scope anew, so the promise is kept. -/
theorem honest_malformed : (malformed : Act α).Honest Keeps gives r :=
  .own fun _ h => .keep h .throw

/-- What is needed may be given if all that can be there may. -/
theorem honest_needed {o : Option α} (h : ∀ a, o = some a → gives r a) :
    (needed o).Honest Keeps gives r := by
  cases o with
  | none => exact honest_malformed
  | some a => exact .pure (h a rfl)

/-- An operand that must be a class gives one that is there. -/
theorem honest_classOperand {e : Act Value} {rest : ClassId → Act α}
    (sound : r.Sound) (h : e.Honest Keeps Realm.Held r)
    (hrest : ∀ s c, r.Grows s → s.Sound → s.world.HasClass c →
      (rest c).Honest Keeps gives s) :
    (e >>= fun v => needed v.class? >>= rest).Honest Keeps gives r := by
  refine .bind Realm.Held sound h ?_
  intro s v grows soundThere held
  refine .bind (fun s c => s.world.HasClass c) soundThere
    (honest_needed fun c hc => soundThere.hasClass_of_class? held hc) ?_
  intro t c grows' soundLater there
  exact hrest t c (grows.trans grows') soundLater there

/-- An operand that must be a function gives one that is there. -/
theorem honest_functionOperand {e : Act Value}
    {rest : FunctionId × Visibility → Act α}
    (sound : r.Sound) (h : e.Honest Keeps Realm.Held r)
    (hrest : ∀ s f, r.Grows s → s.Sound → s.world.HasFunction f.1 →
      (rest f).Honest Keeps gives s) :
    (e >>= fun v => needed v.function? >>= rest).Honest Keeps gives r := by
  refine .bind Realm.Held sound h ?_
  intro s v grows soundThere held
  refine .bind (fun s f => s.world.HasFunction f.1) soundThere
    (honest_needed fun f hf =>
      soundThere.hasFunction_of_function? held hf) ?_
  intro t f grows' soundLater there
  exact hrest t f (grows.trans grows') soundLater there

/-- A name of a scope gives a scope that is there. -/
theorem honest_scopeNamed {name : String} {rest : ScopeId → Act α}
    (sound : r.Sound) (hhere : r.world.HasScope here)
    (hrest : ∀ s t, r.Grows s → s.Sound → s.world.HasScope t →
      (rest t).Honest Keeps gives s) :
    (scopeNamed here name >>= rest).Honest Keeps gives r := by
  refine .bind (fun s t => s.world.HasScope t) sound ?_ hrest
  unfold scopeNamed
  split
  · exact .pure hhere
  · exact .own fun notes h => honest_needed fun s hs => h name s hs

/-- Naming a scope that is there keeps the promise. -/
theorem honest_nameScope {name : String} {t : ScopeId}
    {rest : Unit → Act α} (there : r.world.HasScope t)
    (hrest : (rest ()).Honest Keeps gives r) :
    (nameScope name t >>= rest).Honest Keeps gives r := by
  refine .own fun notes h => .keep ?_ hrest
  intro key s hs
  change (notes.scopes.insert name t).get? key = some s at hs
  rw [Table.get?_insert] at hs
  split at hs
  · cases hs
    exact there
  · exact h key s hs

/-- A function is made where its scope is there. -/
theorem honest_makeFunction {params : List String} {body : Expr}
    {visibility : Visibility} (hhere : r.world.HasScope here) :
    (makeFunction params body here visibility).Honest Keeps Realm.Held
      r := by
  refine .own fun notes h => .keep h (.change hhere (.pure ?_))
  exact .function (World.hasFunction_newFunction.2 (.inr rfl)) visibility

/-- The exception of a fault is new, and so at hand. -/
theorem honest_exceptionFor (fault : Fault) :
    (exceptionFor fault).Honest Keeps Realm.Held r := by
  refine .change trivial (.pure (.exception ?_))
  exact World.hasException_newException.2 (.inr rfl)

/-- Arrays around a value at hand are at hand. -/
theorem held_nest (h : r.Held v) (levels : Nat) :
    r.Held (nest v levels) := by
  induction levels with
  | zero => exact h
  | succ levels ih => exact .array (Realm.held_cons ih Realm.held_nil)

/-- The report of a fault holds texts and its exception. -/
theorem honest_reportFault (sound : r.Sound) (fault : Fault) :
    (reportFault fault).Honest Keeps Realm.Held r := by
  refine .bind Realm.Held sound (honest_exceptionFor fault) ?_
  intro s e _ _ held
  exact .pure (.array (Realm.held_cons (.text _) (Realm.held_cons (.text _)
    (Realm.held_cons (.text _) (Realm.held_cons (.bool _)
      (Realm.held_cons held Realm.held_nil))))))

/-- A method that is found in a class is known there. -/
theorem honest_methodFound (sound : r.Sound) {name : String} :
    (methodFound c name).Honest Keeps Realm.Knows r := by
  refine .world (.bind
    (fun s (found : Resolution) => s.Knows found.method) sound ?_ ?_)
  · exact honest_needed fun found h => sound.knows_of_resolveIn? h
  · exact fun s found _ _ known => .pure known

/-- A method that is known stays known when it is recast, since its function
is the same, if it has one. -/
theorem knows_recast {method : Method} (h : r.Knows method)
    (arity : Arity) (visibility : Visibility) :
    r.Knows (recast r.world method arity visibility) := by
  unfold Realm.Knows at h
  unfold recast
  split
  · trivial
  · rename_i f hf
    rw [hf] at h
    exact h

-- ============================================================ the meaning

/-- A place where an expression can be evaluated. -/
structure Ready (r : Realm) (receiver : Value) (here : ScopeId) :
    Prop where
  sound : r.Sound
  held : r.Held receiver
  there : r.world.HasScope here

namespace Ready

variable {self : Value}

/-- A place stays one as the realm grows. -/
theorem later (ready : Ready r self here) (grows : r.Grows s)
    (sound : s.Sound) : Ready s self here :=
  ⟨sound, grows.held ready.held, grows.later.hasScope ready.there⟩

/-- So it does after an allowed change. -/
theorem after (ready : Ready r self here) {c : Change}
    (allowed : r.Allows c) : Ready (r.after c) self here :=
  ready.later (ready.sound.grows_after allowed) (ready.sound.after allowed)

end Ready

/-- Defining a class under one that is there, and going on with it. -/
theorem honest_defineClass {name : String} {superclass : Option ClassId}
    (sound : r.Sound) (allowed : ∀ c ∈ superclass, r.world.HasClass c) :
    (do return .cls (← liftM (← Eval.change
      (.defineClass name superclass))) : Act Value).Honest Keeps
        Realm.Held r := by
  have allowed : r.Allows (.defineClass name superclass) := allowed
  refine .change allowed (.bind (fun s c => s.world.HasClass c)
    (sound.after allowed) (.lift ?_) ?_)
  · exact fun c hc => sound.hasClass_of_defineClass hc
  · exact fun s c _ _ there => .pure (.cls there)

/-- Binding a name and going on with the value. -/
theorem honest_bound {c : Change} {rest : c.Reply → Act Value}
    (sound : r.Sound) (allowed : r.Allows c) (held : r.Held v)
    (hrest : ∀ reply, rest reply = pure v) :
    (Eval.change c >>= rest).Honest Keeps Realm.Held r := by
  refine .change allowed ?_
  rw [hrest]
  exact .pure ((sound.grows_after allowed).held held)

mutual

/-- An expression names only what is at hand and gives what is at
hand. -/
theorem Expr.honest_run (e : Expr) {r : Realm} {self : Value}
    {here : ScopeId} (ready : Ready r self here) :
    (e.run self here).Honest Keeps Realm.Held r := by
  have sound := ready.sound
  cases e with
  | nil => rw [Expr.run]; exact .pure .nil
  | bool b => rw [Expr.run]; exact .pure (.bool b)
  | int n => rw [Expr.run]; exact .pure (.int n)
  | text text => rw [Expr.run]; exact .pure (.text text)
  | symbol name => rw [Expr.run]; exact .pure (.symbol name)
  | required name => rw [Expr.run]; exact .pure (.required name)
  | repeated text count => rw [Expr.run]; exact .pure (.text _)
  | main => rw [Expr.run]; exact .pure sound.main
  | self => rw [Expr.run]; exact .pure ready.held
  | fail fault => rw [Expr.run]; exact .throw
  | builtin name routine => rw [Expr.run]; exact .pure (.builtin ..)
  | array items =>
      rw [Expr.run]
      refine .bind _ sound (runAll_honest items ready) ?_
      exact fun s vs _ _ held => .pure (.array held)
  | nested levels e =>
      rw [Expr.run]
      refine .bind _ sound (e.honest_run ready) ?_
      exact fun s v _ _ held => .pure (held_nest held levels)
  | selfRef e =>
      rw [Expr.run]
      refine .bind _ sound (e.honest_run ready) ?_
      exact fun s v _ _ held => .pure (.selfRef held)
  | ret e =>
      rw [Expr.run]
      refine .bind _ sound (e.honest_run ready) ?_
      exact fun s v _ _ held => .pure (.returned held)
  | exception cls message =>
      rw [Expr.run]
      refine honest_classOperand sound (cls.honest_run ready) ?_
      intro s c _ _ there
      refine .change there (.pure (.exception ?_))
      exact World.hasException_newException.2 (.inr rfl)
  | object cls =>
      rw [Expr.run]
      refine honest_classOperand sound (cls.honest_run ready) ?_
      intro s c _ _ there
      refine .change there (.pure (.object ?_))
      exact World.hasObject_newObject.2 (.inr rfl)
  | get name =>
      rw [Expr.run]
      refine .world (.pure ?_)
      cases hname : r.world.lookup? here name with
      | none => exact .nil
      | some v => exact sound.held_of_lookup? hname
  | set name e =>
      rw [Expr.run]
      refine .bind _ sound (e.honest_run ready) ?_
      intro s v grows soundThere held
      have allowed : s.Allows (.assign here name v) :=
        ⟨grows.later.hasScope ready.there, held⟩
      exact honest_bound soundThere allowed held fun _ => rfl
  | define name e =>
      rw [Expr.run]
      refine .bind _ sound (e.honest_run ready) ?_
      intro s v grows soundThere held
      have allowed : s.Allows (.define here name v) :=
        ⟨grows.later.hasScope ready.there, held⟩
      exact honest_bound soundThere allowed held fun _ => rfl
  | seq steps =>
      rw [Expr.run]
      exact runSteps_honest steps ready .nil
  | branch test thenBranch elseBranch =>
      rw [Expr.run]
      refine .bind _ sound (test.honest_run ready) ?_
      intro s v grows soundThere _
      have readyThere := ready.later grows soundThere
      split
      · exact thenBranch.honest_run readyThere
      · exact elseBranch.honest_run readyThere
  | rescue e handler =>
      rw [Expr.run]
      refine .tryCatch sound (e.honest_run ready) ?_
      intro s fault grows soundThere
      refine .bind _ soundThere (honest_exceptionFor fault) ?_
      intro t exception grows' soundLater held
      have readyThere := ready.later (grows.trans grows') soundLater
      have allowed : t.Allows (.define here "err" exception) :=
        ⟨readyThere.there, held⟩
      exact .change allowed (handler.honest_run (readyThere.after allowed))
  | attempt e =>
      rw [Expr.run]
      refine .tryCatch sound (.bind _ sound (e.honest_run ready) ?_) ?_
      · intro s v _ _ held
        exact .pure (.array (Realm.held_cons (.text _)
          (Realm.held_cons held Realm.held_nil)))
      · intro s fault _ soundThere
        exact honest_reportFault soundThere fault
  | call name args =>
      rw [Expr.run]
      refine .bind _ sound (runAll_honest args ready) ?_
      exact fun s vs grows _ held => .invoke (grows.held ready.held) held
  | invoke receiver name site args =>
      rw [Expr.run]
      refine .bind _ sound (receiver.honest_run ready) ?_
      intro s v grows soundThere hv
      refine .bind _ soundThere
        (runAll_honest args (ready.later grows soundThere)) ?_
      exact fun t vs grows' _ held => .invoke (grows'.held hv) held
  | apply callee args =>
      rw [Expr.run]
      refine .bind _ sound (callee.honest_run ready) ?_
      intro s v grows soundThere hv
      refine .bind _ soundThere
        (runAll_honest args (ready.later grows soundThere)) ?_
      exact fun t vs grows' _ held => .apply (grows'.held hv) held
  | ivar e name =>
      rw [Expr.run]
      refine .bind _ sound (e.honest_run ready) ?_
      intro s v _ soundThere _
      refine .world (.pure ?_)
      cases hget : v.object?.bind fun o => s.world.ivar? o name with
      | none => exact .nil
      | some u =>
          obtain ⟨o, -, ho⟩ := Option.bind_eq_some_iff.1 hget
          exact soundThere.ivar ho
  | setIvar e name value =>
      rw [Expr.run]
      refine .bind _ sound (e.honest_run ready) ?_
      intro s holder grows soundThere hholder
      refine .bind _ soundThere
        (value.honest_run (ready.later grows soundThere)) ?_
      intro t v grows' soundLater held
      split
      · rename_i o ho
        have allowed : t.Allows (.setIvar o name v) :=
          ⟨soundLater.hasObject_of_object? (grows'.held hholder) ho, held⟩
        exact honest_bound soundLater allowed held fun _ => rfl
      · exact .pure held
  | const name =>
      rw [Expr.run]
      refine .world (.pure (Realm.held_optionalClass ?_))
      exact fun c hc => (sound.registered hc).1
  | named name =>
      rw [Expr.run]
      refine .world (.bind (fun s c => s.world.HasClass c) sound
        (honest_needed fun c hc => (sound.registered hc).1) ?_)
      exact fun s c _ _ there => .pure (.cls there)
  | exceptionClass name =>
      rw [Expr.run]
      exact .world (.pure (.cls (sound.hasClass_exceptionClass name)))
  | defineClass name =>
      rw [Expr.run]
      exact honest_defineClass sound fun c hc => by cases hc
  | defineSubclass name superclass =>
      rw [Expr.run]
      refine honest_classOperand sound (superclass.honest_run ready) ?_
      intro s c _ soundThere there
      refine honest_defineClass soundThere ?_
      intro d hd
      cases hd
      exact there
  | defineModule name =>
      rw [Expr.run]
      have allowed : r.Allows (.defineModule name) := trivial
      refine .change allowed (.bind (fun s c => s.world.HasClass c)
        (sound.after allowed) (.lift ?_) ?_)
      · exact fun c hc => sound.hasClass_of_defineModule hc
      · exact fun s c _ _ there => .pure (.cls there)
  | newClass name =>
      rw [Expr.run]
      refine .change (fun c hc => by cases hc) (.pure (.cls ?_))
      exact World.hasClass_newClass.2 (.inr rfl)
  | newSubclass name superclass =>
      rw [Expr.run]
      refine honest_classOperand sound (superclass.honest_run ready) ?_
      intro s c _ _ there
      refine .change ?_ (.pure (.cls ?_))
      · intro x hx
        cases hx
        exact there
      · exact World.hasClass_newClass.2 (.inr rfl)
  | newModule name =>
      rw [Expr.run]
      refine .change trivial (.pure (.cls ?_))
      exact World.hasClass_newClass.2 (.inr rfl)
  | method cls name source =>
      rw [Expr.run]
      refine honest_classOperand sound (cls.honest_run ready) ?_
      intro s c grows soundThere there
      refine .bind _ soundThere
        (source.honest_run (ready.later grows soundThere)) ?_
      intro t method grows' _ known
      exact .change ⟨grows'.later.hasClass there, known⟩ (.pure .nil)
  | singletonMethod e name source =>
      rw [Expr.run]
      refine .bind _ sound (e.honest_run ready) ?_
      intro s v grows soundThere held
      refine .bind _ soundThere
        (source.honest_run (ready.later grows soundThere)) ?_
      intro t method grows' soundLater known
      have allowed : t.Allows (.defineSingletonMethod v name method) :=
        ⟨grows'.held held, known⟩
      refine .change allowed (.lift ?_)
      intro x hx
      refine soundLater.held_of_given allowed ?_
      rw [hx]
      exact List.mem_cons_self
  | eigenclass e =>
      rw [Expr.run]
      refine .bind _ sound (e.honest_run ready) ?_
      intro s v _ soundThere held
      have allowed : s.Allows (.extend v) := held
      refine .change allowed (.bind
        (fun t (p : Value × ClassId) => t.Held p.1 ∧ t.world.HasClass p.2)
        (soundThere.after allowed) (.lift ?_) ?_)
      · intro ⟨x, c⟩ hx
        refine ⟨soundThere.held_of_given allowed ?_, ?_⟩
        · rw [hx]
          exact List.mem_cons_self
        · exact soundThere.hasClass_of_extend held hx
      · intro t ⟨x, c⟩ _ _ ⟨hx, there⟩
        exact .pure (.array (Realm.held_cons hx
          (Realm.held_cons (.cls there) Realm.held_nil)))
  | function params body visibility =>
      rw [Expr.run]
      exact honest_makeFunction ready.there
  | withVisibility e visibility =>
      rw [Expr.run]
      refine honest_functionOperand sound (e.honest_run ready) ?_
      exact fun s f _ _ there => .pure (.function there visibility)
  | newScope name =>
      rw [Expr.run]
      refine .change (fun s hs => by cases hs)
        (honest_nameScope ?_ (.pure .nil))
      exact World.hasScope_newScope.2 (.inr rfl)
  | newScopeIn name outer =>
      rw [Expr.run]
      refine honest_scopeNamed sound ready.there ?_
      intro s t _ _ there
      refine .change ?_ (honest_nameScope ?_ (.pure .nil))
      · intro x hx
        cases hx
        exact there
      · exact World.hasScope_newScope.2 (.inr rfl)
  | saveScope name =>
      rw [Expr.run]
      exact honest_nameScope ready.there (.pure .nil)
  | outerScope scope name =>
      rw [Expr.run]
      refine honest_scopeNamed sound ready.there ?_
      intro s t _ _ _
      refine .world ?_
      split
      · rename_i outer houter
        exact honest_nameScope (World.HasScope.of_outer? houter)
          (.pure (.bool true))
      · exact .pure (.bool false)
  | within scope e =>
      rw [Expr.run]
      refine honest_scopeNamed sound ready.there ?_
      intro s t grows soundThere there
      exact e.honest_run ⟨soundThere, grows.held ready.held, there⟩
  | bindArguments function name args =>
      rw [Expr.run]
      refine honest_functionOperand sound (function.honest_run ready) ?_
      intro s f grows soundThere there
      refine .bind _ soundThere
        (runAll_honest args (ready.later grows soundThere)) ?_
      intro t vs grows' _ held
      refine .change ⟨grows'.later.hasFunction there, held⟩
        (honest_nameScope ?_ (.pure .nil))
      exact World.hasScope_newScope.2 (.inr rfl)
  | view what e =>
      rw [Expr.run]
      refine .bind _ sound (e.honest_run ready) ?_
      exact fun s v _ soundThere held =>
        .world (.pure (soundThere.held_view here what held))
  | viewClass what cls =>
      rw [Expr.run]
      refine honest_classOperand sound (cls.honest_run ready) ?_
      exact fun s c _ soundThere there =>
        .world (.pure (soundThere.held_viewClass what there))
  | same a b =>
      rw [Expr.run]
      refine .bind _ sound (a.honest_run ready) ?_
      intro s v grows soundThere _
      refine .bind _ soundThere
        (b.honest_run (ready.later grows soundThere)) ?_
      exact fun _ _ _ _ _ => .pure (.bool _)
  | sameClass a b =>
      rw [Expr.run]
      refine honest_classOperand sound (a.honest_run ready) ?_
      intro s c grows soundThere _
      refine honest_classOperand soundThere
        (b.honest_run (ready.later grows soundThere)) ?_
      exact fun _ _ _ _ _ => .pure (.bool _)
  | isBound name => rw [Expr.run]; exact .world (.pure (.bool _))
  | sameScope a b =>
      rw [Expr.run]
      refine honest_scopeNamed sound ready.there ?_
      intro s t grows soundThere _
      refine honest_scopeNamed soundThere
        (grows.later.hasScope ready.there) ?_
      exact fun _ _ _ _ _ => .pure (.bool _)
  | debugScope scope =>
      rw [Expr.run]
      refine honest_scopeNamed sound ready.there ?_
      exact fun _ _ _ _ _ => .world (.pure (.text _))
  | ownMethod cls name =>
      rw [Expr.run]
      refine honest_classOperand sound (cls.honest_run ready) ?_
      intro s c _ _ _
      refine .world (.pure ?_)
      cases s.world.ownMethod? c name with
      | none => exact .nil
      | some method =>
          exact Realm.held_reportMethod method fun d hd => by cases hd
  | resolveIn cls name =>
      rw [Expr.run]
      refine honest_classOperand sound (cls.honest_run ready) ?_
      intro s c _ _ there
      refine .world (.pure (Realm.held_reportResolution ?_))
      exact fun f hf => there.of_mem_ancestors (World.owner_mem_ancestors hf)
  | resolve e name =>
      rw [Expr.run]
      refine .bind _ sound (e.honest_run ready) ?_
      intro s v _ soundThere held
      refine .world (.pure (Realm.held_reportResolution ?_))
      exact fun f hf => soundThere.hasClass_of_resolve? held hf
  | debugMethod e name =>
      rw [Expr.run]
      refine .bind _ sound (e.honest_run ready) ?_
      intro s v _ _ _
      refine .world (.pure ?_)
      cases s.world.resolve? v name with
      | none => exact .nil
      | some found => exact Realm.held_texts _
  | respondsIn cls name site =>
      rw [Expr.run]
      refine honest_classOperand sound (cls.honest_run ready) ?_
      exact fun _ _ _ _ _ => .world (.pure (.bool _))
  | responds e name site =>
      rw [Expr.run]
      refine .bind _ sound (e.honest_run ready) ?_
      exact fun _ _ _ _ _ => .world (.pure (.bool _))
  | coreClasses =>
      rw [Expr.run]
      refine .pure (.array ?_)
      intro v hv
      obtain ⟨c, -, rfl⟩ := List.mem_map.1 hv
      exact .cls (sound.core c).1
  | depth =>
      rw [Expr.run]
      exact .depth fun n => .pure (Realm.held_count n)
  | limit =>
      rw [Expr.run]
      refine .limit fun n => .pure ?_
      cases n with
      | none => exact .nil
      | some n => exact Realm.held_count n
  | evals =>
      rw [Expr.run]
      exact .own fun notes _ => .pure (Realm.held_count notes.evals)
  | output => rw [Expr.run]; exact .output fun text => .pure (.text text)
  | clear => rw [Expr.run]; exact .clear (.pure .nil)
  | print line => rw [Expr.run]; exact .print (.pure .nil)

/-- Expressions one after the other give values at hand at the end: the
earlier ones stay at hand meanwhile. -/
theorem runAll_honest (es : List Expr) {r : Realm} {self : Value}
    {here : ScopeId} (ready : Ready r self here) :
    (runAll self here es).Honest Keeps
      (fun s vs => ∀ v ∈ vs, s.Held v) r := by
  cases es with
  | nil =>
      rw [runAll]
      exact .pure Realm.held_nil
  | cons e rest =>
      rw [runAll]
      refine .bind _ ready.sound (e.honest_run ready) ?_
      intro s v grows soundThere hv
      refine .bind _ soundThere
        (runAll_honest rest (ready.later grows soundThere)) ?_
      exact fun t vs grows' _ held =>
        .pure (Realm.held_cons (grows'.held hv) held)

/-- Steps give what the last of them gave, or what an earlier one returned,
and both are at hand. -/
theorem runSteps_honest (es : List Expr) {r : Realm} {self last : Value}
    {here : ScopeId} (ready : Ready r self here) (hlast : r.Held last) :
    (runSteps self here last es).Honest Keeps Realm.Held r := by
  cases es with
  | nil =>
      rw [runSteps]
      exact .pure hlast
  | cons e rest =>
      rw [runSteps]
      refine .bind _ ready.sound (e.honest_run ready) ?_
      intro s v grows soundThere held
      split
      · exact .pure held
      · exact runSteps_honest rest (ready.later grows soundThere) held

/-- A method that is given by an expression is known: it names no function
but one at hand. -/
theorem MethodExpr.honest_run (m : MethodExpr) {r : Realm} {self : Value}
    {here : ScopeId} (ready : Ready r self here) :
    (m.run self here).Honest Keeps Realm.Knows r := by
  have sound := ready.sound
  cases m with
  | native routine arity visibility =>
      rw [MethodExpr.run]
      exact .pure trivial
  | found cls name =>
      rw [MethodExpr.run]
      refine honest_classOperand sound (cls.honest_run ready) ?_
      exact fun s c _ soundThere _ => honest_methodFound soundThere
  | recast cls name arity visibility =>
      rw [MethodExpr.run]
      refine honest_classOperand sound (cls.honest_run ready) ?_
      intro s c _ soundThere _
      refine .bind _ soundThere (honest_methodFound soundThere) ?_
      exact fun t method _ _ known =>
        .world (.pure (knows_recast known arity visibility))
  | function e =>
      rw [MethodExpr.run]
      refine honest_functionOperand sound (e.honest_run ready) ?_
      exact fun s f _ _ there => .world (.pure there)

end

end ObjectWorld.Script
