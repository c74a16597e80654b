/-
The moves that changes are made of, and what each can do.

A change of a world is one move or a few: one new record, one field of
one record, or one entry of the ledger (`Move`). What holds of every
reachable realm is stated here (`Sound`), and each lemma says what a move
can do to one reading of a sound realm. The last reading is the one that
decides about eigenclasses: a move leaves all records of eigenclasses, or
it records a new eigenclass of one identity that had none, right below
the class that the identity had (`Move.singleton?`).

Sound.lean puts the lemmas together: every move keeps a realm sound, and
every allowed change of a sound realm is made of moves.
-/
import ObjectWorld.Proofs.Realm

namespace ObjectWorld.Realm

variable {r s : Realm} {v : Value}

-- ============================================================ the laws

/-- A bare value and an eigenclass that it has been extended with: the
eigenclass is still the class of the value, or the value has nowhere to
record it and its class is the one right above. -/
structure Extension (r : Realm) (inner : Value) (eigenclass : ClassId) :
    Prop where
  held : r.Held inner
  bare : inner.bare = inner
  there : r.world.HasClass eigenclass
  kind : r.world.isEigenclass eigenclass = true
  cls : r.world.classOf? inner = some eigenclass
    ∨ inner.identity? = none
      ∧ r.world.superclass? eigenclass = r.world.classOf? inner

/-- What holds of every reachable realm. -/
structure Sound (r : Realm) : Prop where
  /-- The core classes are there and keep their kinds. -/
  core : ∀ c : CoreClass, r.world.HasClass c.id
    ∧ r.world.isEigenclass c.id = false
  /-- The class of an object is there. -/
  ofObject : ∀ {o}, r.world.HasObject o →
    r.world.HasClass (r.world.objectInfo o).cls
  /-- The class of an exception is there. -/
  ofException : ∀ {e}, r.world.HasException e →
    r.world.HasClass (r.world.exceptionInfo e).cls
  /-- What is registered is there and is no eigenclass. -/
  registered : ∀ {name c}, r.world.registered? name = some c →
    r.world.HasClass c ∧ r.world.isEigenclass c = false
  /-- The function of a method is there. -/
  method : ∀ {c name method}, r.world.ownMethod? c name = some method →
    r.Knows method
  /-- The scope of a function is there. -/
  scope : ∀ {f}, r.world.HasFunction f →
    r.world.HasScope (r.world.functionInfo f).scope
  /-- An eigenclass on record stands right below the class that the
  identity has of its own, and that one is none. -/
  singleton : ∀ {i e}, r.world.singleton? i = some e →
    r.world.HasClass e ∧ r.world.isEigenclass e = true
      ∧ r.world.superclass? e = some (r.world.ownClass i)
      ∧ r.world.isEigenclass (r.world.ownClass i) = false
  /-- No eigenclass is on record for two identities. -/
  distinct : ∀ {i j e}, r.world.singleton? i = some e →
    r.world.singleton? j = some e → i = j
  /-- What has been handed out is an extension. -/
  handed : ∀ x ∈ r.handed, ∃ inner e, x = .extended inner e
    ∧ r.Extension inner e
  /-- What a scope binds is at hand. -/
  binding : ∀ {s name v}, (r.world.bindings s).get? name = some v →
    r.Held v
  /-- What an object keeps is at hand. -/
  ivar : ∀ {o name v}, r.world.ivar? o name = some v → r.Held v
  /-- The main receiver is at hand. -/
  main : r.Held World.main

namespace Sound

/-- What is under the wrappers of a value at hand is at hand. -/
theorem held_bare (sound : r.Sound) (h : r.Held v) : r.Held v.bare := by
  induction h with
  | @extended inner eigenclass h =>
      obtain ⟨inner, e, heq, extension⟩ := sound.handed _ h
      cases heq
      show r.Held inner.bare
      rw [extension.bare]
      exact extension.held
  | selfRef _ ih => exact ih
  | nil => exact .nil
  | bool b => exact .bool b
  | int n => exact .int n
  | text s => exact .text s
  | symbol name => exact .symbol name
  | array h _ => exact .array h
  | exception h => exact .exception h
  | function h visibility => exact .function h visibility
  | builtin name native => exact .builtin name native
  | cls h => exact .cls h
  | object h => exact .object h
  | returned h _ => exact .returned h
  | required name => exact .required name

/-- An identity with a handle at hand is there. -/
theorem has_identity (sound : r.Sound) (h : r.Held v) {i : Identity}
    (hi : v.identity? = some i) : r.world.Has i := by
  have hbare := sound.held_bare h
  rw [Value.identity?_eq_some.1 hi] at hbare
  cases i with
  | object o => exact held_object.1 hbare
  | cls c => exact held_cls.1 hbare

/-- The own class of an identity is there. -/
theorem hasClass_ownClass (sound : r.Sound) {i : Identity}
    (h : r.world.Has i) : r.world.HasClass (r.world.ownClass i) := by
  cases i with
  | object o => exact sound.ofObject h
  | cls c =>
      show r.world.HasClass (if r.world.isModule c then _ else _)
      split
      · exact (sound.core .module).1
      · exact (sound.core .cls).1

/-- The class of a value at hand is there. -/
theorem hasClass_classOf? (sound : r.Sound) (h : r.Held v) {c : ClassId}
    (hc : r.world.classOf? v = some c) : r.world.HasClass c := by
  have identity : ∀ {i : Identity}, r.world.Has i →
      r.world.classOf? i.value = some c → r.world.HasClass c := by
    intro i hi hc
    rw [World.classOf?_value, Option.some.injEq] at hc
    subst hc
    cases hs : r.world.singleton? i with
    | none => exact sound.hasClass_ownClass hi
    | some e => exact (sound.singleton hs).1
  induction h with
  | nil => cases hc; exact (sound.core .nilClass).1
  | bool b =>
      cases b with
      | false => cases hc; exact (sound.core .falseClass).1
      | true => cases hc; exact (sound.core .trueClass).1
  | int n => cases hc; exact (sound.core .integer).1
  | text s => cases hc; exact (sound.core .string).1
  | symbol name => cases hc; exact (sound.core .symbol).1
  | array h _ => cases hc; exact (sound.core .array).1
  | exception h => cases hc; exact sound.ofException h
  | function h visibility => cases hc
  | builtin name native => cases hc
  | @cls d h => exact identity (i := .cls d) h hc
  | @object o h => exact identity (i := .object o) h hc
  | extended h =>
      obtain ⟨inner, e, heq, extension⟩ := sound.handed _ h
      cases heq
      cases hc
      exact extension.there
  | selfRef _ ih => exact ih hc
  | returned h _ => cases hc
  | required name => cases hc

end Sound

-- =========================================================== the moves

/-- One move: one new record, one field of one record or one entry of the
ledger. -/
inductive Move : Realm → Realm → Prop
  | newClass {r : Realm} {name : String} {kind : ClassKind}
      {superclass : Option ClassId} (plain : kind ≠ .eigenclass) :
      Move r { r with
        world := (r.world.newClass name kind superclass).2 }
  | register {r : Realm} {name : String} {c : ClassId}
      (there : r.world.HasClass c)
      (plain : r.world.isEigenclass c = false) :
      Move r { r with world := { r.world with
        registry := r.world.registry.insert name c } }
  | newObject {r : Realm} {cls : ClassId} (there : r.world.HasClass cls) :
      Move r { r with world := (r.world.newObject cls).2 }
  | newException {r : Realm} {cls : ClassId} {message : String}
      (there : r.world.HasClass cls) :
      Move r { r with world := (r.world.newException cls message).2 }
  | newFunction {r : Realm} {info : FunctionInfo}
      (there : r.world.HasScope info.scope) :
      Move r { r with world := (r.world.newFunction info).2 }
  | newScope {r : Realm} {outer : Option ScopeId} {table : Table Value}
      (held : ∀ {name v}, table.get? name = some v → r.Held v) :
      Move r { r with world := (r.world.newScope outer table).2 }
  | defineMethod {r : Realm} {c : ClassId} {name : String}
      {method : Method} (there : r.world.HasClass c)
      (known : r.Knows method) :
      Move r { r with world := r.world.defineMethod c name method }
  | setIvar {r : Realm} {o : ObjectId} {name : String} {v : Value}
      (there : r.world.HasObject o) (held : r.Held v) :
      Move r { r with world := r.world.setIvar o name v }
  | define {r : Realm} {s : ScopeId} {name : String} {v : Value}
      (there : r.world.HasScope s) (held : r.Held v) :
      Move r { r with world := r.world.define s name v }
  /-- A value is handed out again with the eigenclass it has. -/
  | hand {r : Realm} {inner : Value} {eigenclass : ClassId}
      (extension : r.Extension inner eigenclass) :
      Move r { r with
        handed := .extended inner eigenclass :: r.handed }
  /-- A value is handed out with a new eigenclass. -/
  | extend {r : Realm} {inner : Value} {current : ClassId}
      (held : r.Held inner) (bare : inner.bare = inner)
      (cls : r.world.classOf? inner = some current)
      (plain : r.world.isEigenclass current = false) :
      Move r {
        world := (r.world.newEigenclass inner current).2
        handed := .extended inner ⟨r.world.classes.size⟩ :: r.handed }

namespace Move

/-- No move takes anything away. -/
theorem later (move : Move r s) : r.world.Later s.world := by
  cases move with
  | newClass => exact World.later_newClass ..
  | register => exact { World.Later.refl r.world with }
  | newObject => exact World.later_newObject ..
  | newException => exact World.later_newException ..
  | newFunction => exact World.later_newFunction ..
  | newScope => exact World.later_newScope ..
  | defineMethod => exact World.later_defineMethod ..
  | setIvar => exact World.later_setIvar ..
  | define => exact World.later_define ..
  | hand => exact World.Later.refl _
  | extend => exact World.later_newEigenclass ..

/-- The ledger only grows. -/
theorem mem_handed (move : Move r s) : ∀ x ∈ r.handed, x ∈ s.handed := by
  intro x hx
  cases move with
  | hand => exact List.mem_cons_of_mem _ hx
  | extend => exact List.mem_cons_of_mem _ hx
  | _ => exact hx

theorem held (move : Move r s) (h : r.Held v) : s.Held v :=
  h.mono move.later move.mem_handed

theorem knows (move : Move r s) {method : Method} (h : r.Knows method) :
    s.Knows method := by
  unfold Knows at h ⊢
  split
  · trivial
  · rename_i f hf
    rw [hf] at h
    exact move.later.hasFunction h

-- ==================================================== what a move can add

/-- An object is an old one, or its class is there. -/
theorem object (move : Move r s) {o : ObjectId} (h : s.world.HasObject o) :
    r.world.HasObject o
      ∨ s.world.HasClass (s.world.objectInfo o).cls := by
  have later := move.later
  cases move with
  | @newObject cls there =>
      rcases World.hasObject_newObject.1 h with h | ho
      · exact .inl h
      · refine .inr ?_
        rw [World.objectInfo_newObject, if_pos ho]
        exact later.hasClass there
  | setIvar => exact .inl (World.hasObject_setIvar.1 h)
  | extend => exact .inl (World.hasObject_newEigenclass.1 h)
  | _ => exact .inl h

/-- An exception is an old one, or its class is there. -/
theorem exception (move : Move r s) {e : ExceptionId}
    (h : s.world.HasException e) :
    r.world.HasException e
      ∨ s.world.HasClass (s.world.exceptionInfo e).cls := by
  have later := move.later
  cases move with
  | @newException cls message there =>
      rcases World.hasException_newException.1 h with h | he
      · exact .inl h
      · refine .inr ?_
        rw [World.exceptionInfo_newException, if_pos he]
        exact later.hasClass there
  | extend =>
      refine .inl ?_
      unfold World.HasException at h
      rw [World.newEigenclass_eq,
        (World.frame_recordEigenclass ..).2.1] at h
      exact h
  | _ => exact .inl h

/-- A function is an old one, or its scope is there. -/
theorem function (move : Move r s) {f : FunctionId}
    (h : s.world.HasFunction f) :
    r.world.HasFunction f
      ∨ s.world.HasScope (s.world.functionInfo f).scope := by
  have later := move.later
  cases move with
  | @newFunction info there =>
      rcases World.hasFunction_newFunction.1 h with h | hf
      · exact .inl h
      · refine .inr ?_
        rw [World.functionInfo_newFunction, if_pos hf]
        exact later.hasScope there
  | extend =>
      refine .inl ?_
      unfold World.HasFunction at h
      rw [World.newEigenclass_eq,
        (World.frame_recordEigenclass ..).2.2.1] at h
      exact h
  | _ => exact .inl h

/-- What a name is registered for it was registered for before, or it is
there and is no eigenclass. -/
theorem registered (move : Move r s) {name : String} {c : ClassId}
    (h : s.world.registered? name = some c) :
    r.world.registered? name = some c
      ∨ s.world.HasClass c ∧ s.world.isEigenclass c = false := by
  cases move with
  | @register key d there plain =>
      unfold World.registered? at h
      rw [Table.get?_insert] at h
      split at h
      · cases h
        exact .inr ⟨there, plain⟩
      · exact .inl h
  | extend =>
      refine .inl ?_
      unfold World.registered? at h
      rw [World.newEigenclass_eq, (World.frame_recordEigenclass ..).1] at h
      exact h
  | _ => exact .inl h

/-- A method is an old one, or its function is there. -/
theorem method (move : Move r s) {c : ClassId} {name : String}
    {method : Method} (h : s.world.ownMethod? c name = some method) :
    r.world.ownMethod? c name = some method ∨ s.Knows method := by
  cases move with
  | newClass =>
      rw [World.ownMethod?_newClass] at h
      split at h
      · cases h
      · exact .inl h
  | @defineMethod d key given there known =>
      rw [World.ownMethod?_defineMethod there] at h
      split at h
      · cases h
        exact .inr known
      · exact .inl h
  | setIvar => exact .inl h
  | extend =>
      rw [World.ownMethod?_newEigenclass] at h
      split at h
      · cases h
      · exact .inl h
  | _ => exact .inl h

/-- What a scope binds it bound before, or it is at hand. -/
theorem binding (move : Move r s) {t : ScopeId} {name : String}
    (h : (s.world.bindings t).get? name = some v) :
    (r.world.bindings t).get? name = some v ∨ s.Held v := by
  have held : ∀ {v}, r.Held v → s.Held v := move.held
  cases move with
  | newScope given =>
      rw [World.bindings_newScope] at h
      split at h
      · exact .inr (held (given h))
      · exact .inl h
  | define there given =>
      rw [World.bindings_define there] at h
      split at h
      · rw [Table.get?_insert] at h
        split at h
        · cases h
          exact .inr (held given)
        · exact .inl h
      · exact .inl h
  | extend =>
      refine .inl ?_
      unfold World.bindings at h
      rw [World.newEigenclass_eq,
        (World.frame_recordEigenclass ..).2.2.2] at h
      exact h
  | _ => exact .inl h

/-- What an object keeps it kept before, or it is at hand. -/
theorem ivar (move : Move r s) {o : ObjectId} {name : String}
    (h : s.world.ivar? o name = some v) :
    r.world.ivar? o name = some v ∨ s.Held v := by
  have held : ∀ {v}, r.Held v → s.Held v := move.held
  unfold World.ivar? at h ⊢
  cases move with
  | newObject =>
      rw [World.objectInfo_newObject] at h
      split at h
      · cases h
      · exact .inl h
  | setIvar there given =>
      rw [World.objectInfo_setIvar there] at h
      split at h
      · rw [Table.get?_insert] at h
        split at h
        · cases h
          exact .inr (held given)
        · exact .inl h
      · exact .inl h
  | extend =>
      refine .inl ?_
      rw [World.newEigenclass_eq, (World.cls_recordEigenclass ..).2] at h
      exact h
  | _ => exact .inl h

-- =============================================== the record of eigenclasses

/-- A move leaves all records of eigenclasses, or it records a new
eigenclass of one identity that had none, right below the class that the
identity has of its own. -/
theorem singleton? (sound : r.Sound) (move : Move r s) :
    (∀ i, s.world.singleton? i = r.world.singleton? i)
      ∨ ∃ i e, r.world.Has i
        ∧ r.world.singleton? i = none
        ∧ r.world.isEigenclass (r.world.ownClass i) = false
        ∧ ¬ r.world.HasClass e
        ∧ s.world.HasClass e
        ∧ s.world.isEigenclass e = true
        ∧ s.world.superclass? e = some (r.world.ownClass i)
        ∧ ∀ j, s.world.singleton? j
          = if j = i then some e else r.world.singleton? j := by
  cases move with
  | newClass => exact .inl fun _ => World.singleton?_newClass ..
  | newObject => exact .inl fun _ => World.singleton?_newObject ..
  | defineMethod => exact .inl fun _ => World.singleton?_defineMethod ..
  | setIvar => exact .inl fun _ => World.singleton?_setIvar ..
  | register | newException | newFunction | newScope | define | hand =>
      exact .inl fun i => by cases i <;> rfl
  | @extend inner current held bare cls plain =>
      cases hi : inner.identity? with
      | none =>
          exact .inl fun _ =>
            World.singleton?_newEigenclass_plain hi bare current _
      | some i =>
          have hinner : inner = i.value := by
            rw [← bare]
            exact Value.identity?_eq_some.1 hi
          have has := sound.has_identity held hi
          subst hinner
          rw [World.classOf?_value, Option.some.injEq] at cls
          -- An identity with an eigenclass is not given another one.
          have hnone : r.world.singleton? i = none := by
            cases hs : r.world.singleton? i with
            | none => rfl
            | some e =>
                rw [hs, Option.getD_some] at cls
                rw [← cls, (sound.singleton hs).2.1] at plain
                cases plain
          rw [hnone, Option.getD_none] at cls
          subst cls
          have there := sound.hasClass_ownClass has
          refine .inr ⟨i, ⟨r.world.classes.size⟩, has, hnone, plain,
            Nat.lt_irrefl _, World.hasClass_newEigenclass.2 (.inr rfl),
            ?_, ?_, World.singleton?_newEigenclass has _⟩
          · show (r.world.newEigenclass ..).2.isEigenclass _ = true
            rw [World.isEigenclass_newEigenclass, if_pos rfl]
          · show (r.world.newEigenclass ..).2.superclass? _ = _
            rw [World.superclass?_newEigenclass there, if_pos rfl]

/-- An eigenclass that decides for an identity decides for good. -/
theorem classOf?_value (sound : r.Sound) (move : Move r s)
    {i : Identity} {e : ClassId} (has : r.world.Has i)
    (cls : r.world.classOf? i.value = some e)
    (kind : r.world.isEigenclass e = true) :
    s.world.classOf? i.value = some e := by
  rw [World.classOf?_value] at cls ⊢
  rw [move.later.ownClass has]
  rcases move.singleton? sound with
    same | ⟨j, f, -, hnone, plain, -, -, -, -, heq⟩
  · rw [same, cls]
  · rw [heq]
    split
    · rename_i hij
      subst hij
      rw [hnone, Option.getD_none, Option.some.injEq] at cls
      rw [cls, kind] at plain
      cases plain
    · exact cls

/-- The class of a bare value without an identity never changes. -/
theorem classOf?_plain (move : Move r s) (held : r.Held v)
    (bare : v.bare = v) (plain : v.identity? = none) :
    s.world.classOf? v = r.world.classOf? v := by
  cases held with
  | exception h =>
      show some (s.world.exceptionInfo _).cls
        = some (r.world.exceptionInfo _).cls
      rw [move.later.exceptionInfo h]
  | bool b => cases b <;> rfl
  | cls h => cases plain
  | object h => cases plain
  | extended h => exact absurd bare (Value.bare_ne.2 _)
  | selfRef h => exact absurd bare Value.bare_ne.1
  | _ => rfl

/-- An extension stays one. -/
theorem extension (sound : r.Sound) (move : Move r s) {inner : Value}
    {e : ClassId} (h : r.Extension inner e) : s.Extension inner e where
  held := move.held h.held
  bare := h.bare
  there := move.later.hasClass h.there
  kind := by
    rw [move.later.isEigenclass h.there]
    exact h.kind
  cls := by
    cases hi : inner.identity? with
    | none =>
        rw [move.classOf?_plain h.held h.bare hi,
          move.later.superclass? h.there]
        rcases h.cls with cls | ⟨-, cls⟩
        · exact .inl cls
        · exact .inr ⟨rfl, cls⟩
    | some i =>
        have hinner : inner = i.value := by
          rw [← h.bare]
          exact Value.identity?_eq_some.1 hi
        rcases h.cls with cls | ⟨hnone, -⟩
        · refine .inl ?_
          have has := sound.has_identity h.held hi
          rw [hinner] at cls ⊢
          exact move.classOf?_value sound has cls h.kind
        · rw [hi] at hnone
          cases hnone

/-- A new entry of the ledger is an extension. -/
theorem handed (sound : r.Sound) (move : Move r s) :
    ∀ x ∈ s.handed, x ∈ r.handed
      ∨ ∃ inner e, x = .extended inner e ∧ s.Extension inner e := by
  intro x hx
  have hmove := move
  cases move with
  | hand extension =>
      rcases List.mem_cons.1 hx with rfl | hx
      · exact .inr ⟨_, _, rfl, hmove.extension sound extension⟩
      · exact .inl hx
  | @extend inner current held bare cls plain =>
      rcases List.mem_cons.1 hx with rfl | hx
      · refine .inr ⟨_, _, rfl, hmove.held held, bare,
          World.hasClass_newEigenclass.2 (.inr rfl), ?_, ?_⟩
        · show (r.world.newEigenclass ..).2.isEigenclass _ = true
          rw [World.isEigenclass_newEigenclass, if_pos rfl]
        · cases hi : inner.identity? with
          | none =>
              refine .inr ⟨rfl, ?_⟩
              rw [hmove.classOf?_plain held bare hi, cls]
              show (r.world.newEigenclass ..).2.superclass? _ = _
              have there := sound.hasClass_classOf? held cls
              rw [World.superclass?_newEigenclass there, if_pos rfl]
          | some i =>
              refine .inl ?_
              have hinner : inner = i.value := by
                rw [← bare]
                exact Value.identity?_eq_some.1 hi
              have has := sound.has_identity held hi
              subst hinner
              rw [World.classOf?_value]
              show some (((r.world.newEigenclass ..).2.singleton? i).getD
                _) = _
              rw [World.singleton?_newEigenclass has, if_pos rfl]
              rfl
      · exact .inl hx
  | _ => exact .inl hx

end Move

end ObjectWorld.Realm
