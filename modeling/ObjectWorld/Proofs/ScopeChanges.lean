/-
What later changes do to the scopes.

Each change does one thing to the scopes, if it does anything: it makes
one, or it writes one name of one scope (`touches_perform`). So what holds
of a scope for good is read off one change and then of any list of them
(`afterAll`): it stands where it stood, what it bound it binds, and a name
that nobody writes there keeps its value. Nothing is asked of the changes;
they may name what is not there.

Of what is written through a scope to a name that it binds, the rest is
geometry. Nothing but that scope changes (`DiffersAt`), no scope stands
inside one that was made later, and whoever does not see a scope does not
see what is written there.
-/
import ObjectWorld.Proofs.Lasting
import ObjectWorld.Proofs.Scoping

namespace ObjectWorld

-- ========================================================= one change

/-- The one write that a change makes to a scope, if it makes one: where,
and which name it gives which value. -/
def Change.write? (w : World) : Change → Option (ScopeId × String × Value)
  | .define s name v => some (s, name, v)
  | .assign e name v => some ((w.binder? e name).getD e, name, v)
  | _ => none

namespace World

variable {w w' : World} {e s t : ScopeId} {name : String} {v : Value}
  {c : Change} {changes : List Change}
  {write : Option (ScopeId × String × Value)}

/-- What a change can do to the scopes: nothing, or it makes one, or it
makes one write. -/
inductive Touches (w w' : World) : Option (ScopeId × String × Value) → Prop
  | nothing (scopes : w'.scopes = w.scopes) : Touches w w' none
  | made {outer : Option ScopeId} {table : Table Value}
      (scopes : w'.scopes = (w.newScope outer table).2.scopes) :
      Touches w w' none
  | wrote {s : ScopeId} {name : String} {v : Value}
      (scopes : w'.scopes = (w.define s name v).scopes) :
      Touches w w' (some (s, name, v))

/-- Extending a value leaves the scopes. -/
theorem scopes_extend (w : World) (v : Value) :
    (w.extend v).2.scopes = w.scopes := by
  rcases w.world_extend v with same | ⟨current, made⟩
  · rw [same]
  · rw [made, newEigenclass_eq]
    exact (frame_recordEigenclass ..).2.2.2

/-- Each change makes the write that is told of it, and no other. -/
theorem touches_perform (w : World) (c : Change) :
    w.Touches (c.perform w).2 (c.write? w) := by
  cases c with
  | define s name v => exact .wrote rfl
  | assign e name v => exact .wrote rfl
  | newScope outer => exact .made rfl
  | bindArguments f args => exact .made rfl
  | defineClass name superclass =>
      refine .nothing ?_
      rcases w.world_defineClass name superclass with same | ⟨above, made⟩
      · exact congrArg scopes same
      · exact (congrArg scopes made).trans rfl
  | defineModule name =>
      refine .nothing ?_
      rcases w.world_defineModule name with same | made
      · exact congrArg scopes same
      · exact (congrArg scopes made).trans rfl
  | extend v => exact .nothing (w.scopes_extend v)
  | defineSingletonMethod v name method =>
      refine .nothing (Eq.trans ?_ (w.scopes_extend v))
      rcases w.world_defineSingletonMethod v name method with
        same | ⟨e, defined⟩
      · exact congrArg scopes same
      · exact (congrArg scopes defined).trans rfl
  | _ => exact .nothing rfl

/-- What a scope binds is written with the scopes. -/
theorem bindings_of_scopes (scopes : w'.scopes = w.scopes) (t : ScopeId) :
    w'.bindings t = w.bindings t := by
  unfold bindings
  rw [scopes]

/-- A definition is written in its own scope only. -/
theorem bindings_define_of_ne (hne : t ≠ s) (name : String) (v : Value) :
    (w.define s name v).bindings t = w.bindings t := by
  simp only [bindings, define, Forest.label?_relabel, if_neg hne.symm]

namespace Touches

/-- A name of a scope that is there keeps its value, unless that is what is
written. -/
theorem get?_bindings (touches : w.Touches w' write) (there : w.HasScope t)
    (spared : ∀ v, write ≠ some (t, name, v)) :
    (w'.bindings t).get? name = (w.bindings t).get? name := by
  cases touches with
  | nothing scopes => rw [bindings_of_scopes scopes]
  | made scopes =>
      rw [bindings_of_scopes scopes, bindings_newScope,
        if_neg (ne_fresh there)]
  | @wrote s key v scopes =>
      rw [bindings_of_scopes scopes]
      by_cases h : t = s
      · subst h
        rw [bindings_define there, if_pos rfl, Table.get?_insert, if_neg]
        rintro rfl
        exact spared v rfl
      · rw [bindings_define_of_ne h]

/-- What a scope binds it binds for good. -/
theorem binds (touches : w.Touches w' write) (there : w.HasScope t)
    (binds : w.Binds t name) : w'.Binds t name := by
  by_cases spared : ∀ v, write ≠ some (t, name, v)
  · obtain ⟨u, hu⟩ := binds
    exact ⟨u, by rw [touches.get?_bindings there spared, hu]⟩
  · obtain ⟨v, rfl⟩ : ∃ v, write = some (t, name, v) := by
      simpa using spared
    cases touches with
    | wrote scopes =>
        refine ⟨v, ?_⟩
        rw [bindings_of_scopes scopes, bindings_define there, if_pos rfl,
          Table.get?_insert, if_pos rfl]

end Touches

-- ======================================================= later changes

/-- Whether none of some changes, one after the other, writes a name of a
scope. -/
def Spares (s : ScopeId) (name : String) : World → List Change → Prop
  | _, [] => True
  | w, c :: changes => (∀ v, c.write? w ≠ some (s, name, v))
      ∧ Spares s name (c.perform w).2 changes

/-- A scope stands where it stood. -/
theorem Later.chain (later : w.Later w') (there : w.HasScope t) :
    w'.chain t = w.chain t := by
  suffices ∀ (n : Nat) (t : ScopeId), t.index < n → w.HasScope t →
      w'.chain t = w.chain t from this _ t (Nat.lt_succ_self _) there
  intro n
  induction n with
  | zero => intro t ht; omega
  | succ n ih =>
      intro t ht there
      cases out : w.outer? t with
      | none =>
          rw [chain_of_root out, chain_of_root ((later.outer? there).trans out)]
      | some u =>
          have hlt : u.index < t.index := Forest.index_lt_of_parent? out
          rw [chain_of_outer? out,
            chain_of_outer? ((later.outer? there).trans out),
            ih u (by omega) (HasScope.of_outer? out)]

/-- A name that no change writes keeps its value over all of them. -/
theorem get?_bindings_afterAll (there : w.HasScope t)
    (spared : Spares t name w changes) :
    ((w.afterAll changes).bindings t).get? name
      = (w.bindings t).get? name := by
  induction changes generalizing w with
  | nil => rfl
  | cons c changes ih =>
      have here := (touches_perform w c).get?_bindings there spared.1
      rw [← here]
      exact ih ((later_perform w c).hasScope there) spared.2

/-- What a scope binds stays bound over any changes. -/
theorem binds_afterAll (there : w.HasScope t) (binds : w.Binds t name) :
    (w.afterAll changes).Binds t name := by
  induction changes generalizing w with
  | nil => exact binds
  | cons c changes ih =>
      exact ih ((later_perform w c).hasScope there)
        ((touches_perform w c).binds there binds)

-- ========================================================= being seen

/-- A name means what the scope itself says, or else what it means further
out. -/
theorem lookup?_of_outer? (out : w.outer? e = some t) (name : String) :
    w.lookup? e name
      = ((w.bindings e).get? name).or (w.lookup? t name) := by
  rw [lookup?_eq, chain_of_outer? out, List.findSome?_cons, lookup?_eq]
  cases (w.bindings e).get? name <;> rfl

/-- Whether worlds differ in what one scope binds, and in nothing else. -/
structure DiffersAt (w w' : World) (s : ScopeId) : Prop where
  bindings : ∀ t, t ≠ s → w'.bindings t = w.bindings t
  chain : ∀ t, w'.chain t = w.chain t
  elsewhere : w' = { w with scopes := w'.scopes }

namespace DiffersAt

/-- A world differs from itself nowhere. -/
theorem refl (w : World) (s : ScopeId) : w.DiffersAt w s :=
  ⟨fun _ _ => rfl, fun _ => rfl, rfl⟩

/-- Two differences at one scope are one. -/
theorem trans {w₁ w₂ w₃ : World} (h : w₁.DiffersAt w₂ s)
    (h' : w₂.DiffersAt w₃ s) : w₁.DiffersAt w₃ s where
  bindings t ht := (h'.bindings t ht).trans (h.bindings t ht)
  chain t := (h'.chain t).trans (h.chain t)
  elsewhere := by
    rw [h'.elsewhere, h.elsewhere]

/-- A definition makes a difference at its own scope. -/
theorem define (w : World) (s : ScopeId) (name : String) (v : Value) :
    w.DiffersAt (w.define s name v) s where
  bindings _ ht := bindings_define_of_ne ht name v
  chain _ := Forest.path_relabel ..
  elsewhere := rfl

/-- Who does not see the scope does not see the difference. -/
theorem lookup? (h : w.DiffersAt w' s) (unseen : s ∉ w.chain e)
    (name : String) : w'.lookup? e name = w.lookup? e name := by
  rw [lookup?_eq, lookup?_eq, h.chain]
  refine findSome?_congr fun t ht => ?_
  rw [h.bindings t fun hts => unseen (hts ▸ ht)]

end DiffersAt

/-- No scope is seen from one that it stands in. -/
theorem not_mem_chain_of_outer? (out : w.outer? s = some t) :
    s ∉ w.chain t := by
  intro h
  have hle : s.index ≤ t.index := Forest.index_le_of_mem_path h
  have hlt : t.index < s.index := Forest.index_lt_of_parent? out
  omega

/-- Whether a change writes a name of some through a scope, be it by
assigning or by defining. -/
def WritesThrough (s : ScopeId) (names : List String) (c : Change) : Prop :=
  ∃ name ∈ names, ∃ v, c = .define s name v ∨ c = .assign s name v

/-- What is written through a scope to a name that it binds is written
there. -/
theorem WritesThrough.perform {names : List String}
    (h : WritesThrough s names c) (bound : ∀ name ∈ names, w.Binds s name) :
    w.DiffersAt (c.perform w).2 s := by
  obtain ⟨name, hname, v, rfl | rfl⟩ := h
  · exact .define w s name v
  · show w.DiffersAt (w.assign s name v) s
    unfold assign
    rw [binder?_of_binds (bound name hname)]
    exact .define w s name v

/-- So it is with any number of such writes: the names stay bound, so that
none of them goes further out. -/
theorem differsAt_afterAll {names : List String} (there : w.HasScope s)
    (bound : ∀ name ∈ names, w.Binds s name)
    (writes : ∀ c ∈ changes, WritesThrough s names c) :
    w.DiffersAt (w.afterAll changes) s := by
  induction changes generalizing w with
  | nil => exact .refl w s
  | cons c changes ih =>
      have first := (writes c List.mem_cons_self).perform bound
      refine first.trans (ih ((later_perform w c).hasScope there) ?_ ?_)
      · exact fun name hname =>
          (touches_perform w c).binds there (bound name hname)
      · exact fun c hc => writes c (List.mem_cons_of_mem _ hc)

end World

end ObjectWorld
