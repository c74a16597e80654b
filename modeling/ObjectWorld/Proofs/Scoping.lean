/-
What names mean, and what binding one changes.

A search for a name starts in a scope and goes outwards, scope by scope,
until one of them binds the name or there is none further out. Reading
and assigning take the same walk, so both are told by where it ends: the
innermost scope that binds the name, or nowhere (`search_iff`).

Scopes are shared: many handles, and every scope made inside, see the
same table. So what one write changes is told for all of them at once. A
write gives one name of one scope a new value and touches no other
binding (`Rebinds`); it is seen from exactly those scopes whose search
for that name now ends there, and all other names mean everywhere what
they meant before.
-/
import Mathlib.Logic.ExistsUnique
import ObjectWorld.Proofs.Writes
import ObjectWorld.World.Initial

namespace ObjectWorld.World

variable {w w' : World} {e s t : ScopeId} {name key : String} {v : Value}

-- ============================================================ the chains

/-- A scope and all scopes around it, from the inside out. -/
def chain (w : World) (e : ScopeId) : List ScopeId :=
  w.scopes.path e

/-- Whether a scope itself binds a name. -/
def Binds (w : World) (s : ScopeId) (name : String) : Prop :=
  ∃ v, (w.bindings s).get? name = some v

/-- Whether a scope is the first that binds a name, going outwards from
another. -/
def Innermost (w : World) (e : ScopeId) (name : String) (s : ScopeId) :
    Prop :=
  ∃ inner outward, w.chain e = inner ++ s :: outward
    ∧ w.Binds s name ∧ ∀ t ∈ inner, ¬ w.Binds t name

/-- A scope that stands in no other is all of its chain. -/
theorem chain_of_root (h : w.outer? e = none) : w.chain e = [e] := by
  change w.scopes.parent? e = none at h
  unfold chain
  rw [Forest.path_eq, h]

/-- The chain of any other scope goes on with that of the scope it stands
in. -/
theorem chain_of_outer? (h : w.outer? e = some t) :
    w.chain e = e :: w.chain t := by
  change w.scopes.parent? e = some t at h
  unfold chain
  rw [Forest.path_eq, h]

/-- A scope that does not bind a name has no value for it. -/
theorem not_binds_iff : ¬ w.Binds s name
    ↔ (w.bindings s).get? name = none := by
  unfold Binds
  cases (w.bindings s).get? name <;> simp

-- ============================================================ the search

/-- A name means what the first scope of the chain that binds it says. -/
theorem lookup?_eq (w : World) (e : ScopeId) (name : String) :
    w.lookup? e name
      = (w.chain e).findSome? fun s => (w.bindings s).get? name := by
  unfold lookup? Forest.findOnPath? chain
  congr
  funext s
  simp only [bindings]
  cases w.scopes.label? s <;> rfl

/-- A write looks for its scope along the same chain. -/
theorem binder?_eq (w : World) (e : ScopeId) (name : String) :
    w.binder? e name
      = (w.chain e).findSome? fun s =>
          ((w.bindings s).get? name).map fun _ => s := by
  unfold binder? Forest.findOnPath? chain
  congr
  funext s
  simp only [bindings]
  cases w.scopes.label? s <;> rfl

/-- A name means what the innermost scope that binds it holds. -/
theorem lookup?_eq_some_iff : w.lookup? e name = some v
    ↔ ∃ s, w.Innermost e name s ∧ (w.bindings s).get? name = some v := by
  rw [lookup?_eq, List.findSome?_eq_some_iff]
  constructor
  · intro ⟨inner, s, outward, hchain, hs, hinner⟩
    refine ⟨s, ⟨inner, outward, hchain, ⟨v, hs⟩, ?_⟩, hs⟩
    exact fun t ht => not_binds_iff.2 (hinner t ht)
  · rintro ⟨s, ⟨inner, outward, hchain, -, hinner⟩, hs⟩
    refine ⟨inner, s, outward, hchain, hs, ?_⟩
    exact fun t ht => not_binds_iff.1 (hinner t ht)

/-- It means nothing just if no scope of the chain binds it. -/
theorem lookup?_eq_none_iff : w.lookup? e name = none
    ↔ ∀ t ∈ w.chain e, ¬ w.Binds t name := by
  rw [lookup?_eq, List.findSome?_eq_none_iff]
  simp only [not_binds_iff]

/-- Which scope a write would find is the innermost one. -/
theorem binder?_eq_some_iff : w.binder? e name = some s
    ↔ w.Innermost e name s := by
  rw [binder?_eq, List.findSome?_eq_some_iff]
  constructor
  · intro ⟨inner, t, outward, hchain, ht, hinner⟩
    obtain ⟨v, hv, rfl⟩ := Option.map_eq_some_iff.1 ht
    refine ⟨inner, outward, hchain, ⟨v, hv⟩, ?_⟩
    exact fun u hu => not_binds_iff.2 (Option.map_eq_none_iff.1 (hinner u hu))
  · intro ⟨inner, outward, hchain, ⟨v, hv⟩, hinner⟩
    refine ⟨inner, s, outward, hchain, by rw [hv]; rfl, ?_⟩
    exact fun u hu => Option.map_eq_none_iff.2 (not_binds_iff.1 (hinner u hu))

instance (w : World) (e : ScopeId) (name : String) (s : ScopeId) :
    Decidable (w.Innermost e name s) :=
  decidable_of_iff _ binder?_eq_some_iff

/-- A search for a name, scope by scope outwards, and where it ends: in
the first scope that binds the name, or nowhere. -/
inductive Search (w : World) (name : String) :
    ScopeId → Option ScopeId → Prop
  | here {e : ScopeId} (h : w.Binds e name) : Search w name e (some e)
  | outward {e t : ScopeId} {found : Option ScopeId}
      (h : ¬ w.Binds e name) (out : w.outer? e = some t)
      (rest : Search w name t found) : Search w name e found
  | nowhere {e : ScopeId} (h : ¬ w.Binds e name)
      (root : w.outer? e = none) : Search w name e none

/-- A write ends in a scope that binds the name itself. -/
theorem binder?_of_binds (h : w.Binds e name) :
    w.binder? e name = some e := by
  obtain ⟨outward, hchain⟩ : ∃ outward, w.chain e = e :: outward := by
    cases hout : w.outer? e with
    | none => exact ⟨[], chain_of_root hout⟩
    | some t => exact ⟨w.chain t, chain_of_outer? hout⟩
  exact binder?_eq_some_iff.2 ⟨[], outward, hchain, h, by simp⟩

/-- Where the name is not bound, it goes outward. -/
theorem binder?_of_outer? (h : ¬ w.Binds e name)
    (out : w.outer? e = some t) :
    w.binder? e name = w.binder? t name := by
  rw [binder?_eq, chain_of_outer? out, List.findSome?_cons,
    not_binds_iff.1 h, binder?_eq]
  rfl

/-- And where there is nothing further out, it has no scope to go to. -/
theorem binder?_of_root (h : ¬ w.Binds e name)
    (root : w.outer? e = none) : w.binder? e name = none := by
  rw [binder?_eq, chain_of_root root, List.findSome?_cons,
    not_binds_iff.1 h]
  rfl

/-- Every search ends, in one place. -/
theorem search_iff {found : Option ScopeId} :
    w.Search name e found ↔ found = w.binder? e name := by
  constructor
  · intro search
    induction search with
    | here h => exact (binder?_of_binds h).symm
    | outward h out _ ih => rw [binder?_of_outer? h out, ih]
    | nowhere h root => exact (binder?_of_root h root).symm
  · intro hfound
    subst hfound
    -- an outer scope has a smaller place
    suffices ∀ (n : Nat) (e : ScopeId), e.index < n →
        w.Search name e (w.binder? e name) from
      this _ e (Nat.lt_succ_self _)
    intro n
    induction n with
    | zero => intro e he; omega
    | succ n ih =>
        intro e he
        by_cases h : w.Binds e name
        · rw [binder?_of_binds h]
          exact .here h
        · cases hout : w.outer? e with
          | none =>
              rw [binder?_of_root h hout]
              exact .nowhere h hout
          | some t =>
              have hlt : t.index < e.index :=
                Forest.index_lt_of_parent? hout
              rw [binder?_of_outer? h hout]
              exact .outward h hout (ih t (by omega))

-- ========================================================= what writes do

/-- What it is to give one name of one scope a value: that binding is
there, every other one is as before, and so is everything else. -/
structure Rebinds (w w' : World) (s : ScopeId) (name : String)
    (v : Value) : Prop where
  binding : ∀ t key, (w'.bindings t).get? key
    = if t = s ∧ key = name then some v else (w.bindings t).get? key
  chain : ∀ t, w'.chain t = w.chain t
  hasScope : ∀ t, w'.HasScope t ↔ w.HasScope t
  elsewhere : w' = { w with scopes := w'.scopes }

/-- Defining a name in a scope writes that one binding. -/
theorem rebinds_define (h : w.HasScope s) (name : String) (v : Value) :
    w.Rebinds (w.define s name v) s name v where
  binding t key := by
    rw [bindings_define h]
    by_cases ht : t = s
    · simp [ht, Table.get?_insert]
    · simp [ht]
  chain t := Forest.path_relabel ..
  hasScope _ := hasScope_define
  elsewhere := rfl

/-- Assigning writes where the search for the name ends, or else where
it began. -/
theorem rebinds_assign (h : w.HasScope e) {found : Option ScopeId}
    (search : w.Search name e found) (v : Value) :
    w.Rebinds (w.assign e name v) (found.getD e) name v := by
  rw [search_iff.1 search]
  refine rebinds_define ?_ name v
  cases hbinder : w.binder? e name with
  | none => exact h
  | some s => exact Nat.lt_of_le_of_lt (index_le_of_binder? hbinder) h

namespace Rebinds

/-- What was bound stays bound. -/
theorem binds (h : w.Rebinds w' s name v) (ht : w.Binds t key) :
    w'.Binds t key := by
  obtain ⟨u, hu⟩ := ht
  by_cases hts : t = s ∧ key = name
  · exact ⟨v, by rw [h.binding, if_pos hts]⟩
  · exact ⟨u, by rw [h.binding, if_neg hts, hu]⟩

/-- A search that does not end at the new binding ends where it did
before. -/
theorem innermost (h : w.Rebinds w' s name v) (hne : t ≠ s)
    (ht : w'.Innermost e key t) : w.Innermost e key t := by
  obtain ⟨inner, outward, hchain, ⟨u, hu⟩, hinner⟩ := ht
  rw [h.chain] at hchain
  rw [h.binding, if_neg fun hts => hne hts.1] at hu
  refine ⟨inner, outward, hchain, ⟨u, hu⟩, ?_⟩
  exact fun x hx hbinds => hinner x hx (h.binds hbinds)

/-- The new value is what the name means wherever the search for it now
ends at the new binding. All else means what it meant. -/
theorem lookup? (h : w.Rebinds w' s name v) (e : ScopeId)
    (key : String) :
    w'.lookup? e key
      = if key = name ∧ w'.Innermost e name s then some v
        else w.lookup? e key := by
  by_cases hkey : key = name
  · subst hkey
    by_cases hs : w'.Innermost e key s
    · rw [if_pos ⟨rfl, hs⟩]
      refine lookup?_eq_some_iff.2 ⟨s, hs, ?_⟩
      rw [h.binding, if_pos ⟨rfl, rfl⟩]
    · rw [if_neg fun hif => hs hif.2]
      cases hlookup : w'.lookup? e key with
      | none =>
          refine (lookup?_eq_none_iff.2 fun t ht hbinds => ?_).symm
          rw [← h.chain] at ht
          exact lookup?_eq_none_iff.1 hlookup t ht (h.binds hbinds)
      | some u =>
          obtain ⟨t, ht, hu⟩ := lookup?_eq_some_iff.1 hlookup
          have hne : t ≠ s := fun hts => hs (hts ▸ ht)
          rw [h.binding, if_neg fun hts => hne hts.1] at hu
          exact (lookup?_eq_some_iff.2 ⟨t, h.innermost hne ht, hu⟩).symm
  · rw [if_neg fun hif => hkey hif.1, lookup?_eq, lookup?_eq, h.chain]
    congr
    funext t
    rw [h.binding, if_neg fun hts => hkey hts.2]

end Rebinds

-- ========================================================= what is made

/-- A new scope leaves the meaning of all names in the scopes there
are. -/
theorem lookup?_newScope (h : w.HasScope e) (outer : Option ScopeId)
    (table : Table Value) (name : String) :
    (w.newScope outer table).2.lookup? e name = w.lookup? e name :=
  Forest.findOnPath?_grow h ..

/-- Reading and assigning follow the one search, which ends from every
scope. Binding a name changes that binding and no other, and so it
changes what the name means exactly where the search now ends there. A
scope that is made, for a call or otherwise, is none of those there are
and changes no meaning in them. -/
theorem binding_exact (w : World) :
    (∀ name e, ∃! found, w.Search name e found)
      ∧ (∀ name e s, w.Search name e (some s) ↔ w.Innermost e name s)
      ∧ (∀ name e v, w.lookup? e name = some v ↔
        ∃ s, w.Innermost e name s ∧ (w.bindings s).get? name = some v)
      ∧ (∀ name e, w.isBound e name = true ↔
        ∃ v, w.lookup? e name = some v)
      ∧ (∀ name e v, w.HasScope e →
        w.Rebinds (w.define e name v) e name v
          ∧ ∀ found, w.Search name e found →
            w.Rebinds (w.assign e name v) (found.getD e) name v)
      ∧ (∀ w' s name v, w.Rebinds w' s name v → ∀ e key,
        w'.lookup? e key
          = if key = name ∧ w'.Innermost e name s then some v
            else w.lookup? e key)
      ∧ ∀ made, (∃ outer table, made = w.newScope outer table)
          ∨ (∃ f args, made = w.bindArguments f args) →
        ¬ w.HasScope made.1
          ∧ ∀ e name, w.HasScope e →
            made.2.lookup? e name = w.lookup? e name := by
  refine ⟨?_, ?_, ?_, ?_, ?_, ?_, ?_⟩
  · intro name e
    refine ⟨w.binder? e name, search_iff.2 rfl, ?_⟩
    exact fun found search => search_iff.1 search
  · intro name e s
    rw [search_iff, ← binder?_eq_some_iff]
    exact eq_comm
  · exact fun _ _ _ => lookup?_eq_some_iff
  · intro name e
    exact Option.isSome_iff_exists
  · intro name e v h
    exact ⟨rebinds_define h name v, fun found search =>
      rebinds_assign h search v⟩
  · exact fun _ _ _ _ h => h.lookup?
  · rintro made (⟨outer, table, rfl⟩ | ⟨f, args, rfl⟩)
    · exact ⟨Nat.lt_irrefl _, fun e name h => lookup?_newScope h ..⟩
    · exact ⟨Nat.lt_irrefl _, fun e name h => lookup?_newScope h ..⟩

/-- The first world, with a scope inside the global one. -/
def nested : World :=
  (World.initial.newScope (some globals)).2

/-- Assigning to a name of the global scope from the scope inside writes
the global binding; defining it there leaves that one. -/
theorem binding_exact_nested :
    nested.HasScope ⟨1⟩
      ∧ (nested.assign ⟨1⟩ "puts" .nil).lookup? globals "puts" = some .nil
      ∧ (nested.define ⟨1⟩ "puts" .nil).lookup? globals "puts"
        = nested.lookup? globals "puts" := by
  obtain ⟨-, -, -, -, writes, seen, -⟩ := binding_exact nested
  have there : nested.HasScope ⟨1⟩ := by decide
  obtain ⟨defined, assigned⟩ := writes "puts" ⟨1⟩ .nil there
  have search : nested.Search "puts" ⟨1⟩ (some globals) := by
    refine .outward (not_binds_iff.2 rfl) rfl (.here ?_)
    exact ⟨_, rfl⟩
  refine ⟨there, ?_, ?_⟩
  · rw [seen _ _ _ _ (assigned _ search), if_pos]
    exact ⟨rfl, by decide⟩
  · rw [seen _ _ _ _ defined, if_neg]
    exact fun h => absurd h.2 (by decide)

end ObjectWorld.World
