/-
The scope of a call.

A call binds parameters to arguments in a scope that is made for it, inside
the one that its function was made in. Which argument a name gets is a
matter of positions: of the parameters that have a partner, the last one of
that name counts (`Supplies`). All other names are looked for further out,
in a scope that goes on changing.

What stays true of such a scope, whatever changes come later, is little:
where it stands and which names it binds (`CallScope`). It is enough. Two
calls of one function stand side by side in the scope of the function, and
of these three none sees into a call but the call itself.
-/
import Mathlib.Data.List.Induction
import ObjectWorld.Proofs.ScopeChanges

namespace ObjectWorld

-- ========================================================== the arguments

namespace Table

variable {α : Type} {bindings : List (String × α)} {name key : String} {a : α}

theorem get?_ofList_concat :
    (ofList (bindings ++ [(name, a)])).get? key
      = if key = name then some a else (ofList bindings).get? key := by
  unfold ofList
  rw [List.foldl_append]
  exact get?_insert ..

/-- What stands in a list with one more at its end. -/
private theorem getElem?_concat_eq_some_iff {β : Type} {l : List β}
    {x y : β} {i : Nat} :
    (l ++ [x])[i]? = some y ↔ l[i]? = some y ∨ i = l.length ∧ x = y := by
  by_cases h : i < l.length
  · rw [List.getElem?_append_left h]
    exact ⟨.inl, fun
      | .inl old => old
      | .inr last => absurd last.1 (Nat.ne_of_lt h)⟩
  · rw [List.getElem?_append_right (Nat.le_of_not_lt h),
      List.getElem?_eq_none (Nat.le_of_not_lt h), List.getElem?_singleton]
    by_cases last : i = l.length
    · simp [last]
    · have : ¬ i - l.length = 0 := by omega
      simp [last, this]

/-- Of all bindings of a name in a list the last one counts. -/
theorem get?_ofList_eq_some_iff :
    (ofList bindings).get? name = some a
      ↔ ∃ i, bindings[i]? = some (name, a)
        ∧ ∀ j : Nat, i < j → ∀ b, bindings[j]? ≠ some (name, b) := by
  induction bindings using List.reverseRecOn with
  | nil => simp [ofList]
  | append_singleton bindings last ih =>
      have inside : ∀ {i : Nat} {b}, bindings[i]? = some (name, b) →
          i < bindings.length :=
        fun h => (List.getElem?_eq_some_iff.1 h).1
      obtain ⟨key, b⟩ := last
      rw [get?_ofList_concat]
      by_cases h : name = key
      · subst h
        rw [if_pos rfl, Option.some.injEq]
        constructor
        · rintro rfl
          refine ⟨bindings.length,
            getElem?_concat_eq_some_iff.2 (.inr ⟨rfl, rfl⟩), ?_⟩
          intro j hj b' hb'
          rcases getElem?_concat_eq_some_iff.1 hb' with old | ⟨rfl, -⟩
          · exact absurd (inside old) (Nat.not_lt_of_lt hj)
          · exact Nat.lt_irrefl _ hj
        · rintro ⟨i, hi, hlast⟩
          rcases getElem?_concat_eq_some_iff.1 hi with old | ⟨-, heq⟩
          · exact absurd (getElem?_concat_eq_some_iff.2 (.inr ⟨rfl, rfl⟩))
              (hlast _ (inside old) b)
          · cases heq
            rfl
      · -- the last binding is for another name
        simp only [if_neg h, ih, ne_eq, getElem?_concat_eq_some_iff,
          Prod.mk.injEq, Ne.symm h, false_and, and_false, or_false]

/-- A name is bound if some binding of the list is for it. -/
theorem exists_get?_ofList_iff :
    (∃ a, (ofList bindings).get? name = some a)
      ↔ name ∈ bindings.map Prod.fst := by
  induction bindings using List.reverseRecOn with
  | nil => simp [ofList]
  | append_singleton bindings last ih =>
      rw [get?_ofList_concat, List.map_append, List.mem_append, ← ih]
      by_cases h : name = last.1
      · simp [h]
      · simp [h]

end Table

/-- Whether a parameter list, given arguments in order, supplies a value
for a name: by the last parameter of that name that has an argument. -/
def Supplies (params : List String) (args : List Value) (name : String)
    (v : Value) : Prop :=
  ∃ i : Nat, params[i]? = some name ∧ args[i]? = some v
    ∧ ∀ j, i < j → j < args.length → params[j]? ≠ some name

/-- The bindings of a call are what its arguments supply. -/
theorem supplies_iff {params : List String} {args : List Value}
    {name : String} {v : Value} :
    Supplies params args name v
      ↔ (Table.ofList (params.zip args)).get? name = some v := by
  rw [Table.get?_ofList_eq_some_iff]
  simp only [ne_eq, List.getElem?_zip_eq_some]
  constructor
  · rintro ⟨i, param, arg, last⟩
    refine ⟨i, ⟨param, arg⟩, ?_⟩
    rintro j hj b ⟨param', arg'⟩
    exact last j hj (List.getElem?_eq_some_iff.1 arg').1 param'
  · rintro ⟨i, ⟨param, arg⟩, last⟩
    refine ⟨i, param, arg, fun j hj hlt param' => ?_⟩
    exact last j hj args[j] ⟨param', List.getElem?_eq_getElem hlt⟩

/-- A name is supplied with a value if it is one of the parameters that
have an argument. -/
theorem exists_supplies_iff {params : List String} {args : List Value}
    {name : String} :
    (∃ v, Supplies params args name v) ↔ name ∈ params.take args.length := by
  have named : (params.zip args).map Prod.fst = params.take args.length := by
    induction params generalizing args with
    | nil => simp
    | cons param params ih =>
        cases args with
        | nil => rfl
        | cons arg args => simp [ih]
  simp only [supplies_iff]
  rw [Table.exists_get?_ofList_iff, named]

/-- A name that is supplied with none is not bound. -/
theorem get?_of_not_supplied {params : List String} {args : List Value}
    {name : String} (other : name ∉ params.take args.length) :
    (Table.ofList (params.zip args)).get? name = none := by
  cases hget : (Table.ofList (params.zip args)).get? name with
  | none => rfl
  | some v =>
      exact absurd (exists_supplies_iff.1 ⟨v, supplies_iff.2 hget⟩) other

-- ==================================================== the scope of a call

namespace World

variable {w w' : World} {s t : ScopeId} {name : String} {v : Value}

/-- What stays true of a scope that was made for a call: it is there, it
stands inside the scope of the function, and it binds the parameters that
had an argument. -/
structure CallScope (w : World) (s captured : ScopeId)
    (names : List String) : Prop where
  there : w.HasScope s
  outer? : w.outer? s = some captured
  binds : ∀ name ∈ names, w.Binds s name

/-- Whether worlds differ by one scope that was not there, and in nothing
else. -/
structure MakesScope (w : World) (s : ScopeId) (w' : World) : Prop where
  new : ¬ w.HasScope s
  hasScope : ∀ t, w'.HasScope t ↔ w.HasScope t ∨ t = s
  bindings : ∀ t, w.HasScope t → w'.bindings t = w.bindings t
  outer? : ∀ t, w.HasScope t → w'.outer? t = w.outer? t
  lookup? : ∀ t, w.HasScope t → ∀ name,
    w'.lookup? t name = w.lookup? t name
  elsewhere : w' = { w with scopes := w'.scopes }

theorem makesScope_newScope (w : World) (outer : Option ScopeId)
    (table : Table Value) :
    w.MakesScope (w.newScope outer table).1 (w.newScope outer table).2 where
  new := Nat.lt_irrefl _
  hasScope _ := hasScope_newScope
  bindings t ht := by rw [bindings_newScope, if_neg (ne_fresh ht)]
  outer? t ht := by rw [outer?_newScope, if_neg (ne_fresh ht)]
  lookup? t ht name := lookup?_newScope ht ..
  elsewhere := rfl

theorem bindArguments_eq (w : World) (f : FunctionId)
    (args : List Value) :
    w.bindArguments f args = w.newScope (some (w.functionInfo f).scope)
      (Table.ofList ((w.functionInfo f).params.zip args)) := rfl

theorem makesScope_bindArguments (w : World) (f : FunctionId)
    (args : List Value) :
    w.MakesScope (w.bindArguments f args).1 (w.bindArguments f args).2 :=
  makesScope_newScope ..

/-- What the new scope binds is what the arguments supply. -/
theorem bindings_bindArguments (w : World) (f : FunctionId)
    (args : List Value) :
    (w.bindArguments f args).2.bindings (w.bindArguments f args).1
      = Table.ofList ((w.functionInfo f).params.zip args) := by
  rw [bindArguments_eq, bindings_newScope]
  exact if_pos rfl

theorem callScope_bindArguments {f : FunctionId} (args : List Value)
    (captured : w.HasScope (w.functionInfo f).scope) :
    (w.bindArguments f args).2.CallScope (w.bindArguments f args).1
      (w.functionInfo f).scope
      ((w.functionInfo f).params.take args.length) where
  there := hasScope_newScope.2 (.inr rfl)
  outer? := by
    rw [bindArguments_eq, outer?_newScope]
    exact (if_pos rfl).trans
      (Option.filter_some_pos (decide_eq_true captured))
  binds name hname := by
    obtain ⟨v, supplies⟩ := exists_supplies_iff.2 hname
    exact ⟨v, by rw [bindings_bindArguments, supplies_iff.1 supplies]⟩

namespace CallScope

variable {captured : ScopeId} {names : List String}

theorem afterAll (h : w.CallScope s captured names)
    (changes : List Change) :
    (w.afterAll changes).CallScope s captured names where
  there := (later_afterAll w changes).hasScope h.there
  outer? := ((later_afterAll w changes).outer? h.there).trans h.outer?
  binds name hname := binds_afterAll h.there (h.binds name hname)

/-- A name that it does not bind is written where the function's scope
finds it, or else here. -/
theorem rebinds_assign (h : w.CallScope s captured names)
    (unbound : ¬ w.Binds s name) {found : Option ScopeId}
    (search : w.Search name captured found) (v : Value) :
    w.Rebinds (w.assign s name v) (found.getD s) name v :=
  World.rebinds_assign h.there (.outward unbound h.outer? search) v

/-- What it reads: its own names as it binds them, all others as the
function's scope does. -/
theorem lookup? (h : w.CallScope s captured names) (name : String) :
    w.lookup? s name
      = ((w.bindings s).get? name).or (w.lookup? captured name) :=
  lookup?_of_outer? h.outer? name

/-- What it reads after any changes that leave the name alone there: the
argument of a parameter, and all else as the function's scope does then. -/
theorem lookup?_afterAll {params : List String} {args : List Value}
    {changes : List Change}
    (h : w.CallScope s captured (params.take args.length))
    (bindings : w.bindings s = Table.ofList (params.zip args))
    (spared : Spares s name w changes) :
    (name ∈ params.take args.length → ∃ v, Supplies params args name v
        ∧ (w.afterAll changes).lookup? s name = some v)
      ∧ (name ∉ params.take args.length →
        (w.afterAll changes).lookup? s name
          = (w.afterAll changes).lookup? captured name) := by
  rw [(h.afterAll changes).lookup?, get?_bindings_afterAll h.there spared,
    bindings]
  constructor
  · intro param
    obtain ⟨v, supplies⟩ := exists_supplies_iff.2 param
    refine ⟨v, supplies, ?_⟩
    rw [supplies_iff.1 supplies]
    rfl
  · intro other
    rw [get?_of_not_supplied other]
    rfl

/-- It is not seen from the scope of its function. -/
theorem unseen (h : w.CallScope s captured names) : s ∉ w.chain captured :=
  not_mem_chain_of_outer? h.outer?

/-- Of two scopes that stand inside the same one neither sees the other. -/
theorem not_mem_chain {names' : List String}
    (h : w.CallScope s captured names) (h' : w.CallScope t captured names')
    (hne : s ≠ t) : s ∉ w.chain t := by
  rw [chain_of_outer? h'.outer?]
  intro hmem
  rcases List.mem_cons.1 hmem with heq | hmem
  · exact hne heq
  · exact h.unseen hmem

/-- A later call of the function has another scope, and neither of the two
is ever seen from the other. -/
theorem apart {f : FunctionId} {args : List Value}
    (h : w.CallScope s captured names)
    (info : (w.functionInfo f).scope = captured)
    (made : w.bindArguments f args = (t, w')) (changes : List Change) :
    t ≠ s ∧ s ∉ (w'.afterAll changes).chain t
      ∧ t ∉ (w'.afterAll changes).chain s := by
  have makes := w.makesScope_bindArguments f args
  have other := callScope_bindArguments (w := w) (f := f) args (by
    rw [info]
    exact HasScope.of_outer? h.outer?)
  have stays := h.afterAll [.bindArguments f args]
  change (w.bindArguments f args).2.CallScope _ _ _ at stays
  rw [made] at makes stays other
  rw [info] at other
  have hne : t ≠ s := by
    rintro rfl
    exact makes.new h.there
  exact ⟨hne,
    (stays.afterAll changes).not_mem_chain (other.afterAll changes) hne.symm,
    (other.afterAll changes).not_mem_chain (stays.afterAll changes) hne⟩

end CallScope

end World

-- ============================================================ the theorem

namespace Realm

open World (Spares WritesThrough)

variable {r : Realm} {f : FunctionId} {params : List String} {body : BodyId}
  {captured s : ScopeId} {w : World}

/-- Each call has a scope of its own. It is none of those there are, and
making it changes nothing there is. In it the parameters that have an
argument mean the last argument of their name, and all other names mean
what they mean in the scope of the function: at once, and whatever changes
come later, as long as none of them writes that very name there. Writing
the parameters through it is not seen by anybody who does not see it, in
particular not from the function's scope and not by another call of the
function, before it ends or after. Assigning any other name writes the
function's scope or one further out, if the name is bound there, and else
stays in the call. -/
theorem call_scope_exact (reachable : r.Reachable)
    (there : r.world.HasFunction f)
    (info : r.world.functionInfo f = ⟨params, body, captured⟩)
    (args : List Value) (made : r.world.bindArguments f args = (s, w)) :
    r.world.MakesScope s w
      ∧ (∀ changes name, Spares s name w changes →
        (name ∈ params.take args.length → ∃ v, Supplies params args name v
            ∧ (w.afterAll changes).lookup? s name = some v)
          ∧ (name ∉ params.take args.length →
            (w.afterAll changes).lookup? s name
              = (w.afterAll changes).lookup? captured name))
      ∧ (∀ changes writes,
        (∀ c ∈ writes, WritesThrough s (params.take args.length) c) →
        (w.afterAll changes).DiffersAt
            ((w.afterAll changes).afterAll writes) s
          ∧ s ∉ (w.afterAll changes).chain captured
          ∧ ∀ e, s ∉ (w.afterAll changes).chain e → ∀ name,
            ((w.afterAll changes).afterAll writes).lookup? e name
              = (w.afterAll changes).lookup? e name)
      ∧ (∀ before args' t w' after,
        (w.afterAll before).bindArguments f args' = (t, w') →
        t ≠ s ∧ s ∉ (w'.afterAll after).chain t
          ∧ t ∉ (w'.afterAll after).chain s)
      ∧ ∀ changes name v, ¬ (w.afterAll changes).Binds s name →
        (∀ b, (w.afterAll changes).Search name captured (some b) →
            b ≠ s ∧ (w.afterAll changes).Rebinds
              ((w.afterAll changes).assign s name v) b name v)
          ∧ ((w.afterAll changes).Search name captured none →
            (w.afterAll changes).Rebinds
              ((w.afterAll changes).assign s name v) s name v) := by
  have scope := (sound_of_reachable reachable).scope there
  have makes := r.world.makesScope_bindArguments f args
  have call := World.callScope_bindArguments args scope
  have bindings := r.world.bindings_bindArguments f args
  have grown : r.world.Later (r.world.bindArguments f args).2 :=
    World.later_perform r.world (.bindArguments f args)
  rw [made] at makes grown
  rw [made, info] at call bindings
  rw [info] at scope
  refine ⟨makes, ?_, ?_, ?_, ?_⟩
  · exact fun changes name spared => call.lookup?_afterAll bindings spared
  · intro changes writes through
    have later := call.afterAll changes
    have differs := World.differsAt_afterAll later.there later.binds through
    exact ⟨differs, later.unseen, fun e => differs.lookup?⟩
  · intro before args' t w' after made'
    have later := grown.trans (World.later_afterAll w before)
    have info' : ((w.afterAll before).functionInfo f).scope = captured := by
      rw [later.functionInfo there, info]
    exact (call.afterAll before).apart info' made' after
  · intro changes name v unbound
    have later := call.afterAll changes
    refine ⟨fun b search => ⟨?_, later.rebinds_assign unbound search v⟩,
      fun search => later.rebinds_assign unbound search v⟩
    rintro rfl
    obtain ⟨inner, outward, chain, binds, -⟩ :=
      World.binder?_eq_some_iff.1 (World.search_iff.1 search).symm
    exact unbound binds

/-- The start, with a function whose first parameter is there a second
time. -/
def shadowing : Realm :=
  start.after (.newFunction ⟨["x", "y", "x"], ⟨0⟩, World.globals⟩)

/-- Of three arguments the name that is there twice means the last. A name
that is no parameter means what the global scope says, also after that has
changed. And assigning a parameter in the call changes no meaning there. -/
theorem call_scope_exact_shadowing :
    shadowing.Reachable ∧ shadowing.world.HasFunction ⟨0⟩
      ∧ ∃ s w, shadowing.world.bindArguments ⟨0⟩ [.int 1, .int 2, .int 3]
          = (s, w)
        ∧ w.lookup? s "x" = some (.int 3)
        ∧ (w.afterAll [.define World.globals "puts" .nil]).lookup? s "puts"
          = some .nil
        ∧ (w.afterAll [.assign s "x" .nil]).lookup? World.globals "x"
          = w.lookup? World.globals "x" := by
  have globals : start.world.HasScope World.globals := by decide
  have reachable : shadowing.Reachable := .after globals
  have there : shadowing.world.HasFunction ⟨0⟩ := Nat.zero_lt_one
  obtain ⟨-, reads, writes, -, -⟩ := call_scope_exact reachable there rfl
    [.int 1, .int 2, .int 3] rfl
  refine ⟨reachable, there, _, _, rfl, ?_, ?_, ?_⟩
  · obtain ⟨v, supplies, value⟩ := (reads [] "x" trivial).1 (by simp)
    have last := (supplies_iff.1 supplies).symm.trans
      (show _ = some (.int 3) from rfl)
    exact value.trans last
  · have spared : ∀ w, Spares ⟨1⟩ "puts" w
        [.define World.globals "puts" .nil] := fun _ => ⟨nofun, trivial⟩
    exact ((reads _ "puts" (spared _)).2 (by simp)).trans rfl
  · obtain ⟨-, unseen, same⟩ := writes [] [.assign ⟨1⟩ "x" .nil] (by
      intro c hc
      rw [List.mem_singleton.1 hc]
      exact ⟨"x", by simp, .nil, .inr rfl⟩)
    exact same World.globals unseen "x"

end Realm

end ObjectWorld
