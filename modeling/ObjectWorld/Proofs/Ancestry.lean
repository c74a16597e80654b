/-
Chains of classes, and what a definition changes on them.

A walk along superclasses from any class ends, meets no class twice and
is the list of the class's ancestors: that is all there is to the walk
(`walk_iff`). The search for a method goes along it and stops at the
first class that defines the name, so a definition is seen from exactly
those classes whose search comes as far as the class it is made on
(`SearchReaches`), and from there only under its own name.
-/
import ObjectWorld.Proofs.Writes

namespace ObjectWorld.World

variable {w w' : World} {c d : ClassId}

-- ============================================================== the walks

/-- A walk from a class along superclasses to a class that has none: the
classes it meets, in order. -/
inductive Walk (w : World) : ClassId → List ClassId → Prop
  | root {c : ClassId} (h : w.superclass? c = none) : Walk w c [c]
  | up {c above : ClassId} {rest : List ClassId}
      (h : w.superclass? c = some above) (walk : Walk w above rest) :
      Walk w c (c :: rest)

/-- The ancestors of a class are the class and those of its
superclass. -/
theorem ancestors_eq (w : World) (c : ClassId) :
    w.ancestors c = c :: match w.superclass? c with
      | none => []
      | some above => w.ancestors above := by
  unfold ancestors superclass?
  rw [Forest.path_eq]
  cases w.classes.parent? c <;> rfl

theorem ancestors_of_root (h : w.superclass? c = none) :
    w.ancestors c = [c] := by
  rw [ancestors_eq, h]

theorem ancestors_of_superclass? {above : ClassId}
    (h : w.superclass? c = some above) :
    w.ancestors c = c :: w.ancestors above := by
  rw [ancestors_eq, h]

theorem mem_ancestors_self (w : World) (c : ClassId) :
    c ∈ w.ancestors c := by
  rw [ancestors_eq]
  exact List.mem_cons_self

/-- An ancestor is no younger than the class. -/
theorem index_le_of_mem_ancestors (h : d ∈ w.ancestors c) :
    d.index ≤ c.index :=
  Forest.index_le_of_mem_path h

/-- Every ancestor of a class of a world is one. -/
theorem HasClass.of_mem_ancestors (h : w.HasClass c)
    (hd : d ∈ w.ancestors c) : w.HasClass d :=
  Nat.lt_of_le_of_lt (index_le_of_mem_ancestors hd) h

/-- The superclass of a class is one. -/
theorem HasClass.of_superclass? {above : ClassId}
    (h : w.superclass? c = some above) : w.HasClass above :=
  Nat.lt_trans (Forest.index_lt_of_parent? h)
    (Forest.index_lt_size_of_parent? h)

/-- So is the class that a user sees. -/
theorem hasClass_nominal (h : w.HasClass c) : w.HasClass (w.nominal c) := by
  unfold nominal
  split
  · cases habove : w.superclass? c with
    | none => exact h
    | some above => exact HasClass.of_superclass? habove
  · exact h

/-- From every class there is one walk, and it is the list of the
ancestors. -/
theorem walk_iff {l : List ClassId} :
    w.Walk c l ↔ l = w.ancestors c := by
  constructor
  · intro walk
    induction walk with
    | root h => exact (ancestors_of_root h).symm
    | up h _ ih => rw [ancestors_of_superclass? h, ih]
  · intro hl
    subst hl
    suffices ∀ (n : Nat) (c : ClassId), c.index < n →
        w.Walk c (w.ancestors c) from this _ c (Nat.lt_succ_self _)
    intro n
    induction n with
    | zero => intro c hc; omega
    | succ n ih =>
        intro c hc
        cases h : w.superclass? c with
        | none =>
            rw [ancestors_of_root h]
            exact .root h
        | some above =>
            have hlt : above.index < c.index :=
              Forest.index_lt_of_parent? h
            rw [ancestors_of_superclass? h]
            exact .up h (ih above (by omega))

/-- No walk meets a class twice. -/
theorem nodup_ancestors (w : World) (c : ClassId) :
    (w.ancestors c).Nodup :=
  w.classes.nodup_path c

/-- Defining a method leaves every chain as it was. -/
theorem ancestors_defineMethod (w : World) (c d : ClassId) (name : String)
    (method : Method) :
    (w.defineMethod c name method).ancestors d = w.ancestors d :=
  w.classes.path_relabel c d _

/-- A new class leaves the chains of the old ones as they were. -/
theorem ancestors_newClass (h : w.HasClass d) (name : String)
    (kind : ClassKind) (superclass : Option ClassId) :
    (w.newClass name kind superclass).2.ancestors d = w.ancestors d :=
  Forest.path_grow h _ _

/-- So does recording an eigenclass. -/
theorem ancestors_recordEigenclass (w : World) (v : Value)
    (eigenclass c : ClassId) :
    (w.recordEigenclass v eigenclass).ancestors c = w.ancestors c := by
  unfold recordEigenclass
  split
  · rfl
  · exact Forest.path_relabel ..
  · rfl

-- ======================================================= the same classes

/-- Whether one world has the classes of another, with their kinds and
their superclasses. -/
structure KeepsClasses (w w' : World) : Prop where
  hasClass : ∀ {c}, w.HasClass c → w'.HasClass c
  superclass? : ∀ {c}, w.HasClass c → w'.superclass? c = w.superclass? c
  kind : ∀ {c}, w.HasClass c → (w'.classInfo c).kind = (w.classInfo c).kind

theorem Later.keepsClasses (later : w.Later w') : w.KeepsClasses w' :=
  ⟨later.hasClass, later.superclass?, later.kind⟩

theorem KeepsClasses.isModule (keeps : w.KeepsClasses w')
    (there : w.HasClass c) : w'.isModule c = w.isModule c := by
  unfold World.isModule
  rw [keeps.kind there]

theorem KeepsClasses.isEigenclass (keeps : w.KeepsClasses w')
    (there : w.HasClass c) : w'.isEigenclass c = w.isEigenclass c := by
  unfold World.isEigenclass
  rw [keeps.kind there]

/-- A walk meets the same classes in both. -/
theorem KeepsClasses.walk (keeps : w.KeepsClasses w') {l : List ClassId}
    (there : w.HasClass c) (walk : w.Walk c l) : w'.Walk c l := by
  induction walk with
  | root h => exact .root ((keeps.superclass? there).trans h)
  | up h _ ih =>
      exact .up ((keeps.superclass? there).trans h)
        (ih (HasClass.of_superclass? h))

theorem KeepsClasses.ancestors (keeps : w.KeepsClasses w')
    (there : w.HasClass c) : w'.ancestors c = w.ancestors c :=
  (walk_iff.1 (keeps.walk there (walk_iff.2 rfl))).symm

-- ============================================================= the search

/-- The search for a method is the first definition along the
ancestors. -/
theorem resolveIn?_eq (w : World) (c : ClassId) (name : String) :
    w.resolveIn? c name
      = (w.ancestors c).findSome? fun owner =>
          (w.ownMethod? owner name).map (Resolution.mk owner) := by
  unfold resolveIn? Forest.findOnPath? ancestors
  congr
  funext owner
  simp only [ownMethod?, classInfo]
  cases w.classes.label? owner with
  | none => rfl
  | some info => rfl

/-- Whether the search for a name from one class comes as far as another:
that one stands on the chain, and nothing strictly before it there
defines the name. -/
def SearchReaches (w : World) (d c : ClassId) (name : String) : Prop :=
  c ∈ w.ancestors d
    ∧ ∀ b ∈ (w.ancestors d).takeWhile (· ≠ c), w.ownMethod? b name = none

instance (w : World) (d c : ClassId) (name : String) :
    Decidable (w.SearchReaches d c name) :=
  inferInstanceAs (Decidable (_ ∧ _))

/-- The first answer of a list depends on what its elements answer. -/
theorem findSome?_congr {α β : Type} {f g : α → Option β} {l : List α}
    (h : ∀ x ∈ l, f x = g x) : l.findSome? f = l.findSome? g := by
  induction l with
  | nil => rfl
  | cons x l ih =>
      rw [List.findSome?_cons, List.findSome?_cons, h x List.mem_cons_self,
        ih fun y hy => h y (List.mem_cons_of_mem _ hy)]

/-- The first answer of a list, when one element gets a new one: that
counts if the element is there and none before it answers. -/
private theorem findSome?_of_override {α β : Type} [DecidableEq α]
    {f g : α → Option β} {a : α} {b : β} (ha : g a = some b)
    (hne : ∀ x, x ≠ a → g x = f x) (l : List α) :
    l.findSome? g
      = if a ∈ l ∧ ∀ x ∈ l.takeWhile (· ≠ a), f x = none then some b
        else l.findSome? f := by
  induction l with
  | nil => simp
  | cons x l ih =>
      by_cases hx : x = a
      · subst hx
        simp [ha]
      · rw [List.findSome?_cons, hne x hx, List.findSome?_cons]
        have hax : a ≠ x := fun h => hx h.symm
        cases hf : f x with
        | some y => simp [hx, hf]
        | none => simp [hx, hax, hf, ih]

/-- What a definition does to the search: from the classes whose search
comes as far as the class it is made on, its name leads to it; from all
others, and under all other names, nothing changes. -/
theorem resolveIn?_defineMethod (h : w.HasClass c) (name : String)
    (method : Method) (d : ClassId) (key : String) :
    (w.defineMethod c name method).resolveIn? d key
      = if key = name ∧ w.SearchReaches d c name
        then some { owner := c, method } else w.resolveIn? d key := by
  rw [resolveIn?_eq, ancestors_defineMethod, resolveIn?_eq]
  by_cases hkey : key = name
  · subst hkey
    rw [findSome?_of_override (a := c)
      (f := fun owner => (w.ownMethod? owner key).map (Resolution.mk owner))
      (b := { owner := c, method })]
    · simp [SearchReaches]
    · simp [ownMethod?_defineMethod h]
    · intro owner howner
      simp [ownMethod?_defineMethod h, howner]
  · rw [if_neg fun h => hkey h.1]
    congr
    funext owner
    rw [ownMethod?_defineMethod h, if_neg fun h => hkey h.2]

/-- A method that is found is one that its owner defines. -/
theorem ownMethod?_of_resolveIn? {name : String} {found : Resolution}
    (h : w.resolveIn? d name = some found) :
    w.ownMethod? found.owner name = some found.method := by
  rw [resolveIn?_eq] at h
  obtain ⟨owner, -, howner⟩ := List.exists_of_findSome?_eq_some h
  obtain ⟨method, hmethod, rfl⟩ := Option.map_eq_some_iff.1 howner
  exact hmethod

/-- It is found on the chain. -/
theorem owner_mem_ancestors {name : String} {found : Resolution}
    (h : w.resolveIn? d name = some found) :
    found.owner ∈ w.ancestors d := by
  rw [resolveIn?_eq] at h
  obtain ⟨owner, hmem, howner⟩ := List.exists_of_findSome?_eq_some h
  obtain ⟨method, -, rfl⟩ := Option.map_eq_some_iff.1 howner
  exact hmem

/-- A search that comes as far as a class finds what that class defines,
if it defines the name. -/
theorem SearchReaches.resolveIn? {name : String} {method : Method}
    (h : w.SearchReaches d c name) :
    w.resolveIn? d name = some { owner := c, method }
      ↔ w.ownMethod? c name = some method := by
  constructor
  · intro hfound
    exact ownMethod?_of_resolveIn? hfound
  · intro hmethod
    obtain ⟨hmem, hbefore⟩ := h
    have hhere : (w.ownMethod? c name).map (Resolution.mk c)
        = some { owner := c, method } := by
      rw [hmethod]
      rfl
    rw [resolveIn?_eq,
      findSome?_of_override (a := c) hhere fun _ _ => rfl, if_pos]
    refine ⟨hmem, fun b hb => ?_⟩
    rw [hbefore b hb]
    rfl

-- =================================================== the chain of a value

/-- The classes that a search for a method of a value goes along; none if
the value has no class. -/
def chainOf (w : World) (v : Value) : List ClassId :=
  (w.classOf? v).elim [] w.ancestors

/-- A name stands on a value for the first definition along its chain. -/
theorem resolve?_eq (w : World) (v : Value) (name : String) :
    w.resolve? v name
      = (w.chainOf v).findSome? fun owner =>
          (w.ownMethod? owner name).map (Resolution.mk owner) := by
  unfold resolve? chainOf
  cases w.classOf? v with
  | none => rfl
  | some c => exact w.resolveIn?_eq c name

/-- So it stands for something if any class of the chain defines it. -/
theorem isSome_resolve?_iff {v : Value} {name : String} :
    (w.resolve? v name).isSome
      ↔ ∃ d ∈ w.chainOf v, (w.ownMethod? d name).isSome := by
  rw [resolve?_eq, List.findSome?_isSome_iff]
  simp only [Option.isSome_map]

/-- A value answers to a name if what the name stands for may be called. -/
theorem responds_eq (w : World) (v : Value) (name : String)
    (site : CallSite) :
    w.responds v name site
      = (w.resolve? v name).any fun found =>
          site.permits found.method.visibility := by
  unfold responds resolve? respondsIn
  cases w.classOf? v <;> rfl

end ObjectWorld.World
