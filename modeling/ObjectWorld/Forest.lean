/-
Forests that grow only at their leaves.

A node names as its parent a node that existed before it, so its parent's
place is the smaller one; that is a field of the type, and with it every
walk towards a root ends. Nodes are never removed and never moved to
another parent: growing and relabelling leave every path as it was.

Two parts of a world have this shape. In the class graph the parent is
the superclass and the path is the order in which a method is looked for.
Among the scopes the parent is the enclosing scope and the path is the
order in which a name is looked for.
-/
import ObjectWorld.Ref

namespace ObjectWorld

/-- A labelled node and the older node it hangs from, if any. -/
structure Node (region : Region) (α : Type) where
  parent : Option (Ref region)
  label : α

/-- Nodes in the order of their creation, each hanging from an older one
or from none. -/
structure Forest (region : Region) (α : Type) where
  nodes : Array (Node region α)
  parent_lt : ∀ (i : Nat) (h : i < nodes.size) (p : Ref region),
    nodes[i].parent = some p → p.index < i

namespace Forest

variable {region : Region} {α β : Type}

instance : EmptyCollection (Forest region α) :=
  ⟨⟨#[], fun i h => absurd h (Nat.not_lt_zero i)⟩⟩

instance : Inhabited (Forest region α) := ⟨{}⟩

-- ============================================================ reading

/-- How many nodes there are: the place that the next one gets. -/
def size (f : Forest region α) : Nat :=
  f.nodes.size

/-- The label of a node. -/
def label? (f : Forest region α) (i : Ref region) : Option α :=
  f.nodes[i.index]?.map Node.label

/-- The node that a node hangs from. -/
def parent? (f : Forest region α) (i : Ref region) :
    Option (Ref region) :=
  f.nodes[i.index]?.bind Node.parent

/-- The first so many nodes of the walk from a node towards its root. -/
def climb (f : Forest region α) : Nat → Ref region → List (Ref region)
  | 0, _ => []
  | bound + 1, i =>
      i :: match f.parent? i with
        | none => []
        | some p => f.climb bound p

/-- The walk from a node to its root, both included. Places fall along
it, so a node's own place bounds the number of those that follow. -/
def path (f : Forest region α) (i : Ref region) : List (Ref region) :=
  f.climb (i.index + 1) i

/-- The first answer along a node's path. -/
def findOnPath? (f : Forest region α) (i : Ref region)
    (answer : Ref region → α → Option β) : Option β :=
  (f.path i).findSome? fun j => (f.label? j).bind (answer j)

-- ============================================================ writing

/-- Adds a node. A parent that is not there yet is no parent: that keeps
every parent older than its children. -/
def grow (f : Forest region α) (parent : Option (Ref region)) (label : α) :
    Forest region α where
  nodes := f.nodes.push ⟨parent.filter (·.index < f.nodes.size), label⟩
  parent_lt := by
    intro i h p hp
    rw [Array.getElem_push] at hp
    split at hp
    · rename_i hlt
      exact f.parent_lt i hlt p hp
    · obtain ⟨-, hlt⟩ := Option.filter_eq_some_iff.1 hp
      have : p.index < f.nodes.size := by simpa using hlt
      omega

/-- Changes the label of one node; its parent stays. -/
def relabel (f : Forest region α) (i : Ref region) (change : α → α) :
    Forest region α where
  nodes := f.nodes.modify i.index fun node =>
    { node with label := change node.label }
  parent_lt := by
    intro j h p hp
    rw [Array.getElem_modify] at hp
    have hj : j < f.nodes.size := by simpa using h
    split at hp
    · exact f.parent_lt j hj p hp
    · exact f.parent_lt j hj p hp

-- ================================================= what writing leaves

/-- A parent is older than its child. -/
theorem index_lt_of_parent? {f : Forest region α} {i p : Ref region}
    (h : f.parent? i = some p) : p.index < i.index := by
  obtain ⟨node, hnode, hp⟩ := Option.bind_eq_some_iff.1 h
  obtain ⟨hi, rfl⟩ := Array.getElem?_eq_some_iff.1 hnode
  exact f.parent_lt i.index hi p hp

/-- A longer bound adds nothing to a walk: it ends at a root by itself. -/
theorem climb_eq_path (f : Forest region α) {i : Ref region} {bound : Nat}
    (h : i.index < bound) : f.climb bound i = f.path i := by
  suffices ∀ (n m : Nat) (j : Ref region), j.index < n → j.index < m →
      f.climb n j = f.climb m j from this _ _ _ h (Nat.lt_succ_self _)
  intro n
  induction n with
  | zero => intro _ _ hn; omega
  | succ n ih =>
      intro m j hn hm
      cases m with
      | zero => omega
      | succ m =>
          simp only [climb]
          cases hp : f.parent? j with
          | none => rfl
          | some p =>
              have := index_lt_of_parent? hp
              simp only [ih m p (by omega) (by omega)]

/-- A path is its node, followed by the path of the parent. -/
theorem path_eq (f : Forest region α) (i : Ref region) :
    f.path i = i :: match f.parent? i with
      | none => []
      | some p => f.path p := by
  unfold path
  rw [climb]
  cases hp : f.parent? i with
  | none => rfl
  | some p => simp only [f.climb_eq_path (index_lt_of_parent? hp), path]

/-- A node that hangs from another is there. -/
theorem index_lt_size_of_parent? {f : Forest region α} {i p : Ref region}
    (h : f.parent? i = some p) : i.index < f.size := by
  obtain ⟨node, hnode, -⟩ := Option.bind_eq_some_iff.1 h
  exact (Array.getElem?_eq_some_iff.1 hnode).1

/-- A node that is not there has no label. -/
theorem label?_eq_none {f : Forest region α} {i : Ref region}
    (h : f.size ≤ i.index) : f.label? i = none := by
  have : f.nodes[i.index]? = none := Array.getElem?_eq_none h
  simp [label?, this]

/-- A path goes from a node to older ones. -/
theorem index_le_of_mem_path {f : Forest region α} {i j : Ref region}
    (h : j ∈ f.path i) : j.index ≤ i.index := by
  suffices ∀ (n : Nat) (k : Ref region), k.index < n → j ∈ f.path k →
      j.index ≤ k.index from this _ i (Nat.lt_succ_self _) h
  intro n
  induction n with
  | zero => intro k hk; omega
  | succ n ih =>
      intro k hk hj
      rw [path_eq] at hj
      cases hp : f.parent? k with
      | none =>
          simp only [hp, List.mem_cons, List.not_mem_nil, or_false] at hj
          exact Nat.le_of_eq (congrArg Ref.index hj)
      | some p =>
          have hlt := index_lt_of_parent? hp
          simp only [hp, List.mem_cons] at hj
          rcases hj with rfl | hj
          · exact Nat.le_refl _
          · exact Nat.le_trans (ih p (by omega) hj) (Nat.le_of_lt hlt)

/-- A path meets no node twice. -/
theorem nodup_path (f : Forest region α) (i : Ref region) :
    (f.path i).Nodup := by
  suffices ∀ (n : Nat) (k : Ref region), k.index < n →
      (f.path k).Nodup from this _ i (Nat.lt_succ_self _)
  intro n
  induction n with
  | zero => intro k hk; omega
  | succ n ih =>
      intro k hk
      rw [path_eq]
      cases hp : f.parent? k with
      | none => simp
      | some p =>
          have hlt := index_lt_of_parent? hp
          rw [List.nodup_cons]
          refine ⟨fun hmem => ?_, ih p (by omega)⟩
          have := index_le_of_mem_path hmem
          omega

/-- Growing adds one node. -/
@[simp] theorem size_grow (f : Forest region α)
    (parent : Option (Ref region)) (label : α) :
    (f.grow parent label).size = f.size + 1 := by
  simp [size, grow]

/-- Relabelling adds none. -/
@[simp] theorem size_relabel (f : Forest region α) (i : Ref region)
    (change : α → α) : (f.relabel i change).size = f.size := by
  simp [size, relabel]

/-- Relabelling moves no node. -/
@[simp] theorem parent?_relabel (f : Forest region α) (i j : Ref region)
    (change : α → α) : (f.relabel i change).parent? j = f.parent? j := by
  simp only [parent?, relabel, Array.getElem?_modify]
  split
  · cases f.nodes[j.index]? <;> rfl
  · rfl

/-- Relabelling changes the one label. -/
theorem label?_relabel (f : Forest region α) (i j : Ref region)
    (change : α → α) :
    (f.relabel i change).label? j
      = if i = j then (f.label? j).map change else f.label? j := by
  have hij : i = j ↔ i.index = j.index := by
    cases i; cases j; simp
  simp only [label?, relabel, Array.getElem?_modify, hij]
  split
  · cases f.nodes[j.index]? <;> rfl
  · rfl

/-- Relabelling leaves every path as it was. -/
@[simp] theorem path_relabel (f : Forest region α) (i j : Ref region)
    (change : α → α) : (f.relabel i change).path j = f.path j := by
  suffices ∀ (n : Nat) (k : Ref region),
      (f.relabel i change).climb n k = f.climb n k from this _ _
  intro n
  induction n with
  | zero => intro k; rfl
  | succ n ih => intro k; simp only [climb, parent?_relabel, ih]

/-- A new node leaves the parents of the old ones. -/
theorem parent?_grow {f : Forest region α} {i : Ref region}
    (h : i.index < f.size) (parent : Option (Ref region)) (label : α) :
    (f.grow parent label).parent? i = f.parent? i := by
  have : i.index ≠ f.nodes.size := Nat.ne_of_lt h
  simp [parent?, grow, Array.getElem?_push, this]

/-- A new node leaves the labels of the old ones. -/
theorem label?_grow {f : Forest region α} {i : Ref region}
    (h : i.index < f.size) (parent : Option (Ref region)) (label : α) :
    (f.grow parent label).label? i = f.label? i := by
  have : i.index ≠ f.nodes.size := Nat.ne_of_lt h
  simp [label?, grow, Array.getElem?_push, this]

/-- Every parent after growing: the new node's is the one it is made
with, if that is there. -/
theorem parent?_grow_eq (f : Forest region α) (i : Ref region)
    (parent : Option (Ref region)) (label : α) :
    (f.grow parent label).parent? i
      = if i = ⟨f.size⟩ then parent.filter (·.index < f.size)
        else f.parent? i := by
  have hi : i = ⟨f.size⟩ ↔ i.index = f.nodes.size := by
    cases i; simp [size]
  simp only [parent?, grow, Array.getElem?_push, hi]
  split <;> rfl

/-- Every label after growing: the new node's is the one it is made
with. -/
theorem label?_grow_eq (f : Forest region α) (i : Ref region)
    (parent : Option (Ref region)) (label : α) :
    (f.grow parent label).label? i
      = if i = ⟨f.size⟩ then some label else f.label? i := by
  have hi : i = ⟨f.size⟩ ↔ i.index = f.nodes.size := by
    cases i; simp [size]
  simp only [label?, grow, Array.getElem?_push, hi]
  split <;> rfl

/-- What holds of every label of a forest and of the labels that it is
grown with holds of every label. -/
theorem forall_label?_foldl_grow {ι : Type} {P : α → Prop}
    {parent : ι → Option (Ref region)} {label : ι → α} {l : List ι}
    (hl : ∀ x ∈ l, P (label x)) {f : Forest region α}
    (hf : ∀ i a, f.label? i = some a → P a) :
    ∀ i a, (l.foldl (fun f x => f.grow (parent x) (label x)) f).label? i
      = some a → P a := by
  induction l generalizing f with
  | nil => exact hf
  | cons x l ih =>
      refine ih (fun y hy => hl y (List.mem_cons_of_mem _ hy)) ?_
      intro i a h
      rw [label?_grow_eq] at h
      split at h
      · cases h
        exact hl x List.mem_cons_self
      · exact hf i a h

/-- A new node leaves the paths of the old ones. -/
theorem path_grow {f : Forest region α} {i : Ref region}
    (h : i.index < f.size) (parent : Option (Ref region)) (label : α) :
    (f.grow parent label).path i = f.path i := by
  suffices ∀ (n : Nat) (j : Ref region), j.index < f.size →
      (f.grow parent label).climb n j = f.climb n j from this _ _ h
  intro n
  induction n with
  | zero => intro j _; rfl
  | succ n ih =>
      intro j hj
      simp only [climb, parent?_grow hj]
      cases hp : f.parent? j with
      | none => rfl
      | some p =>
          have := index_lt_of_parent? hp
          simp only [ih p (by omega)]

/-- So a search along the path of an old node finds what it found. -/
theorem findOnPath?_grow {f : Forest region α} {i : Ref region}
    (h : i.index < f.size) (parent : Option (Ref region)) (label : α)
    (answer : Ref region → α → Option β) :
    (f.grow parent label).findOnPath? i answer
      = f.findOnPath? i answer := by
  have same : ∀ j ∈ f.path i,
      (f.grow parent label).label? j = f.label? j := by
    intro j hj
    exact label?_grow (Nat.lt_of_le_of_lt (index_le_of_mem_path hj) h) ..
  unfold findOnPath?
  rw [path_grow h]
  generalize f.path i = l at same
  induction l with
  | nil => rfl
  | cons j l ih =>
      rw [List.findSome?_cons, List.findSome?_cons,
        same j List.mem_cons_self,
        ih fun j hj => same j (List.mem_cons_of_mem _ hj)]

end Forest

end ObjectWorld
