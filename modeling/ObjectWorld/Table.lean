/-
Tables by name: method tables, scopes, instance variables and the class
registry are all of this shape.

The entries are kept in strictly increasing order of their names (the
order of code points), and the order is part of the type. So a table has
one form: two histories of insertions that leave the same bindings leave
the same table, and listing a table needs no sorting.
-/

namespace ObjectWorld

/-- Finitely many names, each bound to one entry. -/
structure Table (α : Type) where
  entries : List (String × α)
  ordered : (entries.map Prod.fst).Pairwise (· < ·)

namespace Table

variable {α : Type}

instance : EmptyCollection (Table α) := ⟨⟨[], .nil⟩⟩

instance : Inhabited (Table α) := ⟨{}⟩

-- ============================================================ reading

/-- What a name is bound to. -/
def get? (t : Table α) (name : String) : Option α :=
  t.entries.lookup name

/-- The bound names, in increasing order. -/
def names (t : Table α) : List String :=
  t.entries.map Prod.fst

/-- The names whose entry passes a test, in increasing order. -/
def namesWhere (t : Table α) (keep : α → Bool) : List String :=
  (t.entries.filter fun entry => keep entry.2).map Prod.fst

-- ============================================================ writing

/-- Puts an entry at its place in a list of entries, over the one that
has its name. -/
def place (name : String) (a : α) :
    List (String × α) → List (String × α)
  | [] => [(name, a)]
  | (key, b) :: rest =>
      if name < key then (name, a) :: (key, b) :: rest
      else if name = key then (name, a) :: rest
      else (key, b) :: place name a rest

/-- Placing adds its own name and no other. -/
theorem mem_map_fst_place {name key : String} {a : α}
    {entries : List (String × α)} :
    key ∈ (place name a entries).map Prod.fst
      ↔ key = name ∨ key ∈ entries.map Prod.fst := by
  induction entries with
  | nil => simp [place]
  | cons entry rest ih =>
      obtain ⟨k, b⟩ := entry
      unfold place
      split
      · simp
      · split
        · rename_i h
          subst h
          simp
        · simp only [List.map_cons, List.mem_cons, ih]
          constructor
          · intro h
            rcases h with h | h | h
            · exact .inr (.inl h)
            · exact .inl h
            · exact .inr (.inr h)
          · intro h
            rcases h with h | h | h
            · exact .inr (.inl h)
            · exact .inl h
            · exact .inr (.inr h)

/-- Placing keeps the order strict. -/
theorem ordered_place {name : String} {a : α}
    {entries : List (String × α)}
    (ordered : (entries.map Prod.fst).Pairwise (· < ·)) :
    ((place name a entries).map Prod.fst).Pairwise (· < ·) := by
  induction entries with
  | nil => simp [place]
  | cons entry rest ih =>
      obtain ⟨k, b⟩ := entry
      rw [List.map_cons, List.pairwise_cons] at ordered
      unfold place
      split
      · rename_i h
        simp only [List.map_cons, List.pairwise_cons, List.mem_cons]
        refine ⟨?_, ordered⟩
        intro key hkey
        rcases hkey with rfl | hkey
        · exact h
        · exact String.lt_trans h (ordered.1 key hkey)
      · split
        · rename_i h
          subst h
          simpa only [List.map_cons, List.pairwise_cons] using ordered
        · rename_i hlt hne
          rw [List.map_cons, List.pairwise_cons]
          refine ⟨fun key hkey => ?_, ih ordered.2⟩
          rcases mem_map_fst_place.1 hkey with rfl | hkey
          · refine Decidable.byContradiction fun hnot => hne ?_
            exact String.le_antisymm (String.not_lt.1 hnot)
              (String.not_lt.1 hlt)
          · exact ordered.1 key hkey

/-- Binds a name, over what it was bound to. -/
def insert (t : Table α) (name : String) (a : α) : Table α where
  entries := place name a t.entries
  ordered := ordered_place t.ordered

/-- The table of a list of bindings; of two for one name the later
counts. -/
def ofList (bindings : List (String × α)) : Table α :=
  bindings.foldl (fun t binding => t.insert binding.1 binding.2) {}

-- ======================================================= the read laws

/-- Nothing is bound in the empty table. -/
@[simp] theorem get?_empty (name : String) :
    ({} : Table α).get? name = none := rfl

/-- Looking a name up after placing an entry. -/
theorem lookup_place {name key : String} {a : α}
    {entries : List (String × α)}
    (ordered : (entries.map Prod.fst).Pairwise (· < ·)) :
    (place name a entries).lookup key
      = if key = name then some a else entries.lookup key := by
  induction entries with
  | nil =>
      by_cases h : key = name
      · subst h
        simp [place]
      · have hb : (key == name) = false := by simpa using h
        simp [place, List.lookup_cons, h, hb]
  | cons entry rest ih =>
      obtain ⟨k, b⟩ := entry
      rw [List.map_cons, List.pairwise_cons] at ordered
      unfold place
      split
      · by_cases h : key = name
        · subst h
          simp
        · have hb : (key == name) = false := by simpa using h
          simp [List.lookup_cons, h, hb]
      · split
        · rename_i hk
          subst hk
          by_cases h : key = name
          · subst h
            simp
          · have hb : (key == name) = false := by simpa using h
            simp [List.lookup_cons, h, hb]
        · rename_i hne
          by_cases hk : key = k
          · subst hk
            have : ¬ key = name := fun h => hne h.symm
            simp [this]
          · have hb : (key == k) = false := by simpa using hk
            simp only [List.lookup_cons, hb]
            exact ih ordered.2

/-- A binding is read back, and no other name is touched. -/
theorem get?_insert (t : Table α) (name key : String) (a : α) :
    (t.insert name a).get? key
      = if key = name then some a else t.get? key :=
  lookup_place t.ordered

/-- The table of a list binds nothing that the list does not. -/
theorem mem_of_get?_ofList {bindings : List (String × α)} {name : String}
    {a : α} (h : (ofList bindings).get? name = some a) :
    (name, a) ∈ bindings := by
  suffices ∀ t : Table α,
      (bindings.foldl (fun t binding => t.insert binding.1 binding.2)
        t).get? name = some a →
      t.get? name = some a ∨ (name, a) ∈ bindings by
    rcases this {} h with hempty | hmem
    · cases hempty
    · exact hmem
  clear h
  induction bindings with
  | nil => exact fun t h => .inl h
  | cons binding rest ih =>
      intro t h
      rcases ih _ h with hinsert | hmem
      · rw [get?_insert] at hinsert
        split at hinsert
        · rename_i hname
          cases hinsert
          rw [hname]
          exact .inr List.mem_cons_self
        · exact .inl hinsert
      · exact .inr (List.mem_cons_of_mem _ hmem)

/-- Binding a name adds it to the names and nothing else. -/
theorem mem_names_insert {t : Table α} {name key : String} {a : α} :
    key ∈ (t.insert name a).names ↔ key = name ∨ key ∈ t.names :=
  mem_map_fst_place

-- ======================================================= the listing laws

/-- A name has one entry, the one that it is bound to. -/
theorem mem_entries_iff {t : Table α} {name : String} {a : α} :
    (name, a) ∈ t.entries ↔ t.get? name = some a := by
  unfold get?
  rw [List.lookup_eq_some_iff]
  constructor
  · intro h
    obtain ⟨before, after, entries⟩ := List.append_of_mem h
    refine ⟨before, after, entries, fun entry mem => ?_⟩
    -- the entries before it have smaller names
    have ordered := t.ordered
    rw [entries, List.map_append, List.pairwise_append] at ordered
    have smaller : entry.1 < name :=
      ordered.2.2 _ (List.mem_map_of_mem mem) _ (by simp)
    rw [bne_iff_ne]
    rintro rfl
    exact String.lt_irrefl _ smaller
  · rintro ⟨before, after, entries, -⟩
    rw [entries]
    exact List.mem_append_right _ List.mem_cons_self

/-- What is listed are the names that are bound to what passes the test. -/
theorem mem_namesWhere_iff {t : Table α} {keep : α → Bool} {name : String} :
    name ∈ t.namesWhere keep ↔ ∃ a, t.get? name = some a ∧ keep a = true := by
  unfold namesWhere
  simp only [List.mem_map, List.mem_filter, Prod.exists, mem_entries_iff,
    exists_and_right, exists_eq_right]

/-- Listing keeps the order strict. -/
theorem ordered_namesWhere (t : Table α) (keep : α → Bool) :
    (t.namesWhere keep).Pairwise (· < ·) :=
  t.ordered.sublist (List.filter_sublist.map Prod.fst)

end Table

end ObjectWorld
