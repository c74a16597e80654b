/-
What the operations of a world write.

Every operation makes one new record or changes one field of one record.
For each of them there is one equation for each reading it can change:
the equation holds for every reference, also for one that names nothing,
so it needs no hypothesis beyond the one that the write takes place. The
readings that an operation does not touch are the same by definition and
are not listed.

`Later` collects what no operation ever changes: whatever is there stays
there, a class keeps its name, its kind and its superclass, an object
keeps the class it was made of, and exceptions and functions never change
at all.
-/
import ObjectWorld.World.Change

namespace ObjectWorld.World

variable {w w₁ w₂ w₃ : World}

-- ========================================================= what is there

/-- A class of a world. -/
def HasClass (w : World) (c : ClassId) : Prop :=
  c.index < w.classes.size

/-- An object of a world. -/
def HasObject (w : World) (o : ObjectId) : Prop :=
  o.index < w.objects.size

/-- An exception of a world. -/
def HasException (w : World) (e : ExceptionId) : Prop :=
  e.index < w.exceptions.size

/-- A function of a world. -/
def HasFunction (w : World) (f : FunctionId) : Prop :=
  f.index < w.functions.size

/-- A scope of a world. -/
def HasScope (w : World) (s : ScopeId) : Prop :=
  s.index < w.scopes.size

instance (w : World) (c : ClassId) : Decidable (w.HasClass c) :=
  inferInstanceAs (Decidable (_ < _))

instance (w : World) (o : ObjectId) : Decidable (w.HasObject o) :=
  inferInstanceAs (Decidable (_ < _))

instance (w : World) (s : ScopeId) : Decidable (w.HasScope s) :=
  inferInstanceAs (Decidable (_ < _))

-- ============================================================ the classes

/-- A new class takes the next place, and no other. -/
theorem hasClass_newClass {name : String} {kind : ClassKind}
    {superclass : Option ClassId} {c : ClassId} :
    (w.newClass name kind superclass).2.HasClass c
      ↔ w.HasClass c ∨ c = ⟨w.classes.size⟩ := by
  cases c
  simp only [HasClass, newClass, Forest.size_grow, Ref.mk.injEq]
  omega

/-- It starts with its name and its kind and nothing else. -/
theorem classInfo_newClass (w : World) (name : String) (kind : ClassKind)
    (superclass : Option ClassId) (c : ClassId) :
    (w.newClass name kind superclass).2.classInfo c
      = if c = ⟨w.classes.size⟩ then { name, kind }
        else w.classInfo c := by
  simp only [classInfo, newClass, Forest.label?_grow_eq]
  split <;> rfl

/-- It has the superclass it is given, if that is there already. -/
theorem superclass?_newClass (w : World) (name : String)
    (kind : ClassKind) (superclass : Option ClassId) (c : ClassId) :
    (w.newClass name kind superclass).2.superclass? c
      = if c = ⟨w.classes.size⟩
        then superclass.filter (·.index < w.classes.size)
        else w.superclass? c := by
  simp only [superclass?, newClass, Forest.parent?_grow_eq]

/-- Defining a method makes no class. -/
theorem hasClass_defineMethod {c d : ClassId} {name : String}
    {method : Method} :
    (w.defineMethod c name method).HasClass d ↔ w.HasClass d := by
  simp only [HasClass, defineMethod, Forest.size_relabel]

/-- Reading a class after its label has been changed: a label that is not
there reads as the empty one and can not be changed. -/
private theorem getD_label?_relabel {f : Forest .classes ClassInfo}
    {c d : ClassId} (change : ClassInfo → ClassInfo)
    (h : c.index < f.size) :
    ((f.relabel c change).label? d).getD default
      = if d = c then change ((f.label? d).getD default)
        else (f.label? d).getD default := by
  rw [Forest.label?_relabel]
  by_cases hcd : c = d
  · subst hcd
    have : (f.label? c).isSome := by
      simpa [Forest.label?, Forest.size] using h
    obtain ⟨info, hinfo⟩ := Option.isSome_iff_exists.1 this
    simp [hinfo]
  · have : ¬ d = c := fun h => hcd h.symm
    simp [hcd, this]

/-- A definition is put into the table of its class, in the place of an
earlier one of that name. -/
theorem classInfo_defineMethod {c : ClassId} (h : w.HasClass c)
    (name : String) (method : Method) (d : ClassId) :
    (w.defineMethod c name method).classInfo d
      = if d = c
        then { w.classInfo d with
          methods := (w.classInfo d).methods.insert name method }
        else w.classInfo d :=
  getD_label?_relabel _ h

/-- Defining a method changes no class but its own, and of that the
methods only; where there is no such class it changes nothing. -/
theorem kind_defineMethod (w : World) (c d : ClassId) (name : String)
    (method : Method) :
    ((w.defineMethod c name method).classInfo d).kind
        = (w.classInfo d).kind
      ∧ ((w.defineMethod c name method).classInfo d).name
        = (w.classInfo d).name
      ∧ ((w.defineMethod c name method).classInfo d).singleton
        = (w.classInfo d).singleton := by
  simp only [classInfo, defineMethod, Forest.label?_relabel]
  split
  · cases w.classes.label? d <;> exact ⟨rfl, rfl, rfl⟩
  · exact ⟨rfl, rfl, rfl⟩

/-- Definitions leave the links upward. -/
theorem superclass?_defineMethod (w : World) (c d : ClassId)
    (name : String) (method : Method) :
    (w.defineMethod c name method).superclass? d = w.superclass? d := by
  simp only [superclass?, defineMethod, Forest.parent?_relabel]

/-- The methods that classes define themselves, after a definition. -/
theorem ownMethod?_defineMethod {c : ClassId} (h : w.HasClass c)
    (name : String) (method : Method) (d : ClassId) (key : String) :
    (w.defineMethod c name method).ownMethod? d key
      = if d = c ∧ key = name then some method
        else w.ownMethod? d key := by
  rw [ownMethod?, classInfo_defineMethod h]
  by_cases hd : d = c
  · rw [if_pos hd]
    simp only [Table.get?_insert, hd, true_and]
    rfl
  · rw [if_neg hd, if_neg fun h => hd h.1]
    rfl

/-- A new class defines no method. -/
theorem ownMethod?_newClass (w : World) (name : String) (kind : ClassKind)
    (superclass : Option ClassId) (c : ClassId) (key : String) :
    (w.newClass name kind superclass).2.ownMethod? c key
      = if c = ⟨w.classes.size⟩ then none else w.ownMethod? c key := by
  rw [ownMethod?, classInfo_newClass]
  split <;> rfl

-- ================================ the objects, exceptions and functions

/-- A new object takes the next place, and no other. -/
theorem hasObject_newObject {cls : ClassId} {o : ObjectId} :
    (w.newObject cls).2.HasObject o
      ↔ w.HasObject o ∨ o = ⟨w.objects.size⟩ := by
  cases o
  simp only [HasObject, newObject, Array.size_push, Ref.mk.injEq]
  omega

/-- It is of the class it is made of, without eigenclass and variables. -/
theorem objectInfo_newObject (w : World) (cls : ClassId) (o : ObjectId) :
    (w.newObject cls).2.objectInfo o
      = if o = ⟨w.objects.size⟩ then { cls } else w.objectInfo o := by
  have ho : o = ⟨w.objects.size⟩ ↔ o.index = w.objects.size := by
    cases o; simp
  simp only [objectInfo, newObject, Array.getElem?_push, ho]
  split <;> rfl

/-- Keeping a value in an object makes no object. -/
theorem hasObject_setIvar {o p : ObjectId} {name : String} {v : Value} :
    (w.setIvar o name v).HasObject p ↔ w.HasObject p := by
  simp only [HasObject, setIvar, Array.size_modify]

/-- A value that is kept is put into the variables of its object, in the
place of an earlier one of that name. -/
theorem objectInfo_setIvar {o : ObjectId} (h : w.HasObject o)
    (name : String) (v : Value) (p : ObjectId) :
    (w.setIvar o name v).objectInfo p
      = if p = o
        then { w.objectInfo p with
          ivars := (w.objectInfo p).ivars.insert name v }
        else w.objectInfo p := by
  have hpo : o.index = p.index ↔ p = o := by
    cases o; cases p; simp only [Ref.mk.injEq]; exact eq_comm
  simp only [objectInfo, setIvar, Array.getElem?_modify, hpo]
  by_cases hp : p = o
  · subst hp
    have : w.objects[p.index]? = some w.objects[p.index] :=
      Array.getElem?_eq_getElem h
    simp [this]
  · simp [hp]

/-- A new exception takes the next place, and no other. -/
theorem hasException_newException {cls : ClassId} {message : String}
    {e : ExceptionId} :
    (w.newException cls message).2.HasException e
      ↔ w.HasException e ∨ e = ⟨w.exceptions.size⟩ := by
  cases e
  simp only [HasException, newException, Array.size_push, Ref.mk.injEq]
  omega

/-- It has the class and the message it is made with. -/
theorem exceptionInfo_newException (w : World) (cls : ClassId)
    (message : String) (e : ExceptionId) :
    (w.newException cls message).2.exceptionInfo e
      = if e = ⟨w.exceptions.size⟩ then { cls, message }
        else w.exceptionInfo e := by
  have he : e = ⟨w.exceptions.size⟩ ↔ e.index = w.exceptions.size := by
    cases e; simp
  simp only [exceptionInfo, newException, Array.getElem?_push, he]
  split <;> rfl

/-- A new function takes the next place, and no other. -/
theorem hasFunction_newFunction {info : FunctionInfo} {f : FunctionId} :
    (w.newFunction info).2.HasFunction f
      ↔ w.HasFunction f ∨ f = ⟨w.functions.size⟩ := by
  cases f
  simp only [HasFunction, newFunction, Array.size_push, Ref.mk.injEq]
  omega

/-- It is what it is made of. -/
theorem functionInfo_newFunction (w : World) (info : FunctionInfo)
    (f : FunctionId) :
    (w.newFunction info).2.functionInfo f
      = if f = ⟨w.functions.size⟩ then info else w.functionInfo f := by
  have hf : f = ⟨w.functions.size⟩ ↔ f.index = w.functions.size := by
    cases f; simp
  simp only [functionInfo, newFunction, Array.getElem?_push, hf]
  split <;> rfl

-- ============================================================= the scopes

/-- A new scope takes the next place, and no other. -/
theorem hasScope_newScope {outer : Option ScopeId} {table : Table Value}
    {s : ScopeId} :
    (w.newScope outer table).2.HasScope s
      ↔ w.HasScope s ∨ s = ⟨w.scopes.size⟩ := by
  cases s
  simp only [HasScope, newScope, Forest.size_grow, Ref.mk.injEq]
  omega

/-- It starts with the bindings it is given. -/
theorem bindings_newScope (w : World) (outer : Option ScopeId)
    (table : Table Value) (s : ScopeId) :
    (w.newScope outer table).2.bindings s
      = if s = ⟨w.scopes.size⟩ then table else w.bindings s := by
  simp only [bindings, newScope, Forest.label?_grow_eq]
  split <;> rfl

/-- It stands in the scope it is given, if that is there already. -/
theorem outer?_newScope (w : World) (outer : Option ScopeId)
    (table : Table Value) (s : ScopeId) :
    (w.newScope outer table).2.outer? s
      = if s = ⟨w.scopes.size⟩
        then outer.filter (·.index < w.scopes.size) else w.outer? s := by
  simp only [outer?, newScope, Forest.parent?_grow_eq]

/-- Defining a name makes no scope. -/
theorem hasScope_define {s t : ScopeId} {name : String} {v : Value} :
    (w.define s name v).HasScope t ↔ w.HasScope t := by
  simp only [HasScope, define, Forest.size_relabel]

/-- Definitions leave the links outward. -/
theorem outer?_define (w : World) (s t : ScopeId) (name : String)
    (v : Value) : (w.define s name v).outer? t = w.outer? t := by
  simp only [outer?, define, Forest.parent?_relabel]

/-- A name is bound in the scope itself, in the place of an earlier binding,
and in no other. -/
theorem bindings_define {s : ScopeId} (h : w.HasScope s) (name : String)
    (v : Value) (t : ScopeId) :
    (w.define s name v).bindings t
      = if t = s then (w.bindings t).insert name v
        else w.bindings t := by
  simp only [bindings, define, Forest.label?_relabel]
  by_cases hst : s = t
  · subst hst
    have : (w.scopes.label? s).isSome := by
      simpa [Forest.label?, Forest.size, HasScope] using h
    obtain ⟨table, htable⟩ := Option.isSome_iff_exists.1 this
    simp [htable]
  · have : ¬ t = s := fun h => hst h.symm
    simp [hst, this]

/-- The scope that a scope stands in is there. -/
theorem HasScope.of_outer? {s t : ScopeId} (h : w.outer? s = some t) :
    w.HasScope t :=
  Nat.lt_trans (Forest.index_lt_of_parent? h)
    (Forest.index_lt_size_of_parent? h)

/-- A scope that binds a name is no younger than one that sees it. -/
theorem index_le_of_binder? {s t : ScopeId} {name : String}
    (h : w.binder? s name = some t) : t.index ≤ s.index := by
  unfold binder? Forest.findOnPath? at h
  obtain ⟨u, hu, hfound⟩ := List.exists_of_findSome?_eq_some h
  obtain ⟨table, -, hbound⟩ := Option.bind_eq_some_iff.1 hfound
  obtain ⟨v, -, rfl⟩ := Option.map_eq_some_iff.1 hbound
  exact Forest.index_le_of_mem_path hu

-- ====================================================== recorded eigenclasses

/-- Recording an eigenclass touches classes and objects only. -/
theorem frame_recordEigenclass (w : World) (v : Value)
    (eigenclass : ClassId) :
    (w.recordEigenclass v eigenclass).registry = w.registry
      ∧ (w.recordEigenclass v eigenclass).exceptions = w.exceptions
      ∧ (w.recordEigenclass v eigenclass).functions = w.functions
      ∧ (w.recordEigenclass v eigenclass).scopes = w.scopes := by
  unfold recordEigenclass
  split <;> exact ⟨rfl, rfl, rfl, rfl⟩

/-- Recording an eigenclass makes no class: it is there before. -/
theorem hasClass_recordEigenclass {v : Value} {eigenclass c : ClassId} :
    (w.recordEigenclass v eigenclass).HasClass c ↔ w.HasClass c := by
  unfold recordEigenclass
  split <;> simp only [HasClass, Forest.size_relabel]

/-- Nor does it move a class that is there. -/
theorem superclass?_recordEigenclass (w : World) (v : Value)
    (eigenclass c : ClassId) :
    (w.recordEigenclass v eigenclass).superclass? c = w.superclass? c := by
  unfold recordEigenclass
  split <;> simp only [superclass?, Forest.parent?_relabel]

/-- Recording an eigenclass leaves everything else about the classes. -/
theorem kind_recordEigenclass (w : World) (v : Value)
    (eigenclass c : ClassId) :
    ((w.recordEigenclass v eigenclass).classInfo c).kind
        = (w.classInfo c).kind
      ∧ ((w.recordEigenclass v eigenclass).classInfo c).name
        = (w.classInfo c).name
      ∧ ((w.recordEigenclass v eigenclass).classInfo c).methods
        = (w.classInfo c).methods := by
  unfold recordEigenclass
  split
  · exact ⟨rfl, rfl, rfl⟩
  · simp only [classInfo, Forest.label?_relabel]
    split
    · cases w.classes.label? c <;> exact ⟨rfl, rfl, rfl⟩
    · exact ⟨rfl, rfl, rfl⟩
  · exact ⟨rfl, rfl, rfl⟩

/-- And it makes no object. -/
theorem hasObject_recordEigenclass {v : Value} {eigenclass : ClassId}
    {o : ObjectId} :
    (w.recordEigenclass v eigenclass).HasObject o ↔ w.HasObject o := by
  unfold recordEigenclass
  split <;> simp only [HasObject, Array.size_modify]

/-- Changing the record of one object, read field by field: where there
is no such object nothing changes. -/
private theorem map_getD_modify {α β : Type} [Inhabited α] {a : Array α}
    {i j : Nat} {change : α → α} {field : α → β}
    (h : ∀ x, field (change x) = field x) :
    field ((a.modify i change)[j]?.getD default)
      = field (a[j]?.getD default) := by
  rw [Array.getElem?_modify]
  split
  · cases a[j]? <;> simp [h]
  · rfl

/-- Recording an eigenclass leaves everything else about the objects. -/
theorem cls_recordEigenclass (w : World) (v : Value)
    (eigenclass : ClassId) (o : ObjectId) :
    ((w.recordEigenclass v eigenclass).objectInfo o).cls
        = (w.objectInfo o).cls
      ∧ ((w.recordEigenclass v eigenclass).objectInfo o).ivars
        = (w.objectInfo o).ivars := by
  unfold recordEigenclass
  split
  · exact ⟨map_getD_modify fun _ => rfl, map_getD_modify fun _ => rfl⟩
  · exact ⟨rfl, rfl⟩
  · exact ⟨rfl, rfl⟩

/-- Keeping a value in an object leaves its class and its eigenclass. -/
theorem cls_setIvar (w : World) (o p : ObjectId) (name : String)
    (v : Value) :
    ((w.setIvar o name v).objectInfo p).cls = (w.objectInfo p).cls
      ∧ ((w.setIvar o name v).objectInfo p).singleton
        = (w.objectInfo p).singleton :=
  ⟨map_getD_modify fun _ => rfl, map_getD_modify fun _ => rfl⟩

-- ======================================================= what stays for good

/-- What no operation changes: whatever is there stays, with its name,
its kind and its place above all others of its region. -/
structure Later (w w' : World) : Prop where
  hasClass : ∀ {c}, w.HasClass c → w'.HasClass c
  superclass? : ∀ {c}, w.HasClass c → w'.superclass? c = w.superclass? c
  kind : ∀ {c}, w.HasClass c → (w'.classInfo c).kind = (w.classInfo c).kind
  name : ∀ {c}, w.HasClass c → (w'.classInfo c).name = (w.classInfo c).name
  hasObject : ∀ {o}, w.HasObject o → w'.HasObject o
  cls : ∀ {o}, w.HasObject o → (w'.objectInfo o).cls = (w.objectInfo o).cls
  hasException : ∀ {e}, w.HasException e → w'.HasException e
  exceptionInfo : ∀ {e}, w.HasException e →
    w'.exceptionInfo e = w.exceptionInfo e
  hasFunction : ∀ {f}, w.HasFunction f → w'.HasFunction f
  functionInfo : ∀ {f}, w.HasFunction f →
    w'.functionInfo f = w.functionInfo f
  hasScope : ∀ {s}, w.HasScope s → w'.HasScope s
  outer? : ∀ {s}, w.HasScope s → w'.outer? s = w.outer? s

/-- Nothing is lost where nothing happens. -/
theorem Later.refl (w : World) : w.Later w :=
  ⟨id, fun _ => rfl, fun _ => rfl, fun _ => rfl, id, fun _ => rfl, id,
    fun _ => rfl, id, fun _ => rfl, id, fun _ => rfl⟩

/-- What lasts into a later world is there to last on from it. -/
theorem Later.trans (h : w₁.Later w₂) (h' : w₂.Later w₃) :
    w₁.Later w₃ where
  hasClass hc := h'.hasClass (h.hasClass hc)
  superclass? hc := (h'.superclass? (h.hasClass hc)).trans (h.superclass? hc)
  kind hc := (h'.kind (h.hasClass hc)).trans (h.kind hc)
  name hc := (h'.name (h.hasClass hc)).trans (h.name hc)
  hasObject ho := h'.hasObject (h.hasObject ho)
  cls ho := (h'.cls (h.hasObject ho)).trans (h.cls ho)
  hasException he := h'.hasException (h.hasException he)
  exceptionInfo he :=
    (h'.exceptionInfo (h.hasException he)).trans (h.exceptionInfo he)
  hasFunction hf := h'.hasFunction (h.hasFunction hf)
  functionInfo hf :=
    (h'.functionInfo (h.hasFunction hf)).trans (h.functionInfo hf)
  hasScope hs := h'.hasScope (h.hasScope hs)
  outer? hs := (h'.outer? (h.hasScope hs)).trans (h.outer? hs)

/-- What is there is not the next new thing. -/
theorem ne_fresh {region : Region} {i : Ref region} {n : Nat}
    (h : i.index < n) : i ≠ ⟨n⟩ := by
  intro heq
  subst heq
  exact Nat.lt_irrefl _ h

/-- A new class takes nothing away, since its place was free. -/
theorem later_newClass (w : World) (name : String) (kind : ClassKind)
    (superclass : Option ClassId) :
    w.Later (w.newClass name kind superclass).2 :=
  { Later.refl w with
    hasClass := fun h => hasClass_newClass.2 (Or.inl h)
    superclass? := fun h => by
      rw [superclass?_newClass, if_neg (ne_fresh h)]
    kind := fun h => by rw [classInfo_newClass, if_neg (ne_fresh h)]
    name := fun h => by rw [classInfo_newClass, if_neg (ne_fresh h)] }

/-- Nor does a new object. -/
theorem later_newObject (w : World) (cls : ClassId) :
    w.Later (w.newObject cls).2 :=
  { Later.refl w with
    hasObject := fun h => hasObject_newObject.2 (Or.inl h)
    cls := fun h => by rw [objectInfo_newObject, if_neg (ne_fresh h)] }

/-- Nor does a new exception. -/
theorem later_newException (w : World) (cls : ClassId)
    (message : String) : w.Later (w.newException cls message).2 :=
  { Later.refl w with
    hasException := fun h => hasException_newException.2 (Or.inl h)
    exceptionInfo := fun h => by
      rw [exceptionInfo_newException, if_neg (ne_fresh h)] }

/-- Nor does a new function. -/
theorem later_newFunction (w : World) (info : FunctionInfo) :
    w.Later (w.newFunction info).2 :=
  { Later.refl w with
    hasFunction := fun h => hasFunction_newFunction.2 (Or.inl h)
    functionInfo := fun h => by
      rw [functionInfo_newFunction, if_neg (ne_fresh h)] }

/-- Nor does a new scope. -/
theorem later_newScope (w : World) (outer : Option ScopeId)
    (table : Table Value) : w.Later (w.newScope outer table).2 :=
  { Later.refl w with
    hasScope := fun h => hasScope_newScope.2 (Or.inl h)
    outer? := fun h => by rw [outer?_newScope, if_neg (ne_fresh h)] }

/-- A definition of a method touches nothing that lasts. -/
theorem later_defineMethod (w : World) (c : ClassId) (name : String)
    (method : Method) : w.Later (w.defineMethod c name method) :=
  { Later.refl w with
    hasClass := hasClass_defineMethod.2
    superclass? := fun _ => superclass?_defineMethod ..
    kind := fun _ => (kind_defineMethod ..).1
    name := fun _ => (kind_defineMethod ..).2.1 }

/-- Nor does a value that is kept in an object. -/
theorem later_setIvar (w : World) (o : ObjectId) (name : String)
    (v : Value) : w.Later (w.setIvar o name v) :=
  { Later.refl w with
    hasObject := hasObject_setIvar.2
    cls := fun _ => (cls_setIvar ..).1 }

/-- Nor does a binding. -/
theorem later_define (w : World) (s : ScopeId) (name : String)
    (v : Value) : w.Later (w.define s name v) :=
  { Later.refl w with
    hasScope := hasScope_define.2
    outer? := fun _ => outer?_define .. }

end ObjectWorld.World
