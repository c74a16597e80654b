/-
Identities, their handles, and what extending a handle does.

An object and a class have an identity: however a value is wrapped, it is
a handle of the thing that its bare value names. The record of that thing
holds its eigenclass once it has one (`singleton?`), and until then the
class that it was made of decides (`ownClass`). So the deciding class of a
bare handle is read off the identity alone (`classOf?_value`).

Extending has three ways to end well (`extend_cases`): the handle carries
its eigenclass already, or the deciding class of its bare value is an
eigenclass and is used again, or a new eigenclass is made and recorded.
Only the last one writes, and it writes the eigenclass of one identity
that had none.
-/
import ObjectWorld.Proofs.Ancestry

namespace ObjectWorld

/-- What has an identity of its own. -/
inductive Identity where
  | object (o : ObjectId)
  | cls (c : ClassId)
deriving DecidableEq

/-- The bare handle of an identity. -/
def Identity.value : Identity → Value
  | .object o => .object o
  | .cls c => .cls c

namespace Value

-- ============================================================== the handles

/-- The identity that a value is a handle of. -/
def identity? (v : Value) : Option Identity :=
  match v.bare with
  | .object o => some (.object o)
  | .cls c => some (.cls c)
  | _ => none

/-- A handle of an identity is its bare handle, wrapped or not. -/
theorem identity?_eq_some {v : Value} {i : Identity} :
    v.identity? = some i ↔ v.bare = i.value := by
  unfold identity?
  cases i with
  | object o =>
      split
      · rename_i p h
        simp [h, Identity.value]
      · rename_i c h
        simp [h, Identity.value]
      · rename_i h _
        simp only [reduceCtorEq, Identity.value, false_iff]
        exact h o
  | cls c =>
      split
      · rename_i p h
        simp [h, Identity.value]
      · rename_i c h
        simp [h, Identity.value]
      · rename_i _ h
        simp only [reduceCtorEq, Identity.value, false_iff]
        exact h c

/-- An identity as a value has no wrappers. -/
@[simp] theorem bare_value (i : Identity) : i.value.bare = i.value := by
  cases i <;> simp [Identity.value, bare]

/-- Unwrapping twice is unwrapping once. -/
@[simp] theorem bare_bare (v : Value) : v.bare.bare = v.bare := by
  fun_induction bare v with
  | case1 inner ih => exact ih
  | case2 inner e ih => exact ih
  | case3 v hself hextended =>
      unfold bare
      split
      · exact absurd rfl (hself _)
      · exact absurd rfl (hextended _ _)
      · rfl

/-- Wrappers do not count for the identity. -/
@[simp] theorem identity?_bare (v : Value) :
    v.bare.identity? = v.identity? := by
  unfold identity?
  rw [bare_bare]

/-- What is bare is no extension and no self reference. -/
theorem bare_ne {v w : Value} :
    v.bare ≠ .selfRef w ∧ ∀ e, v.bare ≠ .extended w e := by
  fun_induction bare v with
  | case1 inner ih => exact ih
  | case2 inner e ih => exact ih
  | case3 v hself hextended => exact ⟨hself w, hextended w⟩

/-- Taking outer self references off leaves what is underneath. -/
theorem bare_stripSelf (v : Value) : v.stripSelf.bare = v.bare := by
  fun_induction stripSelf v with
  | case1 inner ih => exact ih
  | case2 v _ => rfl

/-- Once the outer self references are off, what is left is an extension
or bare. -/
theorem stripSelf_cases (v : Value) :
    (∃ inner e, v.stripSelf = .extended inner e)
      ∨ v.stripSelf = v.bare := by
  fun_induction stripSelf v with
  | case1 inner ih => exact ih
  | case2 v hself =>
      by_cases h : ∃ inner e, v = .extended inner e
      · exact .inl h
      · refine .inr ?_
        unfold bare
        split
        · exact absurd rfl (hself _)
        · exact absurd ⟨_, _, rfl⟩ h
        · rfl

end Value

namespace World

variable {w w' : World} {i j : Identity} {c eigenclass : ClassId}

-- ===================================================== what an identity has

/-- Whether an identity is one of a world's. -/
def Has (w : World) : Identity → Prop
  | .object o => w.HasObject o
  | .cls c => w.HasClass c

/-- The eigenclass that an identity has on record. -/
def singleton? (w : World) : Identity → Option ClassId
  | .object o => (w.objectInfo o).singleton
  | .cls c => (w.classInfo c).singleton

/-- The class of an identity without an eigenclass: the one an object was
made of, and of classes and modules the core class of their kind. -/
def ownClass (w : World) : Identity → ClassId
  | .object o => (w.objectInfo o).cls
  | .cls c => if w.isModule c then CoreClass.module.id else CoreClass.cls.id

/-- The class of a bare handle: the eigenclass on record, or else the
class of its own. -/
theorem classOf?_value (w : World) (i : Identity) :
    w.classOf? i.value = some ((w.singleton? i).getD (w.ownClass i)) := by
  cases i <;> rfl

/-- What is not there has no eigenclass. -/
theorem has_of_singleton? (h : w.singleton? i = some c) : w.Has i := by
  cases i with
  | object o =>
      show o.index < w.objects.size
      refine Decidable.byContradiction fun hnot => ?_
      have : w.objects[o.index]? = none :=
        Array.getElem?_eq_none (Nat.le_of_not_lt hnot)
      simp only [singleton?, objectInfo, this] at h
      cases h
  | cls d =>
      show d.index < w.classes.size
      refine Decidable.byContradiction fun hnot => ?_
      have : w.classes.label? d = none :=
        Forest.label?_eq_none (Nat.le_of_not_lt hnot)
      simp only [singleton?, classInfo, this] at h
      cases h

/-- An identity that is there stays there. -/
theorem Later.has (h : w.Later w') (hi : w.Has i) : w'.Has i := by
  cases i with
  | object o => exact h.hasObject hi
  | cls c => exact h.hasClass hi

/-- A class stays an eigenclass, or none. -/
theorem Later.isEigenclass (h : w.Later w') (hc : w.HasClass c) :
    w'.isEigenclass c = w.isEigenclass c :=
  h.keepsClasses.isEigenclass hc

/-- The class that an identity has of its own never changes. -/
theorem Later.ownClass (h : w.Later w') (hi : w.Has i) :
    w'.ownClass i = w.ownClass i := by
  cases i with
  | object o => exact h.cls hi
  | cls c =>
      show (if w'.isModule c then _ else _) = if w.isModule c then _ else _
      unfold isModule
      rw [h.kind hi]

-- ============================================== who writes the record of it

/-- A new class has no eigenclass yet, and no other identity is
touched. -/
theorem singleton?_newClass (w : World) (name : String) (kind : ClassKind)
    (superclass : Option ClassId) (i : Identity) :
    (w.newClass name kind superclass).2.singleton? i
      = w.singleton? i := by
  cases i with
  | object o => rfl
  | cls c =>
      show ((w.newClass name kind superclass).2.classInfo c).singleton
        = (w.classInfo c).singleton
      rw [classInfo_newClass]
      split
      · rename_i hc
        have : w.classes.label? c = none :=
          Forest.label?_eq_none (Nat.le_of_eq (by rw [hc]))
        unfold classInfo
        rw [this]
        rfl
      · rfl

/-- A new object has no eigenclass yet, and no other identity is
touched. -/
theorem singleton?_newObject (w : World) (cls : ClassId) (i : Identity) :
    (w.newObject cls).2.singleton? i = w.singleton? i := by
  cases i with
  | cls c => rfl
  | object o =>
      show ((w.newObject cls).2.objectInfo o).singleton
        = (w.objectInfo o).singleton
      rw [objectInfo_newObject]
      split
      · rename_i ho
        have : w.objects[o.index]? = none :=
          Array.getElem?_eq_none (Nat.le_of_eq (by rw [ho]))
        unfold objectInfo
        rw [this]
        rfl
      · rfl

/-- Defining a method records no eigenclass. -/
theorem singleton?_defineMethod (w : World) (c : ClassId) (name : String)
    (method : Method) (i : Identity) :
    (w.defineMethod c name method).singleton? i = w.singleton? i := by
  cases i with
  | object o => rfl
  | cls d => exact (kind_defineMethod w c d name method).2.2

/-- Nor does keeping a value in an object. -/
theorem singleton?_setIvar (w : World) (o : ObjectId) (name : String)
    (v : Value) (i : Identity) :
    (w.setIvar o name v).singleton? i = w.singleton? i := by
  cases i with
  | object p => exact (cls_setIvar w o p name v).2
  | cls c => rfl

/-- Recording an eigenclass records it of that identity and of no
other. -/
theorem singleton?_recordEigenclass (h : w.Has i) (eigenclass : ClassId)
    (j : Identity) :
    (w.recordEigenclass i.value eigenclass).singleton? j
      = if j = i then some eigenclass else w.singleton? j := by
  cases i with
  | object o =>
      cases j with
      | cls c => rfl
      | object p =>
          have hop : o.index = p.index ↔ p = o := by
            cases o; cases p; simp only [Ref.mk.injEq]; exact eq_comm
          simp only [recordEigenclass, Identity.value, singleton?,
            objectInfo, Array.getElem?_modify, hop, Identity.object.injEq]
          by_cases hp : p = o
          · subst hp
            have : w.objects[p.index]? = some w.objects[p.index] :=
              Array.getElem?_eq_getElem h
            simp [this]
          · simp [hp]
  | cls c =>
      cases j with
      | object o => rfl
      | cls d =>
          simp only [recordEigenclass, Identity.value, singleton?,
            classInfo, Forest.label?_relabel, Identity.cls.injEq]
          by_cases hd : d = c
          · subst hd
            have : (w.classes.label? d).isSome := by
              simpa [Forest.label?, Forest.size, Has, HasClass] using h
            obtain ⟨info, hinfo⟩ := Option.isSome_iff_exists.1 this
            simp [hinfo]
          · have : ¬ c = d := fun h => hd h.symm
            simp [hd, this]

/-- A value without an identity has nowhere to record one. -/
theorem recordEigenclass_of_plain {v : Value} (h : v.identity? = none)
    (hbare : v.bare = v) : w.recordEigenclass v eigenclass = w := by
  unfold Value.identity? at h
  rw [hbare] at h
  unfold recordEigenclass
  split
  · cases h
  · cases h
  · rfl

-- ================================================== making an eigenclass

/-- Recording an eigenclass takes nothing away. -/
theorem later_recordEigenclass (w : World) (v : Value)
    (eigenclass : ClassId) : w.Later (w.recordEigenclass v eigenclass) := by
  obtain ⟨-, hexceptions, hfunctions, hscopes⟩ :=
    frame_recordEigenclass w v eigenclass
  refine { Later.refl w with
    hasClass := hasClass_recordEigenclass.2
    superclass? := fun _ => superclass?_recordEigenclass ..
    kind := fun _ => (kind_recordEigenclass ..).1
    name := fun _ => (kind_recordEigenclass ..).2.1
    hasObject := hasObject_recordEigenclass.2
    cls := fun _ => (cls_recordEigenclass ..).1
    hasException := fun he => ?_
    exceptionInfo := fun _ => ?_
    hasFunction := fun hf => ?_
    functionInfo := fun _ => ?_
    hasScope := fun hs => ?_
    outer? := fun _ => ?_ }
  · unfold HasException
    rwa [hexceptions]
  · unfold World.exceptionInfo
    rw [hexceptions]
  · unfold HasFunction
    rwa [hfunctions]
  · unfold World.functionInfo
    rw [hfunctions]
  · unfold HasScope
    rwa [hscopes]
  · unfold World.outer?
    rw [hscopes]

/-- A new eigenclass is the next class, made under the class so far, and
then recorded. -/
theorem newEigenclass_eq (w : World) (v : Value) (current : ClassId) :
    w.newEigenclass v current
      = (⟨w.classes.size⟩,
        (w.newClass ("#<Class:" ++ w.inspect v ++ ">") .eigenclass
          (some current)).2.recordEigenclass v ⟨w.classes.size⟩) := rfl

/-- Nor does making one. -/
theorem later_newEigenclass (w : World) (v : Value) (current : ClassId) :
    w.Later (w.newEigenclass v current).2 :=
  (later_newClass ..).trans (later_recordEigenclass ..)

/-- Making an eigenclass makes one class. -/
theorem hasClass_newEigenclass {v : Value} {current : ClassId} :
    (w.newEigenclass v current).2.HasClass c
      ↔ w.HasClass c ∨ c = ⟨w.classes.size⟩ := by
  rw [newEigenclass_eq, hasClass_recordEigenclass]
  exact hasClass_newClass

/-- It makes no object. -/
theorem hasObject_newEigenclass {v : Value} {current : ClassId}
    {o : ObjectId} :
    (w.newEigenclass v current).2.HasObject o ↔ w.HasObject o := by
  rw [newEigenclass_eq, hasObject_recordEigenclass]
  rfl

/-- The new class is an eigenclass, and no other has become one. -/
theorem isEigenclass_newEigenclass (w : World) (v : Value)
    (current c : ClassId) :
    (w.newEigenclass v current).2.isEigenclass c
      = if c = ⟨w.classes.size⟩ then true else w.isEigenclass c := by
  unfold isEigenclass
  rw [newEigenclass_eq, (kind_recordEigenclass ..).1, classInfo_newClass]
  split <;> rfl

/-- The new eigenclass stands right below the class so far. -/
theorem superclass?_newEigenclass {current : ClassId}
    (h : w.HasClass current) (v : Value) (c : ClassId) :
    (w.newEigenclass v current).2.superclass? c
      = if c = ⟨w.classes.size⟩ then some current
        else w.superclass? c := by
  rw [newEigenclass_eq, superclass?_recordEigenclass, superclass?_newClass]
  have : decide (current.index < w.classes.size) = true :=
    decide_eq_true h
  simp only [Option.filter, this, if_true]

/-- The new eigenclass defines no method. -/
theorem ownMethod?_newEigenclass (w : World) (v : Value)
    (current c : ClassId) (key : String) :
    (w.newEigenclass v current).2.ownMethod? c key
      = if c = ⟨w.classes.size⟩ then none else w.ownMethod? c key := by
  unfold ownMethod?
  rw [newEigenclass_eq, (kind_recordEigenclass ..).2.2]
  exact ownMethod?_newClass ..

/-- The new eigenclass goes on record for the one identity. -/
theorem singleton?_newEigenclass (h : w.Has i) (current : ClassId)
    (j : Identity) :
    (w.newEigenclass i.value current).2.singleton? j
      = if j = i then some ⟨w.classes.size⟩ else w.singleton? j := by
  rw [newEigenclass_eq,
    singleton?_recordEigenclass ((later_newClass ..).has h),
    singleton?_newClass]

/-- A value without an identity leaves every record as it was. -/
theorem singleton?_newEigenclass_plain {v : Value}
    (h : v.identity? = none) (hbare : v.bare = v) (current : ClassId)
    (j : Identity) :
    (w.newEigenclass v current).2.singleton? j = w.singleton? j := by
  rw [newEigenclass_eq, recordEigenclass_of_plain h hbare]
  exact singleton?_newClass ..

/-- A new eigenclass leaves the chains of the old classes as they
were. -/
theorem ancestors_newEigenclass (h : w.HasClass c) (v : Value)
    (current : ClassId) :
    (w.newEigenclass v current).2.ancestors c = w.ancestors c := by
  rw [newEigenclass_eq, ancestors_recordEigenclass]
  exact ancestors_newClass h ..

/-- From the old classes it leaves every search as it was. -/
theorem resolveIn?_newEigenclass (h : w.HasClass c) (v : Value)
    (current : ClassId) (key : String) :
    (w.newEigenclass v current).2.resolveIn? c key
      = w.resolveIn? c key := by
  rw [resolveIn?_eq, resolveIn?_eq, ancestors_newEigenclass h]
  refine findSome?_congr fun owner howner => ?_
  rw [ownMethod?_newEigenclass, if_neg]
  exact ne_fresh (h.of_mem_ancestors howner)

-- ==================================================== what extending does

/-- A new eigenclass of one identity changes the class of no other. -/
theorem classOf?_newEigenclass (hij : j ≠ i) (hi : w.Has i) (hj : w.Has j)
    (current : ClassId) :
    (w.newEigenclass i.value current).2.classOf? j.value
      = w.classOf? j.value := by
  rw [classOf?_value, classOf?_value, singleton?_newEigenclass hi,
    if_neg hij, (later_newEigenclass ..).ownClass hj]

/-- Defining a method changes the class of no value. -/
theorem classOf?_defineMethod (w : World) (c : ClassId) (name : String)
    (method : Method) (v : Value) :
    (w.defineMethod c name method).classOf? v = w.classOf? v := by
  fun_induction World.classOf? w v with
  | case9 c =>
      obtain ⟨hkind, -, hsingleton⟩ := kind_defineMethod w _ c name method
      unfold World.classOf? isModule
      rw [hkind, hsingleton]
      rfl
  | case12 inner ih => exact ih
  | _ => rfl

/-- Self references do not count for the class. -/
theorem classOf?_stripSelf (w : World) (v : Value) :
    w.classOf? v.stripSelf = w.classOf? v := by
  fun_induction Value.stripSelf v with
  | case1 inner ih => exact ih
  | case2 v _ => rfl

/-- Self references come off before anything else happens. -/
theorem extend_stripSelf (w : World) (v : Value) :
    w.extend v.stripSelf = w.extend v := by
  fun_induction Value.stripSelf v with
  | case1 inner ih =>
      rw [ih]
      exact (extend.eq_2 w inner).symm
  | case2 v _ => rfl

/-- Extending a bare value. -/
theorem extend_of_bare {v : Value} (h : v.bare = v) :
    w.extend v = match w.classOf? v with
      | none => (.error (.noSingleton (w.tag v)), w)
      | some current =>
          if w.isEigenclass current then
            (.ok (.extended v current, current), w)
          else
            (.ok (.extended v ⟨w.classes.size⟩, ⟨w.classes.size⟩),
              (w.newEigenclass v current).2) := by
  rw [extend.eq_3]
  · rfl
  · intro inner e hv
    exact Value.bare_ne.2 e (h.trans hv)
  · intro inner hv
    exact Value.bare_ne.1 (h.trans hv)

/-- The four ways in which extending ends: there is no class to stand
below; the handle carries its eigenclass already; the class of the bare
value is an eigenclass and is used again; or a new one is made. -/
theorem extend_cases (w : World) (v : Value) :
    (w.classOf? v = none ∧ ∃ fault, w.extend v = (.error fault, w))
      ∨ (∃ inner e, v.stripSelf = .extended inner e
          ∧ w.extend v = (.ok (.extended inner e, e), w))
      ∨ (∃ e, w.classOf? v = some e ∧ w.classOf? v.bare = some e
          ∧ w.isEigenclass e = true
          ∧ w.extend v = (.ok (.extended v.bare e, e), w))
      ∨ ∃ current, w.classOf? v = some current
          ∧ w.classOf? v.bare = some current
          ∧ w.isEigenclass current = false
          ∧ w.extend v
            = (.ok (.extended v.bare ⟨w.classes.size⟩, ⟨w.classes.size⟩),
              (w.newEigenclass v.bare current).2) := by
  rcases v.stripSelf_cases with ⟨inner, e, h⟩ | h
  · refine .inr (.inl ⟨inner, e, h, ?_⟩)
    rw [← extend_stripSelf, h, extend.eq_1]
  · have hext := extend_of_bare (w := w) v.bare_bare
    rw [← h, extend_stripSelf, h] at hext
    have hsame : w.classOf? v = w.classOf? v.bare := by
      rw [← h, classOf?_stripSelf]
    rw [hsame]
    cases hcls : w.classOf? v.bare with
    | none =>
        rw [hcls] at hext
        exact .inl ⟨rfl, _, hext⟩
    | some current =>
        rw [hcls] at hext
        cases heig : w.isEigenclass current with
        | true =>
            simp only [heig, if_true] at hext
            exact .inr (.inr (.inl ⟨current, rfl, rfl, heig, hext⟩))
        | false =>
            simp only [heig, Bool.false_eq_true, if_false] at hext
            exact .inr (.inr (.inr ⟨current, rfl, rfl, heig, hext⟩))

end World

end ObjectWorld
