/-
What the listing of methods says, and how it stands to what a value answers
to.

The levels of a value are the classes along its chain. A level lists the
names that itself defines by a public method, each one time and in
increasing order, so its list is settled by what is public there
(`ListsLevel.eq_of_same`): nothing of the order in which methods were defined,
or defined over, is left in it. The lists of all levels in a row are the
listing, so a name is in it as often as there are levels that define it as
public (`count_listed`).

Answering to a name goes by the first level alone that defines it, public or
not. So from outside a name may be listed and yet not be answered to, and
that is so exactly where a private definition comes first, before every
public one (`responds_eq_false_iff`).
-/
import Mathlib.Data.List.Sort
import ObjectWorld.Proofs.Responding
import ObjectWorld.Proofs.Unobserved

namespace ObjectWorld

namespace World

variable {w : World} {v : Value} {name : String} {d e : ClassId}
  {before after : List ClassId}

-- ============================================================== one level

/-- The visibility that a class itself gives to a name, if it defines it. -/
def ownVisibility? (w : World) (d : ClassId) (name : String) :
    Option Visibility :=
  (w.ownMethod? d name).map Method.visibility

/-- Whether names are those that a class itself defines as public, in
increasing order. -/
structure ListsLevel (w : World) (d : ClassId) (names : List String) :
    Prop where
  ordered : names.Pairwise (· < ·)
  mem_iff : ∀ name, name ∈ names ↔ w.ownVisibility? d name = some .isPublic

/-- That is the list of the class. -/
theorem listsLevel_publicNames (w : World) (d : ClassId) :
    w.ListsLevel d (w.publicNames d) where
  ordered := Table.ordered_namesWhere _ _
  mem_iff name := by
    unfold publicNames ownVisibility?
    rw [Table.mem_namesWhere_iff, Option.map_eq_some_iff]
    simp only [beq_iff_eq]
    rfl

/-- What is public at a level settles its list. -/
theorem ListsLevel.eq_of_same {w' : World} {names names' : List String}
    (h : w.ListsLevel d names) (h' : w'.ListsLevel d names')
    (same : ∀ name, w'.ownVisibility? d name = some .isPublic
      ↔ w.ownVisibility? d name = some .isPublic) : names' = names := by
  refine h'.ordered.eq_of_mem_iff h.ordered fun name => ?_
  rw [h'.mem_iff, h.mem_iff, same]

/-- A level lists a name one time, if it defines it as public. -/
theorem count_publicNames (w : World) (d : ClassId) (name : String) :
    (w.publicNames d).count name
      = if w.ownVisibility? d name = some .isPublic then 1 else 0 := by
  obtain ⟨ordered, mem⟩ := w.listsLevel_publicNames d
  rw [ordered.nodup.count]
  simp only [mem]

-- ============================================================= all levels

theorem listed_eq (w : World) (v : Value) :
    w.listed v = (w.chainOf v).flatMap w.publicNames := rfl

/-- What is listed is public at some level. -/
theorem mem_listed_iff :
    name ∈ w.listed v
      ↔ ∃ d ∈ w.chainOf v, w.ownVisibility? d name = some .isPublic := by
  rw [listed_eq, List.mem_flatMap]
  simp only [(w.listsLevel_publicNames _).mem_iff]

/-- One of these levels is the most specific. -/
theorem exists_first_of_mem_listed (h : name ∈ w.listed v) :
    ∃ before e after, w.chainOf v = before ++ e :: after
      ∧ w.ownVisibility? e name = some .isPublic
      ∧ ∀ b ∈ before, w.ownVisibility? b name ≠ some .isPublic := by
  let isLister (d : ClassId) : Bool :=
    w.ownVisibility? d name = some .isPublic
  have found : ((w.chainOf v).find? isLister).isSome := by
    simpa [isLister] using mem_listed_iff.1 h
  obtain ⟨e, first⟩ := Option.isSome_iff_exists.1 found
  obtain ⟨here, before, after, chain, none⟩ :=
    List.find?_eq_some_iff_append.1 first
  refine ⟨before, e, after, chain, of_decide_eq_true here, ?_⟩
  intro b mem shows
  simpa [isLister, shows] using none b mem

/-- It is listed one time for each such level. -/
theorem count_listed (w : World) (v : Value) (name : String) :
    (w.listed v).count name = (w.chainOf v).countP fun d =>
      w.ownVisibility? d name = some .isPublic := by
  rw [listed_eq]
  induction w.chainOf v with
  | nil => rfl
  | cons d levels ih =>
      rw [List.flatMap_cons, List.count_append, List.countP_cons, ih,
        count_publicNames, Nat.add_comm]
      simp only [decide_eq_true_eq]

-- ========================================================= what is answered

/-- A name is answered to from outside if the first visibility that a level
gives to it is public. -/
theorem responds_eq_true_iff :
    w.responds v name .explicit = true
      ↔ (w.chainOf v).findSome? (w.ownVisibility? · name)
        = some .isPublic := by
  have first : (w.chainOf v).findSome? (w.ownVisibility? · name)
      = (w.resolve? v name).map (·.method.visibility) := by
    rw [resolve?_eq, List.map_findSome?]
    refine congrArg (fun f => List.findSome? f _) (funext fun d => ?_)
    exact (Option.map_map (·.method.visibility) (Resolution.mk d) _).symm
  rw [first, responds_iff, Option.map_eq_some_iff]
  simp only [CallSite.permits_iff, reduceCtorEq, or_false]

/-- What is answered to from outside is listed. -/
theorem mem_listed_of_responds (h : w.responds v name .explicit = true) :
    name ∈ w.listed v := by
  obtain ⟨before, d, after, chain, here, -⟩ :=
    List.findSome?_eq_some_iff.1 (responds_eq_true_iff.1 h)
  rw [mem_listed_iff, chain]
  exact ⟨d, by simp, here⟩

/-- From a level on that lists a name, only what comes before the level can
hide it: a private definition before which there is no public one. -/
theorem responds_eq_false_iff
    (chain : w.chainOf v = before ++ e :: after)
    (here : w.ownVisibility? e name = some .isPublic) :
    w.responds v name .explicit = false
      ↔ ∃ front p back, before = front ++ p :: back
        ∧ w.ownVisibility? p name = some .isPrivate
        ∧ ∀ b ∈ front, w.ownVisibility? b name ≠ some .isPublic := by
  rw [← Bool.not_eq_true, responds_eq_true_iff, chain, List.findSome?_append,
    List.findSome?_cons, here]
  constructor
  · intro hidden
    cases first : before.findSome? (w.ownVisibility? · name) with
    | none => exact absurd (by rw [first]; rfl) hidden
    | some visibility =>
        rw [first] at hidden
        cases visibility with
        | isPublic => exact absurd rfl hidden
        | isPrivate =>
            obtain ⟨front, p, back, split, hides, none⟩ :=
              List.findSome?_eq_some_iff.1 first
            refine ⟨front, p, back, split, hides, fun b mem => ?_⟩
            rw [none b mem]
            nofun
  · rintro ⟨front, p, back, rfl, hides, unlisted⟩ found
    rw [List.findSome?_append, List.findSome?_cons, hides] at found
    cases first : front.findSome? (w.ownVisibility? · name) with
    | none =>
        rw [first] at found
        cases found
    | some visibility =>
        rw [first] at found
        cases found
        obtain ⟨b, mem, shows⟩ := List.exists_of_findSome?_eq_some first
        exact unlisted b mem shows

/-- Above the most specific level that lists a name any private definition
hides it. -/
theorem responds_eq_false_iff_of_first
    (chain : w.chainOf v = before ++ e :: after)
    (here : w.ownVisibility? e name = some .isPublic)
    (first : ∀ b ∈ before, w.ownVisibility? b name ≠ some .isPublic) :
    w.responds v name .explicit = false
      ↔ ∃ p ∈ before, w.ownVisibility? p name = some .isPrivate := by
  rw [responds_eq_false_iff chain here]
  constructor
  · rintro ⟨front, p, back, rfl, hides, -⟩
    exact ⟨p, by simp, hides⟩
  · rintro ⟨p, mem, hides⟩
    obtain ⟨front, back, rfl⟩ := List.append_of_mem mem
    exact ⟨front, p, back, rfl, hides, fun b mem => first b (by simp [mem])⟩

end World

namespace Machine

variable {σ : Type}

-- ============================================================== the theorem

/-- The listing of methods is exact. Where the native that lists is called
and there is room, the call comes back with the symbols of the names that the
levels of the receiver list, the most specific level first. Each level lists
just what itself defines as public, in increasing order, and a level at which
the same is public lists the same, whatever has been defined there and in
which order. So a name is listed as often as there are levels that define it
as public. What the receiver answers to from outside is listed. What is listed
is not answered to exactly if, above the most specific level that lists it, a
level defines it as private. Of the other levels that list it this holds of
the private definitions which no public one comes before. -/
theorem methods_listed (host : Host σ) (m : Machine σ) (v : Value)
    (key : String) {d : ClassId}
    (resolved : m.world.resolve? v key
      = some ⟨d, CoreClass.looks 0 .methods⟩)
    (room : m.refusal? = none) :
    let w := m.world
    let levels := w.chainOf v
    let names := levels.flatMap w.publicNames
    m.Gives host v key (.array (names.map .symbol))
      ∧ (∀ d, w.ListsLevel d (w.publicNames d)
        ∧ ∀ w' : World, (∀ name, w'.ownVisibility? d name = some .isPublic
            ↔ w.ownVisibility? d name = some .isPublic) →
          w'.publicNames d = w.publicNames d)
      ∧ (∀ name, names.count name
        = levels.countP fun d => w.ownVisibility? d name = some .isPublic)
      ∧ (∀ name, w.responds v name .explicit = true → name ∈ names)
      ∧ (∀ name, name ∈ names → ∃ before e after,
        levels = before ++ e :: after
          ∧ w.ownVisibility? e name = some .isPublic
          ∧ (∀ b ∈ before, w.ownVisibility? b name ≠ some .isPublic)
          ∧ (w.responds v name .explicit = false
            ↔ ∃ p ∈ before, w.ownVisibility? p name = some .isPrivate))
      ∧ ∀ name before e after, levels = before ++ e :: after →
        w.ownVisibility? e name = some .isPublic →
        (w.responds v name .explicit = false
          ↔ ∃ front p back, before = front ++ p :: back
            ∧ w.ownVisibility? p name = some .isPrivate
            ∧ ∀ b ∈ front, w.ownVisibility? b name ≠ some .isPublic) := by
  intro w levels names
  refine ⟨gives_of_looks host resolved room rfl,
    fun d => ⟨w.listsLevel_publicNames d, ?_⟩, w.count_listed v,
    fun name => World.mem_listed_of_responds, fun name listed => ?_,
    fun name before e after chain here =>
      World.responds_eq_false_iff chain here⟩
  · exact fun w' same => (w.listsLevel_publicNames d).eq_of_same
      (w'.listsLevel_publicNames d) same
  · obtain ⟨before, e, after, chain, here, first⟩ :=
      World.exists_first_of_mem_listed listed
    exact ⟨before, e, after, chain, here, first,
      World.responds_eq_false_iff_of_first chain here first⟩

/-- A machine at the start, where inspecting is private for objects, but
public again for integers. -/
def veiled : Machine Unit where
  world := World.initial.defineMethod CoreClass.object.id "inspect"
      ⟨.fixed 0, .isPrivate, .native (.query .inspect)⟩
    |>.defineMethod CoreClass.integer.id "inspect"
      (CoreClass.looks 0 .inspect)
  limit := some 1
  own := ()

/-- The main receiver lists what the module of all objects lists, and as it
does not answer to inspecting, there is a private definition above it. An
integer lists that name two times, and it answers to it; so above the first
list with the name there is no private definition. -/
theorem methods_listed_veiled :
    veiled.Gives endless World.main "methods" (.array [.symbol "==",
      .symbol "class", .symbol "inspect", .symbol "methods", .symbol "nil?",
      .symbol "respond_to?", .symbol "to_s"])
    ∧ (∃ p ∈ veiled.world.chainOf World.main,
      veiled.world.ownVisibility? p "inspect" = some .isPrivate)
    ∧ (veiled.world.listed (.int 1)).count "inspect" = 2
    ∧ veiled.world.responds (.int 1) "inspect" .explicit = true := by
  obtain ⟨gives, -, -, -, hides, -⟩ :=
    methods_listed endless veiled World.main "methods" rfl rfl
  obtain ⟨-, -, counts, -, -, sandwich⟩ :=
    methods_listed endless veiled (.int 1) "methods" rfl rfl
  refine ⟨gives, ?_, (counts "inspect").trans rfl, ?_⟩
  · obtain ⟨before, e, after, chain, -, -, hidden⟩ :=
      hides "inspect" (by decide +kernel)
    obtain ⟨p, mem, hides⟩ := hidden.1 rfl
    exact ⟨p, by simp [chain, mem], hides⟩
  · rw [← Bool.not_eq_false]
    intro hidden
    obtain ⟨front, p, back, none, -⟩ :=
      (sandwich "inspect" [] CoreClass.integer.id _ rfl rfl).1 hidden
    simp at none

end Machine

end ObjectWorld
