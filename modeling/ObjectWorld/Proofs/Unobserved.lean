/-
A new eigenclass can not be seen through the natives.

What an installed native does rests on what it reads: of every operand the
bare value, the text and the name of the class (`LooksLike`); of the
receiver also the class to a user, the methods that are found and listed
along its chain, and what is on record for the thing that it is
(`StandsFor`). Two worlds in which the operands agree in that are the same
to every such native (`answer_congr`, `Does.congr`).

Extending a value changes nothing of it. A new eigenclass stands empty in
front of the class so far, and neither the search nor the list nor the
class to a user counts an empty eigenclass.
-/
import Mathlib.Data.List.Basic
import Mathlib.Data.List.Find
import ObjectWorld.Proofs.Builtins
import ObjectWorld.Proofs.Sameness

namespace ObjectWorld

namespace World

variable {w w' : World} {v x : Value} {c e : ClassId}

-- ============================================================ what is read

/-- The names of the public methods along the chain of a value, from the
most specific class on. -/
def listed (w : World) (v : Value) : List String :=
  ((w.classOf? v).elim [] w.ancestors).flatMap w.publicNames

/-- Whether a value in one world looks like a value in another: what is
read of an operand. -/
structure LooksLike (w w' : World) (v x : Value) : Prop where
  bare : x.bare = v.bare
  text : w'.inspect x = w.inspect v
  name : w'.classNameOf x = w.classNameOf v
  bareName : w'.classNameOf v.bare = w.classNameOf v.bare

/-- Whether a value in one world stands for a value in another: what is
read of a receiver. -/
structure StandsFor (w w' : World) (v x : Value) : Prop
    extends LooksLike w w' v x where
  nominal : w'.nominalClassOf? x = w.nominalClassOf? v
  finds : ∀ key, w'.resolve? x key = w.resolve? v key
  lists : w'.listed x = w.listed v
  exception : ∀ e, v.bare = .exception e →
    w'.exceptionInfo e = w.exceptionInfo e
  cls : ∀ c, v.bare = .cls c → w'.className c = w.className c
    ∧ w'.superclassSkippingModules? c = w.superclassSkippingModules? c
    ∧ ∀ key, w'.resolveIn? c key = w.resolveIn? c key

namespace LooksLike

/-- What looks alike is the same underneath. -/
theorem essence (h : w.LooksLike w' v x) : x.essence = v.essence := by
  rw [← Value.essence_bare, h.bare, Value.essence_bare]

/-- So it is the same integer, if it is one. -/
theorem int? (h : w.LooksLike w' v x) : x.int? = v.int? := by
  unfold Value.int?
  rw [h.bare]

/-- A native that calls for an integer takes it alike, or fails with the
same words. -/
theorem integerOf (h : w.LooksLike w' v x) :
    w'.integerOf x = w.integerOf v := by
  unfold World.integerOf
  rw [h.int?, h.name]

/-- So does one that calls for a text. -/
theorem textOf (h : w.LooksLike w' v x) : w'.textOf x = w.textOf v := by
  unfold World.textOf Value.text?
  rw [h.bare, h.name]

/-- A fault that names what is under the wrappers is the same. -/
theorem unfit (h : w.LooksLike w' v x) (expected : String) :
    w'.unfit expected x = w.unfit expected v := by
  unfold World.unfit
  rw [h.bare, h.bareName]

/-- So a name is taken alike. -/
theorem spellingOf (h : w.LooksLike w' v x) :
    w'.spellingOf x = w.spellingOf v := by
  unfold World.spellingOf Value.spelling?
  rw [h.bare, h.unfit]

theorem symbolOf (h : w.LooksLike w' v x) :
    w'.symbolOf x = w.symbolOf v := by
  unfold World.symbolOf
  rw [h.bare, h.unfit]

theorem itemsOf (h : w.LooksLike w' v x) :
    w'.itemsOf x = w.itemsOf v := by
  unfold World.itemsOf
  rw [h.bare, h.unfit]

theorem exceptionOf (h : w.LooksLike w' v x) :
    w'.exceptionOf x = w.exceptionOf v := by
  unfold World.exceptionOf
  rw [h.bare, h.unfit]

/-- So is a class, whatever the fault would say was expected. -/
theorem classFrom (h : w.LooksLike w' v x) (expected : String) :
    w'.classFrom expected x = w.classFrom expected v := by
  unfold World.classFrom Value.class?
  rw [h.bare, h.unfit]

end LooksLike

namespace StandsFor

/-- A value answers to the names that what it stands for answers to. -/
theorem responds (h : w.StandsFor w' v x) (name : String)
    (site : CallSite) : w'.responds x name site = w.responds v name site := by
  rw [World.responds_eq, World.responds_eq, h.finds]

/-- It is described in the same words. -/
theorem describe (h : w.StandsFor w' v x) : w'.describe x = w.describe v := by
  unfold World.describe
  rw [h.text, h.name]

/-- So a call by name is allowed or refused alike, with the same words. -/
theorem methodFor (h : w.StandsFor w' v x) (name : String) (given : Nat)
    (site : CallSite) :
    w'.methodFor x name given site = w.methodFor v name given site := by
  unfold World.methodFor
  rw [h.finds, h.describe]

end StandsFor

-- ============================================================ the queries

/-- Going on alike after a first step that is the same. -/
private theorem bind_congr_of_ok {α β : Type} {first : Except Fault α}
    {f g : α → Except Fault β} (h : ∀ a, first = .ok a → f a = g a) :
    first >>= f = first >>= g := by
  cases first with
  | error fault => rfl
  | ok a => exact h a rfl

/-- The one argument is one of the arguments. -/
theorem mem_of_soleArgument {args : List Value} {a : Value}
    (h : soleArgument args = .ok a) : a ∈ args := by
  unfold soleArgument at h
  split at h
  · cases h
    exact List.mem_cons_self
  · cases h

/-- So the operands of a call are taken alike, or refused alike. -/
theorem operands_congr {args : List Value} (h : w.LooksLike w' v x)
    (looks : ∀ a ∈ args, w.LooksLike w' a a) :
    w'.operands x args = w.operands v args := by
  unfold operands
  refine bind_congr_of_ok fun a ha => ?_
  rw [h.integerOf, (looks a (mem_of_soleArgument ha)).integerOf]

/-- An exception that is called for is the one of the bare value. -/
theorem bare_of_exceptionOf {e : ExceptionId}
    (h : w.exceptionOf v = .ok e) : v.bare = .exception e := by
  unfold exceptionOf at h
  split at h
  · rename_i hv
    cases h
    exact hv
  · cases h

/-- So is a class. -/
theorem bare_of_classFrom {expected : String}
    (h : w.classFrom expected v = .ok c) : v.bare = .cls c :=
  Value.class?_eq_some_iff.1 (classFrom_eq_ok_iff.1 h)

/-- A query answers alike where receiver and arguments agree in what is
read of them. -/
theorem answer_congr {args : List Value} (h : w.StandsFor w' v x)
    (looks : ∀ a ∈ args, w.LooksLike w' a a) (q : Query) :
    w'.answer q x args = w.answer q v args := by
  have argument : ∀ a, soleArgument args = .ok a → w.LooksLike w' a a :=
    fun a ha => looks a (mem_of_soleArgument ha)
  have operands := operands_congr h.toLooksLike looks
  have same : ∀ a, x.same a = v.same a :=
    fun a => Value.same_congr h.essence rfl
  cases q with
  | notNil | isNil | emptyText => rfl
  | classOf => simp only [answer, h.nominal]
  | methods =>
      show Except.ok (Value.array ((w'.listed x).map .symbol))
        = Except.ok (Value.array ((w.listed v).map .symbol))
      rw [h.lists]
  | inspect => simp only [answer, h.text]
  | equal => simp only [answer, same]
  | integerEqual => simp only [answer, same, h.int?]
  | add | subtract | multiply | divide | less | greater =>
      simp only [answer, operands]
  | textSize | textOfText | symbolOfText => simp only [answer, h.textOf]
  | textOfSymbol | symbolOfSymbol => simp only [answer, h.symbolOf]
  | itemCount | firstItem | lastItem | append =>
      simp only [answer, h.itemsOf]
  | require =>
      refine bind_congr_of_ok fun a ha => ?_
      rw [(argument a ha).textOf]
  | raise =>
      refine bind_congr_of_ok fun a ha => ?_
      rw [(argument a ha).text]
  | respondTo =>
      refine bind_congr_of_ok fun a ha => ?_
      simp only [(argument a ha).spellingOf, h.responds]
  | concat =>
      refine bind_congr_of_ok fun a ha => ?_
      rw [h.textOf, (argument a ha).textOf]
  | message =>
      simp only [answer, h.exceptionOf]
      refine bind_congr_of_ok fun e he => ?_
      rw [h.exception e (bare_of_exceptionOf he)]
  | className =>
      simp only [answer, h.classFrom]
      refine bind_congr_of_ok fun c hc => ?_
      rw [(h.cls c (bare_of_classFrom hc)).1]
  | superclass =>
      simp only [answer, h.classFrom]
      refine bind_congr_of_ok fun c hc => ?_
      rw [(h.cls c (bare_of_classFrom hc)).2.1]

end World

-- ============================================================ the natives

namespace Native

variable {w w' : World} {v x : Value} {args : List Value}
  {native : Native} {outcome : Outcome} {console console' : Console}

/-- Whether a native that has come to an outcome has made an object. -/
def Makes (native : Native) (outcome : Outcome) : Prop :=
  native = .instantiate ∧ ∃ y, outcome = .ok y

/-- What a native leaves of two worlds: where it makes an object, the next
one of each, of one class, and it is the outcome; else the worlds
themselves. -/
structure LeavesAlike (native : Native) (w w' : World) (v : Value)
    (outcome : Outcome) (after after' : World) : Prop where
  made : native.Makes outcome → ∃ c o, v.class? = some c
    ∧ outcome = .ok (.object o)
    ∧ w.newObject c = (o, after) ∧ w'.newObject c = (o, after')
  kept : ¬ native.Makes outcome → after = w ∧ after' = w'

/-- A native that makes nothing leaves the two worlds as they were. -/
theorem leavesAlike_of_not_makes (not : ¬ native.Makes outcome) :
    native.LeavesAlike w w' v outcome w w' :=
  ⟨fun makes => absurd makes not, fun _ => ⟨rfl, rfl⟩⟩

/-- An installed native does alike where receiver and arguments agree in
what is read of them: it fails alike, answers alike, prints alike, and
makes the next object of the same class. -/
theorem Does.congr {after : World} (h : w.StandsFor w' v x)
    (looks : ∀ a ∈ args, w.LooksLike w' a a)
    (objects : w'.objects.size = w.objects.size)
    (does : native.Does w console v args outcome after console') :
    ∃ after', native.Does w' console x args outcome after' console'
      ∧ native.LeavesAlike w w' v outcome after after' := by
  cases does with
  | query q =>
      refine ⟨w', ?_, leavesAlike_of_not_makes nofun⟩
      rw [← World.answer_congr h looks q]
      exact .query q
  | printLine =>
      refine ⟨w', ?_, leavesAlike_of_not_makes nofun⟩
      have texts : args.map w.inspect = args.map w'.inspect :=
        List.map_congr_left fun a ha => (looks a ha).text.symm
      rw [texts]
      exact .printLine
  | noClass unfit =>
      rw [← h.classFrom] at unfit
      exact ⟨w', .noClass unfit, leavesAlike_of_not_makes nofun⟩
  | tooMany fit plain check =>
      obtain ⟨-, -, found⟩ := h.cls _ (World.bare_of_classFrom fit)
      rw [← h.classFrom] at fit
      rw [← found] at plain
      exact ⟨w', .tooMany fit plain check, leavesAlike_of_not_makes nofun⟩
  | @instantiate c fit plain check =>
      have cls := World.classFrom_eq_ok_iff.1 fit
      obtain ⟨-, -, found⟩ := h.cls _ (World.bare_of_classFrom fit)
      rw [← h.classFrom] at fit
      rw [← found] at plain
      have next : (w'.newObject c).1 = (w.newObject c).1 :=
        congrArg Ref.mk objects
      refine ⟨(w'.newObject c).2, ?_, fun _ => ?_, fun not => ?_⟩
      · rw [← next]
        exact .instantiate fit plain check
      · refine ⟨c, _, cls, rfl, rfl, ?_⟩
        rw [← next]
      · exact absurd ⟨rfl, _, rfl⟩ not

end Native

-- ============================================================== the calls

namespace Machine

variable {σ : Type} {m m' : Machine σ} {c c' : Call σ}

/-- Whether a call that has come to an outcome has made an object. -/
def Call.Makes (c : Call σ) (outcome : Outcome) : Prop :=
  ∃ method native, c.allowed = .ok method
    ∧ method.body = .native native ∧ native.Makes outcome

/-- What two calls come back with if they can not be told apart: one
outcome and one console; and where they make an object, it is the next one
of each world, of one class, and else they leave the worlds alone. -/
structure Alike (host : Host σ) (m m' : Machine σ) (c c' : Call σ)
    (outcome : Outcome) (console : Console) (after after' : World) :
    Prop where
  call : m.call? = some c
  call' : m'.call? = some c'
  back : ComesBack host m { m with
    world := after, console, current := c.next outcome }
  back' : ComesBack host m' { m' with
    world := after', console, current := c'.next outcome }
  made : c.Makes outcome → ∃ k o, c.self.class? = some k
    ∧ outcome = .ok (.object o)
    ∧ m.world.newObject k = (o, after) ∧ m'.world.newObject k = (o, after')
  kept : ¬ c.Makes outcome → after = m.world ∧ after' = m'.world

/-- Calls that are both refused with one fault are alike. -/
theorem alike_of_refused {host : Host σ} {fault : Fault}
    (hc : m.call? = some c) (hc' : m'.call? = some c')
    (console : m'.console = m.console)
    (back : ComesBack host m { m with current := c.next (.error fault) })
    (back' : ComesBack host m' { m' with
      current := c'.next (.error fault) }) :
    Alike host m m' c c' (.error fault) m.console m.world m'.world where
  call := hc
  call' := hc'
  back := back
  back' := by
    rw [← console]
    exact back'
  made makes := by
    obtain ⟨-, -, -, -, -, v, hv⟩ := makes
    cases hv
  kept _ := ⟨rfl, rfl⟩

/-- Calls of one installed native on operands that agree in what is read
of them come back alike; and so do calls that are refused alike. -/
theorem exists_alike (host : Host σ) (hc : m.call? = some c)
    (hc' : m'.call? = some c') (allowed : c'.allowed = c.allowed)
    (args : c'.args = c.args) (console : m'.console = m.console)
    (room : m'.refusal? = m.refusal?)
    (objects : m'.world.objects.size = m.world.objects.size)
    (stands : m.world.StandsFor m'.world c.self c'.self)
    (looks : ∀ a ∈ c.args, m.world.LooksLike m'.world a a)
    (natives : ∀ method, c.allowed = .ok method → ∃ native : Native,
      method.body = .native native ∧ native.Installed
        ∧ native.Plain m.world c.self) :
    ∃ outcome console after after',
      Alike host m m' c c' outcome console after after' := by
  cases hallowed : c.allowed with
  | error fault =>
      exact ⟨_, _, _, _, alike_of_refused hc hc' console
        (comesBack_of_disallowed hc hallowed)
        (comesBack_of_disallowed hc' (allowed.trans hallowed))⟩
  | ok method =>
      have hallowed' := allowed.trans hallowed
      cases hr : m.refusal? with
      | some fault =>
          exact ⟨_, _, _, _, alike_of_refused hc hc' console
            (comesBack_of_full hc hallowed hr)
            (comesBack_of_full hc' hallowed' (room.trans hr))⟩
      | none =>
          obtain ⟨native, body, installed, plain⟩ := natives method hallowed
          obtain ⟨outcome, after, printed, does⟩ :=
            installed.does plain m.console c.args
          obtain ⟨after', does', leaves⟩ := does.congr stands looks objects
          rw [← console, ← args] at does'
          have makes : c.Makes outcome ↔ native.Makes outcome := by
            constructor
            · rintro ⟨other, native', hother, hbody, makes⟩
              rw [hallowed] at hother
              cases hother
              rw [body] at hbody
              cases hbody
              exact makes
            · exact fun makes => ⟨method, native, hallowed, body, makes⟩
          exact ⟨outcome, printed, after, after', hc, hc',
            comesBack_of_does hc hallowed hr body does,
            comesBack_of_does hc' hallowed' (room.trans hr) body does',
            fun h => leaves.made (makes.1 h),
            fun h => leaves.kept fun h' => h (makes.2 h')⟩

end Machine

-- ================================================== an empty eigenclass

namespace World

variable {w : World} {v : Value} {c e : ClassId}

/-- Whether a class stands new and empty right below another, and the old
classes define and list what they did. -/
structure FreshBelow (w w' : World) (e current : ClassId) : Prop where
  fresh : ¬ w.HasClass e
  above : w'.superclass? e = some current
  empty : ∀ key, w'.ownMethod? e key = none
  unlisted : w'.publicNames e = []
  lists : ∀ d, w.HasClass d → w'.publicNames d = w.publicNames d
  finds : ∀ d, w.HasClass d → ∀ key,
    w'.resolveIn? d key = w.resolveIn? d key

/-- A search from a class that defines nothing goes on above it. -/
theorem resolveIn?_of_empty (above : w.superclass? e = some c)
    (empty : ∀ key, w.ownMethod? e key = none) (key : String) :
    w.resolveIn? e key = w.resolveIn? c key := by
  rw [resolveIn?_eq, ancestors_of_superclass? above, List.findSome?_cons,
    empty, resolveIn?_eq]
  rfl

/-- A new eigenclass lists nothing. -/
theorem publicNames_newEigenclass (w : World) (v : Value)
    (current c : ClassId) :
    (w.newEigenclass v current).2.publicNames c
      = if c = ⟨w.classes.size⟩ then [] else w.publicNames c := by
  unfold publicNames
  rw [newEigenclass_eq, (kind_recordEigenclass ..).2.2, classInfo_newClass]
  split <;> rfl

/-- A new eigenclass stands fresh below the class so far. -/
theorem freshBelow_newEigenclass {current : ClassId}
    (there : w.HasClass current) (v : Value) :
    w.FreshBelow (w.newEigenclass v current).2 ⟨w.classes.size⟩
      current where
  fresh := Nat.lt_irrefl _
  above := by rw [superclass?_newEigenclass there, if_pos rfl]
  empty key := by rw [ownMethod?_newEigenclass, if_pos rfl]
  unlisted := by rw [publicNames_newEigenclass, if_pos rfl]
  lists d hd := by rw [publicNames_newEigenclass, if_neg (ne_fresh hd)]
  finds d hd key := resolveIn?_newEigenclass hd ..

/-- It is no object. -/
theorem size_objects_newEigenclass (w : World) (v : Value)
    (current : ClassId) :
    (w.newEigenclass v current).2.objects.size = w.objects.size := by
  rw [newEigenclass_eq]
  unfold recordEigenclass
  split
  · exact Array.size_modify
  · rfl
  · rfl

/-- The nearest class above an old one stays the same. -/
theorem Later.superclassSkippingModules? {w' : World} (later : w.Later w')
    (there : w.HasClass c) :
    w'.superclassSkippingModules? c = w.superclassSkippingModules? c := by
  unfold World.superclassSkippingModules?
  rw [later.keepsClasses.ancestors there]
  refine List.find?_congr fun d hd => ?_
  rw [later.isModule (there.of_mem_ancestors (List.mem_of_mem_tail hd))]

end World

-- ========================================================== the extension

namespace Realm

variable {r s : Realm} {v x : Value} {e : ClassId} {w : World}

/-- A value at hand looks later as it did before. -/
theorem Moves.looksLike (sound : r.Sound) (layered : r.Layered)
    (moves : Moves r s) (held : r.Held v) :
    r.world.LooksLike s.world v v where
  bare := rfl
  text := sound.inspect_later moves.later v held
  name := moves.classNameOf sound layered held
  bareName := moves.classNameOf sound layered (sound.held_bare held)

/-- What extending a value gives: the bare value with its class, in the
same world, if that is an eigenclass already; or with a new one that
stands empty right below its class. No object is made. -/
theorem Sound.extend_front (sound : r.Sound) (held : r.Held v)
    (hext : r.world.extend v = (.ok (x, e), w)) :
    x = .extended v.bare e
      ∧ w.objects.size = r.world.objects.size
      ∧ (r.world.classOf? v = some e ∧ w = r.world
        ∨ ∃ current, r.world.classOf? v = some current
          ∧ r.world.FreshBelow w e current) := by
  rcases sound.extend_cases held with
    ⟨-, fault, herror⟩ | ⟨f, cls, -, hok⟩ | ⟨current, cls, -, -, hok⟩
  · rw [herror] at hext
    cases hext
  · rw [hok] at hext
    cases hext
    exact ⟨rfl, rfl, .inl ⟨cls, rfl⟩⟩
  · rw [hok] at hext
    cases hext
    have there := sound.hasClass_classOf? held cls
    exact ⟨rfl, World.size_objects_newEigenclass ..,
      .inr ⟨current, cls, World.freshBelow_newEigenclass there _⟩⟩

/-- A value that can be extended has a class. -/
theorem Sound.classOf?_of_extend (sound : r.Sound) (held : r.Held v)
    (hext : r.world.extend v = (.ok (x, e), w)) :
    ∃ c, r.world.classOf? v = some c := by
  obtain ⟨-, -, ⟨cls, -⟩ | ⟨current, cls, -⟩⟩ :=
    sound.extend_front held hext
  · exact ⟨e, cls⟩
  · exact ⟨current, cls⟩

/-- On the extended value the same methods are found, in the same
places. -/
theorem Sound.resolve?_of_extend (sound : r.Sound) (held : r.Held v)
    (hext : r.world.extend v = (.ok (x, e), w)) (key : String) :
    w.resolve? x key = r.world.resolve? v key := by
  obtain ⟨rfl, -, ⟨cls, same⟩ | ⟨current, cls, below⟩⟩ :=
    sound.extend_front held hext
  · unfold World.resolve?
    rw [same, cls]
    rfl
  · have there := sound.hasClass_classOf? held cls
    unfold World.resolve?
    rw [cls]
    show w.resolveIn? e key = r.world.resolveIn? current key
    rw [World.resolveIn?_of_empty below.above below.empty,
      below.finds current there]

/-- And the same names are listed, in the same order. -/
theorem Sound.listed_of_extend (sound : r.Sound) (held : r.Held v)
    (later : r.world.Later w)
    (hext : r.world.extend v = (.ok (x, e), w)) :
    w.listed x = r.world.listed v := by
  obtain ⟨rfl, -, ⟨cls, same⟩ | ⟨current, cls, below⟩⟩ :=
    sound.extend_front held hext
  · unfold World.listed
    rw [same, cls]
    rfl
  · have there := sound.hasClass_classOf? held cls
    unfold World.listed
    rw [cls]
    show (w.ancestors e).flatMap w.publicNames
      = (r.world.ancestors current).flatMap r.world.publicNames
    rw [World.ancestors_of_superclass? below.above, List.flatMap_cons,
      below.unlisted, later.keepsClasses.ancestors there, List.nil_append]
    refine List.flatMap_congr fun d hd => ?_
    exact below.lists d (there.of_mem_ancestors hd)

/-- From the classes that were there a search finds what it found. -/
theorem Sound.resolveIn?_of_extend (sound : r.Sound) (held : r.Held v)
    (hext : r.world.extend v = (.ok (x, e), w)) {c : ClassId}
    (there : r.world.HasClass c) (key : String) :
    w.resolveIn? c key = r.world.resolveIn? c key := by
  obtain ⟨-, -, ⟨-, same⟩ | ⟨current, -, below⟩⟩ :=
    sound.extend_front held hext
  · rw [same]
  · exact below.finds c there key

/-- An extended value stands for the value that was extended. -/
theorem Sound.standsFor (sound : r.Sound) (layered : r.Layered)
    (held : r.Held v) (hext : r.world.extend v = (.ok (x, e), w)) :
    r.world.StandsFor w v x := by
  have moves := moves_after sound (show r.Allows (.extend v) from held)
  have handed : (r.after (.extend v)).Held x := by
    obtain ⟨rfl, -, -⟩ := sound.extend_front held hext
    exact .extended (mem_handed_after (.inl rfl) hext)
  have world : (r.after (.extend v)).world = w := congrArg Prod.snd hext
  generalize r.after (.extend v) = s at moves handed world
  subst world
  have later := Moves.later moves
  have looks := Moves.looksLike sound layered moves held
  have same : x.bare = v.bare := by
    rw [(sound.extend_front held hext).1]
    exact v.bare_bare
  -- the wrapper does not count, and then nothing has changed
  have seen : s.world.nominalClassOf? x = s.world.nominalClassOf? v := by
    have sound' := sound.moves moves
    have layered' := layered.moves sound moves
    have held' := held.mono later (Moves.mem_handed moves)
    rw [← sound'.nominalClassOf?_bare layered' handed,
      ← sound'.nominalClassOf?_bare layered' held', same]
  have stays := Moves.nominalClassOf? sound layered moves held
  refine ⟨⟨same, ?_, ?_, looks.bareName⟩, seen.trans stays,
    sound.resolve?_of_extend held hext,
    sound.listed_of_extend held later hext, ?_, ?_⟩
  · rw [← looks.text, ← World.inspect_bare, same, World.inspect_bare]
  · obtain ⟨c, hc⟩ := sound.classOf?_of_extend held hext
    have user : r.world.nominalClassOf? v = some (r.world.nominal c) :=
      congrArg (Option.map r.world.nominal) hc
    rw [← looks.name]
    unfold World.classNameOf
    rw [seen, stays, user]
  · intro f hf
    have bare := sound.held_bare held
    rw [hf] at bare
    exact later.exceptionInfo (held_exception.1 bare)
  · intro c hc
    have bare := sound.held_bare held
    rw [hc] at bare
    have there := held_cls.1 bare
    exact ⟨later.name there, later.superclassSkippingModules? there,
      sound.resolveIn?_of_extend held hext there⟩

/-- Whether a name, where it leads to a method of a value at all, leads to
an installed native, which makes no object that would be initialized. -/
def LeadsToNative (r : Realm) (v : Value) (name : String) : Prop :=
  ∀ found, r.world.resolve? v name = some found → ∃ native : Native,
    found.method.body = .native native ∧ native.Installed
      ∧ native.Plain r.world v

/-- A fresh eigenclass can not be observed through natives. A value with a
class can be extended, and its eigenclass is new and empty, unless it had
one already. On the extended value, in the world after, every name leads
to the method that it led to on the value before, and every call by name
is allowed or refused alike, with the same words. Whenever the name leads
to no method or to an installed native, the two calls come back alike from
any state of a machine: with the same outcome and the same printed text,
and what they make is a fresh object of the same class. -/
theorem eigenclass_unobserved (reachable : r.Reachable) (held : r.Held v)
    (hasClass : (r.world.classOf? v).isSome) :
    ∃ x e w, r.world.extend v = (.ok (x, e), w)
      ∧ (r.world.classOf? v = some e ∧ w = r.world
        ∨ ¬ r.world.HasClass e ∧ ∀ key, w.ownMethod? e key = none)
      ∧ (∀ name, w.resolve? x name = r.world.resolve? v name)
      ∧ (∀ name given site, w.methodFor x name given site
        = r.world.methodFor v name given site)
      ∧ ∀ {σ : Type} (host : Host σ) (m : Machine σ) name args site next,
        (∀ a ∈ args, r.Held a) → r.LeadsToNative v name →
        ∃ c c' outcome console after after', Machine.Alike host
          { m with
            world := r.world
            current := .invoke v name args site next }
          { m with
            world := w
            current := .invoke x name args site next }
          c c' outcome console after after' := by
  have sound := sound_of_reachable reachable
  have layered := layered_of_reachable reachable
  obtain ⟨x, e, w, hext⟩ : ∃ x e w,
      r.world.extend v = (.ok (x, e), w) := by
    rcases sound.extend_cases held with
      ⟨none, -⟩ | ⟨e, -, -, hok⟩ | ⟨current, -, -, -, hok⟩
    · rw [none] at hasClass
      cases hasClass
    · exact ⟨_, _, _, hok⟩
    · exact ⟨_, _, _, hok⟩
  have stands := sound.standsFor layered held hext
  obtain ⟨-, objects, front⟩ := sound.extend_front held hext
  refine ⟨x, e, w, hext, ?_, stands.finds, stands.methodFor, ?_⟩
  · rcases front with same | ⟨current, -, below⟩
    · exact .inl same
    · exact .inr ⟨below.fresh, below.empty⟩
  · intro σ host m name args site next given leads
    have hc : Machine.call? { m with
        world := r.world
        current := .invoke v name args site next }
      = some {
        allowed := r.world.methodFor v name args.length site
        self := v, args, next } := rfl
    have hc' : Machine.call? { m with
        world := w
        current := .invoke x name args site next }
      = some {
        allowed := w.methodFor x name args.length site
        self := x, args, next } := rfl
    refine ⟨_, _, Machine.exists_alike host hc hc' (stands.methodFor ..)
      rfl rfl rfl objects stands ?_ ?_⟩
    · intro a ha
      have moves := moves_after sound (show r.Allows (.extend v) from held)
      have world : (r.after (.extend v)).world = w := congrArg Prod.snd hext
      rw [← world]
      exact Moves.looksLike sound layered moves (given a ha)
    · intro method hallowed
      obtain ⟨found, hfound, -, -, rfl⟩ :=
        World.methodFor_eq_ok_iff.1 hallowed
      exact leads found hfound

/-- At the start, making an object of Object leads to the native for
it. -/
theorem leadsToNative_new :
    start.LeadsToNative (.cls CoreClass.object.id) "new" := by
  intro found h
  have new : start.world.resolve? (.cls CoreClass.object.id) "new"
      = some ⟨CoreClass.cls.id, ⟨.any, .isPublic, .native .instantiate⟩⟩ :=
    rfl
  rw [new] at h
  cases h
  refine ⟨.instantiate, rfl,
    ⟨.cls, ("new", ⟨.any, .isPublic, .native .instantiate⟩), ?_, rfl⟩, ?_⟩
  · exact List.mem_cons_of_mem _ List.mem_cons_self
  · intro _ c hc
    cases hc
    rfl

/-- So the class Object, extended, is still what objects are made of: the
two calls come back with the same new object. -/
theorem eigenclass_unobserved_object :
    ∃ x e w, World.initial.extend (.cls CoreClass.object.id)
        = (.ok (x, e), w)
      ∧ w.resolve? x "new"
        = World.initial.resolve? (.cls CoreClass.object.id) "new"
      ∧ ∃ c c' outcome console after after', Machine.Alike Machine.endless
        { Machine.endlessCall with
          world := World.initial
          current := .invoke (.cls CoreClass.object.id) "new" [] .explicit
            .done }
        { Machine.endlessCall with
          world := w
          current := .invoke x "new" [] .explicit .done }
        c c' outcome console after after' := by
  have object : start.Held (.cls CoreClass.object.id) :=
    .cls (core_start .object).1
  obtain ⟨x, e, w, hext, -, finds, -, calls⟩ :=
    eigenclass_unobserved .refl object rfl
  exact ⟨x, e, w, hext, finds "new", calls Machine.endless
    Machine.endlessCall "new" [] .explicit .done nofun leadsToNative_new⟩

end Realm

end ObjectWorld
