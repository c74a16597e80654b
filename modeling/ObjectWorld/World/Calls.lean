/-
Who may be called, and with how much.

A call by name is tested in a fixed order: is there such a method, may it
be called from here, does it take so many arguments. The first test that
fails is the one that is reported, and a refusal is all that happens. A
function that is at hand as a value has no name to look up and nobody to
hide from, so only its parameters are counted.
-/
import ObjectWorld.World.Text

namespace ObjectWorld.World

/-- The method that a call by name leads to, or why it leads nowhere: the
name, then the visibility, then the count of arguments. -/
def methodFor (w : World) (receiver : Value) (name : String) (given : Nat)
    (site : CallSite) : Except Fault Method :=
  match w.resolve? receiver name with
  | none => .error (.undefinedMethod name (w.describe receiver))
  | some found =>
      if site.permits found.method.visibility then do
        found.method.arity.check given
        return found.method
      else
        .error (.privateMethod name (w.describe receiver))

/-- A call by name leads to the method that is found, if it may be called
from here and takes so many arguments. -/
theorem methodFor_eq_ok_iff {w : World} {receiver : Value} {name : String}
    {given : Nat} {site : CallSite} {method : Method} :
    w.methodFor receiver name given site = .ok method
      ↔ ∃ found, w.resolve? receiver name = some found
        ∧ site.permits found.method.visibility = true
        ∧ found.method.arity.check given = .ok ()
        ∧ found.method = method := by
  unfold methodFor
  cases w.resolve? receiver name with
  | none => simp
  | some found =>
      cases hpermits : site.permits found.method.visibility with
      | false => simp [hpermits]
      | true =>
          cases hcheck : found.method.arity.check given with
          | error fault => simp [hpermits, hcheck, bind, Except.bind]
          | ok _ =>
              simp [hpermits, hcheck, bind, Except.bind, pure, Except.pure]

/-- The method that a function makes. -/
def methodOf (w : World) (f : FunctionId) (visibility : Visibility) :
    Method :=
  ⟨.fixed (w.functionInfo f).params.length, visibility, .interpreted f⟩

/-- The method that stands for a function or builtin called directly, or
why there is none. A builtin takes any count of arguments. -/
def methodForCallee (w : World) (callee : Value) (given : Nat) :
    Except Fault Method :=
  match callee.bare with
  | .function f visibility => do
      let method := w.methodOf f visibility
      method.arity.check given
      return method
  | .builtin _ native => .ok ⟨.any, .isPublic, .native native⟩
  | other => .error (.notA (w.inspect other) "function")

/-- A direct call leads to the method that a function makes, if that takes
so many arguments, or to one that does what a builtin does. -/
theorem methodForCallee_cases {w : World} {callee : Value} {given : Nat}
    {method : Method} (h : w.methodForCallee callee given = .ok method) :
    (∃ f visibility, callee.bare = .function f visibility
        ∧ method = w.methodOf f visibility
        ∧ method.arity.check given = .ok ())
      ∨ ∃ name native, callee.bare = .builtin name native
        ∧ method = ⟨.any, .isPublic, .native native⟩ := by
  unfold methodForCallee at h
  split at h
  · rename_i f visibility hbare
    dsimp only at h
    cases hcheck : (w.methodOf f visibility).arity.check given with
    | error fault => rw [hcheck] at h; cases h
    | ok _ =>
        rw [hcheck] at h
        cases h
        exact .inl ⟨f, visibility, hbare, rfl, hcheck⟩
  · rename_i name native hbare
    cases h
    exact .inr ⟨name, native, hbare, rfl⟩
  · cases h

end ObjectWorld.World
