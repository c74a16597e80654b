/-
What the integer operations compute.

An integer is a word of 64 bits, and the operations are told here without
words: by sums, differences and products of integers, by the greatest
multiple that fits below a dividend, and by the order of the integers
(`Computes`). A result that no word holds is an overflow and never another
number.

# Division

The quotient of words is rounded towards zero, and one is taken off where
it should be rounded down (`divideDown`). Both ways of rounding are ways of
writing the dividend as a multiple of the divisor and a rest, which differ
in the sign of the rest, so they agree or are one apart
(`fdiv_eq_of_tdiv`). Taking one off always fits: the least word has a
quotient with a rest only by a divisor that makes it smaller.
-/
import Mathlib.Algebra.Group.Int.Defs
import Mathlib.Order.Bounds.Basic
import ObjectWorld.Proofs.Responding
import ObjectWorld.Proofs.Sameness

namespace ObjectWorld

-- ============================================================ the results

/-- An integer as the result of an operation: the word that holds it, or
an overflow if none does. -/
inductive Exact (operation : String) (n : Int) : Outcome → Prop
  | fits {c : Int64} (low : -2 ^ 63 ≤ n) (high : n < 2 ^ 63)
      (value : c.toInt = n) : Exact operation n (.ok (.int c))
  | overflow (outside : ¬ (-2 ^ 63 ≤ n ∧ n < 2 ^ 63)) :
      Exact operation n (.error (.integerOverflow operation))

/-- A quotient that is rounded down: times the divisor it does not exceed
the dividend, if the divisor is positive, and is not less than it, if the
divisor is negative; and it is the greatest such integer. -/
def RoundsDown (a b q : Int) : Prop :=
  (0 < b → IsGreatest {k | k * b ≤ a} q)
    ∧ (b < 0 → IsGreatest {k | a ≤ k * b} q)

/-- The quotient of two integers as the result of a division: there is
none by zero, there is one that no word holds, and all others are rounded
down. -/
inductive Divided (a b : Int64) : Outcome → Prop
  | byZero (zero : b.toInt = 0) : Divided a b (.error .zeroDivision)
  | overflow (least : a.toInt = -2 ^ 63) (minus : b.toInt = -1) :
      Divided a b (.error (.integerOverflow "division"))
  | rounded {q : Int64} (nonzero : b.toInt ≠ 0)
      (fits : ¬ (a.toInt = -2 ^ 63 ∧ b.toInt = -1))
      (rounds : RoundsDown a.toInt b.toInt q.toInt) :
      Divided a b (.ok (.int q))

/-- What an operator stands for between two integers. -/
def Computes (operator : String) (a b : Int64) (outcome : Outcome) : Prop :=
  match operator with
  | "+" => Exact "addition" (a.toInt + b.toInt) outcome
  | "-" => Exact "subtraction" (a.toInt - b.toInt) outcome
  | "*" => Exact "multiplication" (a.toInt * b.toInt) outcome
  | "/" => Divided a b outcome
  | "==" => outcome = .ok (.bool (decide (a.toInt = b.toInt)))
  | "<" => outcome = .ok (.bool (decide (a.toInt < b.toInt)))
  | ">" => outcome = .ok (.bool (decide (b.toInt < a.toInt)))
  | _ => False

/-- What an operator stands for between an integer and something else. -/
def Otherwise (w : World) (operator : String) (other : Value)
    (outcome : Outcome) : Prop :=
  match operator with
  | "==" => outcome = .ok (.bool false)
  | _ => outcome
      = .error (.implicitConversion "Integer" (w.classNameOf other))

theorem exact_iff {operation : String} {n : Int} {outcome : Outcome} :
    Exact operation n outcome ↔ outcome = exactly operation n := by
  have bounds : Int64.minValue.toInt = -2 ^ 63
      ∧ Int64.maxValue.toInt = 2 ^ 63 - 1 := by decide
  unfold exactly
  rw [bounds.1, bounds.2]
  constructor
  · intro h
    cases h with
    | fits low high value =>
        rw [if_pos (by omega), ← value, Int64.ofInt_toInt]
    | overflow outside => rw [if_neg (by omega)]
  · rintro rfl
    split
    · refine .fits (by omega) (by omega) ?_
      exact Int64.toInt_ofInt_of_le (by omega) (by omega)
    · exact .overflow (by omega)

-- ================================================================ rounding

/-- The quotient that is rounded down is the one that leaves a rest of the
divisor's sign. -/
theorem roundsDown_iff {a b q : Int} (nonzero : b ≠ 0) :
    RoundsDown a b q ↔ q = a.fdiv b := by
  have greatest : ∀ {a b : Int}, 0 < b →
      (IsGreatest {k | k * b ≤ a} q ↔ q = a.fdiv b) := by
    intro a b positive
    have members : {k | k * b ≤ a} = {k | k ≤ a.fdiv b} := by
      ext k
      show k * b ≤ a ↔ k ≤ a.fdiv b
      rw [Int.fdiv_eq_ediv_of_nonneg a (Int.le_of_lt positive),
        Int.le_ediv_iff_mul_le positive]
    have here : IsGreatest {k | k ≤ a.fdiv b} (a.fdiv b) :=
      ⟨Int.le_refl _, fun _ h => h⟩
    rw [members]
    exact ⟨fun h => h.unique here, fun h => h ▸ here⟩
  rcases Int.lt_or_gt_of_ne nonzero with negative | positive
  · -- With both signs turned around the divisor is positive.
    have turned : {k | a ≤ k * b} = {k | k * -b ≤ -a} := by
      ext k
      show a ≤ k * b ↔ k * -b ≤ -a
      rw [Int.mul_neg]
      omega
    have := greatest (a := -a) (b := -b) (by omega)
    rw [Int.neg_fdiv_neg] at this
    unfold RoundsDown
    rw [turned, this]
    exact ⟨fun h => h.2 negative, fun h => ⟨fun _ => by omega, fun _ => h⟩⟩
  · unfold RoundsDown
    rw [greatest positive]
    exact ⟨fun h => h.1 positive, fun h => ⟨fun _ => h, fun _ => by omega⟩⟩

/-- It is the quotient rounded towards zero, or one less where what that
leaves over is of the other sign. -/
theorem fdiv_eq_of_tdiv {a b : Int} (nonzero : b ≠ 0) :
    a.fdiv b = if a.tmod b ≠ 0 ∧ ¬ (a.tmod b < 0 ↔ b < 0)
      then a.tdiv b - 1 else a.tdiv b := by
  have split := Int.mul_tdiv_add_tmod a b
  have less : b * (a.tdiv b - 1) = b * a.tdiv b - b := by
    rw [Int.mul_sub, Int.mul_one]
  rcases Int.lt_or_gt_of_ne nonzero with negative | positive
  · have high := Int.tmod_lt_of_pos a (b := -b) (by omega)
    have low := Int.lt_tmod_of_pos a (b := -b) (by omega)
    rw [Int.tmod_neg] at high low
    by_cases signs : 0 < a.tmod b
    · rw [if_pos (by omega)]
      exact ((Int.fdiv_fmod_unique' (r := a.tmod b + b) negative).2
        (by omega)).1
    · rw [if_neg (by omega)]
      exact ((Int.fdiv_fmod_unique' (r := a.tmod b) negative).2
        (by omega)).1
  · have high := Int.tmod_lt_of_pos a positive
    have low := Int.lt_tmod_of_pos a positive
    by_cases under : a.tmod b < 0
    · rw [if_pos (by omega)]
      exact ((Int.fdiv_fmod_unique (r := a.tmod b + b) positive).2
        (by omega)).1
    · rw [if_neg (by omega)]
      exact ((Int.fdiv_fmod_unique (r := a.tmod b) positive).2
        (by omega)).1

-- ====================================================== dividing words

/-- The least word by minus one is the one division of words that has no
quotient. Of all others by a divisor that is not zero, quotient and rest
are those of the integers. -/
theorem quotientAndRest?_cases (a b : Int64) :
    (a.toInt = -2 ^ 63 ∧ b.toInt = -1 ∧ quotientAndRest? a b = none)
      ∨ ¬ (a.toInt = -2 ^ 63 ∧ b.toInt = -1)
        ∧ ∃ quotient rest, quotientAndRest? a b = some (quotient, rest)
          ∧ quotient.toInt = a.toInt.tdiv b.toInt
          ∧ rest.toInt = a.toInt.tmod b.toInt := by
  have least : a = Int64.minValue ↔ a.toInt = -2 ^ 63 := by
    rw [← Int64.toInt_inj]
    exact Iff.rfl
  have minus : b = -1 ↔ b.toInt = -1 := by
    rw [← Int64.toInt_inj]
    exact Iff.rfl
  unfold quotientAndRest?
  by_cases h : a = Int64.minValue ∧ b = -1
  · rw [if_pos h]
    exact .inl ⟨least.1 h.1, minus.1 h.2, rfl⟩
  · rw [if_neg h, ← least, ← minus]
    refine .inr ⟨h, a / b, a % b, rfl, ?_, Int64.toInt_mod a b⟩
    by_cases ha : a = Int64.minValue
    · exact Int64.toInt_div_of_ne_right a b fun hb => h ⟨ha, hb⟩
    · exact Int64.toInt_div_of_ne_left a b ha

/-- A word has no quotient, rounded down, that is less than the least
word. -/
theorem le_fdiv (a : Int64) {b : Int} (nonzero : b ≠ 0) :
    -2 ^ 63 ≤ a.toInt.fdiv b := by
  have low := a.le_toInt
  have high := a.toInt_lt
  obtain ⟨ofPositive, ofNegative⟩ := (roundsDown_iff (a := a.toInt)
    nonzero).2 rfl
  rcases Int.lt_or_gt_of_ne nonzero with negative | positive
  · refine (ofNegative negative).2 ?_
    show a.toInt ≤ -2 ^ 63 * b
    omega
  · refine (ofPositive positive).2 ?_
    show -2 ^ 63 * b ≤ a.toInt
    omega

theorem Int64.eq_zero_iff {b : Int64} : b = 0 ↔ b.toInt = 0 := by
  rw [← Int64.toInt_inj]
  exact Iff.rfl

/-- Where there is a quotient of words, it is rounded down, and taking one
off does not overflow. -/
theorem divideDown_of_fits {a b : Int64} (nonzero : b.toInt ≠ 0)
    (fits : ¬ (a.toInt = -2 ^ 63 ∧ b.toInt = -1)) :
    ∃ q, divideDown a b = .ok (.int q)
      ∧ q.toInt = a.toInt.fdiv b.toInt := by
  rcases quotientAndRest?_cases a b with
    ⟨least, minus, -⟩ | ⟨-, quotient, rest, divided, hquotient, hrest⟩
  · exact absurd ⟨least, minus⟩ fits
  · have rounded := fdiv_eq_of_tdiv (a := a.toInt) nonzero
    have low := le_fdiv a nonzero
    have high := quotient.toInt_lt
    rw [← hquotient, ← hrest] at rounded
    have alike : rest ≠ 0 ∧ ¬ (rest < 0 ↔ b < 0)
        ↔ rest.toInt ≠ 0 ∧ ¬ (rest.toInt < 0 ↔ b.toInt < 0) := by
      rw [ne_eq, Int64.eq_zero_iff, Int64.lt_iff_toInt_lt,
        Int64.lt_iff_toInt_lt, Int64.toInt_zero]
    unfold divideDown
    rw [if_neg fun h => nonzero (Int64.eq_zero_iff.1 h), divided]
    dsimp only
    by_cases apart : rest ≠ 0 ∧ ¬ (rest < 0 ↔ b < 0)
    · rw [if_pos (alike.1 apart)] at rounded
      rw [if_pos apart, ← rounded]
      have value := Int64.toInt_ofInt_of_le low (by omega)
      have exact : Exact "division" (a.toInt.fdiv b.toInt) _ :=
        .fits low (by omega) value
      exact ⟨_, (exact_iff.1 exact).symm, value⟩
    · rw [if_neg fun h => apart (alike.2 h)] at rounded
      rw [if_neg apart]
      exact ⟨quotient, rfl, rounded.symm⟩

/-- Dividing words gives the quotient of the integers. -/
theorem divided_iff {a b : Int64} {outcome : Outcome} :
    Divided a b outcome ↔ outcome = divideDown a b := by
  constructor
  · intro h
    cases h with
    | byZero zero =>
        unfold divideDown
        rw [if_pos (Int64.eq_zero_iff.2 zero)]
    | overflow least minus =>
        rcases quotientAndRest?_cases a b with ⟨-, -, none⟩ | ⟨fits, -⟩
        · unfold divideDown
          rw [if_neg (by rw [Int64.eq_zero_iff]; omega), none]
        · exact absurd ⟨least, minus⟩ fits
    | rounded nonzero fits rounds =>
        obtain ⟨q, divided, value⟩ := divideDown_of_fits nonzero fits
        rw [roundsDown_iff nonzero, ← value, Int64.toInt_inj] at rounds
        rw [divided, rounds]
  · rintro rfl
    by_cases zero : b.toInt = 0
    · unfold divideDown
      rw [if_pos (Int64.eq_zero_iff.2 zero)]
      exact .byZero zero
    · rcases quotientAndRest?_cases a b with
        ⟨least, minus, none⟩ | ⟨fits, -⟩
      · unfold divideDown
        rw [if_neg fun h => zero (Int64.eq_zero_iff.1 h), none]
        exact .overflow least minus
      · obtain ⟨q, divided, value⟩ := divideDown_of_fits zero fits
        rw [divided]
        exact .rounded zero fits ((roundsDown_iff zero).2 value)

-- ============================================================== the methods

namespace Value

variable {u v : Value} {a b : Int64}

/-- What counts of an integer is the number. -/
theorem essence_of_int? (h : v.int? = some a) : v.essence = .int a := by
  rw [← essence_bare, int?_eq_some_iff.1 h]
  rfl

/-- Integers are the same if the numbers are equal. -/
theorem same_integers (hv : v.int? = some a) (hu : u.int? = some b) :
    v.same u = decide (a.toInt = b.toInt) := by
  rw [Bool.eq_iff_iff, same_iff, essence_of_int? hv, essence_of_int? hu,
    decide_eq_true_iff, Int64.toInt_inj, Value.int.injEq]

/-- An integer is the same as integers only. -/
theorem same_of_no_integer (hv : v.int? = some a) (hu : u.int? = none) :
    v.same u = false := by
  refine Bool.eq_false_iff.2 fun same => ?_
  have alike := int?_of_same same
  rw [hv, hu] at alike
  cases alike

end Value

namespace World

variable {u v : Value} {a b : Int64}

theorem integerOf_eq_ok (w : World) (h : v.int? = some a) :
    w.integerOf v = .ok a := by
  unfold integerOf
  rw [h]

theorem operands_of_integers (w : World) (hv : v.int? = some a)
    (hu : u.int? = some b) : w.operands v [u] = .ok (a, b) := by
  show (do let x ← w.integerOf v; let y ← w.integerOf u; pure (x, y)) = _
  rw [w.integerOf_eq_ok hv, w.integerOf_eq_ok hu]
  rfl

theorem operands_of_no_integer (w : World) (hv : v.int? = some a)
    (hu : u.int? = none) : w.operands v [u]
      = .error (.implicitConversion "Integer" (w.classNameOf u)) := by
  show (do let x ← w.integerOf v; let y ← w.integerOf u; pure (x, y)) = _
  rw [w.integerOf_eq_ok hv]
  unfold integerOf
  rw [hu]
  rfl

end World

/-- Whether a query of an integer gives what an operator stands for. -/
def Query.Performs (q : Query) (operator : String) : Prop :=
  ∀ (w : World) (v u : Value) (a : Int64), v.int? = some a →
    (∀ b, u.int? = some b → ∀ outcome,
        Computes operator a b outcome ↔ outcome = w.answer q v [u])
      ∧ (u.int? = none → ∀ outcome,
        Otherwise w operator u outcome ↔ outcome = w.answer q v [u])

/-- A query that reads two integers first fails for the argument before it
computes anything. -/
theorem performs_of_operands {q : Query} {operator : String}
    {f : Int64 × Int64 → Outcome} (other : operator ≠ "==")
    (reads : ∀ (w : World) v u, w.answer q v [u] = w.operands v [u] >>= f)
    (computes : ∀ a b outcome,
      Computes operator a b outcome ↔ outcome = f (a, b)) :
    q.Performs operator := by
  intro w v u a hv
  rw [reads]
  refine ⟨fun b hu outcome => ?_, fun hu outcome => ?_⟩
  · rw [w.operands_of_integers hv hu]
    exact computes a b outcome
  · rw [w.operands_of_no_integer hv hu]
    unfold Otherwise
    split
    · exact absurd rfl other
    · exact Iff.rfl

/-- Comparing fails for no argument. -/
theorem performs_equal : Query.integerEqual.Performs "==" := by
  intro w v u a hv
  have answer : w.answer .integerEqual v [u] = .ok (.bool (v.same u)) := by
    show Except.ok (Value.bool (v.int?.isSome && v.same u)) = _
    rw [hv]
    rfl
  rw [answer]
  refine ⟨fun b hu outcome => ?_, fun hu outcome => ?_⟩
  · rw [Value.same_integers hv hu]
    exact Iff.rfl
  · rw [Value.same_of_no_integer hv hu]
    exact Iff.rfl

/-- The methods that the class of integers starts with give what their
operators stand for. -/
theorem performs_of_mem {operator : String} {method : Method}
    (mem : (operator, method) ∈ CoreClass.integer.methods) :
    ∃ q : Query, method = CoreClass.looks 1 q ∧ q.Performs operator := by
  simp only [CoreClass.methods, List.mem_cons, Prod.mk.injEq,
    List.not_mem_nil, or_false] at mem
  rcases mem with ⟨rfl, rfl⟩ | ⟨rfl, rfl⟩ | ⟨rfl, rfl⟩ | ⟨rfl, rfl⟩
    | ⟨rfl, rfl⟩ | ⟨rfl, rfl⟩ | ⟨rfl, rfl⟩
  · exact ⟨.add, rfl, performs_of_operands (by decide)
      (fun _ _ _ => rfl) fun _ _ _ => exact_iff⟩
  · exact ⟨.subtract, rfl, performs_of_operands (by decide)
      (fun _ _ _ => rfl) fun _ _ _ => exact_iff⟩
  · exact ⟨.multiply, rfl, performs_of_operands (by decide)
      (fun _ _ _ => rfl) fun _ _ _ => exact_iff⟩
  · exact ⟨.divide, rfl, performs_of_operands (by decide)
      (fun _ _ _ => rfl) fun _ _ _ => divided_iff⟩
  · exact ⟨.integerEqual, rfl, performs_equal⟩
  · refine ⟨.less, rfl, performs_of_operands (by decide)
      (fun _ _ _ => rfl) fun a b outcome => ?_⟩
    show outcome = .ok (.bool _) ↔ outcome = .ok (.bool (decide (a < b)))
    rw [decide_eq_decide.2 Int64.lt_iff_toInt_lt]
  · refine ⟨.greater, rfl, performs_of_operands (by decide)
      (fun _ _ _ => rfl) fun a b outcome => ?_⟩
    show outcome = .ok (.bool _) ↔ outcome = .ok (.bool (decide (b < a)))
    rw [decide_eq_decide.2 Int64.lt_iff_toInt_lt]

-- ============================================================ the theorem

namespace Machine

variable {σ : Type}

/-- Of the three comparisons of two integers one holds. -/
theorem existsUnique_comparison (a b : Int64) :
    ∃! operator, operator ∈ ["<", "==", ">"]
      ∧ Computes operator a b (.ok (.bool true)) := by
  have less : Computes "<" a b (.ok (.bool true)) ↔ a.toInt < b.toInt := by
    simp [Computes]
  have equal : Computes "==" a b (.ok (.bool true)) ↔ a.toInt = b.toInt := by
    simp [Computes]
  have greater : Computes ">" a b (.ok (.bool true))
      ↔ b.toInt < a.toInt := by
    simp [Computes]
  simp only [List.mem_cons, List.not_mem_nil, or_false]
  rcases lt_trichotomy a.toInt b.toInt with h | h | h
  · refine ⟨"<", ⟨.inl rfl, less.2 h⟩, ?_⟩
    rintro operator ⟨rfl | rfl | rfl, holds⟩
    · rfl
    · have := equal.1 holds
      omega
    · have := greater.1 holds
      omega
  · refine ⟨"==", ⟨.inr (.inl rfl), equal.2 h⟩, ?_⟩
    rintro operator ⟨rfl | rfl | rfl, holds⟩
    · have := less.1 holds
      omega
    · rfl
    · have := greater.1 holds
      omega
  · refine ⟨">", ⟨.inr (.inr rfl), greater.2 h⟩, ?_⟩
    rintro operator ⟨rfl | rfl | rfl, holds⟩
    · have := less.1 holds
      omega
    · have := equal.1 holds
      omega
    · rfl

/-- The operations on integers are exact. A method that the class of
integers starts with, found on an integer under whatever wrappers and
called with room for it, comes back with what its operator stands for: for
an integer the one result of the integers or the overflow; for anything
else, whatever the numbers, the fault that names its class, and false where
it was to be compared. Of the three comparisons one holds. And no division
of words that is not refused comes near an overflow on its way. -/
theorem integer_operations_exact (host : Host σ) (m : Machine σ)
    (room : m.refusal? = none) {v : Value} {a : Int64}
    (receiver : v.int? = some a) :
    (∀ operator method, (operator, method) ∈ CoreClass.integer.methods →
        ∀ name d, m.world.resolve? v name = some ⟨d, method⟩ → ∀ u site,
        ∃ outcome, (∀ next m',
            ComesBack host (m.asking v name [u] site next) m'
              ↔ m' = { m with current := next outcome })
          ∧ (∀ b, u.int? = some b →
            ∀ other, Computes operator a b other ↔ other = outcome)
          ∧ (u.int? = none →
            ∀ other, Otherwise m.world operator u other ↔ other = outcome))
      ∧ (∀ b, ∃! operator, operator ∈ ["<", "==", ">"]
        ∧ Computes operator a b (.ok (.bool true)))
      ∧ ∀ b : Int64, b.toInt ≠ 0 →
        ¬ (a.toInt = -2 ^ 63 ∧ b.toInt = -1) →
        ∃ quotient rest, quotientAndRest? a b = some (quotient, rest)
          ∧ quotient.toInt = a.toInt.tdiv b.toInt
          ∧ rest.toInt = a.toInt.tmod b.toInt
          ∧ (rest.toInt ≠ 0 → ¬ (rest.toInt < 0 ↔ b.toInt < 0) →
            -2 ^ 63 ≤ quotient.toInt - 1) := by
  refine ⟨?_, ?_, ?_⟩
  · intro operator method mem name d resolved u site
    obtain ⟨q, rfl, performs⟩ := performs_of_mem mem
    obtain ⟨integer, other⟩ := performs m.world v u a receiver
    refine ⟨m.world.answer q v [u], fun next m' => ?_, integer, other⟩
    exact (comesBack_looks host resolved room rfl).iff_eq
  · intro b
    exact existsUnique_comparison a b
  · intro b nonzero fits
    rcases quotientAndRest?_cases a b with
      ⟨least, minus, -⟩ | ⟨-, quotient, rest, divided, hquotient, hrest⟩
    · exact absurd ⟨least, minus⟩ fits
    · refine ⟨quotient, rest, divided, hquotient, hrest,
        fun left apart => ?_⟩
      have rounded := fdiv_eq_of_tdiv (a := a.toInt) nonzero
      rw [← hquotient, ← hrest, if_pos ⟨left, apart⟩] at rounded
      rw [← rounded]
      exact le_fdiv a nonzero

/-- Minus seven by two, both behind self references, is minus four; and a
text is no operand. -/
theorem integer_operations_exact_roomy :
    roomy.refusal? = none
      ∧ (Value.selfRef (.int (-7))).int? = some (-7)
      ∧ ComesBack endless
        (roomy.asking (.selfRef (.int (-7))) "/" [.selfRef (.int 2)]
          .explicit .done)
        { roomy with current := .done (.ok (.int (-4))) }
      ∧ ComesBack endless
        (roomy.asking (.selfRef (.int (-7))) "+" [.text "2"]
          .explicit .done)
        { roomy with
          current := .done
            (.error (.implicitConversion "Integer" "String")) } := by
  obtain ⟨operations, -, -⟩ := integer_operations_exact endless roomy rfl
    (v := .selfRef (.int (-7))) rfl
  refine ⟨rfl, rfl, ?_, ?_⟩
  · obtain ⟨outcome, back, integer, -⟩ := operations "/"
      (CoreClass.looks 1 .divide) (by simp [CoreClass.methods]) "/" _ rfl
      (.selfRef (.int 2)) .explicit
    have four : Computes "/" (-7) 2 (.ok (.int (-4))) := by
      refine .rounded (by decide) (by decide) ⟨fun _ => ⟨?_, ?_⟩, ?_⟩
      · show (-4 : Int) * 2 ≤ -7
        omega
      · intro k (hk : k * 2 ≤ -7)
        show k ≤ -4
        omega
      · exact fun negative => absurd negative (by decide)
    rw [(integer 2 rfl _).1 four]
    exact (back _ _).2 rfl
  · obtain ⟨outcome, back, -, other⟩ := operations "+"
      (CoreClass.looks 1 .add) (by simp [CoreClass.methods]) "+" _ rfl
      (.text "2") .explicit
    have refused : Otherwise roomy.world "+" (.text "2")
        (.error (.implicitConversion "Integer" "String")) := rfl
    rw [(other rfl _).1 refused]
    exact (back _ _).2 rfl

end Machine

end ObjectWorld
