import FrontendSurvey.Hygiene.Score
import Mathlib

set_option autoImplicit false

namespace FrontendSurvey.Hygiene

def cost (s : TypeSignals) : Nat :=
  8 * s.any + 10 * s.tsIgnore + 4 * s.tsExpectError + 3 * s.nonNull

def gain (s : TypeSignals) (typedComponents : Nat) : Nat :=
  2 * typedComponents + 2 * s.satisfies + s.asConst

def exactScore (s : TypeSignals) (typedComponents : Nat) : Int :=
  max 0 (min maxScore (maxScore - cost s + gain s typedComponents))

def Holds (held : Int) (exact : Nat) : Prop := held = min maxInt64 exact

variable {x y : Int} {m n : Nat}

theorem maxInt64_eq : maxInt64 = 9223372036854775807 := by decide

theorem minInt64_eq : minInt64 = -9223372036854775808 := by decide

theorem Holds.bounds (held : Holds x m) : 0 ≤ x ∧ x ≤ maxInt64 := by
  simp only [Holds, maxInt64_eq] at *
  omega

theorem holds_saturate (n : Nat) : Holds (saturate n) n := by
  simp only [Holds, saturate, maxInt64_eq, minInt64_eq]
  omega

theorem Holds.add (left : Holds x m) (right : Holds y n) : Holds (saturate (x + y)) (m + n) := by
  simp only [Holds, saturate, maxInt64_eq, minInt64_eq] at *
  omega

theorem Holds.scale (held : Holds x m) {weight : Nat} (some : 0 < weight) :
    Holds (saturate (x * weight)) (weight * m) := by
  by_cases within : (m : Int) ≤ maxInt64
  next =>
    have exact : x = m := by
      simp only [Holds] at held
      omega
    have product : x * weight = (weight * m : Nat) := by
      rw [exact, Nat.cast_mul, Int.mul_comm]
    rw [product]
    exact holds_saturate (weight * m)
  next =>
    -- both products are beyond the greatest number already
    have greatest : x = maxInt64 := by
      simp only [Holds] at held
      omega
    have least : (1 : Int) ≤ weight := by omega
    have bound : maxInt64 ≤ maxInt64 * weight := le_mul_of_one_le_right (by decide) least
    have further : (m : Int) ≤ weight * m := le_mul_of_one_le_left (by omega) least
    simp only [Holds, saturate, greatest, maxInt64_eq, minInt64_eq, Nat.cast_mul] at *
    omega

theorem holds_weighted (count : Nat) {weight : Nat} (some : 0 < weight) :
    Holds (weighted count weight) (weight * count) :=
  (holds_saturate count).scale some

def steps (s : TypeSignals) (typedComponents : Nat) : List (Int × Nat) :=
  [(saturate s.any, s.any), (weighted s.any 8, 8 * s.any),
    (saturate s.tsIgnore, s.tsIgnore), (weighted s.tsIgnore 10, 10 * s.tsIgnore),
    (saturate (weighted s.any 8 + weighted s.tsIgnore 10), 8 * s.any + 10 * s.tsIgnore),
    (saturate s.tsExpectError, s.tsExpectError), (weighted s.tsExpectError 4, 4 * s.tsExpectError),
    (saturate (saturate (weighted s.any 8 + weighted s.tsIgnore 10) + weighted s.tsExpectError 4),
      8 * s.any + 10 * s.tsIgnore + 4 * s.tsExpectError),
    (saturate s.nonNull, s.nonNull), (weighted s.nonNull 3, 3 * s.nonNull), (penalties s, cost s),
    (saturate typedComponents, typedComponents), (weighted typedComponents 2, 2 * typedComponents),
    (saturate s.satisfies, s.satisfies), (weighted s.satisfies 2, 2 * s.satisfies),
    (saturate (weighted typedComponents 2 + weighted s.satisfies 2), 2 * typedComponents + 2 * s.satisfies),
    (saturate s.asConst, s.asConst), (weighted s.asConst 1, s.asConst),
    (rewards s typedComponents, gain s typedComponents)]

theorem holds_steps (s : TypeSignals) (typedComponents : Nat) :
    ∀ step ∈ steps s typedComponents, Holds step.1 step.2 := by
  have any : Holds (weighted s.any 8) (8 * s.any) := holds_weighted s.any (by decide)
  have ignored : Holds (weighted s.tsIgnore 10) (10 * s.tsIgnore) := holds_weighted s.tsIgnore (by decide)
  have expected : Holds (weighted s.tsExpectError 4) (4 * s.tsExpectError) :=
    holds_weighted s.tsExpectError (by decide)
  have nonNull : Holds (weighted s.nonNull 3) (3 * s.nonNull) := holds_weighted s.nonNull (by decide)
  have typed : Holds (weighted typedComponents 2) (2 * typedComponents) :=
    holds_weighted typedComponents (by decide)
  have satisfied : Holds (weighted s.satisfies 2) (2 * s.satisfies) := holds_weighted s.satisfies (by decide)
  have once : Holds (weighted s.asConst 1) (1 * s.asConst) := holds_weighted s.asConst (by decide)
  have asConst : Holds (weighted s.asConst 1) s.asConst := by simpa using once
  have two := any.add ignored
  have three := two.add expected
  have earned := typed.add satisfied
  simp only [steps, List.forall_mem_cons, List.not_mem_nil, false_implies, implies_true, and_true]
  exact ⟨holds_saturate _, any, holds_saturate _, ignored, two, holds_saturate _, expected, three,
    holds_saturate _, nonNull, three.add nonNull, holds_saturate _, typed, holds_saturate _, satisfied,
    earned, holds_saturate _, asConst, earned.add asConst⟩

theorem holds_penalties (s : TypeSignals) : Holds (penalties s) (cost s) :=
  holds_steps s 0 (penalties s, cost s) (by simp [steps])

theorem holds_rewards (s : TypeSignals) (typedComponents : Nat) :
    Holds (rewards s typedComponents) (gain s typedComponents) :=
  holds_steps s typedComponents (rewards s typedComponents, gain s typedComponents) (by simp [steps])

-- What is left of the greatest score has room, so that only counts, products and sums are ever cut.
theorem saturate_rest (s : TypeSignals) : saturate (maxScore - penalties s) = maxScore - penalties s := by
  have bounds := (holds_penalties s).bounds
  simp only [saturate, maxScore, maxInt64_eq, minInt64_eq] at *
  omega

theorem score_eq (s : TypeSignals) (typedComponents : Nat) : (score s typedComponents : Int) =
    max 0 (min (maxScore : Int)
      (maxScore - min maxInt64 (cost s : Int) + min maxInt64 (gain s typedComponents : Int))) := by
  have paid := holds_penalties s
  have earned := holds_rewards s typedComponents
  simp only [score, saturate_rest]
  simp only [Holds, saturate, maxScore, maxInt64_eq, minInt64_eq] at *
  omega

theorem score_exact (s : TypeSignals) (typedComponents : Nat) :
    score s typedComponents ≤ 100 ∧
    ((cost s : Int) ≤ 2 ^ 63 - 1 ∨ (gain s typedComponents : Int) ≤ 2 ^ 63 - 101 →
      (score s typedComponents : Int) = exactScore s typedComponents) ∧
    (∀ step ∈ steps s typedComponents, Holds step.1 step.2) ∧
    saturate (maxScore - penalties s) = maxScore - penalties s ∧
    saturate (maxScore - penalties s + rewards s typedComponents) =
      min maxInt64 (maxScore - penalties s + rewards s typedComponents) ∧
    (score s typedComponents).toUInt8.toNat = score s typedComponents := by
  have low : score s typedComponents ≤ 100 := score_le s typedComponents
  have paid := (holds_penalties s).bounds
  have earned := (holds_rewards s typedComponents).bounds
  refine ⟨low, ?_, holds_steps s typedComponents, saturate_rest s, ?_, ?_⟩
  · intro near
    rw [score_eq, exactScore]
    simp only [maxScore, maxInt64_eq]
    omega
  · simp only [saturate, maxScore, maxInt64_eq, minInt64_eq] at *
    omega
  · exact Nat.mod_eq_of_lt (by omega)

-- Penalties that no 64 bits hold, against the greatest rewards that are still weighed exactly.
def outweighed : TypeSignals :=
  { (0 : TypeSignals) with any := 2 ^ 64 - 1, tsIgnore := 2 ^ 63, asConst := 2 ^ 63 - 103 }

theorem score_exact_outweighed :
    ((cost outweighed : Int) ≤ 2 ^ 63 - 1 ∨ (gain outweighed 1 : Int) ≤ 2 ^ 63 - 101) ∧
      (score outweighed 1 : Int) = exactScore outweighed 1 := by
  have near : (cost outweighed : Int) ≤ 2 ^ 63 - 1 ∨ (gain outweighed 1 : Int) ≤ 2 ^ 63 - 101 := by decide
  exact ⟨near, (score_exact outweighed 1).2.1 near⟩

def penalized : List (TypeSignals → Nat) :=
  [TypeSignals.any, TypeSignals.tsIgnore, TypeSignals.tsExpectError, TypeSignals.nonNull]

def rewarded : List (TypeSignals → Nat) :=
  [TypeSignals.satisfies, TypeSignals.asConst]

variable {s t : TypeSignals} {typed fewer : Nat}

theorem cost_le (worse : ∀ counter ∈ penalized, counter s ≤ counter t) : cost s ≤ cost t := by
  simp only [penalized, List.forall_mem_cons, List.not_mem_nil, false_implies, implies_true, and_true] at worse
  obtain ⟨any, ignored, expected, nonNull⟩ := worse
  simp only [cost]
  omega

theorem gain_le (lesser : ∀ counter ∈ rewarded, counter t ≤ counter s) (less : fewer ≤ typed) :
    gain t fewer ≤ gain s typed := by
  simp only [rewarded, List.forall_mem_cons, List.not_mem_nil, false_implies, implies_true, and_true] at lesser
  obtain ⟨satisfies, asConst⟩ := lesser
  simp only [gain]
  omega

theorem score_le_score (paid : cost s ≤ cost t) (earned : gain t fewer ≤ gain s typed) :
    score t fewer ≤ score s typed := by
  -- both sides are cut at the same bounds on the way
  have better := score_eq s typed
  have worse := score_eq t fewer
  omega

theorem score_monotone :
    (∀ (s t : TypeSignals) (typed fewer : Nat), (∀ counter ∈ penalized, counter s ≤ counter t) →
      (∀ counter ∈ rewarded, counter t ≤ counter s) → fewer ≤ typed → score t fewer ≤ score s typed) ∧
    ∀ (s t : TypeSignals) (typed : Nat), (∀ counter ∈ penalized ++ rewarded, counter s = counter t) →
      score s typed = score t typed := by
  refine ⟨fun s t typed fewer worse lesser less => score_le_score (cost_le worse) (gain_le lesser less), ?_⟩
  intro s t typed same
  obtain ⟨paid, earned⟩ := List.forall_mem_append.1 same
  apply Nat.le_antisymm
  next =>
    exact score_le_score (cost_le fun counter member => (paid counter member).ge)
      (gain_le (fun counter member => (earned counter member).le) (Nat.le_refl typed))
  next =>
    exact score_le_score (cost_le fun counter member => (paid counter member).le)
      (gain_le (fun counter member => (earned counter member).ge) (Nat.le_refl typed))

theorem score_monotone_outweighed :
    let better : TypeSignals := { outweighed with any := 2 ^ 64 - 2, satisfies := 2 ^ 64 - 1 }
    let alike : TypeSignals := { outweighed with readonly := 2 ^ 64 - 1 }
    (∀ counter ∈ penalized, counter better ≤ counter outweighed) ∧
      (∀ counter ∈ rewarded, counter outweighed ≤ counter better) ∧
      score outweighed (2 ^ 64 - 2) ≤ score better (2 ^ 64 - 1) ∧
      (∀ counter ∈ penalized ++ rewarded, counter outweighed = counter alike) ∧
      score outweighed 1 = score alike 1 := by
  intro better alike
  have worse : ∀ counter ∈ penalized, counter better ≤ counter outweighed := by decide
  have lesser : ∀ counter ∈ rewarded, counter outweighed ≤ counter better := by decide
  have same : ∀ counter ∈ penalized ++ rewarded, counter outweighed = counter alike := by decide
  exact ⟨worse, lesser, score_monotone.1 better outweighed (2 ^ 64 - 1) (2 ^ 64 - 2) worse lesser (by decide),
    same, score_monotone.2 outweighed alike 1 same⟩

end FrontendSurvey.Hygiene
