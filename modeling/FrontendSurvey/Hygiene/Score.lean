import FrontendSurvey.Signal.TypeSignals

set_option autoImplicit false

namespace FrontendSurvey.Hygiene

def maxInt64 : Int := Nat.pow 2 63 - 1

def minInt64 : Int := -Nat.pow 2 63

def saturate (n : Int) : Int := max minInt64 (min maxInt64 n)

def weighted (count : Nat) (weight : Int) : Int :=
  saturate (saturate count * weight)

def penalties (s : TypeSignals) : Int :=
  let p := saturate (weighted s.any 8 + weighted s.tsIgnore 10)
  let p := saturate (p + weighted s.tsExpectError 4)
  saturate (p + weighted s.nonNull 3)

def rewards (s : TypeSignals) (typedComponents : Nat) : Int :=
  let r := saturate (weighted typedComponents 2 + weighted s.satisfies 2)
  saturate (r + weighted s.asConst 1)

def maxScore : Nat := 100

def score (s : TypeSignals) (typedComponents : Nat) : Nat :=
  let raw := saturate (saturate (maxScore - penalties s) + rewards s typedComponents)
  min maxScore raw.toNat

theorem score_le (s : TypeSignals) (typedComponents : Nat) : score s typedComponents ≤ maxScore :=
  Nat.min_le_left _ _

end FrontendSurvey.Hygiene
