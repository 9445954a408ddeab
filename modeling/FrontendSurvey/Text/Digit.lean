set_option autoImplicit false

namespace FrontendSurvey.Text

def digitValue (c : Char) : Nat := c.toNat - '0'.toNat

def hexValue? (c : Char) : Option Nat :=
  if c.isDigit then some (digitValue c)
  else if 'a' ≤ c ∧ c ≤ 'f' then some (c.toNat - 'a'.toNat + 10)
  else if 'A' ≤ c ∧ c ≤ 'F' then some (c.toNat - 'A'.toNat + 10)
  else none

def numeral (base : Nat) (digits : List Char) : Nat :=
  -- the number that digits of a base write; a character that is no digit counts as zero
  digits.foldl (fun n c => n * base + (hexValue? c).getD 0) 0

end FrontendSurvey.Text
