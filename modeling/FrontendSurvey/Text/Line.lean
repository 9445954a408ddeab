set_option autoImplicit false

namespace FrontendSurvey.Text

def splitAt {α : Type} [DecidableEq α] (sep : α) : List α → List (List α)
  | [] => [[]]
  | a :: r =>
    if a = sep then [] :: splitAt sep r
    else
      match splitAt sep r with
      | [] => [[a]]
      | piece :: rest => (a :: piece) :: rest

def dropReturn (line : List Char) : List Char :=
  if line.getLast? = some '\r' then line.dropLast else line

def lines (s : String) : List (List Char) :=
  (splitAt '\n' s.toList).map dropReturn

def units (c : Char) : Nat :=
  -- characters beyond the basic plane take two units of sixteen bits
  if c.toNat < 0x10000 then 1 else 2

def unitLength (line : List Char) : Nat :=
  line.foldr (units · + ·) 0

theorem splitAt_ne_nil {α : Type} [DecidableEq α] (sep : α) (s : List α) : splitAt sep s ≠ [] := by
  cases s with
  | nil => simp [splitAt]
  | cons a r =>
    rw [splitAt]
    split
    · simp
    · split <;> simp

end FrontendSurvey.Text
