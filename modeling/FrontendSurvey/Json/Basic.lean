set_option autoImplicit false

namespace FrontendSurvey

inductive Json where
  | null
  | bool (b : Bool)
  -- an integer that 64 bits hold, signed if negative and unsigned if not
  | int (n : Int)
  | decimal (text : String)
  | str (s : String)
  | arr (items : List Json)
  | obj (fields : List (String × Json))
  deriving Inhabited

namespace Json

def field? : Json → String → Option Json
  | obj fields, key => fields.reverse.lookup key
  | _, _ => none

def text? : Json → Option String
  | str s => some s
  | _ => none

def flag? : Json → Option Bool
  | bool b => some b
  | _ => none

def count? : Json → Option Nat
  | int n => if 0 ≤ n ∧ n < UInt64.size then some n.toNat else none
  | _ => none

def items? : Json → Option (List Json)
  | arr items => some items
  | _ => none

def list? {α : Type} (read : Json → Option α) (j : Json) : Option (List α) :=
  j.items?.bind (·.mapM read)

def valuesOf : Json → String → List Json
  | obj fields, key => (fields.filter (·.1 == key)).map (·.2)
  | _, _ => []

def only? {α : Type} (read : Json → Option α) : List Json → Option α
  | [v] => read v
  | _ => none

def atMostOne? {α : Type} (read : Json → Option α) : List Json → Option (Option α)
  | [] | [null] => some none
  | [v] => (read v).map some
  | _ => none

def required {α : Type} (j : Json) (key : String) (read : Json → Option α) : Option α :=
  -- a record has no field twice
  only? read (j.valuesOf key)

def optional {α : Type} (j : Json) (key : String) (read : Json → Option α) : Option (Option α) :=
  atMostOne? read (j.valuesOf key)

def count (n : Nat) : Json := int n

def strings (xs : List String) : Json := arr (xs.map str)

def orNull {α : Type} (write : α → Json) : Option α → Json
  | none => null
  | some a => write a

def fieldIfAny {α : Type} (key : String) (write : α → Json) : Option α → List (String × Json)
  | none => []
  | some a => [(key, write a)]

def FitsWord (n : Nat) : Prop := n < UInt64.size

instance (n : Nat) : Decidable (FitsWord n) :=
  inferInstanceAs (Decidable (n < UInt64.size))

@[simp] theorem count?_count {n : Nat} (fits : FitsWord n) : (count n).count? = some n := by
  rw [FitsWord] at fits
  have bounds : (0 : Int) ≤ n ∧ (n : Int) < UInt64.size := by omega
  simp only [count, count?, if_pos bounds, Int.toNat_natCast]

end Json

end FrontendSurvey
