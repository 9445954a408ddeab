import FrontendSurvey.Proofs.Source.BrainLines

set_option autoImplicit false

namespace FrontendSurvey.Text

inductive RegexItem where
  | range (first last : Char)
  | space
  | word
  deriving DecidableEq, Repr

inductive Regex where
  | empty
  -- a unit among the items, or outside all of them
  | unit (outside : Bool) (items : List RegexItem)
  | edge
  | seq (r s : Regex)
  | many (least : Nat) (r : Regex)
  deriving DecidableEq, Repr

namespace Regex

def one (c : Char) : Regex := unit false [.range c c]

def letters (word : List Char) : List Regex := word.map one

def marks : List Char := "^$\\.*+?()[]\x7b\x7d|".toList

def sequence : List Regex → Regex
  -- the parts of a sequence, the last one first
  | [] => empty
  | [r] => r
  | r :: s :: parts => seq (sequence (s :: parts)) r

def escaped? (c : Char) : Option Regex :=
  if c = 'b' then some edge
  else if c = 's' then some (unit false [.space])
  else if c = 'w' then some (unit false [.word])
  else if c ∈ marks then some (one c)
  else none

def member? (c : Char) : Option RegexItem :=
  if c = 's' then some .space
  else if c = 'w' then some .word
  else if c ∈ marks then some (.range c c)
  else none

/-- Reads on inside groups, the innermost one first, and inside a class if one is open. -/
def readFrom? : List Char → Option (Bool × List RegexItem) → List (List Regex) → List Regex → Option Regex
  | [], none, [], parts => some (sequence parts)
  | ']' :: r, some (outside, items), groups, parts => readFrom? r none groups (unit outside items.reverse :: parts)
  | '\\' :: c :: r, some (outside, items), groups, parts =>
    (member? c).bind fun item => readFrom? r (some (outside, item :: items)) groups parts
  | a :: '-' :: b :: r, some (outside, items), groups, parts =>
    readFrom? r (some (outside, .range a b :: items)) groups parts
  | a :: r, some (outside, items), groups, parts => readFrom? r (some (outside, .range a a :: items)) groups parts
  | '[' :: '^' :: r, none, groups, parts => readFrom? r (some (true, [])) groups parts
  | '[' :: r, none, groups, parts => readFrom? r (some (false, [])) groups parts
  | '(' :: r, none, groups, parts => readFrom? r none (parts :: groups) []
  | ')' :: r, none, front :: groups, parts => readFrom? r none groups (sequence parts :: front)
  | '*' :: r, none, groups, part :: parts => readFrom? r none groups (many 0 part :: parts)
  | '+' :: r, none, groups, part :: parts => readFrom? r none groups (many 1 part :: parts)
  | '\\' :: c :: r, none, groups, parts => (escaped? c).bind fun part => readFrom? r none groups (part :: parts)
  | c :: r, none, groups, parts => if c ∈ marks then none else readFrom? r none groups (one c :: parts)
  | _, _, _, _ => none

def read? (text : String) : Option Regex := readFrom? text.toList none [] []

def isWordUnit (u : Nat) : Bool :=
  (0x30 ≤ u && u ≤ 0x39) || (0x41 ≤ u && u ≤ 0x5A) || u == 0x5F || (0x61 ≤ u && u ≤ 0x7A)

def isSpaceUnit (u : Nat) : Bool :=
  (0x09 ≤ u && u ≤ 0x0D) || u == 0x20 || u == 0xA0 || u == 0x1680 || (0x2000 ≤ u && u ≤ 0x200A) || u == 0x2028 ||
    u == 0x2029 || u == 0x202F || u == 0x205F || u == 0x3000 || u == 0xFEFF

def units (text : String) : List Nat := text.toList.flatMap utf16

section

variable (space : Nat → Bool) (input : List Nat)

def holds (u : Nat) : RegexItem → Bool
  | .range first last => first.toNat ≤ u && u ≤ last.toNat
  | .space => space u
  | .word => isWordUnit u

def wordAt (i : Nat) : Bool := input[i]?.any isWordUnit

def edgeAt (i : Nat) : Bool := (i != 0 && wordAt input (i - 1)) != wordAt input i

/-- A matcher takes the first way it tries after which all that comes next matches too. -/
abbrev Matcher := Nat → (Nat → Option Nat) → Option Nat

def repeatFrom (once : Matcher) : Nat → Nat → Matcher
  | 0, _, _, _ => none
  | fuel + 1, 0, i, next =>
    (once i fun j => if j = i then none else repeatFrom once fuel 0 j next).or (next i)
  | fuel + 1, least + 1, i, next => once i fun j => repeatFrom once fuel least j next

def run : Regex → Matcher
  | empty, i, next => next i
  | unit outside items, i, next =>
    match input[i]? with
    | none => none
    | some u => if (items.any (holds space u)) != outside then next (i + 1) else none
  | edge, i, next => if edgeAt input i then next i else none
  | seq r s, i, next => run r i fun j => run s j next
  -- each repetition beyond the least number takes up a unit
  | many least r, i, next => repeatFrom (run r) (least + (input.length - i) + 1) least i next

def exec (r : Regex) (i : Nat) : Option (Nat × Nat) :=
  (List.range' i (input.length + 1 - i)).findSome? fun start => (r.run space input start some).map (start, ·)

def matchesFrom (r : Regex) : Nat → Nat → List (Nat × Nat)
  | 0, _ => []
  | fuel + 1, i =>
    match r.exec space input i with
    | none => []
    | some (start, stop) => (start, stop) :: matchesFrom r fuel (if stop = start then stop + 1 else stop)

def matchAll (r : Regex) : List (Nat × Nat) := r.matchesFrom space input (input.length + 1) 0

end

-- A repetition takes what it can, and nothing at the end of the text.
example : (read? "(a+b)*").map (·.matchAll isSpaceUnit (units "abaabxab")) =
    some [(0, 5), (5, 5), (6, 8), (8, 8)] := by
  decide +kernel

end Regex

end FrontendSurvey.Text
