import FrontendSurvey.Text.Blank

set_option autoImplicit false

namespace FrontendSurvey.Text

structure Cursor where
  before : Option Char
  rest : List Char
  deriving DecidableEq

def Cursor.upTo (a b : Cursor) : List Char :=
  a.rest.take (a.rest.length - b.rest.length)

def Cursor.afterWordChar (c : Cursor) : Bool :=
  match c.before with
  | some a => isWordChar a
  | none => false

def Cursor.beforeWordChar (c : Cursor) : Bool :=
  match c.rest with
  | a :: _ => isWordChar a
  | [] => false

inductive Pattern where
  | char (ok : Char → Bool)
  -- no text, at a place that passes a test
  | look (ok : Cursor → Bool)
  | seq (p q : Pattern)
  | alt (p q : Pattern)
  -- characters of a class, as many as possible
  | run (ok : Char → Bool)
  | shortRun (ok : Char → Bool)
  -- a pattern that takes up text, repeated as often as possible
  | many (p : Pattern)

instance : Append Pattern := ⟨Pattern.seq⟩

def runEnds (ok : Char → Bool) : Option Char → List Char → List Cursor
  | b, [] => [⟨b, []⟩]
  | b, a :: r => ⟨b, a :: r⟩ :: if ok a then runEnds ok (some a) r else []

def manyEnds (step : Cursor → List Cursor) : Nat → Cursor → List Cursor
  | 0, c => [c]
  | n + 1, c => (step c).flatMap (manyEnds step n) ++ [c]

namespace Pattern

def ends : Pattern → Cursor → List Cursor
  | char ok, c =>
    match c.rest with
    | [] => []
    | a :: r => if ok a then [⟨some a, r⟩] else []
  | look ok, c => if ok c then [c] else []
  | seq p q, c => (p.ends c).flatMap q.ends
  | alt p q, c => p.ends c ++ q.ends c
  | run ok, c => (runEnds ok c.before c.rest).reverse
  | shortRun ok, c => runEnds ok c.before c.rest
  -- each repetition takes up text, so there are no more of them than characters
  | many p, c => manyEnds p.ends c.rest.length c

@[simp] theorem ends_append (p q : Pattern) (c : Cursor) :
    (p ++ q).ends c = (p.ends c).flatMap q.ends := rfl

@[simp] theorem ends_alt (p q : Pattern) (c : Cursor) :
    (alt p q).ends c = p.ends c ++ q.ends c := rfl

@[simp] theorem ends_look (ok : Cursor → Bool) (c : Cursor) :
    (look ok).ends c = if ok c then [c] else [] := rfl

@[simp] theorem ends_char_nil (ok : Char → Bool) (b : Option Char) :
    (char ok).ends ⟨b, []⟩ = [] := rfl

@[simp] theorem ends_char_cons (ok : Char → Bool) (b : Option Char) (a : Char) (r : List Char) :
    (char ok).ends ⟨b, a :: r⟩ = if ok a then [⟨some a, r⟩] else [] := rfl

def is (a : Char) : Pattern := char (· == a)

def literal : List Char → Pattern
  | [] => look fun _ => true
  | [a] => is a
  | a :: r => is a ++ literal r

def anyCase : List Char → Pattern
  | [] => look fun _ => true
  | a :: r => char (foldCase · == foldCase a) ++ anyCase r

def word (s : String) : Pattern := literal s.toList

def wordAnyCase (s : String) : Pattern := anyCase s.toList

def oneOf (s : String) : Pattern := char (s.toList.contains ·)

def boundary : Pattern :=
  look fun c => c.afterWordChar != c.beforeWordChar

def lineStart : Pattern :=
  look fun c => c.before.all (· == '\n')

def blanks : Pattern := run isBlank

def someBlanks : Pattern := char isBlank ++ blanks

def wordChars : Pattern := run isWordChar

def someWordChars : Pattern := char isWordChar ++ wordChars

def wholeWord (s : String) : Pattern := boundary ++ word s ++ boundary

end Pattern

/-- What is found from left to right, when `skip` more characters belong to the last find. -/
def searchFrom {α : Type} (find : Cursor → Option (α × Cursor)) :
    Option Char → List Char → Nat → List α
  | _, [], _ => []
  | _, a :: r, skip + 1 => searchFrom find (some a) r skip
  | b, a :: r, 0 =>
    match find ⟨b, a :: r⟩ with
    | none => searchFrom find (some a) r 0
    | some (x, e) => x :: searchFrom find (some a) r (r.length - e.rest.length)

def search {α : Type} (find : Cursor → Option (α × Cursor)) (s : List Char) : List α :=
  searchFrom find none s 0

namespace Pattern

def find? (p : Pattern) (c : Cursor) : Option (List Char × Cursor) :=
  (p.ends c).head?.map fun e => (c.upTo e, e)

def occurrences (p : Pattern) (s : String) : List (List Char) :=
  search p.find? s.toList

def count (p : Pattern) (s : String) : Nat :=
  (p.occurrences s).length

def occursIn (p : Pattern) (s : String) : Bool :=
  !(p.occurrences s).isEmpty

end Pattern

structure Extractor where
  lead : Pattern
  body : Pattern
  trail : Pattern

namespace Extractor

def find? (x : Extractor) (c : Cursor) : Option (List Char × Cursor) :=
  (x.lead.ends c).findSome? fun a =>
    (x.body.ends a).findSome? fun b =>
      (x.trail.ends b).head?.map fun e => (a.upTo b, e)

def extract (x : Extractor) (s : String) : List String :=
  (search x.find? s.toList).map String.ofList

end Extractor

end FrontendSurvey.Text
