import FrontendSurvey.Json.Number

set_option autoImplicit false

namespace FrontendSurvey.Json

open Text

def isSpace (c : Char) : Bool :=
  c == ' ' || c == '\t' || c == '\n' || c == '\r'

def skipSpace (s : List Char) : List Char := s.dropWhile isSpace

def hexValue4? (a b c d : Char) : Option Nat := do
  let a ← hexValue? a
  let b ← hexValue? b
  let c ← hexValue? c
  let d ← hexValue? d
  some (((a * 16 + b) * 16 + c) * 16 + d)

def isHighSurrogate (n : Nat) : Bool := 0xD800 ≤ n && n < 0xDC00

def isLowSurrogate (n : Nat) : Bool := 0xDC00 ≤ n && n < 0xE000

def escaped? : Char → Option Char
  | '"' => some '"'
  | '\\' => some '\\'
  | '/' => some '/'
  | 'b' => some '\x08'
  | 'f' => some '\x0c'
  | 'n' => some '\n'
  | 'r' => some '\r'
  | 't' => some '\t'
  | _ => none

def readText : List Char → Option (List Char × List Char)
  | [] => none
  | '"' :: r => some ([], r)
  | '\\' :: 'u' :: a :: b :: c :: d :: r =>
    match hexValue4? a b c d with
    | none => none
    | some n =>
      if isHighSurrogate n then
        match r with
        | '\\' :: 'u' :: e :: f :: g :: h :: r =>
          match hexValue4? e f g h with
          | none => none
          | some low =>
            if isLowSurrogate low then
              (readText r).map fun (s, r) =>
                (Char.ofNat (0x10000 + (n - 0xD800) * 0x400 + (low - 0xDC00)) :: s, r)
            else none
        | _ => none
      else if isLowSurrogate n then none
      else (readText r).map fun (s, r) => (Char.ofNat n :: s, r)
  | '\\' :: e :: r =>
    match escaped? e with
    | none => none
    | some x => (readText r).map fun (s, r) => (x :: s, r)
  | x :: r =>
    if x.toNat < 0x20 then none else (readText r).map fun (s, r) => (x :: s, r)

def readSomeDigits (s : List Char) : Option (List Char × List Char) :=
  match s.takeWhile Char.isDigit with
  | [] => none
  | digits => some (digits, s.dropWhile Char.isDigit)

def readWhole (s : List Char) : Option (List Char × List Char) := do
  let (digits, r) ← readSomeDigits s
  if digits.head? = some '0' ∧ digits.length ≠ 1 then none else some (digits, r)

def readFraction : List Char → Option (Option (List Char) × List Char)
  | '.' :: r => (readSomeDigits r).map fun (digits, r) => (some digits, r)
  | r => some (none, r)

def readSign : List Char → Bool × List Char
  | '-' :: r => (true, r)
  | '+' :: r => (false, r)
  | r => (false, r)

def readExponent : List Char → Option (Option (Bool × List Char) × List Char)
  | c :: r =>
    if c = 'e' ∨ c = 'E' then
      (readSomeDigits (readSign r).2).map fun (digits, rest) => (some ((readSign r).1, digits), rest)
    else some (none, c :: r)
  | [] => some (none, [])

def readNumber (s : List Char) : Option (Json × List Char) := do
  let negative := s.head? = some '-'
  let (whole, r) ← readWhole (if negative then s.tail else s)
  let (fraction, r) ← readFraction r
  let (exponent, r) ← readExponent r
  let j ← NumberText.toJson? ⟨negative, whole, fraction, exponent⟩
  some (j, r)

def readScalar : List Char → Option (Json × List Char)
  | 'n' :: 'u' :: 'l' :: 'l' :: r => some (null, r)
  | 't' :: 'r' :: 'u' :: 'e' :: r => some (bool true, r)
  | 'f' :: 'a' :: 'l' :: 's' :: 'e' :: r => some (bool false, r)
  | '"' :: r => (readText r).map fun (s, r) => (str (String.ofList s), r)
  | s => readNumber s

def readItems {α : Type} (close : Char) (item : List Char → Option (α × List Char)) :
    Nat → List Char → Option (List α × List Char)
  -- items with commas between them, up to the closing bracket
  | 0, _ => none
  | n + 1, s => do
    let (x, r) ← item s
    match skipSpace r with
    | [] => none
    | c :: r =>
      if c = ',' then (readItems close item n r).map fun (xs, r) => (x :: xs, r)
      else if c = close then some ([x], r)
      else none

def readSequence {α : Type} (close : Char) (item : List Char → Option (α × List Char))
    (s : List Char) : Option (List α × List Char) :=
  match skipSpace s with
  | [] => none
  | c :: r => if c = close then some ([], r) else readItems close item s.length s

def readField (value : List Char → Option (Json × List Char)) (s : List Char) :
    Option ((String × Json) × List Char) :=
  match skipSpace s with
  | '"' :: r => do
    let (key, r) ← readText r
    match skipSpace r with
    | ':' :: r => (value r).map fun (v, r) => ((String.ofList key, v), r)
    | _ => none
  | _ => none

def readValue : Nat → List Char → Option (Json × List Char)
  -- a value in which lists and objects nest to the given depth at most
  | 0, s => readScalar (skipSpace s)
  | depth + 1, s =>
    match skipSpace s with
    | '[' :: r => (readSequence ']' (readValue depth) r).map fun (xs, r) => (arr xs, r)
    | '\x7b' :: r =>
      (readSequence '\x7d' (readField (readValue depth)) r).map fun (xs, r) => (obj xs, r)
    | s => readScalar s

def maxDepth : Nat := 127

def parseNested? (depth : Nat) (s : String) : Option Json := do
  let (j, r) ← readValue depth s.toList
  if (skipSpace r).isEmpty then some j else none

def parse? (s : String) : Option Json := parseNested? maxDepth s

end FrontendSurvey.Json
