import FrontendSurvey.Toml.Scalar

set_option autoImplicit false

namespace FrontendSurvey.Toml

def skipBlanks (s : List Char) : List Char := s.dropWhile isBlank

def skipLinesFrom : Bool → List Char → Option (List Char)
  -- skips blanks, line ends and comments; the flag tells that a comment is being read
  | _, [] => some []
  | _, '\n' :: r => skipLinesFrom false r
  | _, '\r' :: '\n' :: r => skipLinesFrom false r
  | true, c :: r => if isControl c then none else skipLinesFrom true r
  | false, c :: r =>
    if isBlank c then skipLinesFrom false r
    else if c = '#' then skipLinesFrom true r
    else some (c :: r)

def skipLines (s : List Char) : Option (List Char) := skipLinesFrom false s

def skipComment : List Char → Option (List Char)
  | [] => some []
  | '\n' :: r => some r
  | '\r' :: '\n' :: r => some r
  | c :: r => if isControl c then none else skipComment r

def endLine (s : List Char) : Option (List Char) :=
  match skipBlanks s with
  | [] => some []
  | '\n' :: r => some r
  | '\r' :: '\n' :: r => some r
  | '#' :: r => skipComment r
  | _ => none

def isKeyChar (c : Char) : Bool := c.isAlphanum || c == '-' || c == '_'

def readSimpleKey (s : List Char) : Option (String × List Char) :=
  match s with
  | '"' :: r => (readEscaped r).map fun (k, r) => (String.ofList k, r)
  | '\'' :: r => (readPlain r).map fun (k, r) => (String.ofList k, r)
  | s =>
    match s.takeWhile isKeyChar with
    | [] => none
    | k => some (String.ofList k, s.dropWhile isKeyChar)

/-- To what depth values may nest, and how many parts a key may have. -/
def maxDepth : Nat := 80

def readKeyParts : Nat → List Char → Option (List String × List Char)
  | 0, _ => none
  | n + 1, s => do
    let (part, r) ← readSimpleKey (skipBlanks s)
    match skipBlanks r with
    | '.' :: r => (readKeyParts n r).map fun (parts, r) => (part :: parts, r)
    | r => some ([part], r)

def readKey (s : List Char) : Option (List String × String × List Char) := do
  let (parts, r) ← readKeyParts maxDepth s
  let key ← parts.getLast?
  some (parts.dropLast, key, r)

def readItems {α : Type} (close : Char) (item : List Char → Option (α × List Char)) :
    Nat → List Char → Option (List α × List Char)
  -- items with commas between them and perhaps one more at the end, over any number of lines
  | 0, _ => none
  | n + 1, s => do
    match ← skipLines s with
    | [] => none
    | c :: r =>
      if c = close then some ([], r)
      else do
        let (x, r) ← item (c :: r)
        match ← skipLines r with
        | [] => none
        | c :: r =>
          if c = close then some ([x], r)
          else if c = ',' then (readItems close item n r).map fun (xs, r) => (x :: xs, r)
          else none

def readEntry (skip : List Char → Option (List Char))
    (value : List Char → Option (Value × List Char)) (s : List Char) :
    Option (Entry × List Char) := do
  let (path, key, r) ← readKey s
  match ← skip r with
  | '=' :: r => (value (← skip r)).map fun (v, r) => (⟨path, key, v⟩, r)
  | _ => none

/-- A value of so many levels. In braces an entry may go over several lines. -/
def readValue : Nat → List Char → Option (Value × List Char)
  | _, '"' :: r => (readText ('"' :: r)).map fun (s, r) => (.text (String.ofList s), r)
  | _, '\'' :: r => (readText ('\'' :: r)).map fun (s, r) => (.text (String.ofList s), r)
  | 0, '[' :: _ => none
  | 0, '\x7b' :: _ => none
  | depth + 1, '[' :: r =>
    (readItems ']' (readValue depth) (r.length + 1) r).map fun (xs, r) => (.list xs, r)
  | depth + 1, '\x7b' :: r => do
    let (entries, r) ← readItems '\x7d' (readEntry skipLines (readValue depth)) (r.length + 1) r
    let fields ← insertAll [] entries
    some (.inline fields, r)
  | _, s => readScalar s

inductive Line where
  | entry (e : Entry)
  | header (path : List String) (key : String)
  | repeatedHeader (path : List String) (key : String)

def readLine (s : List Char) : Option (Line × List Char) :=
  -- one line of a document that is neither empty nor a comment
  match s with
  | '[' :: '[' :: r => do
    let (path, key, r) ← readKey r
    match r with
    | ']' :: ']' :: r => some (.repeatedHeader path key, r)
    | _ => none
  | '[' :: r => do
    let (path, key, r) ← readKey r
    match r with
    | ']' :: r => some (.header path key, r)
    | _ => none
  | s =>
    (readEntry (fun r => some (skipBlanks r)) (readValue maxDepth) s).map fun (e, r) => (.entry e, r)

def readLines : Nat → List Char → Option (List Line)
  | 0, _ => none
  | n + 1, s => do
    match ← skipLines s with
    | [] => some []
    | s =>
      let (line, r) ← readLine s
      let r ← endLine r
      (readLines n r).map (line :: ·)

def splitEntries : List Line → List Entry × List Line
  | .entry e :: lines => ((e :: (splitEntries lines).1), (splitEntries lines).2)
  | lines => ([], lines)

def addSections : Nat → List Line → Fields → Option Fields
  -- adds section after section; each takes up at least its header
  | _, [], root => some root
  | 0, _, _ => none
  | n + 1, .header path key :: lines, root =>
    (addSection path key (splitEntries lines).1 root).bind
      (addSections n (splitEntries lines).2)
  | n + 1, .repeatedHeader path key :: lines, root =>
    (addRepeated path key (splitEntries lines).1 root).bind
      (addSections n (splitEntries lines).2)
  | _ + 1, .entry _ :: _, _ => none

def parse? (s : String) : Option Fields := do
  let chars := match s.toList with
    | '\ufeff' :: r => r
    | r => r
  let lines ← readLines (chars.length + 1) chars
  let root ← insertAll [] (splitEntries lines).1
  addSections lines.length (splitEntries lines).2 root

end FrontendSurvey.Toml
