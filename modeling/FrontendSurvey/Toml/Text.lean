import FrontendSurvey.Text.Digit

set_option autoImplicit false

namespace FrontendSurvey.Toml

open FrontendSurvey.Text

def isBlank (c : Char) : Bool := c == ' ' || c == '\t'

/-- Control characters other than the tab stand in no text and no comment. -/
def isControl (c : Char) : Bool := (c.toNat < 0x20 && c != '\t') || c.toNat == 0x7F

def isHex (c : Char) : Bool := (hexValue? c).isSome

def coded? (digits : List Char) : Option Char := do
  -- the character with a code in hexadecimal digits; surrogates are none
  let n := numeral 16 digits
  if digits.all isHex ∧ (n < 0xD800 ∨ (0xDFFF < n ∧ n < 0x110000)) then some (Char.ofNat n) else none

def escaped? : Char → Option Char
  | 'b' => some '\x08'
  | 't' => some '\t'
  | 'n' => some '\n'
  | 'f' => some '\x0c'
  | 'r' => some '\r'
  | 'e' => some '\x1b'
  | '"' => some '"'
  | '\\' => some '\\'
  | _ => none

def consRead (c : Option Char) (rest : Option (List Char × List Char)) :
    Option (List Char × List Char) :=
  match c, rest with
  | some c, some (s, r) => some (c :: s, r)
  | _, _ => none

def readEscaped : List Char → Option (List Char × List Char)
  | [] => none
  | '"' :: r => some ([], r)
  | '\\' :: 'x' :: a :: b :: r => consRead (coded? [a, b]) (readEscaped r)
  | '\\' :: 'u' :: a :: b :: c :: d :: r => consRead (coded? [a, b, c, d]) (readEscaped r)
  | '\\' :: 'U' :: a :: b :: c :: d :: e :: f :: g :: h :: r =>
    consRead (coded? [a, b, c, d, e, f, g, h]) (readEscaped r)
  | '\\' :: e :: r => consRead (escaped? e) (readEscaped r)
  | c :: r => if isControl c then none else consRead (some c) (readEscaped r)

def readPlain : List Char → Option (List Char × List Char)
  | [] => none
  | '\'' :: r => some ([], r)
  | c :: r => if isControl c then none else consRead (some c) (readPlain r)

def startsLine : List Char → Bool
  | '\n' :: _ => true
  | '\r' :: '\n' :: _ => true
  | _ => false

/-- White space behind a backslash at a line end is left out; two quotes may stand before the closing ones. -/
def readEscapedLines : Bool → List Char → Option (List Char × List Char)
  | _, [] => none
  | true, ' ' :: r => readEscapedLines true r
  | true, '\t' :: r => readEscapedLines true r
  | true, '\n' :: r => readEscapedLines true r
  | true, '\r' :: '\n' :: r => readEscapedLines true r
  | _, '"' :: '"' :: '"' :: '"' :: '"' :: r => some (['"', '"'], r)
  | _, '"' :: '"' :: '"' :: '"' :: r => some (['"'], r)
  | _, '"' :: '"' :: '"' :: r => some ([], r)
  | _, '\\' :: '\n' :: r => readEscapedLines true r
  | _, '\\' :: '\r' :: '\n' :: r => readEscapedLines true r
  | _, '\\' :: 'x' :: a :: b :: r => consRead (coded? [a, b]) (readEscapedLines false r)
  | _, '\\' :: 'u' :: a :: b :: c :: d :: r =>
    consRead (coded? [a, b, c, d]) (readEscapedLines false r)
  | _, '\\' :: 'U' :: a :: b :: c :: d :: e :: f :: g :: h :: r =>
    consRead (coded? [a, b, c, d, e, f, g, h]) (readEscapedLines false r)
  | _, '\\' :: e :: r =>
    if isBlank e then
      if startsLine (r.dropWhile isBlank) then readEscapedLines true r else none
    else consRead (escaped? e) (readEscapedLines false r)
  | _, '\r' :: '\n' :: r =>
    consRead (some '\r') (consRead (some '\n') (readEscapedLines false r))
  | _, c :: r =>
    if isControl c && c != '\n' then none else consRead (some c) (readEscapedLines false r)

def readPlainLines : List Char → Option (List Char × List Char)
  | [] => none
  | '\'' :: '\'' :: '\'' :: '\'' :: '\'' :: r => some (['\'', '\''], r)
  | '\'' :: '\'' :: '\'' :: '\'' :: r => some (['\''], r)
  | '\'' :: '\'' :: '\'' :: r => some ([], r)
  | '\r' :: '\n' :: r => consRead (some '\r') (consRead (some '\n') (readPlainLines r))
  | c :: r => if isControl c && c != '\n' then none else consRead (some c) (readPlainLines r)

def dropFirstLineEnd : List Char → List Char
  | '\n' :: r => r
  | '\r' :: '\n' :: r => r
  | r => r

def readText : List Char → Option (List Char × List Char)
  | '"' :: '"' :: '"' :: r => readEscapedLines false (dropFirstLineEnd r)
  | '\'' :: '\'' :: '\'' :: r => readPlainLines (dropFirstLineEnd r)
  | '"' :: r => readEscaped r
  | '\'' :: r => readPlain r
  | _ => none

end FrontendSurvey.Toml
