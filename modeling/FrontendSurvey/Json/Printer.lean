import FrontendSurvey.Json.Basic

set_option autoImplicit false

namespace FrontendSurvey.Json

def hexDigit (n : Nat) : Char := Nat.digitChar (n % 16)

def escapeChar (c : Char) : List Char :=
  -- quotes, backslashes and control characters are escaped, all else stands for itself
  match c with
  | '"' => ['\\', '"']
  | '\\' => ['\\', '\\']
  | '\x08' => ['\\', 'b']
  | '\x0c' => ['\\', 'f']
  | '\n' => ['\\', 'n']
  | '\r' => ['\\', 'r']
  | '\t' => ['\\', 't']
  | c =>
    if c.toNat < 0x20 then ['\\', 'u', '0', '0', hexDigit (c.toNat / 16), hexDigit c.toNat]
    else [c]

def quote (s : String) : List Char :=
  '"' :: (s.toList.flatMap escapeChar ++ ['"'])

def newLine (depth : Nat) : List Char :=
  '\n' :: List.replicate (2 * depth) ' '

mutual

def write (depth : Nat) : Json → List Char
  | null => ['n', 'u', 'l', 'l']
  | bool true => ['t', 'r', 'u', 'e']
  | bool false => ['f', 'a', 'l', 's', 'e']
  | int n => (toString n).toList
  | decimal text => text.toList
  | str s => quote s
  | arr [] => ['[', ']']
  | arr (x :: xs) => '[' :: (writeItems (depth + 1) (x :: xs) ++ newLine depth ++ [']'])
  | obj [] => ['\x7b', '\x7d']
  | obj (x :: xs) => '\x7b' :: (writeFields (depth + 1) (x :: xs) ++ newLine depth ++ ['\x7d'])

def writeItems (depth : Nat) : List Json → List Char
  | [] => []
  | [x] => newLine depth ++ write depth x
  | x :: xs => newLine depth ++ write depth x ++ ',' :: writeItems depth xs

def writeFields (depth : Nat) : List (String × Json) → List Char
  | [] => []
  | [(k, v)] => newLine depth ++ quote k ++ ':' :: ' ' :: write depth v
  | (k, v) :: xs =>
    newLine depth ++ quote k ++ ':' :: ' ' :: write depth v ++ ',' :: writeFields depth xs

end

def pretty (j : Json) : String :=
  String.ofList (write 0 j)

end FrontendSurvey.Json
