import FrontendSurvey.Text.Pattern
import FrontendSurvey.Json.Basic

set_option autoImplicit false

namespace FrontendSurvey

open Text Pattern

structure TypeSignals where
  any : Nat
  tsIgnore : Nat
  tsExpectError : Nat
  nonNull : Nat
  asConst : Nat
  satisfies : Nat
  readonly : Nat
  enum : Nat
  interface : Nat
  typeAlias : Nat
  genericAngles : Nat
  union : Nat
  intersection : Nat
  deriving DecidableEq, Repr

namespace TypeSignals

def zero : TypeSignals := ⟨0, 0, 0, 0, 0, 0, 0, 0, 0, 0, 0, 0, 0⟩

def add (s t : TypeSignals) : TypeSignals where
  any := s.any + t.any
  tsIgnore := s.tsIgnore + t.tsIgnore
  tsExpectError := s.tsExpectError + t.tsExpectError
  nonNull := s.nonNull + t.nonNull
  asConst := s.asConst + t.asConst
  satisfies := s.satisfies + t.satisfies
  readonly := s.readonly + t.readonly
  enum := s.enum + t.enum
  interface := s.interface + t.interface
  typeAlias := s.typeAlias + t.typeAlias
  genericAngles := s.genericAngles + t.genericAngles
  union := s.union + t.union
  intersection := s.intersection + t.intersection

instance : Zero TypeSignals := ⟨zero⟩

instance : Add TypeSignals := ⟨add⟩

def total (xs : List TypeSignals) : TypeSignals :=
  xs.foldr (· + ·) 0

namespace Pattern

def any : Text.Pattern := wholeWord "any"

def directive (name : String) : Text.Pattern :=
  word "//" ++ blanks ++ word name ++ boundary

def tsIgnore : Text.Pattern := directive "@ts-ignore"

def tsExpectError : Text.Pattern := directive "@ts-expect-error"

def nonNull : Text.Pattern := word "!!"

def asConst : Text.Pattern :=
  boundary ++ word "as" ++ someBlanks ++ word "const" ++ boundary

def satisfies : Text.Pattern := wholeWord "satisfies"

def readonly : Text.Pattern := wholeWord "readonly"

def declared (keyword : String) : Text.Pattern :=
  boundary ++ word keyword ++ someBlanks ++ someWordChars

def enum : Text.Pattern := declared "enum"

def interface : Text.Pattern := declared "interface"

def typeAlias : Text.Pattern := declared "type" ++ blanks ++ is '='

def typeName : Text.Pattern := char Char.isUpper ++ wordChars

def genericAngles : Text.Pattern :=
  is '<' ++ blanks ++ typeName ++ many (blanks ++ is ',' ++ blanks ++ typeName) ++ blanks ++ is '>'

def union : Text.Pattern :=
  char (· != '|') ++ char isBlank ++ is '|' ++ char isBlank ++ char (· != '|')

def intersection : Text.Pattern := char isBlank ++ is '&' ++ char isBlank

end Pattern

def ofText (s : String) : TypeSignals where
  any := Pattern.any.count s
  tsIgnore := Pattern.tsIgnore.count s
  tsExpectError := Pattern.tsExpectError.count s
  nonNull := Pattern.nonNull.count s
  asConst := Pattern.asConst.count s
  satisfies := Pattern.satisfies.count s
  readonly := Pattern.readonly.count s
  enum := Pattern.enum.count s
  interface := Pattern.interface.count s
  typeAlias := Pattern.typeAlias.count s
  genericAngles := Pattern.genericAngles.count s
  union := Pattern.union.count s
  intersection := Pattern.intersection.count s

def toJson (s : TypeSignals) : Json :=
  .obj [("anyCount", .count s.any), ("tsIgnoreCount", .count s.tsIgnore),
    ("tsExpectErrorCount", .count s.tsExpectError), ("nonNullAssertionCount", .count s.nonNull),
    ("asConstCount", .count s.asConst), ("satisfiesCount", .count s.satisfies),
    ("readonlyCount", .count s.readonly), ("enumCount", .count s.enum),
    ("interfaceCount", .count s.interface), ("typeAliasCount", .count s.typeAlias),
    ("genericAnglesCount", .count s.genericAngles), ("unionCount", .count s.union),
    ("intersectionCount", .count s.intersection)]

def ofJson? (j : Json) : Option TypeSignals := do
  let any ← j.required "anyCount" Json.count?
  let tsIgnore ← j.required "tsIgnoreCount" Json.count?
  let tsExpectError ← j.required "tsExpectErrorCount" Json.count?
  let nonNull ← j.required "nonNullAssertionCount" Json.count?
  let asConst ← j.required "asConstCount" Json.count?
  let satisfies ← j.required "satisfiesCount" Json.count?
  let readonly ← j.required "readonlyCount" Json.count?
  let enum ← j.required "enumCount" Json.count?
  let interface ← j.required "interfaceCount" Json.count?
  let typeAlias ← j.required "typeAliasCount" Json.count?
  let genericAngles ← j.required "genericAnglesCount" Json.count?
  let union ← j.required "unionCount" Json.count?
  let intersection ← j.required "intersectionCount" Json.count?
  some ⟨any, tsIgnore, tsExpectError, nonNull, asConst, satisfies, readonly, enum, interface,
    typeAlias, genericAngles, union, intersection⟩

end TypeSignals

end FrontendSurvey
