import FrontendSurvey.Signal.TypeSignals
import FrontendSurvey.Text.Line

set_option autoImplicit false

namespace FrontendSurvey

open Text Pattern

structure Brain where
  path : String
  bytes : Nat
  lines : Nat
  longestLine : Nat
  functions : Nat
  todos : Nat
  fixmes : Nat
  types : TypeSignals
  deriving DecidableEq, Repr

namespace Brain

/-- The word, an empty parameter list or a body before or after an arrow, or a named function. -/
def functionLike : Pattern :=
  boundary ++
    alt (word "function" ++ boundary)
      (alt (word "()" ++ blanks ++ word "=>")
        (alt (word "=>" ++ blanks ++ is '\x7b')
          (word "function" ++ blanks ++ someWordChars ++ blanks ++ is '(')))

def reminder (name : String) : Pattern :=
  word "//" ++ blanks ++ wordAnyCase name ++ boundary

def ofText (path text : String) : Brain where
  path := path
  bytes := text.utf8ByteSize
  lines := (Text.lines text).length
  longestLine := ((Text.lines text).map unitLength).foldl max 0
  functions := functionLike.count text
  todos := (reminder "TODO").count text
  fixmes := (reminder "FIXME").count text
  types := .ofText text

def toJson (b : Brain) : Json :=
  .obj [("path", .str b.path), ("bytes", .count b.bytes), ("lines", .count b.lines),
    ("maxLineLen", .count b.longestLine), ("functionLikeCount", .count b.functions),
    ("todoCount", .count b.todos), ("fixmeCount", .count b.fixmes), ("tsSignals", b.types.toJson)]

def ofJson? (j : Json) : Option Brain := do
  let path ← j.required "path" Json.text?
  let bytes ← j.required "bytes" Json.count?
  let lines ← j.required "lines" Json.count?
  let longestLine ← j.required "maxLineLen" Json.count?
  let functions ← j.required "functionLikeCount" Json.count?
  let todos ← j.required "todoCount" Json.count?
  let fixmes ← j.required "fixmeCount" Json.count?
  let types ← j.required "tsSignals" TypeSignals.ofJson?
  some ⟨path, bytes, lines, longestLine, functions, todos, fixmes, types⟩

end Brain

end FrontendSurvey
