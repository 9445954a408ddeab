import FrontendSurvey.Signal.TypeSignals
import FrontendSurvey.Signal.PerfSignals
import FrontendSurvey.Source.Component

set_option autoImplicit false

namespace FrontendSurvey

open Text Pattern

structure Code where
  file : String
  imports : List String
  exports : Nat
  createsPlugin : Bool
  types : TypeSignals
  perf : PerfSignals
  deriving DecidableEq, Repr

namespace Code

def exportDeclaration : Pattern :=
  lineStart ++ blanks ++ word "export" ++ someBlanks ++
    alt (word "default") (alt (word "const") (alt (word "function") (word "class"))) ++ boundary

def createVuetify : Pattern := word "createVuetify" ++ blanks ++ is '('

def ofText (file text : String) : Code where
  file := file
  imports := Source.importFrom.extract text
  exports := exportDeclaration.count text
  createsPlugin := createVuetify.occursIn text
  types := .ofText text
  perf := .ofText text

def toJson (c : Code) : Json :=
  .obj [("file", .str c.file), ("imports", .strings c.imports), ("exportCount", .count c.exports),
    ("vuetifyCreate", .bool c.createsPlugin), ("tsSignals", c.types.toJson),
    ("perfSignals", c.perf.toJson)]

def ofJson? (j : Json) : Option Code := do
  let file ← j.required "file" Json.text?
  let imports ← j.required "imports" (Json.list? Json.text?)
  let exports ← j.required "exportCount" Json.count?
  let createsPlugin ← j.required "vuetifyCreate" Json.flag?
  let types ← j.required "tsSignals" TypeSignals.ofJson?
  let perf ← j.required "perfSignals" PerfSignals.ofJson?
  some ⟨file, imports, exports, createsPlugin, types, perf⟩

end Code

end FrontendSurvey
