import FrontendSurvey.Text.Pattern
import FrontendSurvey.Json.Basic

set_option autoImplicit false

namespace FrontendSurvey

open Text Pattern

structure Component where
  file : String
  -- opening tags in order, with repetitions
  tags : List String
  imports : List String
  emits : List String
  props : List String
  scriptSetupTs : Bool
  propsTyped : Bool
  propsRuntime : Bool
  deriving DecidableEq, Repr

namespace Source

def importFrom : Extractor where
  lead := lineStart ++ blanks ++ word "import" ++ someBlanks ++ shortRun (· != '\n') ++
    word "from" ++ someBlanks ++ oneOf "'\""
  body := shortRun (· != '\n')
  trail := oneOf "'\""

end Source

namespace Component

def isTagChar (c : Char) : Bool := isWordChar c || c == '-'

def openingTag : Extractor where
  lead := is '<'
  body := char isTagChar ++ run isTagChar
  trail := alt (char isBlank) (is '>')

def plainCall (name : String) : Extractor where
  lead := word name ++ is '('
  body := run (· != ')')
  trail := is ')'

def withinTag : Pattern := run (· != '>')

def langTs : Pattern :=
  boundary ++ wordAnyCase "lang" ++ blanks ++ is '=' ++ blanks ++ oneOf "\"'" ++ wordAnyCase "ts" ++
    oneOf "\"'"

def setupWord : Pattern := boundary ++ wordAnyCase "setup" ++ boundary

def langThenSetup : Pattern :=
  wordAnyCase "<script" ++ withinTag ++ langTs ++ withinTag ++ setupWord

def setupThenLang : Pattern :=
  wordAnyCase "<script" ++ withinTag ++ setupWord ++ withinTag ++ langTs

def typedProps : Pattern :=
  word "defineProps" ++ blanks ++ is '<' ++ char (· != '>') ++ run (· != '>') ++ is '>' ++ blanks ++
    is '('

def runtimeProps : Pattern :=
  word "defineProps" ++ blanks ++ is '(' ++ blanks ++ is '\x7b'

def ofText (file text : String) : Component where
  file := file
  tags := openingTag.extract text
  imports := Source.importFrom.extract text
  emits := (plainCall "defineEmits").extract text
  props := (plainCall "defineProps").extract text
  scriptSetupTs := langThenSetup.occursIn text || setupThenLang.occursIn text
  propsTyped := typedProps.occursIn text
  propsRuntime := runtimeProps.occursIn text

def toJson (c : Component) : Json :=
  .obj [("file", .str c.file), ("templateTags", .strings c.tags), ("imports", .strings c.imports),
    ("emits", .strings c.emits), ("props", .strings c.props),
    ("vueScriptSetupTs", .bool c.scriptSetupTs), ("definePropsTyped", .bool c.propsTyped),
    ("definePropsRuntime", .bool c.propsRuntime)]

def ofJson? (j : Json) : Option Component := do
  let file ← j.required "file" Json.text?
  let tags ← j.required "templateTags" (Json.list? Json.text?)
  let imports ← j.required "imports" (Json.list? Json.text?)
  let emits ← j.required "emits" (Json.list? Json.text?)
  let props ← j.required "props" (Json.list? Json.text?)
  let scriptSetupTs ← j.required "vueScriptSetupTs" Json.flag?
  let propsTyped ← j.required "definePropsTyped" Json.flag?
  let propsRuntime ← j.required "definePropsRuntime" Json.flag?
  some ⟨file, tags, imports, emits, props, scriptSetupTs, propsTyped, propsRuntime⟩

end Component

end FrontendSurvey
