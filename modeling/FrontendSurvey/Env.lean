import FrontendSurvey.Fault
import FrontendSurvey.Text.Pattern

set_option autoImplicit false

namespace FrontendSurvey.Env

open Text Pattern

def isKeyChar (c : Char) : Bool := c.isUpper || c.isDigit || c == '_'

def assignment : Extractor where
  lead := lineStart ++ blanks
  body := char isKeyChar ++ run isKeyChar
  trail := blanks ++ is '='

def keysIn (text : String) : List String := assignment.extract text

def isEnvName (name : Name) : Bool := ".env".toList.isPrefixOf name.text.toList

def files (d : Disk) (root : Path) : Except Refusal (List Path) :=
  (d.list root).map fun names =>
    let names := names.filter fun name => isEnvName name && d.isFile (root / name)
    (names.mergeSort fun a b => a.bytes ≤ b.bytes).map (root / ·)

def keys (d : Disk) (root : Path) : Except Fault (List String) := do
  let files ← (files d root).mapError (.refused root)
  let texts ← files.mapM d.need
  return (texts.flatMap keysIn).eraseDups

end FrontendSurvey.Env
