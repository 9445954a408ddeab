import FrontendSurvey.Disk

set_option autoImplicit false

namespace FrontendSurvey

inductive Fault where
  | missingSource (path : Path)
  | refused (path : Path) (why : Refusal)
  deriving DecidableEq, Repr

namespace Fault

def path : Fault → Path
  | missingSource path => path
  | refused path _ => path

def message : Fault → String
  | missingSource path => "src/ not found at " ++ path.text
  | refused path why => "I/O error at " ++ path.text ++ ": " ++ why.message

end Fault

def Disk.need (d : Disk) (path : Path) : Except Fault String :=
  (d.readText path).mapError (.refused path)

end FrontendSurvey
