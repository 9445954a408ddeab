import FrontendSurvey.Fault
import FrontendSurvey.Framework
import FrontendSurvey.Json.Reader
import FrontendSurvey.Settings.ConfigFile
import FrontendSurvey.Source.Brain
import FrontendSurvey.Source.Code
import FrontendSurvey.Tsconfig

set_option autoImplicit false

namespace FrontendSurvey

def Overrides.load (d : Disk) (root : Path) : Overrides :=
  match d.readText (root / ".brainscan" / "config.toml") with
  | .ok text => .ofText text
  | .error _ => .none

def Settings.load (d : Disk) (root : Path) : Settings :=
  (forRoot root).withOverrides (.load d root)

def Component.read (d : Disk) (s : Settings) (path : Path) : Except Fault Component :=
  (d.need path).map (.ofText (s.relative path))

def Code.read (d : Disk) (s : Settings) (path : Path) : Except Fault Code :=
  (d.need path).map (.ofText (s.relative path))

def Brain.read (d : Disk) (s : Settings) (path : Path) : Except Fault (Option Brain) :=
  if d.present path then (d.need path).map fun text => some (.ofText (s.relative path) text)
  else .ok none

namespace Tsconfig

def document? (d : Disk) (path : Path) : Option Json :=
  match d.readText path with
  | .error _ => none
  | .ok text =>
    match Json.parse? text with
    | some .null => none
    | document => document

def read? (d : Disk) (root : Path) (candidate : String) : Option Tsconfig :=
  (document? d (root / candidate)).map (.ofDocument candidate)

def readAll (d : Disk) (root : Path) (candidates : List String) : List Tsconfig :=
  candidates.filterMap (read? d root)

end Tsconfig

namespace Framework

def plugin? (d : Disk) (candidates : List Path) : Option Path := candidates.find? d.present

def detect (d : Disk) (s : Settings) (components : List Component) : Framework :=
  .ofFindings ((plugin? d s.plugins).map s.relative) (tagsOf components)

end Framework

end FrontendSurvey
