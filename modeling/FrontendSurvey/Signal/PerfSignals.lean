import FrontendSurvey.Text.Pattern
import FrontendSurvey.Json.Basic

set_option autoImplicit false

namespace FrontendSurvey

open Text Pattern

structure PerfSignals where
  performanceNow : Bool
  requestIdleCallback : Bool
  intersectionObserver : Bool
  consoleTime : Bool
  dynamicImport : Bool
  deriving DecidableEq, Repr

namespace PerfSignals

def none : PerfSignals := ⟨false, false, false, false, false⟩

def union (s t : PerfSignals) : PerfSignals where
  performanceNow := s.performanceNow || t.performanceNow
  requestIdleCallback := s.requestIdleCallback || t.requestIdleCallback
  intersectionObserver := s.intersectionObserver || t.intersectionObserver
  consoleTime := s.consoleTime || t.consoleTime
  dynamicImport := s.dynamicImport || t.dynamicImport

def unions (xs : List PerfSignals) : PerfSignals :=
  xs.foldr union none

namespace Pattern

def call (name : Text.Pattern) : Text.Pattern :=
  boundary ++ name ++ blanks ++ is '('

def performanceNow : Text.Pattern := call (word "performance.now")

def requestIdleCallback : Text.Pattern := call (word "requestIdleCallback")

def intersectionObserver : Text.Pattern := wholeWord "IntersectionObserver"

def consoleTime : Text.Pattern :=
  call (word "console." ++ alt (word "time") (word "timeEnd"))

def dynamicImport : Text.Pattern :=
  -- the argument is a quoted text on one line
  call (word "import") ++ blanks ++ oneOf "'\"" ++ shortRun (· != '\n') ++ oneOf "'\"" ++ blanks ++
    is ')'

end Pattern

def ofText (s : String) : PerfSignals where
  performanceNow := Pattern.performanceNow.occursIn s
  requestIdleCallback := Pattern.requestIdleCallback.occursIn s
  intersectionObserver := Pattern.intersectionObserver.occursIn s
  consoleTime := Pattern.consoleTime.occursIn s
  dynamicImport := Pattern.dynamicImport.occursIn s

def toJson (s : PerfSignals) : Json :=
  .obj [("performanceNow", .bool s.performanceNow),
    ("requestIdleCallback", .bool s.requestIdleCallback),
    ("intersectionObserver", .bool s.intersectionObserver), ("consoleTime", .bool s.consoleTime),
    ("dynamicImport", .bool s.dynamicImport)]

def ofJson? (j : Json) : Option PerfSignals := do
  let performanceNow ← j.required "performanceNow" Json.flag?
  let requestIdleCallback ← j.required "requestIdleCallback" Json.flag?
  let intersectionObserver ← j.required "intersectionObserver" Json.flag?
  let consoleTime ← j.required "consoleTime" Json.flag?
  let dynamicImport ← j.required "dynamicImport" Json.flag?
  some ⟨performanceNow, requestIdleCallback, intersectionObserver, consoleTime, dynamicImport⟩

end PerfSignals

end FrontendSurvey
