import FrontendSurvey.Source.Code

set_option autoImplicit false

namespace FrontendSurvey

structure Typing where
  scriptSetupTs : Nat
  propsTyped : Nat
  propsRuntime : Nat
  deriving DecidableEq, Repr

namespace Typing

def ofComponents (components : List Component) : Typing where
  scriptSetupTs := components.countP (·.scriptSetupTs)
  propsTyped := components.countP (·.propsTyped)
  propsRuntime := components.countP (·.propsRuntime)

def toJson (t : Typing) : Json :=
  .obj [("scriptSetupTsCount", .count t.scriptSetupTs),
    ("definePropsTypedCount", .count t.propsTyped),
    ("definePropsRuntimeCount", .count t.propsRuntime)]

def ofJson? (j : Json) : Option Typing := do
  let scriptSetupTs ← j.required "scriptSetupTsCount" Json.count?
  let propsTyped ← j.required "definePropsTypedCount" Json.count?
  let propsRuntime ← j.required "definePropsRuntimeCount" Json.count?
  some ⟨scriptSetupTs, propsTyped, propsRuntime⟩

end Typing

structure Tally where
  types : TypeSignals
  perf : PerfSignals
  typing : Typing
  deriving DecidableEq, Repr

def Tally.ofFiles (components : List Component) (code : List Code) : Tally where
  types := .total (code.map (·.types))
  perf := .unions (code.map (·.perf))
  typing := .ofComponents components

end FrontendSurvey
