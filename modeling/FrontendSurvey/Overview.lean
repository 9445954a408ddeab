import FrontendSurvey.Report
import FrontendSurvey.Settings

set_option autoImplicit false

namespace FrontendSurvey

structure Saved where
  report : Path
  structureReport : Path
  view : Path
  deriving DecidableEq, Repr

structure Outcome where
  report : Report
  structureReport : Structure
  viewLines : List String
  saved : Saved

namespace Overview

inductive Style where
  | bold
  | red
  | green
  | yellow
  | cyan
  deriving DecidableEq, Repr

def Style.code : Style → String
  | bold => "1"
  | red => "31"
  | green => "32"
  | yellow => "33"
  | cyan => "36"

def paint (colored : Bool) (style : Style) (text : String) : String :=
  if colored then "\x1b[" ++ style.code ++ "m" ++ text ++ "\x1b[0m" else text

def scoreStyle (score : Nat) : Style :=
  if 80 ≤ score ∧ score ≤ 100 then .green else if 50 ≤ score ∧ score ≤ 79 then .yellow else .red

def heading (colored : Bool) (title : String) : String :=
  "\n--- " ++ paint colored .cyan title ++ " ---"

def pairs (sep : String) (items : List (String × String)) : String :=
  sep.intercalate (items.map fun (name, value) => name ++ ":" ++ value)

def savedLines (s : Settings) (saved : Saved) : List String :=
  ["🧠 Saved: " ++ s.relative saved.report, "🌳 Saved: " ++ s.relative saved.structureReport,
    "🗺️  Saved: " ++ s.relative saved.view]

def scanLine (w : ScanWindow) : String :=
  "\nScan: " ++ w.started ++ " → " ++ w.ended ++ "  (" ++ toString w.millis ++ " ms)"

def hygieneLines (colored : Bool) (s : Summary) : List String :=
  [heading colored "TypeScript Hygiene",
    "Score: " ++ paint colored (scoreStyle s.score) (toString s.score) ++ "/100",
    pairs "  " [("any", toString s.types.any), ("@ts-ignore", toString s.types.tsIgnore),
      ("@ts-expect-error", toString s.types.tsExpectError), ("!!", toString s.types.nonNull)],
    pairs "  " [("as const", toString s.types.asConst), ("satisfies", toString s.types.satisfies),
      ("interfaces", toString s.types.interface), ("types", toString s.types.typeAlias)]]

def typingLines (colored : Bool) (t : Typing) : List String :=
  [heading colored "Vue SFC Typing",
    "script setup lang=ts: " ++ toString t.scriptSetupTs ++ " | defineProps<T>: " ++
      toString t.propsTyped ++ " | runtime defineProps: " ++ toString t.propsRuntime]

def flagText (b : Bool) : String := if b then "true" else "false"

def perfLines (colored : Bool) (p : PerfSignals) : List String :=
  [heading colored "Perf Signals (any present?)",
    pairs "  " [("performance.now", flagText p.performanceNow),
      ("requestIdleCallback", flagText p.requestIdleCallback),
      ("IntersectionObserver", flagText p.intersectionObserver),
      ("console.time", flagText p.consoleTime), ("dynamic import()", flagText p.dynamicImport)]]

def brainLines (colored : Bool) : Option Brain → List String
  | none => []
  | some b =>
    [heading colored "Brain (self)",
      b.path ++ "  " ++ pairs "  " [("lines", toString b.lines), ("bytes", toString b.bytes),
        ("maxLine", toString b.longestLine), ("funcs~", toString b.functions),
        ("TODO", toString b.todos), ("FIXME", toString b.fixmes)]]

def suggestionLines (colored : Bool) (suggestions : List String) : List String :=
  if suggestions.isEmpty then []
  else heading colored "Suggestions" :: suggestions.map ("• " ++ ·)

def frameworkLine (colored : Bool) (f : Framework) : String :=
  if f.misconfigured then
    paint colored .yellow
      ("⚠️ Vuetify-like tags detected (" ++ ", ".intercalate f.tags ++
        ") but no vuetify plugin found.")
  else
    match f.plugin with
    | some plugin => paint colored .green ("✅ Vuetify plugin detected at " ++ plugin)
    | none => "ℹ️ No Vuetify usage detected - all good."

def rule : String := "======================================"

def lines (o : Outcome) (s : Settings) (quiet colored : Bool) : List String :=
  let summary := o.report.summary
  savedLines s o.saved ++
    if quiet then []
    else
      ["", rule, paint colored .bold "           PROJECT OVERVIEW           ", rule] ++
      o.viewLines ++ [scanLine o.report.scan] ++ hygieneLines colored summary ++
      typingLines colored summary.typing ++ perfLines colored summary.perf ++
      brainLines colored summary.brain ++ suggestionLines colored summary.suggestions ++
      ["", frameworkLine colored summary.framework]

end Overview

end FrontendSurvey
