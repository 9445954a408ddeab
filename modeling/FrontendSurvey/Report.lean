import FrontendSurvey.Framework
import FrontendSurvey.Hygiene.Advice
import FrontendSurvey.Json.Printer
import FrontendSurvey.Json.Reader
import FrontendSurvey.Source.Brain
import FrontendSurvey.Time.ScanWindow
import FrontendSurvey.Tree
import FrontendSurvey.Tsconfig

set_option autoImplicit false

namespace FrontendSurvey

structure Summary where
  componentsScanned : Nat
  filesScanned : Nat
  envKeys : List String
  tsconfigs : List Tsconfig
  types : TypeSignals
  perf : PerfSignals
  typing : Typing
  framework : Framework
  score : Nat
  suggestions : List String
  brain : Option Brain
  deriving DecidableEq, Repr

structure Report where
  summary : Summary
  components : List Component
  code : List Code
  scan : ScanWindow
  deriving DecidableEq, Repr

structure Structure where
  scan : ScanWindow
  tree : List TreeNode
  view : String
  deriving Repr

namespace Summary

def readScore? (j : Json) : Option Nat := do
  let n ← j.count?
  if n < 256 then some n else none

def toJson (s : Summary) : Json :=
  .obj [("componentsScanned", .count s.componentsScanned), ("filesScanned", .count s.filesScanned),
    ("envVars", .strings s.envKeys), ("tsconfigs", .arr (s.tsconfigs.map (·.toJson))),
    ("tsTotals", s.types.toJson), ("perfPresence", s.perf.toJson), ("vueSfc", s.typing.toJson),
    ("vuetify", s.framework.toJson), ("tsHygieneScore", .count s.score),
    ("suggestions", .strings s.suggestions), ("self", Json.orNull Brain.toJson s.brain)]

def ofJson? (j : Json) : Option Summary := do
  let componentsScanned ← j.required "componentsScanned" Json.count?
  let filesScanned ← j.required "filesScanned" Json.count?
  let envKeys ← j.required "envVars" (Json.list? Json.text?)
  let tsconfigs ← j.required "tsconfigs" (Json.list? Tsconfig.ofJson?)
  let types ← j.required "tsTotals" TypeSignals.ofJson?
  let perf ← j.required "perfPresence" PerfSignals.ofJson?
  let typing ← j.required "vueSfc" Typing.ofJson?
  let framework ← j.required "vuetify" Framework.ofJson?
  let score ← j.required "tsHygieneScore" readScore?
  let suggestions ← j.required "suggestions" (Json.list? Json.text?)
  let brain ← j.optional "self" Brain.ofJson?
  some ⟨componentsScanned, filesScanned, envKeys, tsconfigs, types, perf, typing, framework, score,
    suggestions, brain⟩

end Summary

namespace Report

def toJson (r : Report) : Json :=
  .obj [("summary", r.summary.toJson), ("vue", .arr (r.components.map (·.toJson))),
    ("code", .arr (r.code.map (·.toJson))), ("scan", r.scan.toJson)]

def ofJson? (j : Json) : Option Report := do
  let summary ← j.required "summary" Summary.ofJson?
  let components ← j.required "vue" (Json.list? Component.ofJson?)
  let code ← j.required "code" (Json.list? Code.ofJson?)
  let scan ← j.required "scan" ScanWindow.ofJson?
  some ⟨summary, components, code, scan⟩

def text (r : Report) : String := r.toJson.pretty

def ofText? (text : String) : Option Report := (Json.parse? text).bind ofJson?

end Report

namespace Structure

def ofView (scan : ScanWindow) (tree : List TreeNode) (viewLines : List String) : Structure where
  scan := scan
  tree := tree
  view := "\n".intercalate viewLines

def toJson (s : Structure) : Json :=
  .obj [("scan", s.scan.toJson), ("tree", .arr (TreeNode.forestToJson s.tree)),
    ("treeView", .str s.view)]

def ofJson? (j : Json) : Option Structure := do
  let scan ← j.required "scan" ScanWindow.ofJson?
  let tree ← j.required "tree" TreeNode.forestOfJson?
  let view ← j.required "treeView" Json.text?
  some ⟨scan, tree, view⟩

def text (s : Structure) : String := s.toJson.pretty

def ofText? (text : String) : Option Structure := (Json.parse? text).bind ofJson?

def viewText (s : Structure) : String := s.view ++ "\n"

end Structure

end FrontendSurvey
