import FrontendSurvey.Disk.Change
import FrontendSurvey.Env
import FrontendSurvey.Hygiene.Score
import FrontendSurvey.Overview
import FrontendSurvey.Project
import FrontendSurvey.Tree.View
import FrontendSurvey.Tree.Walk

set_option autoImplicit false

namespace FrontendSurvey

structure Analysis where
  report : Report
  structureReport : Structure
  viewLines : List String

namespace Survey

def summarize (d : Disk) (s : Settings) (components : List Component) (code : List Code)
    (envKeys : List String) (brain : Option Brain) : Summary :=
  let tally := Tally.ofFiles components code
  { componentsScanned := components.length
    filesScanned := code.length
    envKeys := envKeys
    tsconfigs := Tsconfig.readAll d s.root s.tsconfigs
    types := tally.types
    perf := tally.perf
    typing := tally.typing
    framework := Framework.detect d s components
    score := Hygiene.score tally.types tally.typing.propsTyped
    suggestions := (Advice.forTally tally (brain.map (·.lines)) s.lineLimit).map (·.message)
    brain := brain }

-- the label of a tree: the name of its directory, or all of a path that does not end in a name
def label (source : Path) : String := (source.fileName?.map (·.text)).getD source.text

def analyze (d : Disk) (s : Settings) (scan : ScanWindow) : Except Fault Analysis := do
  if !d.isFolder s.source then throw (.missingSource s.source)
  let walked ← d.walk s.root s.skipped s.source
  let components ← walked.components.mapM (Component.read d s)
  let code ← walked.code.mapM (Code.read d s)
  let envKeys ← Env.keys d s.root
  let brain ← Brain.read d s s.brain
  let viewLines := TreeNode.view (label s.source) walked.tree
  return {
    report := ⟨summarize d s components code envKeys brain, components, code, scan⟩
    structureReport := .ofView scan walked.tree viewLines
    viewLines := viewLines }

def writeAll (now : Instant) (d : Disk) : List (Path × String) → Disk × Option Fault
  | [] => (d, none)
  | (path, text) :: rest =>
    match d.write path text now with
    | .ok d => writeAll now d rest
    | .error why => (d, some (.refused path why))

def save (d : Disk) (s : Settings) (now : Instant) (a : Analysis) : Disk × Option Fault :=
  match d.makeFolders s.memory with
  | (d, some why) => (d, some (.refused s.memory why))
  | (d, none) =>
    writeAll now d
      [(s.reportFile, a.report.text), (s.structureFile, a.structureReport.text),
        (s.viewFile, a.structureReport.viewText)]

def run (d : Disk) (s : Settings) (scan : ScanWindow) (now : Instant) :
    Disk × Except Fault Outcome :=
  match analyze d s scan with
  | .error fault => (d, .error fault)
  | .ok a =>
    match save d s now a with
    | (d, some fault) => (d, .error fault)
    | (d, none) =>
      (d, .ok ⟨a.report, a.structureReport, a.viewLines,
        ⟨s.reportFile, s.structureFile, s.viewFile⟩⟩)

end Survey

end FrontendSurvey
