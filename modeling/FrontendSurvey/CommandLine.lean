import FrontendSurvey.CommandLine.Options
import FrontendSurvey.Survey

set_option autoImplicit false

namespace FrontendSurvey.CommandLine

structure Response where
  code : Nat
  output : String
  diagnostics : List String
  deriving DecidableEq, Repr

def helpEntries : List (String × String) :=
  [("    --root <ROOT>",
      "Project root (the directory that contains `src/` and `ADD/`) [default: .]"),
    ("    --src <SRC>", "Source directory to scan, relative to the root"),
    ("    --out <OUT>", "Directory the snapshots are written to, relative to the root"),
    ("    --self-source <SELF_SOURCE>", "File the self-scan measures, relative to the root"),
    ("-q, --quiet", "Only print where the snapshots were saved"),
    ("    --log-level <LOG_LEVEL>",
      "Log level (trace, debug, info, warn, error) [default: warn]"),
    ("-h, --help", "Print help"),
    ("-V, --version", "Print version")]

def helpColumn : Nat := 33

def helpLine (option text : String) : String :=
  "  " ++ option ++ String.ofList (List.replicate (helpColumn - option.length) ' ') ++ text

def unlines (lines : List String) : String := String.join (lines.map (· ++ "\n"))

def helpText : String :=
  unlines <|
    ["Frontend self-awareness snapshot for Vue + TypeScript projects", "",
      "Usage: brainscan [OPTIONS]", "", "Options:"] ++
    helpEntries.map fun (option, text) => helpLine option text

def versionText : String := "brainscan 0.1.0\n"

def Stop.response : Stop → Response
  | .help => ⟨0, helpText, []⟩
  | .version => ⟨0, versionText, []⟩
  | _ => ⟨2, "", []⟩

def diagnostic (root : Path) : Fault → String
  -- a missing source directory has a line of its own; any other fault names the root and gives its cause once more
  | .missingSource path => "❌ " ++ (Fault.missingSource path).message
  | .refused path why =>
    "❌ brainscan failed for " ++ root.text ++ ": " ++ (Fault.refused path why).message ++ ": " ++
      why.message

def execute (d : Disk) (arguments : List String) (scan : ScanWindow) (now : Instant) :
    Disk × Response :=
  match Options.ofArguments arguments with
  | .error stop => (d, stop.response)
  | .ok options =>
    let settings := options.settings d
    match Survey.run d settings scan now with
    | (d, .ok outcome) =>
      (d, ⟨0, unlines (Overview.lines outcome settings options.quiet false), []⟩)
    | (d, .error fault) => (d, ⟨1, "", [diagnostic settings.root fault]⟩)

end FrontendSurvey.CommandLine
