import FrontendSurvey.Main
import FrontendSurvey.Proofs.Disk.Writing
import FrontendSurvey.Proofs.Disk.Folders
import FrontendSurvey.Proofs.Survey.Failure
import FrontendSurvey.Proofs.Disk.Locate
import FrontendSurvey.Proofs.Disk.Making
import FrontendSurvey.Proofs.Survey.Rerun
import FrontendSurvey.Proofs.Json.Integers
import FrontendSurvey.Proofs.Json.Nesting
import FrontendSurvey.Proofs.Json.Quoted
import FrontendSurvey.Proofs.Json.ReadWritten
import FrontendSurvey.Proofs.Json.Records
import FrontendSurvey.Proofs.Report.ReadBack
import FrontendSurvey.Proofs.Env.Values
import FrontendSurvey.Proofs.Tree.View
import FrontendSurvey.Proofs.Survey.Summary
import FrontendSurvey.Proofs.Tree.Descent
import FrontendSurvey.Proofs.Disk.Passing
import FrontendSurvey.Proofs.Tree.Alike
import FrontendSurvey.Proofs.Env.Files
import FrontendSurvey.Proofs.Survey.Criterion
import FrontendSurvey.Proofs.Survey.Saving
import FrontendSurvey.Proofs.Survey.Skipped
import FrontendSurvey.Proofs.Survey.Reordered
import FrontendSurvey.Proofs.Text.Matching
import FrontendSurvey.Proofs.Text.Packing
import FrontendSurvey.Proofs.Signal.Overlaps
import FrontendSurvey.Proofs.Env.Lines
import FrontendSurvey.Proofs.Env.Keys
import FrontendSurvey.Proofs.Hygiene.Score
import FrontendSurvey.Proofs.Source.BrainLines
import FrontendSurvey.Proofs.Time.Timestamp
import FrontendSurvey.Proofs.Text.Case
import FrontendSurvey.Proofs.Source.ScriptSetup
import FrontendSurvey.Proofs.Text.Solitary
import FrontendSurvey.Proofs.Text.Words
import FrontendSurvey.Proofs.Signal.Occurrences
import FrontendSurvey.Proofs.Text.Joined
import FrontendSurvey.Proofs.Signal.Joined
import FrontendSurvey.Proofs.Text.Onward
import FrontendSurvey.Proofs.Source.Imports
import FrontendSurvey.Proofs.Source.ImportsJoined
import FrontendSurvey.Proofs.Text.Places
import FrontendSurvey.Proofs.Source.Tags
import FrontendSurvey.Proofs.Source.Exports
import FrontendSurvey.Proofs.Text.Regex
import FrontendSurvey.Proofs.Text.RegexPattern
import FrontendSurvey.Proofs.Text.RegexParts
import FrontendSurvey.Proofs.Signal.PatternTable
import FrontendSurvey.Proofs.Survey.Reported
import FrontendSurvey.Proofs.Settings.Layers
