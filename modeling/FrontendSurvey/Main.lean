import FrontendSurvey.CommandLine
import FrontendSurvey.Disk.Listing
import FrontendSurvey.Json.Reader

set_option autoImplicit false

namespace FrontendSurvey.CommandLine

structure Request where
  disk : Disk
  scan : ScanWindow
  now : Instant

def Request.ofJson? (j : Json) : Option Request := do
  let started ← j.required "started" Disk.instantOfJson?
  let ended ← j.required "ended" Disk.instantOfJson?
  let entries ← j.required "entries" Json.items?
  let disk ← Disk.empty.putAll? entries
  some ⟨disk, .between started ended, ended⟩

def reportsOn (d : Disk) (s : Settings) : List (Path × String) :=
  [s.reportFile, s.structureFile, s.viewFile].filterMap fun path =>
    (d.readText path).toOption.map fun text => (path, text)

def save (d : Disk) (s : Settings) : IO Unit := do
  IO.FS.createDirAll s.memory.text
  for (path, text) in reportsOn d s do
    IO.FS.writeFile path.text text

def display (response : Response) : IO UInt32 := do
  IO.print response.output
  for line in response.diagnostics do
    IO.eprintln line
  return response.code.toUInt32

partial def readAll (input : IO.FS.Stream) (text : String) : IO String := do
  let line ← input.getLine
  if line.isEmpty then return text else readAll input (text ++ line)

def survey (arguments : List String) (options : Options) : IO UInt32 := do
  let text ← readAll (← IO.getStdin) ""
  match (Json.parse? text).bind Request.ofJson? with
  | none => display ⟨1, "", ["❌ the listing cannot be read"]⟩
  | some request =>
    let (after, response) := execute request.disk arguments request.scan request.now
    if response.code = 0 then save after (options.settings request.disk)
    display response

end FrontendSurvey.CommandLine

open FrontendSurvey CommandLine in
def main (arguments : List String) : IO UInt32 := do
  match Options.ofArguments arguments with
  | .error stop => display stop.response
  | .ok options => survey arguments options
