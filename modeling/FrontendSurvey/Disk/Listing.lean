import FrontendSurvey.Disk.Change
import FrontendSurvey.Json.Basic
import FrontendSurvey.Text.Digit

set_option autoImplicit false

namespace FrontendSurvey.Disk

def instantOfJson? : Json → Option Instant
  | .arr [.int seconds, .int nanos] =>
    if nanos < 0 then none else Instant.ofUnix? seconds nanos.toNat
  | _ => none

def bytesOfHex? : List Char → Option (List UInt8)
  | [] => some []
  | high :: low :: rest => do
    let high ← Text.hexValue? high
    let low ← Text.hexValue? low
    let bytes ← bytesOfHex? rest
    some ((high * 16 + low).toUInt8 :: bytes)
  | [_] => none

def textOfHex? (hex : String) : Option (Option String) :=
  (bytesOfHex? hex.toList).map fun bytes => String.fromUTF8? (ByteArray.mk bytes.toArray)

inductive Listed where
  | folder
  | link (target : Path)
  | file (text : Option String) (modified : Instant)
  deriving DecidableEq

def Listed.ofJson? (j : Json) : Option Listed := do
  if (j.field? "dir").bind Json.flag? = some true then return .folder
  if let some target := (j.field? "symlink").bind Json.text? then return .link ⟨target⟩
  let modified ← j.optional "mtime" instantOfJson?
  let modified := modified.getD .start2025
  if let some text := (j.field? "text").bind Json.text? then return .file text modified
  return .file (← j.required "hex" fun hex => hex.text?.bind textOfHex?) modified

def putParents (d : Disk) (p : Path) : Disk :=
  match p.parent? with
  | none => d
  | some parent => (d.makeFolders parent).1

def put (d : Disk) (p : Path) : Listed → Disk
  -- puts a listed entry on the disk; what the disk refuses is left out
  | .folder => (d.makeFolders p).1
  | .link target => ((d.putParents p).add p (.link target)).toOption.getD (d.putParents p)
  | .file text modified =>
    ((d.putParents p).write p text modified).toOption.getD (d.putParents p)

def putJson? (d : Disk) (j : Json) : Option Disk := do
  let path ← j.required "path" Json.text?
  let listed ← Listed.ofJson? j
  some (d.put ⟨path⟩ listed)

def putAll? (d : Disk) (entries : List Json) : Option Disk := entries.foldlM putJson? d

end FrontendSurvey.Disk
