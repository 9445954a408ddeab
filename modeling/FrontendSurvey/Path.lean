import FrontendSurvey.Text.Line
import FrontendSurvey.Text.Raw

set_option autoImplicit false

namespace FrontendSurvey

structure Path extends Raw where
  ofRaw ::
  deriving DecidableEq, Repr

namespace Path

open Raw (slash dot)

abbrev mk (text : String) : Path := ⟨text⟩

inductive Step where
  | root
  -- a leading dot; no other dot is a step
  | here
  | up
  | name (raw : Raw)
  deriving DecidableEq, Repr

structure Parts where
  lead : Option Step
  body : List (List UInt8)

def ofBytes (s : List UInt8) : Path := ⟨⟨s⟩⟩

def partsOf : List UInt8 → Parts
  -- a slash is written as 0x2F, and a dot as 0x2E
  | 0x2F :: r => ⟨some .root, Text.splitAt slash r⟩
  | [0x2E] => ⟨some .here, []⟩
  | 0x2E :: 0x2F :: r => ⟨some .here, [] :: Text.splitAt slash r⟩
  | r => ⟨none, Text.splitAt slash r⟩

def parts (p : Path) : Parts := partsOf p.bytes

def isIdle (piece : List UInt8) : Bool := piece == [] || piece == [dot]

def stepOf (piece : List UInt8) : Step :=
  if piece = [dot, dot] then .up else .name ⟨piece⟩

def leadBytes : Option Step → List UInt8
  | some .root => [slash]
  | some .here => [dot]
  | _ => []

def joinPieces (pieces : List (List UInt8)) : List UInt8 := List.intercalate [slash] pieces

def dropIdleEnd (pieces : List (List UInt8)) : List (List UInt8) :=
  (pieces.reverse.dropWhile isIdle).reverse

def steps (p : Path) : List Step :=
  p.parts.lead.toList ++ (p.parts.body.filter (!isIdle ·)).map stepOf

def isAbsolute (p : Path) : Bool := p.bytes.head? == some slash

def join (p q : Path) : Path :=
  -- an absolute path replaces the path that it is joined to
  if q.isAbsolute || p.bytes.isEmpty then q
  else if p.bytes.getLast? = some slash then ofBytes (p.bytes ++ q.bytes)
  else ofBytes (p.bytes ++ slash :: q.bytes)

instance : HDiv Path String Path := ⟨fun p name => p.join ⟨name⟩⟩

def fileName? (p : Path) : Option Raw :=
  match p.steps.getLast? with
  | some (.name raw) => some raw
  | _ => none

def parent? (p : Path) : Option Path :=
  -- the path without its last step; the root and the empty path have none
  match dropIdleEnd p.parts.body with
  | [] => if p.parts.lead = some .here then some (ofBytes []) else none
  | pieces => some (ofBytes (leadBytes p.parts.lead ++ joinPieces (dropIdleEnd pieces.dropLast)))

def dropSteps : List Step → List (List UInt8) → Option (List (List UInt8))
  | [], pieces => some pieces
  | _ :: _, [] => none
  | step :: steps, piece :: pieces =>
    if isIdle piece then dropSteps (step :: steps) pieces
    else if stepOf piece = step then dropSteps steps pieces
    else none

def behind? (root p : Path) : Option Path :=
  let rest := fun (pieces : List (List UInt8)) =>
    ofBytes (joinPieces (dropIdleEnd (pieces.dropWhile isIdle)))
  match root.steps, p.parts.lead with
  | [], lead => some (ofBytes (leadBytes lead ++ joinPieces (dropIdleEnd p.parts.body)))
  | steps, none => (dropSteps steps p.parts.body).map rest
  | step :: steps, some lead =>
    if step = lead then (dropSteps steps p.parts.body).map rest else none

/-- What a path is below a root. A path that is not below it stays whole. -/
def stripped (p root : Path) : Path := (behind? root p).getD p

def relativeTo (p root : Path) : String := (p.stripped root).text

theorem behind?_self_of_steps_nil {root : Path} (h : root.steps = []) (p : Path) :
    behind? root p =
      some (ofBytes (leadBytes p.parts.lead ++ joinPieces (dropIdleEnd p.parts.body))) := by
  simp [behind?, h]

end Path

end FrontendSurvey
