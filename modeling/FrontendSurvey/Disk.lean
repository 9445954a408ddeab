import FrontendSurvey.Path
import FrontendSurvey.Time.Instant

set_option autoImplicit false

namespace FrontendSurvey

open Raw (slash dot)

inductive Refusal where
  | noEntry
  | entryExists
  | notAFolder
  | isAFolder
  | tooManyLinks
  | notText
  deriving DecidableEq, Repr

def Refusal.message : Refusal → String
  | noEntry => "No such file or directory (os error 2)"
  | entryExists => "File exists (os error 17)"
  | notAFolder => "Not a directory (os error 20)"
  | isAFolder => "Is a directory (os error 21)"
  | tooManyLinks => "Too many levels of symbolic links (os error 40)"
  | notText => "stream did not contain valid UTF-8"

structure Name extends Raw where
  ok : bytes ≠ [] ∧ bytes ≠ [dot] ∧ bytes ≠ [dot, dot] ∧ slash ∉ bytes
  deriving DecidableEq

instance : HDiv Path Name Path := ⟨fun p name => p.join ⟨name.toRaw⟩⟩

abbrev Location := List Name

inductive Entry where
  | folder
  -- the text is absent if the bytes of the file are none
  | file (text : Option String) (modified : Instant)
  deriving DecidableEq

inductive Node where
  | entry (e : Entry)
  | link (target : Path)
  deriving DecidableEq

def Node.folder : Node := .entry .folder

def Housed (nodes : List (Location × Node)) : Location → Prop
  | [] => False
  | _ :: folder => folder = [] ∨ (folder, Node.folder) ∈ nodes

structure Disk where
  -- the folder that relative paths start from
  here : Location
  nodes : List (Location × Node)
  distinct : (nodes.map (·.1)).Nodup
  housed : ∀ entry ∈ nodes, Housed nodes entry.1
  settled : here = [] ∨ (here, Node.folder) ∈ nodes
  deriving DecidableEq

inductive Move where
  | stay
  | up
  | down (name : Name)
  -- the separator at the end of a path
  | slash
  deriving DecidableEq

inductive Aim where
  | look
  | write
  deriving DecidableEq

def Move.ofPiece (piece : List UInt8) : Move :=
  -- an empty piece inside a path asks for a folder, just as a dot does
  if ok : piece ≠ [] ∧ piece ≠ [dot] ∧ piece ≠ [dot, dot] ∧ Raw.slash ∉ piece then .down ⟨⟨piece⟩, ok⟩
  else if piece = [dot, dot] then .up
  else .stay

namespace Path

def pieces (p : Path) : List (List UInt8) := Text.splitAt slash p.bytes

def moves (p : Path) : List Move :=
  let (slashes, body) := p.pieces.reverse.span (· == [])
  body.reverse.map Move.ofPiece ++ if slashes.isEmpty then [] else [.slash]

def startFrom (p : Path) (folder : Location) : Location := if p.isAbsolute then [] else folder

end Path

inductive Spot where
  | taken (loc : Location) (entry : Entry)
  | free (loc : Location)
  deriving DecidableEq

namespace Disk

def empty : Disk := ⟨[], [], by simp, by simp, by simp⟩

def node? (d : Disk) : Location → Option Node
  | [] => some .folder
  | loc => (d.nodes.find? (·.1 == loc)).map (·.2)

def namesIn (d : Disk) (folder : Location) : List Name :=
  d.nodes.filterMap fun (loc, _) =>
    match loc with
    | [] => none
    | name :: parent => if parent = folder then some name else none

theorem find?_of_distinct {nodes : List (Location × Node)} (distinct : (nodes.map (·.1)).Nodup)
    {entry : Location × Node} (member : entry ∈ nodes) :
    nodes.find? (·.1 == entry.1) = some entry := by
  induction nodes with
  | nil => simp at member
  | cons first rest ih =>
    simp only [List.map_cons, List.nodup_cons, List.mem_map, not_exists, not_and] at distinct
    rcases List.mem_cons.1 member with rfl | later
    · simp
    · have differ : first.1 ≠ entry.1 := fun same => distinct.1 entry later same.symm
      simp [differ, ih distinct.2 later]

theorem mem_nodes_iff {d : Disk} {loc : Location} {node : Node} :
    (loc, node) ∈ d.nodes ↔ loc ≠ [] ∧ d.node? loc = some node := by
  cases loc with
  | nil =>
    refine iff_of_false (fun member => ?_) (fun h => h.1 rfl)
    exact d.housed _ member
  | cons name folder =>
    simp only [node?, Option.map_eq_some_iff, ne_eq, reduceCtorEq, not_false_eq_true, true_and]
    constructor
    · intro member
      exact ⟨_, find?_of_distinct d.distinct member, rfl⟩
    · rintro ⟨entry, found, rfl⟩
      have same : entry.1 = name :: folder := by simpa using List.find?_some found
      rw [← same]
      exact List.mem_of_find?_eq_some found

/-- Goes along moves. A last name with a separator behind it stands for a folder, and nothing is written there. -/
def follow (d : Disk) (aim : Aim) (jump : Location → Path → List Move → Except Refusal Spot) :
    Location → List Move → Except Refusal Spot
  | folder, [] => .ok (.taken folder .folder)
  | folder, .stay :: rest => follow d aim jump folder rest
  | folder, .slash :: rest => follow d aim jump folder rest
  | folder, .up :: rest => follow d aim jump folder.tail rest
  | folder, .down name :: rest =>
    if aim = .write ∧ rest = [.slash] then .error .isAFolder
    else
      match d.node? (name :: folder) with
      | none => if rest.isEmpty then .ok (.free (name :: folder)) else .error .noEntry
      | some (.entry .folder) => follow d aim jump (name :: folder) rest
      | some (.entry file) =>
        if rest.isEmpty then .ok (.taken (name :: folder) file) else .error .notAFolder
      | some (.link target) => jump folder target rest

def resolve (d : Disk) (aim : Aim) : Nat → Location → List Move → Except Refusal Spot
  | 0 => d.follow aim fun _ _ _ => .error .tooManyLinks
  | links + 1 =>
    d.follow aim fun folder target rest =>
      resolve d aim links (target.startFrom folder) (target.moves ++ rest)

def maxLinks : Nat := 40

def find (d : Disk) (aim : Aim) (p : Path) : Except Refusal Spot :=
  -- an empty path leads nowhere
  if p.bytes.isEmpty then .error .noEntry
  else d.resolve aim maxLinks (p.startFrom d.here) p.moves

def stat (d : Disk) (p : Path) : Except Refusal Entry :=
  match d.find .look p with
  | .ok (.taken _ entry) => .ok entry
  | .ok (.free _) => .error .noEntry
  | .error why => .error why

def present (d : Disk) (p : Path) : Bool := (d.stat p).isOk

def isFolder (d : Disk) (p : Path) : Bool :=
  match d.stat p with
  | .ok .folder => true
  | _ => false

def isFile (d : Disk) (p : Path) : Bool :=
  match d.stat p with
  | .ok (.file _ _) => true
  | _ => false

def list (d : Disk) (p : Path) : Except Refusal (List Name) :=
  match d.find .look p with
  | .ok (.taken loc .folder) => .ok (d.namesIn loc)
  | .ok (.taken _ (.file _ _)) => .error .notAFolder
  | .ok (.free _) => .error .noEntry
  | .error why => .error why

def readText (d : Disk) (p : Path) : Except Refusal String :=
  match d.stat p with
  | .ok (.file (some text) _) => .ok text
  | .ok (.file none _) => .error .notText
  | .ok .folder => .error .isAFolder
  | .error why => .error why

def height (d : Disk) : Nat := (d.nodes.map (·.1.length)).foldl max 0

/-- No lookup goes down more often: between two links it stays on one location. -/
def reach (d : Disk) : Nat := (maxLinks + 1) * (d.height + 1)

end Disk

end FrontendSurvey
