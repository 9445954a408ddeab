import FrontendSurvey.Fault
import FrontendSurvey.Tree

set_option autoImplicit false

namespace FrontendSurvey

structure Walked where
  tree : List TreeNode
  components : List Path
  code : List Path
  deriving Repr

namespace Walked

def endsIn (name : Name) (ending : String) : Bool := ending.toList.isSuffixOf name.text.toList

def isComponent (name : Name) : Bool := endsIn name ".vue"

def isCode (name : Name) : Bool := [".js", ".mjs", ".ts", ".tsx", ".vue"].any (endsIn name)

def join (parts : List Walked) : Walked where
  tree := parts.flatMap (·.tree)
  components := parts.flatMap (·.components)
  code := parts.flatMap (·.code)

def ofFile (root path : Path) (name : Name) (modified : Instant) : Walked where
  tree := [.file (path.relativeTo root) modified.iso]
  components := if isComponent name then [path] else []
  code := if isCode name then [path] else []

def under (w : Walked) (folder : String) : Walked :=
  { w with tree := [.folder folder w.tree] }

end Walked

namespace Disk

def walkNames (d : Disk) (skipped : List String) (folder : Path) :
    Except Refusal (List Name) :=
  (d.list folder).map fun names =>
    (names.filter (!skipped.contains ·.text)).mergeSort fun a b => a.bytes ≤ b.bytes

def visit (d : Disk) (root : Path) (below : Path → Except Fault Walked) (folder : Path)
    (name : Name) : Except Fault Walked :=
  let path := folder / name
  match d.stat path with
  | .error why => .error (.refused path why)
  | .ok .folder => (below path).map (·.under (path.relativeTo root))
  | .ok (.file _ modified) => .ok (.ofFile root path name modified)

/-- The walk, to a depth at which every path has too many links. -/
def walkTo (d : Disk) (root : Path) (skipped : List String) : Nat → Path → Except Fault Walked
  | 0, folder => .error (.refused folder .tooManyLinks)
  | depth + 1, folder => do
    let names ← (d.walkNames skipped folder).mapError (.refused folder)
    let parts ← names.mapM (d.visit root (walkTo d root skipped depth) folder)
    return .join parts

def walk (d : Disk) (root : Path) (skipped : List String) (folder : Path) :
    Except Fault Walked :=
  d.walkTo root skipped d.reach folder

end Disk

end FrontendSurvey
