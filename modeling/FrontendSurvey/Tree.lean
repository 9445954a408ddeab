import FrontendSurvey.Json.Basic

set_option autoImplicit false

namespace FrontendSurvey

inductive TreeNode where
  | folder (path : String) (children : List TreeNode)
  | file (path : String) (modified : String)
  deriving Repr

namespace TreeNode

def path : TreeNode → String
  | folder path _ => path
  | file path _ => path

mutual

def count : TreeNode → Nat
  | folder _ children => countAll children + 1
  | file _ _ => 1

def countAll : List TreeNode → Nat
  | [] => 0
  | x :: xs => x.count + countAll xs

end

mutual

def files : TreeNode → List String
  | folder _ children => filesOfAll children
  | file path _ => [path]

def filesOfAll : List TreeNode → List String
  | [] => []
  | x :: xs => x.files ++ filesOfAll xs

end

mutual

def toJson : TreeNode → Json
  | folder path children => .obj [("folder", .str path), ("children", .arr (forestToJson children))]
  | file path modified => .obj [("file", .str path), ("mtimeIso", .str modified)]

def forestToJson : List TreeNode → List Json
  | [] => []
  | x :: xs => x.toJson :: forestToJson xs

end

def fileOfJson? (j : Json) : Option TreeNode := do
  let path ← j.required "file" Json.text?
  let modified ← j.required "mtimeIso" Json.text?
  some (file path modified)

mutual

def ofJson? : Json → Option TreeNode
  -- a value that is no folder is taken for a file
  | .obj fields =>
    match (Json.obj fields).required "folder" Json.text?, childrenFields fields with
    | some path, [some children] => some (folder path children)
    | _, _ => fileOfJson? (.obj fields)
  | _ => none

def childrenFields : List (String × Json) → List (Option (List TreeNode))
  | [] => []
  | (key, value) :: rest =>
    if key = "children" then forestOfJson? value :: childrenFields rest else childrenFields rest

def forestOfJson? : Json → Option (List TreeNode)
  | .arr items => nodesOfJson? items
  | _ => none

def nodesOfJson? : List Json → Option (List TreeNode)
  | [] => some []
  | x :: xs =>
    match ofJson? x, nodesOfJson? xs with
    | some node, some nodes => some (node :: nodes)
    | _, _ => none

end

end TreeNode

end FrontendSurvey
