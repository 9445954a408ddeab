import FrontendSurvey.Tree
import FrontendSurvey.Path

set_option autoImplicit false

namespace FrontendSurvey.TreeNode

def bar : String := "│   "

def branch (last : Bool) : String := if last then "└── " else "├── "

def baseName (path : String) : String := ((Path.mk path).fileName?.map (·.text)).getD path

def indent (depth : Nat) : String := String.join (List.replicate depth bar)

mutual

def viewLines (depth : Nat) (last : Bool) : TreeNode → List String
  | folder path children =>
    (indent depth ++ branch last ++ baseName path ++ "/") :: forestLines (depth + 1) children
  | file path _ => [indent depth ++ branch last ++ baseName path]

def forestLines (depth : Nat) : List TreeNode → List String
  | [] => []
  | x :: xs => viewLines depth xs.isEmpty x ++ forestLines depth xs

end

def view (label : String) (forest : List TreeNode) : List String :=
  ("📁 " ++ label ++ "/") :: forestLines 0 forest

end FrontendSurvey.TreeNode
