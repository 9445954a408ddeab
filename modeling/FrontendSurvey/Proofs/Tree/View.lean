import FrontendSurvey.Proofs.Path.Names
import FrontendSurvey.Proofs.Tree.Walk
import FrontendSurvey.Report
import FrontendSurvey.Tree.View
import Mathlib

set_option autoImplicit false

namespace FrontendSurvey

inductive Shape where
  | folder (name : String) (inner : List Shape)
  | file (name : String)

structure Row where
  depth : Nat
  last : Bool
  folder : Bool
  name : String

def Row.line (row : Row) : String :=
  TreeNode.indent row.depth ++ TreeNode.branch row.last ++ row.name ++ if row.folder then "/" else ""

namespace TreeNode

mutual

def shape : TreeNode → Shape
  | folder path children => .folder (baseName path) (shapes children)
  | file path _ => .file (baseName path)

def shapes : List TreeNode → List Shape
  | [] => []
  | node :: rest => node.shape :: shapes rest

end

mutual

def rows (depth : Nat) (last : Bool) : TreeNode → List Row
  | folder path children => ⟨depth, last, true, baseName path⟩ :: rowsOfAll (depth + 1) children
  | file path _ => [⟨depth, last, false, baseName path⟩]

def rowsOfAll (depth : Nat) : List TreeNode → List Row
  | [] => []
  | node :: rest => node.rows depth rest.isEmpty ++ rowsOfAll depth rest

end

mutual

theorem viewLines_eq (depth : Nat) (last : Bool) : (node : TreeNode) →
    viewLines depth last node = (node.rows depth last).map Row.line
  | folder path children => by
    rw [viewLines, rows, List.map_cons, forestLines_eq (depth + 1) children]
    rfl
  | file path _ => by simp [viewLines, rows, Row.line]

theorem forestLines_eq (depth : Nat) : (forest : List TreeNode) →
    forestLines depth forest = (rowsOfAll depth forest).map Row.line
  | [] => rfl
  | node :: rest => by
    rw [forestLines, rowsOfAll, List.map_append, viewLines_eq depth rest.isEmpty node,
      forestLines_eq depth rest]

end

theorem countAll_eq (forest : List TreeNode) : countAll forest = (forest.map count).sum := by
  induction forest with
  | nil => rfl
  | cons node rest ih => rw [countAll, List.map_cons, List.sum_cons, ih]

mutual

theorem length_rows (depth : Nat) (last : Bool) : (node : TreeNode) →
    (node.rows depth last).length = node.count
  | folder path children => by
    rw [rows, List.length_cons, length_rowsOfAll (depth + 1) children, count, countAll_eq]
  | file path _ => rfl

theorem length_rowsOfAll (depth : Nat) : (forest : List TreeNode) →
    (rowsOfAll depth forest).length = (forest.map count).sum
  | [] => rfl
  | node :: rest => by
    rw [rowsOfAll, List.length_append, length_rows depth rest.isEmpty node,
      length_rowsOfAll depth rest, List.map_cons, List.sum_cons]

end

mutual

theorem name_of_mem_rows {depth : Nat} {last : Bool} {row : Row} : (node : TreeNode) →
    row ∈ node.rows depth last → ∃ path ∈ node.paths, row.name = baseName path
  | folder path children, member => by
    rw [rows, List.mem_cons] at member
    rcases member with rfl | below
    · exact ⟨path, by simp [paths], rfl⟩
    · obtain ⟨inner, among, name⟩ := name_of_mem_rowsOfAll children below
      exact ⟨inner, by simp [paths, among], name⟩
  | file path _, member => by
    rw [rows, List.mem_singleton] at member
    exact ⟨path, by simp [paths], by rw [member]⟩

theorem name_of_mem_rowsOfAll {depth : Nat} {row : Row} : (forest : List TreeNode) →
    row ∈ rowsOfAll depth forest → ∃ path ∈ pathsOfAll forest, row.name = baseName path
  | [], member => by cases member
  | node :: rest, member => by
    rw [rowsOfAll, List.mem_append] at member
    rcases member with first | later
    · obtain ⟨path, among, name⟩ := name_of_mem_rows node first
      exact ⟨path, by simp [pathsOfAll, among], name⟩
    · obtain ⟨path, among, name⟩ := name_of_mem_rowsOfAll rest later
      exact ⟨path, by simp [pathsOfAll, among], name⟩

end

theorem rows_eq_cons (depth : Nat) (last : Bool) (node : TreeNode) :
    ∃ row below, node.rows depth last = row :: below ∧ row.depth = depth := by
  cases node with
  | folder path children => exact ⟨_, _, rfl, rfl⟩
  | file path modified => exact ⟨_, _, rfl, rfl⟩

def Ends (depth : Nat) (rest : List Row) : Prop := ∀ row ∈ rest.head?, row.depth < depth

theorem not_ends_rows {depth : Nat} (node : TreeNode) (forest : List TreeNode) (rest : List Row) :
    ¬ Ends depth (rowsOfAll depth (node :: forest) ++ rest) := by
  obtain ⟨row, below, first, deep⟩ := rows_eq_cons depth forest.isEmpty node
  intro ended
  have less := ended row (by simp [rowsOfAll, first])
  omega

theorem ends_rowsOfAll {depth : Nat} {rest : List Row} (ended : Ends depth rest)
    (forest : List TreeNode) : Ends (depth + 1) (rowsOfAll depth forest ++ rest) := by
  intro row start
  cases forest with
  | nil => exact Nat.lt_succ_of_lt (ended row start)
  | cons node others =>
    obtain ⟨row', below, first, deep⟩ := rows_eq_cons depth others.isEmpty node
    obtain rfl : row' = row := by simpa [rowsOfAll, first] using start
    omega

mutual

-- What stands behind the rows of a node is not below it, so the rows of its children are told apart.
theorem shape_of_rows {depth : Nat} {last last' : Bool} {rest rest' : List Row}
    (ended : Ends (depth + 1) rest) (ended' : Ends (depth + 1) rest') : (node other : TreeNode) →
    node.rows depth last ++ rest = other.rows depth last' ++ rest' →
      node.shape = other.shape ∧ rest = rest'
  | folder path children, folder path' children', same => by
    rw [rows, rows, List.cons_append, List.cons_append, List.cons.injEq, Row.mk.injEq] at same
    obtain ⟨⟨-, -, -, name⟩, below⟩ := same
    obtain ⟨inner, rest⟩ := shapes_of_rows ended ended' children children' below
    exact ⟨by rw [shape, shape, name, inner], rest⟩
  | file path _, file path' _, same => by
    rw [rows, rows, List.cons_append, List.cons_append, List.cons.injEq, Row.mk.injEq] at same
    obtain ⟨⟨-, -, -, name⟩, rest⟩ := same
    exact ⟨by rw [shape, shape, name], rest⟩
  | folder path children, file path' _, same => by simp [rows] at same
  | file path _, folder path' children', same => by simp [rows] at same

theorem shapes_of_rows {depth : Nat} {rest rest' : List Row} (ended : Ends depth rest)
    (ended' : Ends depth rest') : (forest others : List TreeNode) →
    rowsOfAll depth forest ++ rest = rowsOfAll depth others ++ rest' →
      shapes forest = shapes others ∧ rest = rest'
  | [], [], same => ⟨rfl, same⟩
  | node :: forest, other :: others, same => by
    rw [rowsOfAll, rowsOfAll, List.append_assoc, List.append_assoc] at same
    obtain ⟨first, later⟩ := shape_of_rows (ends_rowsOfAll ended forest)
      (ends_rowsOfAll ended' others) node other same
    obtain ⟨shapes', rest⟩ := shapes_of_rows ended ended' forest others later
    exact ⟨by rw [shapes, shapes, first, shapes'], rest⟩
  | [], other :: others, same => by
    rw [rowsOfAll, List.nil_append] at same
    exact absurd (same ▸ ended) (not_ends_rows other others rest')
  | node :: forest, [], same => by
    rw [rowsOfAll.eq_1, List.nil_append] at same
    exact absurd (same ▸ ended') (not_ends_rows node forest rest)

end

end TreeNode

namespace Row

end Row

namespace TreeNode

structure Drawable (label : String) (forest : List TreeNode) : Prop where
  label : '\n' ∉ label.toList
  names : ∀ path ∈ pathsOfAll forest,
    ∃ name, (Path.mk path).fileName? = some name ∧ '\n' ∉ name.text.toList

variable {label label' : String} {forest others : List TreeNode}

theorem Drawable.rows (drawable : Drawable label forest) {depth : Nat} {row : Row}
    (member : row ∈ rowsOfAll depth forest) : '/' ∉ row.name.toList ∧ '\n' ∉ row.name.toList := by
  obtain ⟨path, among, name⟩ := name_of_mem_rowsOfAll forest member
  obtain ⟨base, named, clean⟩ := drawable.names path among
  rw [name, baseName, named]
  exact ⟨Raw.slash_not_mem_text (Path.fileName?_clean named), clean⟩

end TreeNode

end FrontendSurvey
