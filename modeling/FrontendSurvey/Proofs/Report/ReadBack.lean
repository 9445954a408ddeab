import FrontendSurvey.Proofs.Json.ReadWritten
import FrontendSurvey.Proofs.Report.Records

set_option autoImplicit false

namespace FrontendSurvey

namespace TreeNode

theorem only?_nil {α : Type} (read : Json → Option α) : Json.only? read [] = none := by
  rw [Json.only?]
  simp

mutual

theorem ofJson?_toJson : (node : TreeNode) → ofJson? node.toJson = some node
  -- a file is no folder, since it has no field of that name
  | folder path children => by
    have below := nodesOfJson?_forestToJson children
    have fields : childrenFields
        [("folder", .str path), ("children", .arr (forestToJson children))] = [some children] := by
      simp [childrenFields, forestOfJson?, below]
    simp [toJson, ofJson?, Json.required, fields]
  | file path modified => by
    simp [toJson, ofJson?, fileOfJson?, Json.required, only?_nil]

theorem nodesOfJson?_forestToJson :
    (forest : List TreeNode) → nodesOfJson? (forestToJson forest) = some forest
  | [] => by simp [forestToJson, nodesOfJson?]
  | node :: rest => by
    have first := ofJson?_toJson node
    have others := nodesOfJson?_forestToJson rest
    simp [forestToJson, nodesOfJson?, first, others]

end

mutual

theorem exact_toJson : (node : TreeNode) → node.toJson.Exact
  | folder path children => by
    have below := exact_forestToJson children
    simp [toJson, Json.Exact, Json.ExactFields, below]
  | file path modified => by simp [toJson, Json.Exact, Json.ExactFields]

theorem exact_forestToJson : (forest : List TreeNode) → Json.ExactItems (forestToJson forest)
  | [] => by simp [forestToJson, Json.ExactItems]
  | node :: rest => by
    have first := exact_toJson node
    have others := exact_forestToJson rest
    simp [forestToJson, Json.ExactItems, first, others]

end

end TreeNode

structure Structure.Fits (s : Structure) : Prop where
  scan : Json.FitsWord s.scan.millis

theorem Structure.ofJson?_toJson {s : Structure} (fits : s.Fits) : ofJson? s.toJson = some s := by
  have scan := (ScanWindow.readsBack fits.scan 0).read
  have tree : TreeNode.forestOfJson? (.arr (TreeNode.forestToJson s.tree)) = some s.tree := by
    rw [TreeNode.forestOfJson?, TreeNode.nodesOfJson?_forestToJson]
  simp [toJson, ofJson?, Json.required, scan, tree]

theorem Structure.exact_toJson {s : Structure} (fits : s.Fits) : s.toJson.Exact := by
  have scan := (ScanWindow.readsBack fits.scan 0).within.exact
  have tree := TreeNode.exact_forestToJson s.tree
  simp [toJson, Json.Exact, Json.ExactFields, scan, tree]

theorem snapshots_read_back :
    (∀ r : Report, r.Fits → Report.ofText? r.text = some r) ∧
      ∀ s : Structure, s.Fits →
        Structure.ofText? s.text = if s.toJson.nesting < 128 then some s else none := by
  constructor
  · intro r fits
    have back := Report.readsBack fits 0
    have shallow : r.toJson.nesting < 128 := Nat.lt_of_le_of_lt back.within.nested (by decide)
    rw [Report.ofText?, Report.text, Json.parse?_pretty back.within.exact, if_pos shallow,
      Option.bind_some, back.read]
  · intro s fits
    rw [Structure.ofText?, Structure.text, Json.parse?_pretty (Structure.exact_toJson fits)]
    by_cases shallow : s.toJson.nesting < 128
    next => rw [if_pos shallow, if_pos shallow, Option.bind_some, Structure.ofJson?_toJson fits]
    next => rw [if_neg shallow, if_neg shallow, Option.bind_none]

def Report.sparse : Report where
  -- An empty list of types and no other setting, no brain file, and a counter that is as large as can be.
  summary :=
    { componentsScanned := 0, filesScanned := 1, envKeys := ["A\"B"]
      tsconfigs := [⟨"tsconfig.json", none, none, none, none, none, none, none, none, none, some []⟩]
      types := { TypeSignals.zero with any := 2 ^ 64 - 1 }, perf := .none, typing := ⟨0, 0, 0⟩
      framework := .ofFindings none [], score := 100, suggestions := [], brain := none }
  components := []
  code := [⟨"src/a.ts", [], 0, false, .zero, .none⟩]
  scan := ⟨"", "\n", 250⟩

theorem Report.sparse_fits : sparse.Fits where
  summary :=
    { componentsScanned := by decide, filesScanned := by decide
      types := by constructor <;> decide
      typing := by constructor <;> decide
      score := by decide
      brain := fun b absent => by cases absent }
  code := fun c member => by
    obtain rfl := List.mem_singleton.mp member
    exact ⟨by decide, by constructor <;> decide⟩
  scan := by decide

def Structure.small : Structure where
  scan := ⟨"", "", 0⟩
  tree := [.folder "src" [.folder "src/a" [], .file "src/b.ts" ""]]
  view := "📁 src/"

theorem snapshots_read_back_small :
    Report.ofText? Report.sparse.text = some Report.sparse ∧
      Structure.ofText? Structure.small.text = some Structure.small :=
  ⟨snapshots_read_back.1 Report.sparse Report.sparse_fits,
    (snapshots_read_back.2 Structure.small ⟨by decide⟩).trans (if_pos (by decide))⟩

end FrontendSurvey
