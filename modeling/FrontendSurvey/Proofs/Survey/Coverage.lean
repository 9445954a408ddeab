import FrontendSurvey.Proofs.Disk.Steps
import FrontendSurvey.Proofs.Path.Names
import FrontendSurvey.Proofs.Survey.Failure
import FrontendSurvey.Proofs.Tree.Unfolding

set_option autoImplicit false

namespace FrontendSurvey

def TreeNode.nameEndsIn (endings : List String) (path : String) : Bool :=
  endings.any fun ending => ending.toList.isSuffixOf (baseName path).toList

theorem TreeNode.nameEndsIn_mono {few many : List String} {path : String} (among : few ⊆ many)
    (ends : nameEndsIn few path = true) : nameEndsIn many path = true := by
  obtain ⟨ending, member, here⟩ := List.any_eq_true.1 ends
  exact List.any_eq_true.2 ⟨ending, among member, here⟩

open TreeNode in
structure Report.Covers (r : Report) (tree : List TreeNode) : Prop where
  code : r.code.map (·.file) =
    (filesOfAll tree).filter (nameEndsIn [".js", ".mjs", ".ts", ".tsx", ".vue"])
  components : r.components.map (·.file) = (filesOfAll tree).filter (nameEndsIn [".vue"])
  among : (r.components.map (·.file)).Sublist (r.code.map (·.file))
  imports : r.components.map (fun c => (c.file, c.imports)) =
    (r.code.filter fun c => nameEndsIn [".vue"] c.file).map fun c => (c.file, c.imports)

namespace Survey

open Disk

variable {d : Disk} {s : Settings} {scan : ScanWindow} {a : Analysis}

-- A file has other steps than a folder that can be listed, such as the root.
theorem baseName_of_met {root : Path} {loc : Location} {file : Path × Name}
    (folder : d.find .look root = .ok (.taken loc .folder)) (met : d.Met file) :
    TreeNode.baseName (file.1.relativeTo root) = file.2.text := by
  obtain ⟨above, text, modified, path, there⟩ := met
  obtain ⟨place, found⟩ := stat_iff.1 there
  have other : file.1.steps ≠ root.steps := by
    intro same
    cases find_of_steps same found folder
  have named : file.1.fileName? = some file.2.toRaw := by
    rw [Path.fileName?_eq_some_iff, path, Path.steps_child]
    simp
  rw [TreeNode.baseName, Path.relativeTo, Path.fileName?_mk_text (Path.fileName?_stripped named other)]
  exact Raw.text_shown file.2.toRaw

def sourceImports (d : Disk) (path : Path) : List String :=
  match d.need path with
  | .ok text => Source.importFrom.extract text
  | .error _ => []

def shared (d : Disk) (s : Settings) (path : Path) : String × List String :=
  (s.relative path, sourceImports d path)

theorem shared_of_read {β : Type} {path : Path} {make : String → β} {record : β}
    {k : β → String × List String}
    (keyed : ∀ text, k (make text) = (s.relative path, Source.importFrom.extract text))
    (read : (d.need path).map make = .ok record) : k record = shared d s path := by
  cases text : d.need path with
  | error fault => simp [text, Except.map] at read
  | ok text' =>
    rw [text] at read
    obtain rfl := Except.ok.inj read
    simp [keyed, shared, sourceImports, text]

theorem shared_of_code {path : Path} {c : Code} (read : Code.read d s path = .ok c) :
    (c.file, c.imports) = shared d s path :=
  shared_of_read (k := fun c => (c.file, c.imports)) (fun _ => rfl) read

theorem shared_of_component {path : Path} {c : Component}
    (read : Component.read d s path = .ok c) : (c.file, c.imports) = shared d s path :=
  shared_of_read (k := fun c => (c.file, c.imports)) (fun _ => rfl) read

theorem filter_shared {loc : Location} {files : List (Path × Name)}
    (folder : d.find .look s.root = .ok (.taken loc .folder)) (met : ∀ file ∈ files, d.Met file)
    (endings : List String) :
    (files.map (shared d s ·.1)).filter (fun record => TreeNode.nameEndsIn endings record.1) =
      (files.filter fun file => endings.any (Walked.endsIn file.2)).map (shared d s ·.1) := by
  have ends : ∀ file ∈ files, TreeNode.nameEndsIn endings (s.relative file.1) =
      endings.any (Walked.endsIn file.2) := by
    intro file member
    have named : TreeNode.baseName (s.relative file.1) = file.2.text :=
      baseName_of_met folder (met file member)
    rw [TreeNode.nameEndsIn, named]
    rfl
  rw [← List.filter_congr ends, List.filter_map]
  rfl

theorem records_of_analyze (analyzed : analyze d s scan = .ok a) :
    ∃ records : List (String × List String),
      TreeNode.filesOfAll a.structureReport.tree = records.map (·.1) ∧
      a.report.code.map (fun c => (c.file, c.imports)) =
        records.filter (TreeNode.nameEndsIn [".js", ".mjs", ".ts", ".tsx", ".vue"] ·.1) ∧
      a.report.components.map (fun c => (c.file, c.imports)) =
        records.filter (TreeNode.nameEndsIn [".vue"] ·.1) := by
  obtain ⟨r⟩ := reading_of_analyze analyzed
  obtain ⟨loc, folder⟩ := r.root
  obtain ⟨entries, walked, met⟩ := unfolds_of_walkTo r.walk
  refine ⟨(Outline.filesOfAll s.source entries).map (shared d s ·.1), ?_, ?_, ?_⟩
  · rw [r.result, walked, List.map_map]
    exact Outline.filesOfAll_nodes s.root s.source entries
  · rw [filter_shared folder met, r.result, map_of_mapM (fun _ _ => shared_of_code) r.readCode,
      walked, Outline.walked, List.map_map]
    rfl
  · rw [filter_shared folder met, r.result,
      map_of_mapM (fun _ _ => shared_of_component) r.readComponents, walked, Outline.walked,
      List.map_map]
    simp [Walked.isComponent, Function.comp_def]

theorem report_covers (analyzed : analyze d s scan = .ok a) :
    a.report.Covers a.structureReport.tree := by
  obtain ⟨records, tree, code, components⟩ := records_of_analyze analyzed
  have within : a.report.components.map (fun c => (c.file, c.imports)) =
      (a.report.code.map fun c => (c.file, c.imports)).filter
        (TreeNode.nameEndsIn [".vue"] ·.1) := by
    rw [code, components, List.filter_filter]
    apply List.filter_congr
    intro record _
    cases vue : TreeNode.nameEndsIn [".vue"] record.1 with
    | false => rfl
    | true =>
      rw [Bool.true_and]
      exact (TreeNode.nameEndsIn_mono
        (List.subset_append_right [".js", ".mjs", ".ts", ".tsx"] _) vue).symm
  have imports : a.report.components.map (fun c => (c.file, c.imports)) =
      (a.report.code.filter fun c => TreeNode.nameEndsIn [".vue"] c.file).map
        fun c => (c.file, c.imports) := by
    rw [within, List.filter_map, Function.comp_def]
  have codeFiles := congrArg (List.map Prod.fst) code
  have componentFiles := congrArg (List.map Prod.fst) components
  have among := congrArg (List.map Prod.fst) imports
  simp only [List.map_map, Function.comp_def] at codeFiles componentFiles among
  constructor
  case code => rw [codeFiles, tree, List.filter_map, Function.comp_def]
  case components => rw [componentFiles, tree, List.filter_map, Function.comp_def]
  case among =>
    rw [among]
    exact List.filter_sublist.map _
  case imports => exact imports

-- A component that is a link out of the source folder, and a script beside it.
def linked : Disk where
  here := []
  nodes := [([sourceName], .folder),
    ([⟨"kept", by decide⟩], .entry (.file (some "<VBtn >\nimport x from 'x'") .start2025)),
    ([⟨"a.vue", by decide⟩, sourceName], .link ⟨"../kept"⟩),
    ([⟨"b.ts", by decide⟩, sourceName], .entry (.file (some "x as any") .start2025))]
  distinct := by decide
  housed := by simp [Housed, Node.folder]
  settled := Or.inl rfl

theorem analyze_linked (scan : ScanWindow) : ∃ a, analyze linked flat scan = .ok a := by
  obtain ⟨source, -, brain, -⟩ := flat_paths
  have folder : linked.isFolder ⟨"./s"⟩ = true := by decide +kernel
  have inside : linked.list ⟨"./s"⟩ = .ok [⟨"a.vue", by decide⟩, ⟨"b.ts", by decide⟩] := rfl
  have beside : linked.list ⟨"."⟩ = .ok [⟨"s", by decide⟩, ⟨"kept", by decide⟩] := rfl
  have absent : linked.present ⟨"./ADD/brain.ts"⟩ = false := by decide +kernel
  have component : linked.stat ⟨"./s/a.vue"⟩ =
      .ok (.file (some "<VBtn >\nimport x from 'x'") .start2025) := by decide +kernel
  have script : linked.stat ⟨"./s/b.ts"⟩ = .ok (.file (some "x as any") .start2025) := by
    decide +kernel
  have first : (⟨"./s"⟩ : Path) / (⟨"a.vue", by decide⟩ : Name) = ⟨"./s/a.vue"⟩ := by decide +kernel
  have second : (⟨"./s"⟩ : Path) / (⟨"b.ts", by decide⟩ : Name) = ⟨"./s/b.ts"⟩ := by decide +kernel
  obtain ⟨tree, walked⟩ : ∃ tree, linked.walk flat.root flat.skipped ⟨"./s"⟩ =
      .ok ⟨tree, [⟨"./s/a.vue"⟩], [⟨"./s/a.vue"⟩, ⟨"./s/b.ts"⟩]⟩ := by
    have kinds : Walked.isComponent ⟨"a.vue", by decide⟩ = true ∧
        Walked.isComponent ⟨"b.ts", by decide⟩ = false ∧
        Walked.isCode ⟨"a.vue", by decide⟩ = true ∧ Walked.isCode ⟨"b.ts", by decide⟩ = true := by
      decide +kernel
    have walked := walk_of_files flat.root flat.skipped (fun _ => .start2025) inside (by decide +kernel)
      (by decide +kernel) (by simp [first, second, component, script])
    rw [walked]
    simp [first, second, kinds, Walked.join, Walked.ofFile]
  have keys : Env.keys linked flat.root = .ok [] := keys_of_none beside (by decide +kernel)
  simp [analyze, source, brain, folder, walked, keys, Brain.read, absent, Component.read, Code.read,
    need, readText, component, script, Except.map, Except.mapError, bind, Except.bind, pure,
    Except.pure]

theorem report_covers_linked :
    ∃ a, analyze linked flat ⟨"", "", 0⟩ = .ok a ∧ a.report.Covers a.structureReport.tree := by
  obtain ⟨a, analyzed⟩ := analyze_linked ⟨"", "", 0⟩
  exact ⟨a, analyzed, report_covers analyzed⟩

end Survey

end FrontendSurvey
