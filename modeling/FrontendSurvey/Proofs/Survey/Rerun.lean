import FrontendSurvey.Proofs.Settings.Built
import FrontendSurvey.Proofs.Survey.Unseen

set_option autoImplicit false

namespace FrontendSurvey

namespace Survey

open Disk

variable {d e : Disk} {p : Path} {folder loc : Location} {s : Settings} {now : Instant} {a : Analysis}

theorem reported_of_save {after : Disk} (plain : d.LinkFree) (straight : Path.Step.up ∉ s.memory.steps)
    (saved : save d s now a = (after, none)) :
    Reported d after (d.locate s.memory) ∧ after.folderAt? s.memory = some (d.locate s.memory) ∧
      ∀ file ∈ files a, after.node? (file.1 :: d.locate s.memory) =
        some (.entry (.file (some file.2) now)) := by
  have saves := saves_of_save plain saved
  refine ⟨⟨saves.here, fun loc => ?_⟩, saves.memory, fun file member => (saves.written file member).2⟩
  by_cases report : ∃ file ∈ files a, loc = file.1 :: d.locate s.memory
  next =>
    obtain ⟨file, member, rfl⟩ := report
    obtain ⟨free, written⟩ := saves.written file member
    exact Or.inr (Or.inr ⟨⟨file.1, mem_reportNames member, rfl⟩, free, _, _, written⟩)
  next =>
    rcases saves.others loc fun file member same => report ⟨file, member, same⟩ with
      same | ⟨leading, made⟩
    · exact Or.inl same
    · exact Or.inr (Or.inl ⟨leading.suffix straight, made⟩)

end Survey

def Outcome.withScan (o : Outcome) (scan : ScanWindow) : Outcome :=
  { o with
    report := { o.report with scan := scan }
    structureReport := { o.structureReport with scan := scan } }

namespace Survey

open Disk

variable {d : Disk} {p : Path} {folder : Location} {s : Settings} {now : Instant} {a : Analysis}

theorem save_again (plain : d.LinkFree) (reached : d.folderAt? s.memory = some folder)
    (there : ∀ file ∈ files a, d.node? (file.1 :: folder) = some (.entry (.file (some file.2) now)))
    (b : Analysis) (later : Instant) : ∃ after, save d s later b = (after, none) := by
  have free : ∀ name ∈ reportNames, d.node? (name :: folder) ≠ some .folder := by
    intro name member
    rw [← files_names a] at member
    obtain ⟨file, among, rfl⟩ := List.mem_map.1 member
    simp [there file among, Node.folder]
  obtain ⟨after, written⟩ := writeAll_reports later b plain reached free
  exact ⟨after, save_eq_ok_iff.2 ⟨d, makeFolders_of_folderAt? plain reached, written⟩⟩

theorem rerun_stable {d after : Disk} {s : Settings} {scan : ScanWindow} {now : Instant} {o : Outcome}
    (plain : d.LinkFree) (built : s.Built) (memoryStraight : Path.Step.up ∉ s.memory.steps)
    (brainStraight : Path.Step.up ∉ s.brain.steps)
    (outside : ¬ d.locate s.source <:+ d.locate s.memory)
    (off : ¬ d.locate s.brain <:+ d.locate s.memory)
    (other : ∀ report ∈ [s.reportFile, s.structureFile, s.viewFile],
      d.locate s.brain ≠ d.locate report)
    (first : run d s scan now = (after, .ok o)) (later : ScanWindow) (soon : Instant) :
    ∃ last, run after s later soon = (last, .ok (o.withScan later)) ∧ o.OnDisk after ∧
      (o.withScan later).OnDisk last ∧ last.readText s.viewFile = after.readText s.viewFile := by
  obtain ⟨a, analyzed, saved, rfl⟩ := run_eq_ok_iff.1 first
  obtain ⟨reported, reached, there⟩ := reported_of_save plain memoryStraight saved
  have apart : ∀ name ∈ reportNames, d.locate s.brain ≠ name :: d.locate s.memory := by
    intro name member
    rw [← locate_child]
    apply other
    rw [report_paths]
    exact List.mem_map.2 ⟨name, member, rfl⟩
  have again : analyze after s later = .ok (a.withScan later) :=
    analyze_withScan (reported.analyze plain built.regular.tsconfigs built.regular.plugins outside
      brainStraight off apart analyzed) later
  have plain' := reported.linkFree plain
  obtain ⟨last, saved'⟩ := save_again plain' reached there (a.withScan later) soon
  obtain ⟨reported', reached', there'⟩ := reported_of_save plain' memoryStraight saved'
  have before := onDisk_of_files plain' reached there
  have behind := onDisk_of_files (reported'.linkFree plain') reached' there'
  exact ⟨last, run_eq_ok_iff.2 ⟨_, again, saved', rfl⟩, before, behind,
    behind.view.trans before.view.symm⟩

-- A script, an environment file, and a report that an earlier survey has left.
def revisited : Disk where
  here := []
  nodes := [([⟨"src", by decide⟩], .folder),
    ([⟨"app.ts", by decide⟩, ⟨"src", by decide⟩], .entry (.file (some "x as any") .start2025)),
    ([Env.envName], .entry (.file (some "A=1") .start2025)), ([⟨"ADD", by decide⟩], .folder),
    ([⟨"memory", by decide⟩, ⟨"ADD", by decide⟩], .folder),
    ([reportName, ⟨"memory", by decide⟩, ⟨"ADD", by decide⟩], .entry (.file (some "{}") .start2025))]
  distinct := by decide
  housed := by simp [Housed, Node.folder]
  settled := Or.inl rfl

def byDefault : Settings := .forRoot ⟨"."⟩

theorem byDefault_paths : byDefault.source = ⟨"./src"⟩ ∧ byDefault.memory = ⟨"./ADD/memory"⟩ ∧
    byDefault.brain = ⟨"./ADD/brain.ts"⟩ := by
  decide +kernel

theorem revisited_linkFree : revisited.LinkFree := linkFree_iff.2 (by simp [revisited, Node.folder])

theorem revisited_places : revisited.locate ⟨"./src"⟩ = [⟨"src", by decide⟩] ∧
    revisited.locate ⟨"./ADD/memory"⟩ = [⟨"memory", by decide⟩, ⟨"ADD", by decide⟩] ∧
      revisited.locate ⟨"./ADD/brain.ts"⟩ = [⟨"brain.ts", by decide⟩, ⟨"ADD", by decide⟩] := by
  decide +kernel

theorem keys_revisited : Env.keys revisited ⟨"."⟩ = .ok ["A"] := by
  have beside : revisited.list ⟨"."⟩ = .ok [⟨"src", by decide⟩, Env.envName, ⟨"ADD", by decide⟩] := rfl
  have named : Env.isEnvName Env.envName = true ∧ Env.isEnvName ⟨"src", by decide⟩ = false ∧
      Env.isEnvName ⟨"ADD", by decide⟩ = false := by
    decide +kernel
  have file : revisited.isFile (Path.mk "." / Env.envName) = true := by decide +kernel
  have text : revisited.readText (Path.mk "." / Env.envName) = .ok "A=1" := by decide +kernel
  have keys : Env.keysIn "A=1" = ["A"] := by decide +kernel
  have once : ["A"].eraseDups = ["A"] := by decide
  simp [Env.keys, Env.files, beside, named, file, need, text, keys, once, Except.map, Except.mapError, bind, Except.bind,
    pure, Except.pure]

theorem walk_revisited : ∃ tree, revisited.walk ⟨"."⟩ byDefault.skipped ⟨"./src"⟩ =
    .ok ⟨tree, [], [⟨"./src/app.ts"⟩]⟩ := by
  have inside : revisited.list ⟨"./src"⟩ = .ok [⟨"app.ts", by decide⟩] := rfl
  have child : (⟨"./src"⟩ : Path) / (⟨"app.ts", by decide⟩ : Name) = ⟨"./src/app.ts"⟩ := by decide +kernel
  have script : revisited.stat ⟨"./src/app.ts"⟩ = .ok (.file (some "x as any") .start2025) := by decide +kernel
  have kinds : Walked.isComponent ⟨"app.ts", by decide⟩ = false ∧ Walked.isCode ⟨"app.ts", by decide⟩ = true := by
    decide +kernel
  have walked := walk_of_files ⟨"."⟩ byDefault.skipped (fun _ => .start2025) inside (by decide +kernel)
    (List.pairwise_singleton _ _) (by simp [child, script])
  rw [walked]
  simp [child, kinds, Walked.join, Walked.ofFile]

theorem analyze_revisited (scan : ScanWindow) : ∃ a, analyze revisited byDefault scan = .ok a := by
  obtain ⟨source, -, brain⟩ := byDefault_paths
  obtain ⟨tree, walked⟩ := walk_revisited
  have root : byDefault.root = ⟨"."⟩ := rfl
  have folder : revisited.isFolder ⟨"./src"⟩ = true := by decide +kernel
  have absent : revisited.present ⟨"./ADD/brain.ts"⟩ = false := by decide +kernel
  have text : revisited.readText ⟨"./src/app.ts"⟩ = .ok "x as any" := by decide +kernel
  simp [analyze, source, root, brain, folder, walked, keys_revisited, Brain.read, absent, Code.read, need, text,
    Except.map, Except.mapError, bind, Except.bind, pure, Except.pure]

theorem save_revisited (now : Instant) (a : Analysis) :
    ∃ after, save revisited byDefault now a = (after, none) := by
  obtain ⟨-, memory, -⟩ := byDefault_paths
  apply save_of_made revisited_linkFree
  · rw [memory]
    decide +kernel
  · rw [memory]
    decide +kernel

theorem rerun_stable_revisited :
    revisited.LinkFree ∧ byDefault.Built ∧ Path.Step.up ∉ byDefault.memory.steps ∧
      Path.Step.up ∉ byDefault.brain.steps ∧
      ∃ after o, run revisited byDefault ⟨"", "", 0⟩ .start2025 = (after, .ok o) ∧
        ∃ last, run after byDefault ⟨"", "", 1⟩ .start2025 = (last, .ok (o.withScan ⟨"", "", 1⟩)) ∧
          o.OnDisk after ∧ (o.withScan ⟨"", "", 1⟩).OnDisk last ∧
          last.readText byDefault.viewFile = after.readText byDefault.viewFile := by
  obtain ⟨source, memory, brain⟩ := byDefault_paths
  obtain ⟨sourcePlace, memoryPlace, brainPlace⟩ := revisited_places
  obtain ⟨a, analyzed⟩ := analyze_revisited ⟨"", "", 0⟩
  obtain ⟨after, saved⟩ := save_revisited .start2025 a
  have first := run_eq_ok_iff.2 ⟨a, analyzed, saved, rfl⟩
  have built : byDefault.Built := .forRoot ⟨"."⟩
  have memoryStraight : Path.Step.up ∉ byDefault.memory.steps := by
    rw [memory]
    decide +kernel
  have brainStraight : Path.Step.up ∉ byDefault.brain.steps := by
    rw [brain]
    decide +kernel
  have reports : revisited.locate byDefault.reportFile = [reportName, ⟨"memory", by decide⟩, ⟨"ADD", by decide⟩] ∧
      revisited.locate byDefault.structureFile = [structureName, ⟨"memory", by decide⟩, ⟨"ADD", by decide⟩] ∧
      revisited.locate byDefault.viewFile = [viewName, ⟨"memory", by decide⟩, ⟨"ADD", by decide⟩] := by
    decide +kernel
  refine ⟨revisited_linkFree, built, memoryStraight, brainStraight, after, _, first, ?_⟩
  refine rerun_stable revisited_linkFree built memoryStraight brainStraight ?_ ?_ ?_ first _ _
  · rw [source, memory, sourcePlace, memoryPlace]
    decide
  · rw [brain, memory, brainPlace, memoryPlace]
    decide
  · rw [brain, brainPlace]
    simp only [List.mem_cons, List.not_mem_nil, or_false, forall_eq_or_imp, forall_eq, reports]
    decide

end Survey

end FrontendSurvey
