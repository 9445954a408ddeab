import FrontendSurvey.Proofs.Disk.Making
import FrontendSurvey.Proofs.Disk.Writing
import FrontendSurvey.Proofs.Survey.Failure

set_option autoImplicit false

namespace FrontendSurvey

structure Outcome.OnDisk (o : Outcome) (d : Disk) : Prop where
  report : d.readText o.saved.report = .ok o.report.text
  structureReport : d.readText o.saved.structureReport = .ok o.structureReport.text
  view : d.readText o.saved.view = .ok (o.structureReport.view ++ "\n")

namespace Survey

open Disk

variable {d e after : Disk} {p : Path} {folder loc : Location} {s : Settings} {scan : ScanWindow}
  {now : Instant} {a : Analysis} {o : Outcome}

def reportName : Name := ⟨"frontendMemory.json", by decide⟩

def viewName : Name := ⟨"structure.txt", by decide⟩

def reportNames : List Name := [reportName, structureName, viewName]

theorem target?_child (plain : d.LinkFree) (reached : d.folderAt? p = some folder) (name : Name) :
    d.target? (p / name) = some loc ↔
      loc = name :: folder ∧ d.node? (name :: folder) ≠ some .folder := by
  rw [target?, find_child_of_folderAt? plain .write reached, spotAt]
  rcases plain.node_cases (name :: folder) with missing | inside | ⟨text, modified, file⟩
  · simp [missing, Except.toOption, Spot.file?, eq_comm]
  · simp [inside, Except.toOption, Spot.file?, Node.folder]
  · simp [file, Except.toOption, Spot.file?, Node.folder, eq_comm]

def inFolder (p : Path) (files : List (Name × String)) : List (Path × String) :=
  files.map fun file => (p / file.1, file.2)

theorem lastText?_outside {files : List (Name × String)}
    (targets : ∀ file ∈ files, d.target? (p / file.1) = some (file.1 :: folder))
    (outside : ∀ file ∈ files, loc ≠ file.1 :: folder) :
    lastText? d loc (inFolder p files) = none := by
  induction files with
  | nil => rfl
  | cons file files ih =>
    have later := ih (fun other member => targets other (by simp [member]))
      fun other member => outside other (by simp [member])
    have first := targets file (by simp)
    have apart := outside file (by simp)
    simp only [inFolder, List.map_cons, lastText?, first] at later ⊢
    simp [later, Ne.symm apart]

theorem lastText?_inFolder {files : List (Name × String)}
    (targets : ∀ file ∈ files, d.target? (p / file.1) = some (file.1 :: folder))
    (distinct : (files.map (·.1)).Nodup) {file : Name × String} (member : file ∈ files) :
    lastText? d (file.1 :: folder) (inFolder p files) = some file.2 := by
  induction files with
  | nil => cases member
  | cons first files ih =>
    have rest : ∀ other ∈ files, d.target? (p / other.1) = some (other.1 :: folder) :=
      fun other member => targets other (by simp [member])
    obtain ⟨fresh, distinct⟩ := List.nodup_cons.1 distinct
    have here := targets first (by simp)
    rcases List.mem_cons.1 member with rfl | later
    · have none : lastText? d (file.1 :: folder) (inFolder p files) = none :=
        lastText?_outside rest fun other member same =>
          fresh (List.mem_map.2 ⟨other, member, (List.cons.inj same).1.symm⟩)
      simp only [inFolder, List.map_cons, lastText?, here] at none ⊢
      simp [none]
    · have found := ih rest distinct later
      simp only [inFolder, List.map_cons, lastText?, here] at found ⊢
      simp [found]

def files (a : Analysis) : List (Name × String) :=
  [(reportName, a.report.text), (structureName, a.structureReport.text),
    (viewName, a.structureReport.viewText)]

theorem reports_eq (s : Settings) (a : Analysis) : reports s a = inFolder s.memory (files a) := rfl

theorem report_paths (s : Settings) : [s.reportFile, s.structureFile, s.viewFile] =
    reportNames.map fun name => s.memory / name :=
  rfl

theorem files_names (a : Analysis) : (files a).map (·.1) = reportNames := rfl

theorem nodup_files (a : Analysis) : ((files a).map (·.1)).Nodup := by
  rw [files_names]
  decide

theorem mem_reportNames {file : Name × String} (member : file ∈ files a) : file.1 ∈ reportNames := by
  rw [← files_names a]
  exact List.mem_map.2 ⟨file, member, rfl⟩

theorem save_eq_ok_iff {after : Disk} : save d s now a = (after, none) ↔
    ∃ e, d.makeFolders s.memory = (e, none) ∧ writeAll now e (reports s a) = (after, none) := by
  unfold save
  cases d.makeFolders s.memory with
  | mk e outcome => cases outcome <;> simp [reports]

theorem writeAll_reports (now : Instant) (a : Analysis) (plain : d.LinkFree)
    (reached : d.folderAt? s.memory = some folder)
    (free : ∀ name ∈ reportNames, d.node? (name :: folder) ≠ some .folder) :
    ∃ after, writeAll now d (reports s a) = (after, none) := by
  refine ⟨_, Prod.ext rfl ((writeAll_ok_iff now d (reports s a)).2 ?_)⟩
  rw [reports_eq]
  intro write member
  obtain ⟨file, among, rfl⟩ := List.mem_map.1 member
  exact ⟨_, (target?_child plain reached file.1).2 ⟨rfl, free file.1 (mem_reportNames among)⟩⟩

theorem node?_of_writeAll {after : Disk} (plain : d.LinkFree)
    (reached : d.folderAt? s.memory = some folder)
    (written : writeAll now d (reports s a) = (after, none)) :
    (∀ file ∈ files a, d.node? (file.1 :: folder) ≠ some .folder ∧
      after.node? (file.1 :: folder) = some (.entry (.file (some file.2) now))) ∧
      ∀ loc, (∀ file ∈ files a, loc ≠ file.1 :: folder) → after.node? loc = d.node? loc := by
  have possible := (writeAll_ok_iff now d (reports s a)).1 (by rw [written])
  rw [reports_eq] at possible
  have free : ∀ file ∈ files a, d.node? (file.1 :: folder) ≠ some .folder := by
    intro file member
    obtain ⟨loc, target⟩ := possible (s.memory / file.1, file.2)
      (List.mem_map.2 ⟨file, member, rfl⟩)
    exact ((target?_child plain reached file.1).1 target).2
  have targets : ∀ file ∈ files a, d.target? (s.memory / file.1) = some (file.1 :: folder) :=
    fun file member => (target?_child plain reached file.1).2 ⟨rfl, free file member⟩
  have node (loc : Location) := node?_writeAll now d (reports s a) loc
  rw [written, reports_eq] at node
  refine ⟨fun file member => ⟨free file member, ?_⟩, fun loc outside => ?_⟩
  · rw [node, lastText?_inFolder targets (nodup_files a) member]
  · rw [node, lastText?_outside targets outside]

theorem readText_of_file {text : String} {name : Name} (plain : d.LinkFree)
    (reached : d.folderAt? p = some folder)
    (file : d.node? (name :: folder) = some (.entry (.file (some text) now))) :
    d.readText (p / name) = .ok text := by
  rw [Disk.readText, stat, find_child_of_folderAt? plain .look reached, spotAt, file]

theorem onDisk_of_files (plain : d.LinkFree) (reached : d.folderAt? s.memory = some folder)
    (there : ∀ file ∈ files a, d.node? (file.1 :: folder) = some (.entry (.file (some file.2) now))) :
    Outcome.OnDisk ⟨a.report, a.structureReport, a.viewLines,
      ⟨s.reportFile, s.structureFile, s.viewFile⟩⟩ d := by
  have report := readText_of_file plain reached
    (there (reportName, a.report.text) List.mem_cons_self)
  have structureReport := readText_of_file plain reached
    (there (structureName, a.structureReport.text) (List.mem_cons_of_mem _ List.mem_cons_self))
  have view := readText_of_file plain reached (there (viewName, a.structureReport.viewText)
    (List.mem_cons_of_mem _ (List.mem_cons_of_mem _ List.mem_cons_self)))
  exact ⟨report, structureReport, view⟩

theorem save_of_made (plain : d.LinkFree) (made : (d.makeFolders s.memory).2 = none)
    (free : ∀ name ∈ reportNames,
      (d.makeFolders s.memory).1.node? (name :: d.locate s.memory) ≠ some .folder)
    (now : Instant) (a : Analysis) : ∃ after, save d s now a = (after, none) := by
  have made' : d.makeFolders s.memory = ((d.makeFolders s.memory).1, none) := Prod.ext rfl made
  obtain ⟨grows, reached⟩ := makeFolders_spec plain made'
  obtain ⟨after, written⟩ := writeAll_reports now a (grows.linkFree plain) reached free
  exact ⟨after, save_eq_ok_iff.2 ⟨_, made', written⟩⟩

structure Saves (d after : Disk) (s : Settings) (now : Instant) (a : Analysis) : Prop where
  here : after.here = d.here
  memory : after.folderAt? s.memory = some (d.locate s.memory)
  written : ∀ file ∈ files a, d.node? (file.1 :: d.locate s.memory) ≠ some .folder ∧
    after.node? (file.1 :: d.locate s.memory) = some (.entry (.file (some file.2) now))
  others : ∀ loc, (∀ file ∈ files a, loc ≠ file.1 :: d.locate s.memory) →
    after.node? loc = d.node? loc ∨
      d.Leading s.memory loc ∧ d.node? loc = none ∧ after.node? loc = some .folder

theorem saves_of_save (plain : d.LinkFree) (saved : save d s now a = (after, none)) :
    Saves d after s now a := by
  -- the folders come first, and then the reports go into the last of them
  obtain ⟨e, made, written⟩ := save_eq_ok_iff.1 saved
  obtain ⟨grows, reached⟩ := makeFolders_spec plain made
  obtain ⟨there, elsewhere⟩ := node?_of_writeAll (grows.linkFree plain) reached written
  have here : after.here = e.here := by
    have same := here_writeAll now e (reports s a)
    rwa [written] at same
  have keeps : e.Keeps after := by
    have kept := keeps_writeAll now e (reports s a)
    rwa [written] at kept
  constructor
  case here => exact here.trans grows.here
  case memory =>
    rw [folderAt?, here]
    exact keeps.through? reached
  case written =>
    intro file member
    obtain ⟨free, file⟩ := there file member
    exact ⟨fun folder => free (grows.keeps _ folder), file⟩
  case others =>
    intro loc outside
    rw [elsewhere loc outside]
    exact grows.node loc

theorem Saves.linkFree (saves : Saves d after s now a) (plain : d.LinkFree) : after.LinkFree := by
  intro loc target there
  by_cases report : ∃ file ∈ files a, loc = file.1 :: d.locate s.memory
  next =>
    obtain ⟨file, member, rfl⟩ := report
    simp [(saves.written file member).2] at there
  next =>
    rcases saves.others loc fun file member same => report ⟨file, member, same⟩ with
      same | ⟨-, -, made⟩
    · exact plain loc target (same ▸ there)
    · simp [made, Node.folder] at there

structure Changes (d after : Disk) (s : Settings) : Prop where
  here : after.here = d.here
  folders : ∀ loc, d.Leading s.memory loc →
    after.node? loc = some .folder ∧ (d.node? loc = none ∨ d.node? loc = some .folder)
  others : ∀ loc, ¬ d.Leading s.memory loc →
    (∀ report ∈ [s.reportFile, s.structureFile, s.viewFile], loc ≠ d.locate report) →
    after.node? loc = d.node? loc

theorem Saves.not_report (saves : Saves d after s now a) (folder : after.node? loc = some .folder) :
    ∀ file ∈ files a, loc ≠ file.1 :: d.locate s.memory := by
  rintro file member rfl
  simp [(saves.written file member).2, Node.folder] at folder

theorem Saves.leading (saves : Saves d after s now a) (leading : d.Leading s.memory loc) :
    after.node? loc = some .folder := by
  obtain ⟨moves, first, rfl⟩ := leading
  have start := node?_startFrom (node?_here (d := after)) s.memory
  have reached := saves.memory
  rw [folderAt?, saves.here] at reached
  rw [saves.here] at start
  exact node?_of_leading start reached first

theorem Saves.changes (saves : Saves d after s now a) : Changes d after s where
  here := saves.here
  folders := by
    intro loc leading
    have folder := saves.leading leading
    refine ⟨folder, ?_⟩
    rcases saves.others loc (saves.not_report folder) with same | ⟨-, missing, -⟩
    · exact Or.inr (same ▸ folder)
    · exact Or.inl missing
  others := by
    intro loc outside apart
    have unreported : ∀ file ∈ files a, loc ≠ file.1 :: d.locate s.memory := by
      intro file member
      rw [← locate_child]
      apply apart
      rw [report_paths]
      exact List.mem_map.2 ⟨file.1, mem_reportNames member, rfl⟩
    rcases saves.others loc unreported with same | ⟨leading, -, -⟩
    · exact same
    · exact absurd leading outside

theorem run_writes {d after : Disk} {s : Settings} {scan : ScanWindow} {now : Instant} {o : Outcome}
    (plain : d.LinkFree) (done : run d s scan now = (after, .ok o)) :
    (after.readText s.reportFile = .ok o.report.toJson.pretty ∧
      after.readText s.structureFile = .ok o.structureReport.toJson.pretty ∧
      after.readText s.viewFile = .ok (o.structureReport.view ++ "\n")) ∧
    o.report.scan = o.structureReport.scan ∧
    o.structureReport.view = "\n".intercalate o.viewLines ∧
    Changes d after s := by
  obtain ⟨a, analyzed, saved, rfl⟩ := run_eq_ok_iff.1 done
  obtain ⟨r⟩ := reading_of_analyze analyzed
  have saves := saves_of_save plain saved
  obtain ⟨report, structureReport, view⟩ := onDisk_of_files (saves.linkFree plain) saves.memory
    fun file member => (saves.written file member).2
  refine ⟨⟨report, structureReport, view⟩, ?_, ?_, saves.changes⟩
  · rw [r.result]
    rfl
  · rw [r.result]
    rfl

-- An empty source folder and an older report.
def dated : Disk where
  here := []
  nodes := [([sourceName], .folder),
    ([structureName], .entry (.file (some "older") .start2025))]
  distinct := by decide
  housed := by simp [Housed]
  settled := Or.inl rfl

-- The way to the memory folder leads through a folder that is not there, and back up.
def detour : Settings := flat.withPaths none (some ⟨"new/.."⟩) none

theorem detour_paths : detour.source = ⟨"./s"⟩ ∧ detour.root = ⟨"."⟩ ∧ detour.brain = ⟨"./ADD/brain.ts"⟩ ∧
    detour.memory = ⟨"./new/.."⟩ := by
  decide +kernel

theorem run_dated (scan : ScanWindow) (now : Instant) :
    ∃ after o, run dated detour scan now = (after, .ok o) := by
  obtain ⟨source, root, brain, memory⟩ := detour_paths
  have plain : dated.LinkFree := linkFree_iff.2 (by simp [dated, Node.folder])
  have inside : dated.list detour.source = .ok [] := by rw [source]; rfl
  have beside : dated.list detour.root = .ok [sourceName, structureName] := by rw [root]; rfl
  have absent : dated.present detour.brain = false := by rw [brain]; decide +kernel
  obtain ⟨a, analyzed⟩ := analyze_of_empty inside beside (by decide) absent scan
  obtain ⟨after, saved⟩ : ∃ after, save dated detour now a = (after, none) := by
    apply save_of_made plain
    · rw [memory]
      decide +kernel
    · rw [memory]
      decide +kernel
  exact ⟨after, _, run_eq_ok_iff.2 ⟨a, analyzed, saved, rfl⟩⟩

theorem run_writes_dated :
    dated.LinkFree ∧ ∃ after o, run dated detour ⟨"", "", 0⟩ .start2025 = (after, .ok o) ∧
      (after.readText detour.reportFile = .ok o.report.toJson.pretty ∧
        after.readText detour.structureFile = .ok o.structureReport.toJson.pretty ∧
        after.readText detour.viewFile = .ok (o.structureReport.view ++ "\n")) ∧
      o.report.scan = o.structureReport.scan ∧
      o.structureReport.view = "\n".intercalate o.viewLines ∧
      Changes dated after detour := by
  have plain : dated.LinkFree := linkFree_iff.2 (by simp [dated, Node.folder])
  obtain ⟨after, o, done⟩ := run_dated ⟨"", "", 0⟩ .start2025
  exact ⟨plain, after, o, done, run_writes plain done⟩

end Survey

end FrontendSurvey
