import FrontendSurvey.Proofs.Disk.Folders
import FrontendSurvey.Proofs.Disk.Writing
import FrontendSurvey.Proofs.Survey.Analysis

set_option autoImplicit false

namespace FrontendSurvey.Survey

open Disk

theorem run_of_fault {d : Disk} {s : Settings} {scan : ScanWindow} {fault : Fault} (now : Instant)
    (failed : analyze d s scan = .error fault) : run d s scan now = (d, .error fault) := by
  simp only [run, failed]

theorem run_disk {d : Disk} {s : Settings} {scan : ScanWindow} {a : Analysis} (now : Instant)
    (analyzed : analyze d s scan = .ok a) : (run d s scan now).1 = (save d s now a).1 := by
  simp only [run, analyzed]
  cases save d s now a with
  | mk e outcome => cases outcome <;> rfl

/-- All that the writes leave, up to the first refused one, stood there before. -/
def Redundant (d : Disk) (now : Instant) (writes : List (Path × String)) : Prop :=
  ∀ loc text, lastText? d loc writes = some text →
    d.node? loc = some (.entry (.file (some text) now))

theorem writeAll_same_iff (now : Instant) (d : Disk) (writes : List (Path × String)) :
    (writeAll now d writes).1.Same d ↔ Redundant d now writes := by
  constructor
  · intro same loc text last
    have written := node?_writeAll now d writes loc
    rw [last] at written
    rw [← same loc, written]
  · intro redundant loc
    rw [node?_writeAll]
    cases last : lastText? d loc writes with
    | none => rfl
    | some text => exact (redundant loc text last).symm

theorem keeps_save (d : Disk) (s : Settings) (now : Instant) (a : Analysis) :
    (d.makeFolders s.memory).1.Keeps (save d s now a).1 := by
  unfold save
  split
  next made why eq =>
    rw [eq]
    exact Keeps.refl made
  next made eq =>
    rw [eq]
    exact keeps_writeAll now made _

theorem save_same_iff (d : Disk) (s : Settings) (now : Instant) (a : Analysis) :
    (save d s now a).1.Same d ↔ ¬ d.Lacks s.memory.ancestors ∧
      ((d.makeFolders s.memory).2 = none → Redundant d now (reports s a)) := by
  -- a folder that is made is new, so no write can undo the change
  by_cases lacking : d.Lacks s.memory.ancestors
  next =>
    obtain ⟨loc, missing, folder⟩ := makeFoldersUp_of_lacks lacking
    have changed : ¬ (save d s now a).1.Same d := by
      intro same
      have stays := keeps_save d s now a loc folder
      rw [same loc, missing] at stays
      cases stays
    simp [lacking, changed]
  next =>
    have unchanged : (d.makeFolders s.memory).1 = d := makeFoldersUp_of_not_lacks lacking
    cases made : d.makeFolders s.memory with
    | mk e outcome =>
      obtain rfl : e = d := by rwa [made] at unchanged
      cases outcome with
      | some why => simp [save, made, lacking, Same]
      | none =>
        simp only [save, made, lacking, not_false_eq_true, true_and, forall_const]
        exact writeAll_same_iff now e (reports s a)

theorem failed_run_same_iff {d after : Disk} {s : Settings} {scan : ScanWindow} {now : Instant}
    {fault : Fault} (failed : run d s scan now = (after, .error fault)) :
    after.Same d ↔ ∀ a, analyze d s scan = .ok a →
      ¬ d.Lacks s.memory.ancestors ∧
        ((d.makeFolders s.memory).2 = none → Redundant d now (reports s a)) := by
  have disk : (run d s scan now).1 = after := by rw [failed]
  cases analyzed : analyze d s scan with
  | error why =>
    rw [run_of_fault now analyzed] at disk
    simp [← disk, Same]
  | ok a =>
    rw [run_disk now analyzed] at disk
    rw [← disk, save_same_iff]
    simp

def structureName : Name := ⟨"structure.json", by decide⟩

-- An empty source folder, and a folder where the second report belongs.
def crowded : Disk where
  here := []
  nodes := [([sourceName], .folder), ([structureName], .folder)]
  distinct := by decide
  housed := by simp [Housed]
  settled := Or.inl rfl

def flat : Settings := (Settings.forRoot ⟨"."⟩).withPaths (some ⟨"s"⟩) (some ⟨"."⟩) none

theorem flat_paths : flat.source = ⟨"./s"⟩ ∧ flat.memory = ⟨"./."⟩ ∧
    flat.brain = ⟨"./ADD/brain.ts"⟩ ∧ flat.reportFile = ⟨"././frontendMemory.json"⟩ ∧
      flat.structureFile = ⟨"././structure.json"⟩ := by
  decide +kernel

theorem analyze_crowded (scan : ScanWindow) : ∃ a, analyze crowded flat scan = .ok a := by
  obtain ⟨source, -, brain, -⟩ := flat_paths
  have inside : crowded.list flat.source = .ok [] := by rw [source]; rfl
  have beside : crowded.list flat.root = .ok [sourceName, structureName] := rfl
  have absent : crowded.present flat.brain = false := by rw [brain]; decide +kernel
  exact analyze_of_empty inside beside (by decide) absent scan

theorem run_crowded (scan : ScanWindow) (now : Instant) :
    ∃ after, run crowded flat scan now =
        (after, .error (.refused ⟨"././structure.json"⟩ .isAFolder)) ∧
      after.node? [⟨"frontendMemory.json", by decide⟩] ≠ none := by
  obtain ⟨a, analyzed⟩ := analyze_crowded scan
  obtain ⟨-, memory, -, reportFile, structureFile⟩ := flat_paths
  have made : crowded.makeFolders ⟨"./."⟩ = (crowded, none) := by decide +kernel
  have target : crowded.target? ⟨"././frontendMemory.json"⟩ =
      some [⟨"frontendMemory.json", by decide⟩] := by decide +kernel
  have ok := (writable_of_target? target).admits (some a.report.text) now
  have refused : (crowded.set [⟨"frontendMemory.json", by decide⟩]
      (.entry (.file (some a.report.text) now))).write ⟨"././structure.json"⟩
        (some a.structureReport.text) now = .error .isAFolder := rfl
  refine ⟨crowded.set [⟨"frontendMemory.json", by decide⟩]
    (.entry (.file (some a.report.text) now)), ?_, ?_⟩
  · simp only [run, analyzed, save, memory, made, writeAll, reportFile, write_eq_ok target,
      structureFile, refused]
  · simp [node?_set ok]

theorem failed_run_leaves_report :
    ∃ after, run crowded flat ⟨"", "", 0⟩ .start2025 =
        (after, .error (.refused ⟨"././structure.json"⟩ .isAFolder)) ∧ ¬ after.Same crowded := by
  obtain ⟨after, failed, written⟩ := run_crowded ⟨"", "", 0⟩ .start2025
  refine ⟨after, failed, fun same => written ?_⟩
  rw [same]
  decide +kernel

theorem failed_run_same_iff_crowded :
    ∃ after fault, run crowded flat ⟨"", "", 0⟩ .start2025 = (after, .error fault) ∧
      (after.Same crowded ↔ ∀ a, analyze crowded flat ⟨"", "", 0⟩ = .ok a →
        ¬ crowded.Lacks flat.memory.ancestors ∧
          ((crowded.makeFolders flat.memory).2 = none →
            Redundant crowded .start2025 (reports flat a))) := by
  obtain ⟨after, failed, -⟩ := run_crowded ⟨"", "", 0⟩ .start2025
  exact ⟨after, _, failed, failed_run_same_iff failed⟩

end FrontendSurvey.Survey
