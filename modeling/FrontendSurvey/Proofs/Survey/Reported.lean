import FrontendSurvey.Proofs.Path.Relative
import FrontendSurvey.Proofs.Settings.Built
import FrontendSurvey.Proofs.Survey.Coverage
import FrontendSurvey.Proofs.Survey.Saving

set_option autoImplicit false

namespace FrontendSurvey

namespace Path

def Rooted (root p : Path) : Prop := ∃ sub place, p = (root.join sub).below place

variable {root p q : Path}

theorem rooted_join (root sub : Path) : Rooted root (root.join sub) := ⟨sub, [], rfl⟩

theorem Rooted.below (rooted : Rooted root p) (place : List Name) : Rooted root (p.below place) := by
  obtain ⟨sub, above, rfl⟩ := rooted
  exact ⟨sub, above ++ place, by simp [Path.below]⟩

theorem Rooted.child (rooted : Rooted root p) (name : Name) : Rooted root (p / name) := rooted.below [name]

theorem Rooted.within (rooted : Rooted root p) :
    root.bytes = [] ∨ p.isAbsolute = true ∨ root.steps <+: p.steps := by
  obtain ⟨sub, place, rfl⟩ := rooted
  by_cases begun : (root.join sub).bytes = []
  next =>
    apply Or.inl
    by_contra some
    cases absolute : sub.isAbsolute with
    | true =>
      rw [join_of_absolute root absolute] at begun
      simp [isAbsolute, begun] at absolute
    | false =>
      have none := steps_eq_nil_iff.2 begun
      rw [steps_join some absolute, List.append_eq_nil_iff] at none
      exact some (steps_eq_nil_iff.1 none.1)
  next => exact within_join begun place

end Path

namespace Outline

mutual

theorem rooted_of_mem_files {root above : Path} (rooted : Path.Rooted root above) :
    (entry : Outline) → ∀ file ∈ entry.files above, Path.Rooted root file.1
  | .folder name entries => fun file member =>
    rooted_of_mem_filesOfAll (rooted.child name) entries file (by simpa [files] using member)
  | .file name modified => by simpa [files] using rooted.child name

theorem rooted_of_mem_filesOfAll {root above : Path} (rooted : Path.Rooted root above) :
    (entries : List Outline) → ∀ file ∈ filesOfAll above entries, Path.Rooted root file.1
  | [] => by simp [filesOfAll]
  | entry :: rest => fun file member => by
    rcases List.mem_append.1 member with here | later
    · exact rooted_of_mem_files rooted entry file here
    · exact rooted_of_mem_filesOfAll rooted rest file later

end

end Outline

def Analysis.outcome (a : Analysis) (s : Settings) : Outcome where
  report := a.report
  structureReport := a.structureReport
  viewLines := a.viewLines
  saved := ⟨s.reportFile, s.structureFile, s.viewFile⟩

structure Found where
  nodes : List Path
  components : List Path
  code : List Path
  brain : Option Path
  plugin : Option Path
  saved : Saved

namespace Found

def paths (f : Found) : List Path :=
  f.nodes ++ f.components ++ f.code ++ f.brain.toList ++ f.plugin.toList ++
    [f.saved.report, f.saved.structureReport, f.saved.view]

def ofEntries (d : Disk) (s : Settings) (entries : List Outline) : Found where
  nodes := (Outline.placesOfAll entries).map s.source.below
  components := (Outline.walked s.root s.source entries).components
  code := (Outline.walked s.root s.source entries).code
  brain := if d.present s.brain then some s.brain else none
  plugin := Framework.plugin? d s.plugins
  saved := ⟨s.reportFile, s.structureFile, s.viewFile⟩

structure ReportedBy (f : Found) (s : Settings) (o : Outcome) : Prop where
  nodes : TreeNode.pathsOfAll o.structureReport.tree = f.nodes.map s.relative
  components : o.report.components.map (·.file) = f.components.map s.relative
  code : o.report.code.map (·.file) = f.code.map s.relative
  brain : o.report.summary.brain.map (·.path) = f.brain.map s.relative
  plugin : o.report.summary.framework.plugin = f.plugin.map s.relative
  saved : Overview.savedLines s o.saved = ["🧠 Saved: " ++ s.relative f.saved.report,
    "🌳 Saved: " ++ s.relative f.saved.structureReport, "🗺️  Saved: " ++ s.relative f.saved.view]

structure LeadBack (f : Found) (s : Settings) : Prop where
  stripped : ∀ p ∈ f.paths, (s.root.join (p.stripped s.root)).steps = p.steps
  back : ∀ p ∈ f.paths, (s.root.join ⟨s.relative p⟩).steps = p.stepsShown s.root
  whole : ∀ p ∈ f.paths, (∀ raw, .name raw ∈ p.steps → raw.IsText) → (s.root.join ⟨s.relative p⟩).steps = p.steps
  apart : ∀ p ∈ f.paths, ∀ q ∈ f.paths, p.steps.map (·.shown) ≠ q.steps.map (·.shown) → s.relative p ≠ s.relative q

variable {f : Found} {d : Disk} {s : Settings} {entries : List Outline}

theorem leadBack_of_rooted (rooted : ∀ p ∈ f.paths, Path.Rooted s.root p) : f.LeadBack s where
  stripped p member := Path.steps_join_stripped (rooted p member).within
  back p member := Path.steps_join_relativeTo (rooted p member).within
  whole p member plain :=
    (Path.steps_join_relativeTo (rooted p member).within).trans (Path.stepsShown_of_isText plain)
  apart p left q right differ same :=
    differ (Path.shown_steps_eq_of_relativeTo_eq (rooted p left).within (rooted q right).within same)

theorem rooted_ofEntries (built : s.Built) : ∀ p ∈ (ofEntries d s entries).paths, Path.Rooted s.root p := by
  have source : Path.Rooted s.root s.source := by
    obtain ⟨sub, same⟩ := built.rooted.source
    exact same ▸ Path.rooted_join s.root sub
  have memory : Path.Rooted s.root s.memory := by
    obtain ⟨sub, same⟩ := built.rooted.memory
    exact same ▸ Path.rooted_join s.root sub
  have brain : Path.Rooted s.root s.brain := by
    obtain ⟨sub, same⟩ := built.rooted.brain
    exact same ▸ Path.rooted_join s.root sub
  have files := Outline.rooted_of_mem_filesOfAll source entries
  have plugins : ∀ p ∈ s.plugins, Path.Rooted s.root p := by
    rw [built.regular.plugins]
    have folder : Path.Rooted s.root (s.source / "plugins") := source.child ⟨"plugins", by decide⟩
    simpa [Settings.pluginsOf] using
      ⟨folder.child ⟨"vuetify.ts", by decide⟩, folder.child ⟨"vuetify.js", by decide⟩⟩
  intro p member
  simp only [paths, ofEntries, List.mem_append, or_assoc] at member
  rcases member with node | component | code | self | plugin | saved
  · obtain ⟨place, -, rfl⟩ := List.mem_map.1 node
    exact source.below place
  · obtain ⟨file, inside, rfl⟩ := List.mem_map.1 component
    exact files file (List.mem_filter.1 inside).1
  · obtain ⟨file, inside, rfl⟩ := List.mem_map.1 code
    exact files file (List.mem_filter.1 inside).1
  · obtain rfl : p = s.brain := by
      split at self <;> simp_all
    exact brain
  · exact plugins p (List.mem_of_find?_eq_some (Option.mem_toList.1 plugin))
  · rw [Survey.report_paths] at saved
    obtain ⟨name, -, rfl⟩ := List.mem_map.1 saved
    exact memory.child name

end Found

namespace Survey

open Disk

variable {d after : Disk} {s : Settings} {scan : ScanWindow} {now : Instant} {a : Analysis} {o : Outcome}

theorem brain_path {brain : Option Brain} (read : Brain.read d s s.brain = .ok brain) :
    brain.map (·.path) = (if d.present s.brain then some s.brain else none).map s.relative := by
  unfold Brain.read at read
  split at read
  next there =>
    rw [if_pos there]
    cases text : d.need s.brain with
    | error fault => simp [text, Except.map] at read
    | ok text' =>
      rw [text] at read
      obtain rfl := Except.ok.inj read
      rfl
  next absent =>
    rw [if_neg absent]
    obtain rfl := Except.ok.inj read
    rfl

theorem run_outcome (analyzed : analyze d s scan = .ok a) (done : run d s scan now = (after, .ok o)) :
    o = a.outcome s := by
  obtain ⟨b, analyzed', -, rfl⟩ := run_eq_ok_iff.1 done
  obtain rfl := Except.ok.inj (analyzed.symm.trans analyzed')
  rfl

theorem reported_paths_lead_back (built : s.Built) (analyzed : analyze d s scan = .ok a) :
    (∀ now after o, run d s scan now = (after, .ok o) → o = a.outcome s) ∧
      ∃ entries, d.walk s.root s.skipped s.source = .ok (Outline.walked s.root s.source entries) ∧
        (Found.ofEntries d s entries).ReportedBy s (a.outcome s) ∧ (Found.ofEntries d s entries).LeadBack s := by
  obtain ⟨r⟩ := reading_of_analyze analyzed
  have walk := r.walk
  obtain ⟨entries, walked, -⟩ := unfolds_of_walkTo walk
  rw [walked] at walk
  have rooted : ∀ p ∈ (Found.ofEntries d s entries).paths, Path.Rooted s.root p := Found.rooted_ofEntries built
  refine ⟨fun _ _ _ done => run_outcome analyzed done, entries, walk, ?_, Found.leadBack_of_rooted rooted⟩
  have components := map_of_mapM (fun _ _ read => congrArg Prod.fst (shared_of_component read)) r.readComponents
  have code := map_of_mapM (fun _ _ read => congrArg Prod.fst (shared_of_code read)) r.readCode
  rw [walked] at components code
  rw [r.result, walked]
  refine ⟨?_, components, code, brain_path r.readBrain, rfl, rfl⟩
  rw [Found.ofEntries, List.map_map]
  exact Outline.pathsOfAll_nodes s.root s.source entries

-- A source folder with a script, and two more places that do not lie below the root.
def scattered : Disk where
  here := []
  nodes := [([⟨"proj", by decide⟩], .folder), ([sourceName, ⟨"proj", by decide⟩], .folder),
    ([⟨"main.ts", by decide⟩, sourceName, ⟨"proj", by decide⟩],
      .entry (.file (some "x as any") .start2025)),
    ([⟨"web", by decide⟩], .folder), ([⟨"self.ts", by decide⟩], .entry (.file (some "x") .start2025))]
  distinct := by decide
  housed := by simp [Housed, Node.folder]
  settled := Or.inl rfl

def scatteredSettings : Settings :=
  (Settings.forRoot ⟨"proj/"⟩).withPaths (some ⟨"./s//"⟩) (some ⟨"/web"⟩) (some ⟨"/self.ts"⟩)

theorem scattered_paths : scatteredSettings.source = ⟨"proj/./s//"⟩ ∧ scatteredSettings.memory = ⟨"/web"⟩ ∧
    scatteredSettings.brain = ⟨"/self.ts"⟩ := by
  decide +kernel

theorem analyze_scattered (scan : ScanWindow) : ∃ a, analyze scattered scatteredSettings scan = .ok a := by
  obtain ⟨source, -, brain⟩ := scattered_paths
  have folder : scattered.isFolder ⟨"proj/./s//"⟩ = true := by decide +kernel
  have inside : scattered.list ⟨"proj/./s//"⟩ = .ok [⟨"main.ts", by decide⟩] := rfl
  have beside : scattered.list ⟨"proj/"⟩ = .ok [sourceName] := rfl
  have present : scattered.present ⟨"/self.ts"⟩ = true := by decide +kernel
  have self : scattered.stat ⟨"/self.ts"⟩ = .ok (.file (some "x") .start2025) := by decide +kernel
  have script : scattered.stat ⟨"proj/./s//main.ts"⟩ = .ok (.file (some "x as any") .start2025) := by decide +kernel
  obtain ⟨tree, walked⟩ : ∃ tree, scattered.walk scatteredSettings.root scatteredSettings.skipped ⟨"proj/./s//"⟩ =
      .ok ⟨tree, [], [⟨"proj/./s//main.ts"⟩]⟩ := by
    have child : (⟨"proj/./s//"⟩ : Path) / (⟨"main.ts", by decide⟩ : Name) = ⟨"proj/./s//main.ts"⟩ := by
      decide +kernel
    have kinds : Walked.isComponent ⟨"main.ts", by decide⟩ = false ∧ Walked.isCode ⟨"main.ts", by decide⟩ = true := by
      decide +kernel
    have walked := walk_of_files scatteredSettings.root scatteredSettings.skipped (fun _ => .start2025) inside
      (by decide +kernel) (List.pairwise_singleton _ _) (by simp [child, script])
    rw [walked]
    simp [child, kinds, Walked.join, Walked.ofFile]
  have keys : Env.keys scattered scatteredSettings.root = .ok [] := keys_of_none beside (by decide +kernel)
  simp [analyze, source, brain, folder, walked, keys, Brain.read, present, self, Code.read, need, readText, script,
    Except.map, Except.mapError, bind, Except.bind, pure, Except.pure]

theorem reported_paths_lead_back_scattered :
    scatteredSettings.Built ∧ ∃ a, analyze scattered scatteredSettings ⟨"", "", 0⟩ = .ok a ∧
      (∃ after o, run scattered scatteredSettings ⟨"", "", 0⟩ .start2025 = (after, .ok o) ∧
        o = a.outcome scatteredSettings) ∧
      ∃ entries, scattered.walk ⟨"proj/"⟩ scatteredSettings.skipped scatteredSettings.source =
          .ok (Outline.walked ⟨"proj/"⟩ scatteredSettings.source entries) ∧
        (Found.ofEntries scattered scatteredSettings entries).ReportedBy scatteredSettings
          (a.outcome scatteredSettings) ∧
        (Found.ofEntries scattered scatteredSettings entries).LeadBack scatteredSettings := by
  have built : scatteredSettings.Built := .withPaths _ _ _ (.forRoot _)
  have plain : scattered.LinkFree := linkFree_iff.2 (by simp [scattered, Node.folder])
  obtain ⟨a, analyzed⟩ := analyze_scattered ⟨"", "", 0⟩
  obtain ⟨after, saved⟩ : ∃ after, save scattered scatteredSettings .start2025 a = (after, none) := by
    apply save_of_made plain
    · rw [scattered_paths.2.1]
      decide +kernel
    · rw [scattered_paths.2.1]
      decide +kernel
  have done : run scattered scatteredSettings ⟨"", "", 0⟩ .start2025 = (after, .ok (a.outcome scatteredSettings)) :=
    run_eq_ok_iff.2 ⟨a, analyzed, saved, rfl⟩
  obtain ⟨shown, reported⟩ := reported_paths_lead_back built analyzed
  exact ⟨built, a, analyzed, ⟨after, _, done, shown _ _ _ done⟩, reported⟩

theorem analyze_unreadable (scan : ScanWindow) : ∃ a, analyze unreadable flat scan = .ok a ∧
    a.report.code.map (·.file) =
      [flat.relative (unreadableSource / unread), flat.relative (unreadableSource / lookalike)] := by
  have source : flat.source = unreadableSource := rfl
  have root : flat.root = ⟨"."⟩ := rfl
  have brain : flat.brain = ⟨"./ADD/brain.ts"⟩ := flat_paths.2.2.1
  have folder : unreadable.isFolder unreadableSource = true := by decide +kernel
  have walked := walk_unreadable (show "a\uFFFD.ts" ∉ flat.skipped by decide +kernel)
  have absent : unreadable.present ⟨"./ADD/brain.ts"⟩ = false := by decide +kernel
  have beside : unreadable.list ⟨"."⟩ = .ok [sourceName] := rfl
  have keys : Env.keys unreadable ⟨"."⟩ = .ok [] := keys_of_none beside (by decide +kernel)
  have file : unreadable.stat (unreadableSource / unread) = .ok (.file (some "") .start2025) := by decide +kernel
  have twin : unreadable.stat (unreadableSource / lookalike) = .ok (.file (some "") .start2025) := by decide +kernel
  simp [analyze, source, root, brain, folder, walked, keys, Brain.read, absent, Code.read, need, readText, file, twin,
    Code.ofText, Except.map, Except.mapError, bind, Except.bind, pure, Except.pure]

theorem unreadable_paths_reported_alike :
    flat.Built ∧ ∃ a after, analyze unreadable flat ⟨"", "", 0⟩ = .ok a ∧
      run unreadable flat ⟨"", "", 0⟩ .start2025 = (after, .ok (a.outcome flat)) ∧
      ∃ p q, a.report.code.map (·.file) = [flat.relative p, flat.relative q] ∧
        p.steps ≠ q.steps ∧ flat.relative p = flat.relative q ∧
        (flat.root.join ⟨flat.relative p⟩).steps ≠ p.steps ∧
        (flat.root.join ⟨flat.relative q⟩).steps ≠ q.steps := by
  have plain : unreadable.LinkFree := linkFree_iff.2 (by simp [unreadable, Node.folder])
  obtain ⟨a, analyzed, code⟩ := analyze_unreadable ⟨"", "", 0⟩
  obtain ⟨after, saved⟩ : ∃ after, save unreadable flat .start2025 a = (after, none) := by
    apply save_of_made plain
    · rw [flat_paths.2.1]
      decide +kernel
    · rw [flat_paths.2.1]
      decide +kernel
  refine ⟨.withPaths _ _ _ (.forRoot _), a, after, analyzed, run_eq_ok_iff.2 ⟨a, analyzed, saved, rfl⟩,
    unreadableSource / unread, unreadableSource / lookalike, code, ?_⟩
  decide +kernel

-- What lies below the root is written without it, and what does not is written whole.
example : scatteredSettings.relative ⟨"proj/./s//main.ts"⟩ = "s//main.ts" ∧
    scatteredSettings.relative ⟨"/self.ts"⟩ = "/self.ts" := by
  decide +kernel

end Survey

end FrontendSurvey
