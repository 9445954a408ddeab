import FrontendSurvey.Proofs.Tree.Alike
import FrontendSurvey.Survey
import Mathlib

set_option autoImplicit false

namespace FrontendSurvey

def Analysis.withScan (a : Analysis) (scan : ScanWindow) : Analysis :=
  { a with
    report := { a.report with scan := scan }
    structureReport := { a.structureReport with scan := scan } }

namespace Survey

variable {d e : Disk} {s : Settings} {scan : ScanWindow} {a : Analysis}

structure Reading (d : Disk) (s : Settings) (scan : ScanWindow) (a : Analysis) where
  walked : Walked
  components : List Component
  code : List Code
  keys : List String
  brain : Option Brain
  source : d.isFolder s.source = true
  walk : d.walk s.root s.skipped s.source = .ok walked
  readComponents : walked.components.mapM (Component.read d s) = .ok components
  readCode : walked.code.mapM (Code.read d s) = .ok code
  readKeys : Env.keys d s.root = .ok keys
  readBrain : Brain.read d s s.brain = .ok brain
  result : a = {
    report := ⟨summarize d s components code keys brain, components, code, scan⟩
    structureReport := .ofView scan walked.tree (TreeNode.view (label s.source) walked.tree)
    viewLines := TreeNode.view (label s.source) walked.tree }

theorem Reading.analyze (r : Reading d s scan a) : analyze d s scan = .ok a := by
  rw [r.result]
  simp [Survey.analyze, r.source, r.walk, r.readComponents, r.readCode, r.readKeys, r.readBrain, bind,
    Except.bind, pure, Except.pure]

theorem reading_of_analyze (analyzed : analyze d s scan = .ok a) : Nonempty (Reading d s scan a) := by
  unfold Survey.analyze at analyzed
  simp only [bind, Except.bind] at analyzed
  split at analyzed
  next => cases analyzed
  next source =>
    cases walk : d.walk s.root s.skipped s.source with
    | error fault => simp [walk] at analyzed
    | ok walked =>
      cases components : walked.components.mapM (Component.read d s) with
      | error fault => simp [walk, components] at analyzed
      | ok readComponents =>
        cases code : walked.code.mapM (Code.read d s) with
        | error fault => simp [walk, components, code] at analyzed
        | ok readCode =>
          cases keys : Env.keys d s.root with
          | error fault => simp [walk, components, code, keys] at analyzed
          | ok readKeys =>
            cases brain : Brain.read d s s.brain with
            | error fault => simp [walk, components, code, keys, brain] at analyzed
            | ok readBrain =>
              simp only [walk, components, code, keys, brain, pure, Except.pure, Except.ok.injEq]
                at analyzed
              exact ⟨{
                walked := walked, components := readComponents, code := readCode, keys := readKeys
                brain := readBrain, source := by simpa using source, walk := walk
                readComponents := components, readCode := code, readKeys := keys, readBrain := brain
                result := analyzed.symm }⟩

theorem keys_of_none {names : List Name} {root : Path} (beside : d.list root = .ok names)
    (other : ∀ name ∈ names, Env.isEnvName name = false) : Env.keys d root = .ok [] := by
  have none : (names.filter fun name => Env.isEnvName name && d.isFile (root / name)) = [] := by
    rw [List.filter_eq_nil_iff]
    intro name member
    simp [other name member]
  simp [Env.keys, Env.files, beside, none, Except.map, Except.mapError, bind, Except.bind, pure, Except.pure]

-- With no file to be read, nothing can fail.
theorem analyze_of_empty {names : List Name} (inside : d.list s.source = .ok [])
    (beside : d.list s.root = .ok names) (other : ∀ name ∈ names, Env.isEnvName name = false)
    (absent : d.present s.brain = false) (scan : ScanWindow) : ∃ a, analyze d s scan = .ok a := by
  obtain ⟨loc, found, -⟩ := Disk.list_iff.1 inside
  have folder : d.isFolder s.source = true := Disk.isFolder_iff.2 ⟨loc, found⟩
  have walked : d.walk s.root s.skipped s.source = .ok (.join []) :=
    Disk.walk_of_files s.root s.skipped (fun _ => .start2025) inside (by simp) .nil (by simp)
  simp [analyze, folder, walked, keys_of_none beside other, Brain.read, absent, Walked.join, bind, Except.bind, pure,
    Except.pure]

theorem analyze_missing (outside : d.isFolder s.source = false) :
    analyze d s scan = .error (.missingSource s.source) := by
  simp only [analyze, outside, Bool.not_false, if_true, bind, Except.bind, throw, throwThe,
    MonadExceptOf.throw]

theorem analyze_later (d : Disk) (s : Settings) (scan later : ScanWindow) :
    analyze d s later = (analyze d s scan).map (·.withScan later) := by
  have step {α : Type} (first : Except Fault α) (next : α → Except Fault Analysis) :
      (first >>= next).map (·.withScan later) = first >>= fun x => (next x).map (·.withScan later) := by
    cases first <;> rfl
  cases inside : d.isFolder s.source with
  | false =>
    simp only [analyze, inside, Bool.not_false, if_true]
    rfl
  | true =>
    simp only [analyze, inside, Bool.not_true, Bool.false_eq_true, if_false, step]
    rfl

theorem analyze_withScan (analyzed : analyze d s scan = .ok a) (later : ScanWindow) :
    analyze d s later = .ok (a.withScan later) := by
  rw [analyze_later d s scan later, analyzed]
  rfl

theorem analyze_congr (inside : d.isFolder s.source = true) (inside' : e.isFolder s.source = true)
    (walk : e.walk s.root s.skipped s.source = d.walk s.root s.skipped s.source)
    (texts : ∀ walked, d.walk s.root s.skipped s.source = .ok walked → ∀ path ∈ walked.code,
      e.need path = d.need path)
    (keys : Env.keys e s.root = Env.keys d s.root)
    (brain : Brain.read e s s.brain = Brain.read d s s.brain)
    (tsconfigs : Tsconfig.readAll e s.root s.tsconfigs = Tsconfig.readAll d s.root s.tsconfigs)
    (plugin : Framework.plugin? e s.plugins = Framework.plugin? d s.plugins) :
    analyze e s scan = analyze d s scan := by
  have summary : summarize e s = summarize d s := by
    funext components code keys brain
    simp only [summarize, Framework.detect, tsconfigs, plugin]
  cases walked : d.walk s.root s.skipped s.source with
  | error fault =>
    simp only [analyze, inside, inside', walk, walked, Bool.not_true, Bool.false_eq_true, if_false, bind,
      Except.bind]
  | ok result =>
    have components : result.components.mapM (Component.read e s) =
        result.components.mapM (Component.read d s) := by
      apply mapM_congr
      intro path member
      rw [Component.read, Component.read, texts result walked path (Disk.components_subset walked member)]
    have code : result.code.mapM (Code.read e s) = result.code.mapM (Code.read d s) := by
      apply mapM_congr
      intro path member
      rw [Code.read, Code.read, texts result walked path member]
    simp only [analyze, inside, inside', walk, walked, summary, components, code, keys, brain, bind,
      Except.bind]

theorem brain_alike (alike : Disk.AlikeAt d e .inside s.brain) :
    Brain.read e s s.brain = Brain.read d s s.brain := by
  rw [Brain.read, Brain.read, alike.present, Disk.need_of_stat alike.stat_inside]

theorem tsconfigs_alike (alike : ∀ candidate ∈ s.tsconfigs, Disk.AlikeAt d e .inside (s.root / candidate)) :
    Tsconfig.readAll e s.root s.tsconfigs = Tsconfig.readAll d s.root s.tsconfigs := by
  apply List.filterMap_congr
  intro candidate member
  have stat := (alike candidate member).stat_inside
  rw [Tsconfig.read?, Tsconfig.read?, Tsconfig.document?, Tsconfig.document?, Disk.readText, Disk.readText, stat]

theorem plugin_alike (alike : ∀ plugin ∈ s.plugins, Disk.AlikeAt d e .inside plugin) :
    Framework.plugin? e s.plugins = Framework.plugin? d s.plugins := by
  apply List.find?_congr
  intro plugin member
  exact (alike plugin member).present

theorem Reading.root (r : Reading d s scan a) : ∃ loc, d.find .look s.root = .ok (.taken loc .folder) := by
  have keys := r.readKeys
  rw [Env.keys, Env.files] at keys
  cases listed : d.list s.root with
  | error why => simp [listed, Except.map, Except.mapError, bind, Except.bind] at keys
  | ok names =>
    obtain ⟨loc, found, -⟩ := Disk.list_iff.1 listed
    exact ⟨loc, found⟩

def reports (s : Settings) (a : Analysis) : List (Path × String) :=
  [(s.reportFile, a.report.text), (s.structureFile, a.structureReport.text),
    (s.viewFile, a.structureReport.viewText)]

theorem run_eq_ok_iff {after : Disk} {now : Instant} {o : Outcome} :
    run d s scan now = (after, .ok o) ↔ ∃ a, analyze d s scan = .ok a ∧ save d s now a = (after, none) ∧
      o = ⟨a.report, a.structureReport, a.viewLines, ⟨s.reportFile, s.structureFile, s.viewFile⟩⟩ := by
  unfold run
  cases analyze d s scan with
  | error fault => simp
  | ok a =>
    cases saved : save d s now a with
    | mk e outcome => cases outcome <;> simp [saved, eq_comm]

end Survey

end FrontendSurvey
