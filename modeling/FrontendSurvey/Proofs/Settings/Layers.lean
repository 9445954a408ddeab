import FrontendSurvey.CommandLine.Options
import FrontendSurvey.Proofs.Settings.Built
import FrontendSurvey.Proofs.Text.FirstSeen

set_option autoImplicit false

namespace FrontendSurvey

namespace Settings

variable {names : List String} {name : String}

theorem addName_of_mem (known : name ∈ names) : addName names name = names := by
  rw [addName, if_pos (List.contains_iff_mem.2 known)]

theorem addName_of_not_mem (new : name ∉ names) : addName names name = names ++ [name] := by
  rw [addName, if_neg (mt List.contains_iff_mem.1 new)]

theorem foldl_addName (names extra : List String) :
    extra.foldl addName names = names ++ (extra.filter (!names.contains ·)).eraseDups := by
  -- a name that is added is known to the rest, which is what leaving out its repetitions comes to
  induction extra generalizing names with
  | nil => simp
  | cons name rest ih =>
    by_cases known : name ∈ names
    next => rw [List.foldl_cons, addName_of_mem known, ih, List.filter_cons_of_neg (by simpa using known)]
    next =>
      have grown : (!(names ++ [name]).contains ·) = fun x => (!x == name) && !names.contains x := by
        funext x
        by_cases same : x = name <;> simp [same]
      rw [List.foldl_cons, addName_of_not_mem known, ih, List.filter_cons_of_pos (by simpa using known),
        List.eraseDups_cons, List.filter_filter, grown, List.append_assoc, List.singleton_append]

theorem mem_foldl_addName {extra : List String} :
    name ∈ extra.foldl addName names ↔ name ∈ names ∨ name ∈ extra := by
  rw [foldl_addName, List.mem_append, Text.mem_eraseDups_filter]
  by_cases known : name ∈ names <;> simp [known]

theorem nodup_foldl_addName (once : names.Nodup) (extra : List String) : (extra.foldl addName names).Nodup := by
  have added := Text.firstSeen_eraseDups (!names.contains ·) extra
  rw [foldl_addName]
  refine List.nodup_append.2 ⟨once, added.once, ?_⟩
  rintro name known _ member rfl
  simpa [known] using ((added.mem_iff name).1 member).2

theorem foldl_addName_again (names extra : List String) :
    extra.foldl addName (extra.foldl addName names) = extra.foldl addName names := by
  have known : extra.filter (!(extra.foldl addName names).contains ·) = [] := by
    refine List.filter_eq_nil_iff.2 fun name member => ?_
    simpa using mem_foldl_addName.2 (.inr member)
  rw [foldl_addName (extra.foldl addName names), known, List.eraseDups_nil, List.append_nil]

theorem withOverrides_again (s : Settings) (file : Overrides) :
    (s.withOverrides file).withOverrides file = s.withOverrides file := by
  obtain ⟨source, memory, brain, extra, lineLimit⟩ := file
  simp only [withOverrides, withPaths, foldl_addName_again]
  cases source <;> cases memory <;> cases brain <;> cases lineLimit <;> rfl

end Settings

namespace CommandLine.Options

structure Layered (o : Options) (file : Overrides) (s : Settings) : Prop where
  root : s.root = ⟨o.root⟩
  source : s.source = s.root / (o.source.or file.source).getD "src"
  memory : s.memory = s.root / (o.memory.or file.memory).getD "ADD/memory"
  brain : s.brain = s.root / (o.brain.or file.brain).getD "ADD/brain.ts"
  plugins : s.plugins = [s.source / "plugins" / "vuetify.ts", s.source / "plugins" / "vuetify.js"]
  tsconfigs : s.tsconfigs = Settings.defaultTsconfigs
  skipped : ∃ extra, s.skipped = Settings.defaultSkipped ++ extra ∧
    Text.FirstSeen (!Settings.defaultSkipped.contains ·) extra file.skipped
  once : s.skipped.Nodup
  lineLimit : s.lineLimit = file.lineLimit.getD 400

variable {o : Options} {file : Overrides} {s t : Settings}

theorem Layered.unique (layered : o.Layered file s) (other : o.Layered file t) : s = t := by
  obtain ⟨extra, skipped, seen⟩ := layered.skipped
  obtain ⟨extra', skipped', seen'⟩ := other.skipped
  have root : s.root = t.root := layered.root.trans other.root.symm
  have source : s.source = t.source := by rw [layered.source, other.source, root]
  have memory : s.memory = t.memory := by rw [layered.memory, other.memory, root]
  have brain : s.brain = t.brain := by rw [layered.brain, other.brain, root]
  have plugins : s.plugins = t.plugins := by rw [layered.plugins, other.plugins, source]
  have tsconfigs : s.tsconfigs = t.tsconfigs := layered.tsconfigs.trans other.tsconfigs.symm
  have names : s.skipped = t.skipped := by rw [skipped, skipped', seen.unique seen']
  have lineLimit : s.lineLimit = t.lineLimit := layered.lineLimit.trans other.lineLimit.symm
  cases s
  cases t
  exact (Settings.mk.injEq ..).mpr ⟨root, source, memory, brain, plugins, tsconfigs, names, lineLimit⟩

theorem layered_withPaths (o : Options) (file : Overrides) :
    o.Layered file (((Settings.forRoot ⟨o.root⟩).withOverrides file).withPaths
      (o.source.map .mk) (o.memory.map .mk) (o.brain.map .mk)) := by
  have regular := (Settings.Built.withPaths (o.source.map .mk) (o.memory.map .mk) (o.brain.map .mk)
    (.withOverrides file (.forRoot ⟨o.root⟩))).regular
  refine ⟨?root, ?source, ?memory, ?brain, regular.plugins, regular.tsconfigs, ?skipped, ?once, ?lineLimit⟩
  all_goals simp only [Settings.withOverrides, Settings.withPaths]
  case root => rfl
  case source => cases o.source <;> cases file.source <;> rfl
  case memory => cases o.memory <;> cases file.memory <;> rfl
  case brain => cases o.brain <;> cases file.brain <;> rfl
  case skipped => exact ⟨_, Settings.foldl_addName _ _, Text.firstSeen_eraseDups _ _⟩
  case once =>
    have once : Settings.defaultSkipped.Nodup := by decide
    exact Settings.nodup_foldl_addName once file.skipped
  case lineLimit => rfl

theorem settings_layered :
    (∀ (o : Options) (file : Overrides) (s : Settings), o.Layered file s ↔
      s = ((Settings.forRoot ⟨o.root⟩).withOverrides file).withPaths
        (o.source.map .mk) (o.memory.map .mk) (o.brain.map .mk)) ∧
    (∀ (o : Options) (d : Disk), o.Layered (.load d ⟨o.root⟩) (o.settings d)) ∧
    ∀ (s : Settings) (file : Overrides), (s.withOverrides file).withOverrides file = s.withOverrides file := by
  refine ⟨fun o file s => ⟨fun layered => ?_, ?_⟩, fun o d => ?_, Settings.withOverrides_again⟩
  · exact layered.unique (layered_withPaths o file)
  · rintro rfl
    exact layered_withPaths o file
  · exact layered_withPaths o (.load d ⟨o.root⟩)

-- The command line has the last word on the source directory, the file moves the reports, and nobody the brain file.
example :
    ((Settings.forRoot ⟨"p"⟩).withOverrides
        ⟨some "app", some "/out", none, ["tmp", "dist", "tmp"], none⟩).withPaths (some ⟨"web"⟩) none none =
      ⟨⟨"p"⟩, ⟨"p/web"⟩, ⟨"/out"⟩, ⟨"p/ADD/brain.ts"⟩, [⟨"p/web/plugins/vuetify.ts"⟩, ⟨"p/web/plugins/vuetify.js"⟩],
        Settings.defaultTsconfigs, ["node_modules", ".git", "dist", "coverage", "tmp"], 400⟩ := by
  decide +kernel

end CommandLine.Options

end FrontendSurvey
