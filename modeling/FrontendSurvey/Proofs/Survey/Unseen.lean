import FrontendSurvey.Proofs.Env.Files
import FrontendSurvey.Proofs.Survey.Readings
import FrontendSurvey.Proofs.Survey.Saving
import FrontendSurvey.Proofs.Tree.Walk
import Mathlib.Data.List.Find

set_option autoImplicit false

namespace FrontendSurvey

namespace Disk

variable {d e : Disk} {skipped : List String} {loc : Location} {p : Path}

theorem Outlines.congr {entries : List Outline} (outlines : d.Outlines skipped loc entries)
    (agree : ∀ folder name, loc <:+ folder → e.node? (name :: folder) = d.node? (name :: folder)) :
    e.Outlines skipped loc entries := by
  induction outlines with
  | intro folder entries lists files folders below ih =>
    have same (name : Name) := agree folder name (List.suffix_refl folder)
    refine ⟨folder, entries, ⟨lists.ascending, fun name => ?_⟩, ?_, ?_, ?_⟩
    · rw [same name]
      exact lists.exact name
    · intro name modified member
      rw [same name]
      exact files name modified member
    · intro name inner member
      rw [same name]
      exact folders name inner member
    · intro name inner member
      exact ih name inner member fun place child within =>
        agree place child ((List.suffix_cons name folder).trans within)

theorem walk_agree (plain : d.LinkFree) (plain' : e.LinkFree) (root : Path)
    (skipped : List String) (inside : d.find .look p = .ok (.taken loc .folder))
    (inside' : e.find .look p = .ok (.taken loc .folder))
    (agree : ∀ folder name, loc <:+ folder → e.node? (name :: folder) = d.node? (name :: folder)) :
    e.walk root skipped p = d.walk root skipped p := by
  obtain ⟨entries, outlines, walked⟩ := walk_eq plain root skipped inside
  obtain ⟨others, again, walked'⟩ := walk_eq plain' root skipped inside'
  rw [walked, walked', again.unique (outlines.congr agree)]

theorem Outlines.folder_of_file (plain : d.LinkFree) {entries : List Outline}
    (outlines : d.Outlines skipped loc entries) (inside : d.find .look p = .ok (.taken loc .folder))
    {file : Path × Name} (member : file ∈ Outline.filesOfAll p entries) :
    ∃ above folder, d.find .look above = .ok (.taken folder .folder) ∧ loc <:+ folder ∧
      file.1 = above / file.2 := by
  induction outlines generalizing p with
  | intro place entries lists files folders below ih =>
    obtain ⟨entry, among, within⟩ := Outline.mem_filesOfAll.1 member
    match entry with
    | .file name modified =>
      rw [Outline.files, List.mem_singleton] at within
      subst within
      exact ⟨p, place, inside, List.suffix_refl place, rfl⟩
    | .folder name inner =>
      have child : d.find .look (p / name) = .ok (.taken (name :: place) .folder) := by
        rw [find_child plain .look inside, spotAt, folders name inner among]
        rfl
      obtain ⟨above, folder, found, deeper, path⟩ := ih name inner among child within
      exact ⟨above, folder, found, (List.suffix_cons name place).trans deeper, path⟩

end Disk

namespace Survey

open Disk

structure Reported (d e : Disk) (memory : Location) : Prop where
  here : e.here = d.here
  node : ∀ loc, e.node? loc = d.node? loc ∨
    (loc <:+ memory ∧ d.node? loc = none ∧ e.node? loc = some .folder) ∨
    (∃ name ∈ reportNames, loc = name :: memory) ∧ d.node? loc ≠ some .folder ∧
      ∃ text modified, e.node? loc = some (.entry (.file text modified))

variable {d e : Disk} {memory loc : Location}

theorem Reported.keeps (reported : Reported d e memory) : d.Keeps e := by
  intro loc folder
  rcases reported.node loc with same | ⟨-, missing, -⟩ | ⟨-, other, -⟩
  · rw [same, folder]
  · simp [missing] at folder
  · exact absurd folder other

theorem Reported.linkFree (reported : Reported d e memory) (plain : d.LinkFree) : e.LinkFree := by
  intro loc target there
  rcases reported.node loc with same | ⟨-, -, made⟩ | ⟨-, -, text, modified, file⟩
  · exact plain loc target (same ▸ there)
  · simp [made, Node.folder] at there
  · simp [file] at there

theorem Reported.apart (reported : Reported d e memory) (off : ¬ loc <:+ memory)
    (other : ∀ name ∈ reportNames, loc ≠ name :: memory) : e.node? loc = d.node? loc := by
  rcases reported.node loc with same | ⟨within, -, -⟩ | ⟨⟨name, member, same⟩, -⟩
  · exact same
  · exact absurd within off
  · exact absurd same (other name member)

theorem Reported.below (reported : Reported d e memory) {source : Location}
    (outside : ¬ source <:+ memory) (folder : Location) (name : Name) (within : source <:+ folder) :
    e.node? (name :: folder) = d.node? (name :: folder) := by
  refine reported.apart (fun above => ?_) (fun other member same => ?_)
  · exact outside ((within.trans (List.suffix_cons name folder)).trans above)
  · exact outside ((List.cons.inj same).2 ▸ within)

theorem Reported.other (reported : Reported d e memory) {name : Name} (folder : Location)
    (other : name ∉ reportNames) : e.node? (name :: folder) = d.node? (name :: folder) ∨
      d.node? (name :: folder) = none ∧ e.node? (name :: folder) = some .folder := by
  rcases reported.node (name :: folder) with same | ⟨-, made⟩ | ⟨⟨report, member, same⟩, -⟩
  · exact Or.inl same
  · exact Or.inr made
  · exact absurd ((List.cons.inj same).1 ▸ member) other

theorem Reported.find_folder (reported : Reported d e memory) (plain : d.LinkFree) {p : Path}
    (inside : d.find .look p = .ok (.taken loc .folder)) :
    e.find .look p = .ok (.taken loc .folder) :=
  reported.keeps.find_folder reported.here plain (reported.linkFree plain) inside

variable {p : Path} {skipped : List String}

theorem Reported.stat_file (reported : Reported d e memory) (plain : d.LinkFree)
    (outside : ¬ loc <:+ memory) (inside : d.find .look p = .ok (.taken loc .folder))
    {entries : List Outline} (outlines : d.Outlines skipped loc entries) {file : Path × Name}
    (member : file ∈ Outline.filesOfAll p entries) : e.stat file.1 = d.stat file.1 := by
  obtain ⟨above, folder, found, within, path⟩ := outlines.folder_of_file plain inside member
  rw [path, stat_child plain found, stat_child (reported.linkFree plain)
    (reported.find_folder plain found), reported.below outside folder file.2 within]

theorem isFile_child_iff (plain : d.LinkFree) (inside : d.find .look p = .ok (.taken loc .folder))
    (name : Name) : d.isFile (p / name) = true ↔
      ∃ text modified, d.node? (name :: loc) = some (.entry (.file text modified)) := by
  rw [Disk.isFile, stat_child plain inside]
  cases d.node? (name :: loc) with
  | none => simp
  | some node =>
    cases node with
    | link target => simp
    | entry entry => cases entry <;> simp

-- The files of the environment have other names than the reports, and a new folder is none of them.
theorem Reported.env_file_iff (reported : Reported d e memory) {name : Name} (loc : Location)
    (env : Env.isEnvName name = true) (entry : Entry) (file : entry ≠ .folder) :
    e.node? (name :: loc) = some (.entry entry) ↔ d.node? (name :: loc) = some (.entry entry) := by
  have others : ∀ report ∈ reportNames, Env.isEnvName report = false := by decide
  have other : name ∉ reportNames := by
    intro member
    rw [others name member] at env
    cases env
  rcases reported.other loc other with same | ⟨missing, made⟩
  · rw [same]
  · simpa [missing, made, Node.folder] using Ne.symm file

theorem Reported.env_isFile (reported : Reported d e memory) (plain : d.LinkFree)
    (inside : d.find .look p = .ok (.taken loc .folder)) (name : Name)
    (prefixed : ".env".toList <+: name.text.toList) :
    e.isFile (p / name) = d.isFile (p / name) := by
  have same (text : Option String) (modified : Instant) :=
    reported.env_file_iff loc (Env.isEnvName_iff.2 prefixed) (.file text modified) (by simp)
  rw [Bool.eq_iff_iff, isFile_child_iff plain inside,
    isFile_child_iff (reported.linkFree plain) (reported.find_folder plain inside)]
  simp only [same]

theorem Reported.env_need (reported : Reported d e memory) (plain : d.LinkFree)
    (inside : d.find .look p = .ok (.taken loc .folder)) (name : Name)
    (prefixed : ".env".toList <+: name.text.toList) (file : d.isFile (p / name) = true) :
    e.need (p / name) = d.need (p / name) := by
  obtain ⟨text, modified, there⟩ := (isFile_child_iff plain inside name).1 file
  apply need_of_stat
  rw [stat_child plain inside, stat_child (reported.linkFree plain) (reported.find_folder plain inside),
    there, (reported.env_file_iff loc (Env.isEnvName_iff.2 prefixed) _ (by simp)).2 there]

theorem Reported.env_keys (reported : Reported d e memory) (plain : d.LinkFree)
    (inside : d.find .look p = .ok (.taken loc .folder)) : Env.keys e p = Env.keys d p := by
  have alike : AlikeAt d e .inside p := alikeAt_of_folder inside (reported.find_folder plain inside)
  exact Env.keys_congr (Env.files_alike alike (reported.env_isFile plain inside))
    (reported.env_need plain inside)

theorem Reported.tsconfigs (reported : Reported d e memory) (plain : d.LinkFree)
    (inside : d.find .look p = .ok (.taken loc .folder)) :
    Tsconfig.readAll e p Settings.defaultTsconfigs = Tsconfig.readAll d p Settings.defaultTsconfigs := by
  have named : ∀ candidate ∈ Settings.defaultTsconfigs, ∃ name : Name,
      name.toRaw = candidate ∧ name ∉ reportNames := by
    intro candidate member
    simp only [Settings.defaultTsconfigs, List.mem_cons, List.not_mem_nil, or_false] at member
    rcases member with rfl | rfl | rfl
    · exact ⟨⟨"tsconfig.json", by decide⟩, rfl, by decide⟩
    · exact ⟨⟨"tsconfig.app.json", by decide⟩, rfl, by decide⟩
    · exact ⟨⟨"tsconfig.add.json", by decide⟩, rfl, by decide⟩
  apply List.filterMap_congr
  intro candidate member
  obtain ⟨name, same, other⟩ := named candidate member
  have child : p / candidate = p / name := congrArg (fun raw => p.join ⟨raw⟩) same.symm
  have document : Tsconfig.document? e (p / name) = Tsconfig.document? d (p / name) := by
    have before := stat_child plain inside name
    have after := stat_child (reported.linkFree plain) (reported.find_folder plain inside) name
    rcases reported.other loc other with same | ⟨missing, made⟩
    · rw [same] at after
      rw [Tsconfig.document?, Tsconfig.document?, Disk.readText, Disk.readText, before, after]
    · rw [missing] at before
      rw [made] at after
      simp only [Node.folder] at after
      simp [Tsconfig.document?, Disk.readText, before, after]
  rw [Tsconfig.read?, Tsconfig.read?, child, document]

theorem Reported.present_grandchild (reported : Reported d e memory) (plain : d.LinkFree)
    (outside : ¬ loc <:+ memory) (inside : d.find .look p = .ok (.taken loc .folder))
    (above name : Name) : e.present (p / above / name) =
      d.present (p / above / name) := by
  have begun := Path.text_child_ne p above
  have same := reported.below outside loc above (List.suffix_refl loc)
  have folder : e.find .look (p / above) = d.find .look (p / above) := by
    rw [find_child plain .look inside, find_child (reported.linkFree plain) .look
      (reported.find_folder plain inside), spotAt, spotAt, same]
  rw [Bool.eq_iff_iff, present_child_iff plain begun,
    present_child_iff (reported.linkFree plain) begun, folder]
  refine exists_congr fun place => and_congr_right fun there => ?_
  have within : loc <:+ place := by
    have last : place = d.locate (p / above) := find_loc plain there
    have first : loc = d.locate p := find_loc plain inside
    rw [last, locate_child, ← first]
    exact List.suffix_cons above loc
  rw [reported.below outside place name within]

theorem Reported.plugin (reported : Reported d e memory) (plain : d.LinkFree)
    (outside : ¬ loc <:+ memory) (inside : d.find .look p = .ok (.taken loc .folder)) :
    Framework.plugin? e (Settings.pluginsOf p) = Framework.plugin? d (Settings.pluginsOf p) := by
  have named : ∀ candidate ∈ Settings.pluginsOf p, ∃ above name : Name,
      candidate = p / above / name := by
    intro candidate member
    simp only [Settings.pluginsOf, List.mem_cons, List.not_mem_nil, or_false] at member
    rcases member with rfl | rfl
    · exact ⟨⟨"plugins", by decide⟩, ⟨"vuetify.ts", by decide⟩, rfl⟩
    · exact ⟨⟨"plugins", by decide⟩, ⟨"vuetify.js", by decide⟩, rfl⟩
  apply List.find?_congr
  intro candidate member
  obtain ⟨above, name, rfl⟩ := named candidate member
  exact reported.present_grandchild plain outside inside above name

theorem Reported.stat_brain (reported : Reported d e memory) (plain : d.LinkFree)
    (straight : Path.Step.up ∉ p.steps) (off : ¬ d.locate p <:+ memory)
    (other : ∀ name ∈ reportNames, d.locate p ≠ name :: memory) (entry : Entry) :
    e.stat p = .ok entry ↔ d.stat p = .ok entry := by
  have agree := reported.apart off other
  constructor
  · apply stat_agree (reported.linkFree plain) reported.here.symm straight
    rw [locate, reported.here, ← locate]
    exact agree.symm
  · exact stat_agree plain reported.here straight agree

theorem Reported.brain (reported : Reported d e memory) (plain : d.LinkFree) (s : Settings)
    (straight : Path.Step.up ∉ p.steps) (off : ¬ d.locate p <:+ memory)
    (other : ∀ name ∈ reportNames, d.locate p ≠ name :: memory) : Brain.read e s p = Brain.read d s p := by
  have same := reported.stat_brain plain straight off other
  cases before : d.stat p with
  | ok entry =>
    have after := (same entry).2 before
    have need : e.need p = d.need p := need_of_stat (after.trans before.symm)
    rw [Brain.read, Brain.read, present, present, after, before, need]
  | error why =>
    cases after : e.stat p with
    | ok entry =>
      rw [(same entry).1 after] at before
      cases before
    | error other =>
      simp only [Brain.read, present, before, after, Except.isOk, Except.toBool, Bool.false_eq_true,
        if_false]

theorem Reported.analyze (reported : Reported d e memory) (plain : d.LinkFree) {s : Settings}
    (tsconfigs : s.tsconfigs = Settings.defaultTsconfigs)
    (plugins : s.plugins = Settings.pluginsOf s.source)
    (outside : ¬ d.locate s.source <:+ memory)
    (straight : Path.Step.up ∉ s.brain.steps) (off : ¬ d.locate s.brain <:+ memory)
    (other : ∀ name ∈ reportNames, d.locate s.brain ≠ name :: memory)
    {scan : ScanWindow} {a : Analysis} (analyzed : analyze d s scan = .ok a) :
    Survey.analyze e s scan = .ok a := by
  obtain ⟨r⟩ := reading_of_analyze analyzed
  obtain ⟨source, inside⟩ := isFolder_iff.1 r.source
  obtain ⟨root, above⟩ := r.root
  have located : source = d.locate s.source := find_loc plain inside
  rw [← located] at outside
  have inside' := reported.find_folder plain inside
  have walk := walk_agree plain (reported.linkFree plain) s.root s.skipped inside inside'
    (reported.below outside)
  have texts (walked : Walked) (done : d.walk s.root s.skipped s.source = .ok walked) (path : Path)
      (member : path ∈ walked.code) : e.need path = d.need path := by
    obtain ⟨entries, outlines, shown⟩ := walk_eq plain s.root s.skipped inside
    obtain rfl := Except.ok.inj (shown.symm.trans done)
    obtain ⟨file, among, rfl⟩ := List.mem_map.1 member
    exact need_of_stat (reported.stat_file plain outside inside outlines (List.mem_filter.1 among).1)
  have readAll := reported.tsconfigs plain above
  have plugin := reported.plugin plain outside inside
  rw [← tsconfigs] at readAll
  rw [← plugins] at plugin
  rw [← analyzed]
  exact analyze_congr r.source (isFolder_iff.2 ⟨source, inside'⟩) walk texts
    (reported.env_keys plain above) (reported.brain plain s straight off other) readAll plugin

end Survey

end FrontendSurvey
