import FrontendSurvey.Proofs.Disk.Plain
import FrontendSurvey.Proofs.Path.Shown
import FrontendSurvey.Proofs.Survey.Readings
import FrontendSurvey.Proofs.Tree.Outline

set_option autoImplicit false

namespace FrontendSurvey

mutual

def TreeNode.paths : TreeNode → List String
  | .folder path children => path :: pathsOfAll children
  | .file path _ => [path]

def TreeNode.pathsOfAll : List TreeNode → List String
  | [] => []
  | node :: rest => node.paths ++ pathsOfAll rest

end

namespace Disk

variable {d : Disk} {loc folder : Location} {name : Name} {p : Path}

theorem le_foldl_max {sizes : List Nat} {n start : Nat} (low : n ≤ start ∨ n ∈ sizes) :
    n ≤ sizes.foldl max start := by
  induction sizes generalizing start with
  | nil => simpa using low
  | cons size sizes ih =>
    rw [List.foldl_cons]
    apply ih
    rcases low with low | member
    · omega
    · rcases List.mem_cons.1 member with rfl | later
      · omega
      · exact Or.inr later

theorem length_le_height {node : Node} (there : d.node? loc = some node) : loc.length ≤ d.height := by
  by_cases root : loc = []
  next => simp [root]
  next =>
    have member : (loc, node) ∈ d.nodes := mem_nodes_iff.2 ⟨root, there⟩
    exact le_foldl_max (Or.inr (List.mem_map.2 ⟨_, member, rfl⟩))

theorem mem_namesIn : name ∈ d.namesIn folder ↔ d.node? (name :: folder) ≠ none := by
  rw [Option.ne_none_iff_exists']
  simp only [namesIn, List.mem_filterMap, Prod.exists]
  constructor
  · rintro ⟨loc, node, member, named⟩
    cases loc with
    | nil => cases named
    | cons first above =>
      simp only [Option.ite_none_right_eq_some, Option.some.injEq] at named
      obtain ⟨rfl, rfl⟩ := named
      exact ⟨node, (mem_nodes_iff.1 member).2⟩
  · rintro ⟨node, there⟩
    exact ⟨name :: folder, node, mem_nodes_iff.2 ⟨by simp, there⟩, by simp⟩

theorem nodup_namesIn (d : Disk) (folder : Location) : (d.namesIn folder).Nodup := by
  have fromPlace : d.namesIn folder = (d.nodes.map (·.1)).filterMap fun loc =>
      if loc.tail = folder then loc.head? else none := by
    rw [List.filterMap_map, namesIn]
    congr 1
    funext entry
    rcases entry with ⟨_ | ⟨name, parent⟩, node⟩
    · simp
    · rfl
  rw [fromPlace]
  apply d.distinct.filterMap
  have place : ∀ {loc : Location} {name : Name},
      name ∈ (if loc.tail = folder then loc.head? else none) → loc = name :: folder := by
    intro loc name named
    rw [Option.mem_def, Option.ite_none_right_eq_some] at named
    rw [← named.1, List.cons_head?_tail named.2]
  intro loc other name first second
  rw [place first, place second]

theorem list_eq (inside : d.find .look p = .ok (.taken loc .folder)) :
    d.list p = .ok (d.namesIn loc) :=
  list_iff.2 ⟨loc, inside, rfl⟩

theorem lists_walkNames (skipped : List String)
    (inside : d.find .look p = .ok (.taken loc .folder)) :
    ∃ names, d.walkNames skipped p = .ok names ∧ d.Lists skipped loc names := by
  refine ⟨_, by rw [walkNames, list_eq inside]; rfl, ?_, ?_⟩
  · exact Name.pairwise_mergeSort ((nodup_namesIn d loc).filter _)
  · intro name
    simp [mem_namesIn]

end Disk

namespace Outline

def walked (root above : Path) (entries : List Outline) : Walked where
  tree := nodes root above entries
  components := ((filesOfAll above entries).filter (Walked.isComponent ·.2)).map (·.1)
  code := ((filesOfAll above entries).filter (Walked.isCode ·.2)).map (·.1)

theorem join_cons_walked (root above : Path) (entry : Outline) (entries : List Outline)
    {parts : List Walked} (rest : Walked.join parts = walked root above entries) :
    Walked.join (walked root above [entry] :: parts) = walked root above (entry :: entries) := by
  have joined (part : Walked) : Walked.join (part :: parts) = ⟨part.tree ++ (Walked.join parts).tree,
      part.components ++ (Walked.join parts).components,
      part.code ++ (Walked.join parts).code⟩ := by
    simp [Walked.join]
  rw [joined, rest]
  simp [walked, nodes, filesOfAll]

theorem join_walked (root above : Path) (entries : List Outline) :
    Walked.join (entries.map fun entry => walked root above [entry]) = walked root above entries := by
  induction entries with
  | nil => rfl
  | cons entry entries ih => exact join_cons_walked root above entry entries ih

theorem walked_file (root above : Path) (name : Name) (modified : Instant) :
    walked root above [.file name modified] =
      .ofFile root (above / name) name modified := by
  simp only [walked, Walked.ofFile, nodes, node, filesOfAll, files, List.append_nil,
    List.filter_cons, List.filter_nil, Walked.mk.injEq, true_and]
  constructor <;> split <;> rfl

theorem walked_folder (root above : Path) (name : Name) (inner : List Outline) :
    walked root above [.folder name inner] =
      (walked root (above / name) inner).under ((above / name).relativeTo root) := by
  simp [walked, Walked.under, nodes, node, filesOfAll, files]

theorem exists_of_visits {visit : Name → Except Fault Walked} {result : Outline → Walked}
    {holds : Outline → Prop} {names : List Name}
    (each : ∀ name ∈ names, ∃ entry : Outline, entry.name = name ∧
      visit name = .ok (result entry) ∧ holds entry) :
    ∃ entries : List Outline, entries.map Outline.name = names ∧
      names.mapM visit = .ok (entries.map result) ∧ ∀ entry ∈ entries, holds entry := by
  induction names with
  | nil => exact ⟨[], rfl, rfl, by simp⟩
  | cons name names ih =>
    obtain ⟨entry, rfl, visited, here⟩ := each name (by simp)
    obtain ⟨entries, rfl, rest, there⟩ := ih fun other member => each other (by simp [member])
    refine ⟨entry :: entries, rfl, ?_, by simpa [here] using there⟩
    simp [List.mapM_cons, visited, rest, bind, Except.bind, pure, Except.pure]

end Outline

namespace Disk

variable {d : Disk}

-- The deeper a folder lies, the fewer levels are left below it.
theorem walkTo_eq (plain : d.LinkFree) (root : Path) (skipped : List String) {depth : Nat}
    {p : Path} {loc : Location} (inside : d.find .look p = .ok (.taken loc .folder))
    (deep : d.height < loc.length + depth) :
    ∃ entries, d.Outlines skipped loc entries ∧
      d.walkTo root skipped depth p = .ok (Outline.walked root p entries) := by
  induction depth generalizing p loc with
  | zero =>
    have bounded := length_le_height (find_sound inside)
    omega
  | succ depth ih =>
    obtain ⟨names, listed, lists⟩ := lists_walkNames skipped inside
    have each : ∀ name ∈ names, ∃ entry : Outline, entry.name = name ∧
        d.visit root (d.walkTo root skipped depth) p name = .ok (Outline.walked root p [entry]) ∧
        match entry with
        | .file name modified => ∃ text, d.node? (name :: loc) = some (.entry (.file text modified))
        | .folder name inner =>
          d.node? (name :: loc) = some .folder ∧ d.Outlines skipped (name :: loc) inner := by
      intro name member
      obtain ⟨entry, there⟩ := plain.entry ((lists.exact name).1 member).1
      have stat : d.stat (p / name) = .ok entry := by rw [stat_child plain inside, there]
      cases entry with
      | folder =>
        have child : d.find .look (p / name) = .ok (.taken (name :: loc) .folder) := by
          rw [find_child plain .look inside, spotAt, there]
        obtain ⟨inner, outlines, walked⟩ := ih child (by simpa using by omega)
        refine ⟨.folder name inner, rfl, ?_, there, outlines⟩
        simp only [visit, stat, walked, Outline.walked_folder]
        rfl
      | file text modified =>
        refine ⟨.file name modified, rfl, ?_, text, there⟩
        simp only [visit, stat, Outline.walked_file]
    obtain ⟨entries, rfl, visited, found⟩ := Outline.exists_of_visits each
    refine ⟨entries, ⟨loc, entries, lists, ?_, ?_, ?_⟩, ?_⟩
    · exact fun name modified member => found (.file name modified) member
    · exact fun name inner member => (found (.folder name inner) member).1
    · exact fun name inner member => (found (.folder name inner) member).2
    · simp only [walkTo, listed, Except.mapError, visited, bind, Except.bind, pure, Except.pure,
        Outline.join_walked]

theorem walk_eq (plain : d.LinkFree) (root : Path) (skipped : List String) {p : Path} {loc : Location}
    (inside : d.find .look p = .ok (.taken loc .folder)) :
    ∃ entries, d.Outlines skipped loc entries ∧
      d.walk root skipped p = .ok (Outline.walked root p entries) := by
  apply walkTo_eq plain root skipped inside
  simp only [reach, maxLinks]
  omega

theorem reach_eq (d : Disk) : d.reach = maxLinks * (d.height + 1) + d.height + 1 := by
  rw [reach, Nat.add_mul, Nat.one_mul, Nat.add_assoc]

theorem walk_of_files {p : Path} {names : List Name} (root : Path) (skipped : List String) (modified : Name → Instant)
    (listed : d.list p = .ok names) (kept : ∀ name ∈ names, name.text ∉ skipped)
    (ordered : names.Pairwise fun a b => a.bytes ≤ b.bytes)
    (files : ∀ name ∈ names, ∃ text, d.stat (p / name) = .ok (.file text (modified name))) :
    d.walk root skipped p = .ok (.join (names.map fun name => .ofFile root (p / name) name (modified name))) := by
  have all : names.filter (!skipped.contains ·.text) = names := by
    rw [List.filter_eq_self]
    intro name member
    simpa using kept name member
  have walked : d.walkNames skipped p = .ok names := by
    rw [walkNames, listed, Except.map, all, List.mergeSort_of_pairwise (by simpa using ordered)]
  have visited (below : Path → Except Fault Walked) : names.mapM (d.visit root below p) =
      .ok (names.map fun name => .ofFile root (p / name) name (modified name)) := by
    refine (mapM_congr fun name member => ?_).trans List.mapM_pure
    obtain ⟨text, there⟩ := files name member
    rw [visit, there]
    rfl
  rw [walk, reach_eq, walkTo, walked]
  simp [visited, Except.mapError, bind, Except.bind, pure, Except.pure]

end Disk

namespace Path

def below (above : Path) (place : List Name) : Path := place.foldl (fun p name => p / name) above

theorem steps_below (above : Path) (place : List Name) :
    (above.below place).steps = above.steps ++ place.map fun name => .name name.toRaw := by
  induction place generalizing above with
  | nil => simp [below]
  | cons name place ih =>
    have first : above.below (name :: place) = (above / name).below place := rfl
    rw [first, ih, steps_child]
    simp

theorem isAbsolute_below {above : Path} (begun : above.bytes ≠ []) (place : List Name) :
    (above.below place).isAbsolute = above.isAbsolute := by
  induction place generalizing above with
  | nil => rfl
  | cons name place ih =>
    exact (ih (text_child_ne above name)).trans (isAbsolute_child above name)

theorem within_join {root sub : Path} (begun : (root.join sub).bytes ≠ []) (place : List Name) :
    root.bytes = [] ∨ ((root.join sub).below place).isAbsolute = true ∨
      root.steps <+: ((root.join sub).below place).steps := by
  by_cases empty : root.bytes = []
  next => exact Or.inl empty
  next =>
    apply Or.inr
    cases absolute : sub.isAbsolute with
    | true => exact Or.inl (by rw [isAbsolute_below begun, join_of_absolute root absolute, absolute])
    | false =>
      rw [steps_below, steps_join empty absolute, List.append_assoc]
      exact Or.inr (List.prefix_append _ _)

-- Two places below one folder have the same path in a report only if their names are shown alike.
theorem names_of_relativeTo_eq {root sub : Path} (begun : (root.join sub).bytes ≠ []) {place other : List Name}
    (same : ((root.join sub).below place).relativeTo root = ((root.join sub).below other).relativeTo root) :
    place.map (·.text) = other.map (·.text) := by
  have steps := shown_steps_eq_of_relativeTo_eq (within_join begun place) (within_join begun other) same
  rw [steps_below, steps_below, List.map_append, List.map_append] at steps
  have names (place : List Name) : (place.map fun name => Step.name name.toRaw).map Step.shown =
      (place.map (·.text)).map fun text => .name (Raw.ofText text) := by
    simp [Step.shown, Raw.shown]
  have onward := List.append_cancel_left steps
  rw [names, names] at onward
  refine List.map_injective_iff.2 ?_ onward
  exact fun s t same => Raw.ofText_injective (Step.name.inj same)

end Path

namespace Outline

mutual

theorem paths_node (root above : Path) : (entry : Outline) →
    (entry.node root above).paths = entry.places.map fun place => (above.below place).relativeTo root
  | .folder name entries => by
    rw [node, TreeNode.paths, pathsOfAll_nodes root (above / name) entries, places]
    simp [Path.below, Function.comp_def]
  | .file name modified => by simp [node, TreeNode.paths, places, Path.below]

theorem pathsOfAll_nodes (root above : Path) : (entries : List Outline) →
    TreeNode.pathsOfAll (nodes root above entries) =
      (placesOfAll entries).map fun place => (above.below place).relativeTo root
  | [] => rfl
  | entry :: rest => by
    rw [nodes, TreeNode.pathsOfAll, paths_node root above entry, pathsOfAll_nodes root above rest,
      placesOfAll, List.map_append]

end

end Outline

structure Walked.Shows (walked : Walked) (root above : Path) (entries : List Outline) : Prop where
  tree : walked.tree = Outline.nodes root above entries
  paths : TreeNode.pathsOfAll walked.tree =
    (Outline.placesOfAll entries).map fun place => (above.below place).relativeTo root
  alike : ∀ place ∈ Outline.placesOfAll entries, ∀ other ∈ Outline.placesOfAll entries,
    (above.below place).relativeTo root = (above.below other).relativeTo root →
      place.map (·.text) = other.map (·.text)
  distinct : (∀ place ∈ Outline.placesOfAll entries, ∀ name ∈ place, name.IsText) →
    (TreeNode.pathsOfAll walked.tree).Nodup
  code : walked.code = ((Outline.filesOfAll above entries).filter fun file =>
    [".js", ".mjs", ".ts", ".tsx", ".vue"].any fun ending =>
      ending.toList.isSuffixOf file.2.text.toList).map (·.1)
  components : walked.components = (((Outline.filesOfAll above entries).filter fun file =>
    [".js", ".mjs", ".ts", ".tsx", ".vue"].any fun ending =>
      ending.toList.isSuffixOf file.2.text.toList).filter fun file =>
        ".vue".toList.isSuffixOf file.2.text.toList).map (·.1)

namespace Disk

theorem eq_of_texts {place other : List Name} (plain : ∀ name ∈ place, name.IsText)
    (plain' : ∀ name ∈ other, name.IsText) (same : place.map (·.text) = other.map (·.text)) :
    place = other := by
  have raws {place : List Name} (plain : ∀ name ∈ place, name.IsText) :
      place.map (·.toRaw) = (place.map (·.text)).map Raw.ofText := by
    rw [List.map_map]
    exact (List.map_congr_left fun name member => (plain name member).shown).symm
  have bytes : place.map (·.toRaw) = other.map (·.toRaw) := by rw [raws plain, raws plain', same]
  refine List.map_injective_iff.2 (fun a b same => ?_) bytes
  exact Name.eq_of_bytes (congrArg Raw.bytes same)

theorem shows_walked {d : Disk} {root sub : Path} {skipped : List String} {loc : Location}
    {entries : List Outline} (begun : (root.join sub).bytes ≠ [])
    (outlines : d.Outlines skipped loc entries) :
    (Outline.walked root (root.join sub) entries).Shows root (root.join sub) entries where
  tree := rfl
  paths := Outline.pathsOfAll_nodes root (root.join sub) entries
  alike _ _ _ _ same := Path.names_of_relativeTo_eq begun same
  distinct plain := by
    rw [Outline.walked, Outline.pathsOfAll_nodes]
    refine outlines.nodup.map_on fun place here other there same => ?_
    exact eq_of_texts (plain place here) (plain other there) (Path.names_of_relativeTo_eq begun same)
  code := rfl
  components := by
    have kept (file : Path × Name) : Walked.isComponent file.2 =
        (".vue".toList.isSuffixOf file.2.text.toList &&
          [".js", ".mjs", ".ts", ".tsx", ".vue"].any fun ending =>
            ending.toList.isSuffixOf file.2.text.toList) := by
      simp only [Walked.isComponent, Walked.endsIn, List.any_cons]
      cases ".vue".toList.isSuffixOf file.2.text.toList <;> simp
    rw [List.filter_filter]
    simp only [Outline.walked, kept]

theorem walk_exact {d : Disk} (plain : d.LinkFree) (root sub : Path) (skipped : List String)
    (there : d.isFolder (root.join sub) = true) :
    ∃ loc entries walked,
      d.find .look (root.join sub) = .ok (.taken loc .folder) ∧
      d.Outlines skipped loc entries ∧
      (∀ others, d.Outlines skipped loc others → others = entries) ∧
      d.walk root skipped (root.join sub) = .ok walked ∧
      walked.Shows root (root.join sub) entries := by
  obtain ⟨loc, inside⟩ := isFolder_iff.1 there
  obtain ⟨entries, outlines, walked⟩ := walk_eq plain root skipped inside
  exact ⟨loc, entries, Outline.walked root (root.join sub) entries, inside, outlines,
    fun others again => again.unique outlines, walked, shows_walked (text_ne_of_find inside) outlines⟩

def sourceName : Name := ⟨"s", by decide⟩

-- A folder named like a component, with a skipped folder below it, between a file and an empty folder.
def nested : Disk where
  here := []
  nodes := [([sourceName], .folder), ([⟨"z", by decide⟩, sourceName], .folder),
    ([⟨"m.vue", by decide⟩, sourceName], .folder),
    ([⟨"dist", by decide⟩, ⟨"m.vue", by decide⟩, sourceName], .folder),
    ([⟨"x.ts", by decide⟩, ⟨"dist", by decide⟩, ⟨"m.vue", by decide⟩, sourceName],
      .entry (.file (some "") .start2025)),
    ([⟨"a.js", by decide⟩, sourceName], .entry (.file none .start2025))]
  distinct := by decide
  housed := by simp [Housed, Node.folder]
  settled := Or.inl rfl

theorem walk_exact_nested :
    nested.LinkFree ∧ nested.isFolder ((Path.mk ".").join ⟨"s"⟩) = true ∧
      ∃ loc entries walked,
        nested.find .look ((Path.mk ".").join ⟨"s"⟩) = .ok (.taken loc .folder) ∧
        nested.Outlines ["dist"] loc entries ∧
        (∀ others, nested.Outlines ["dist"] loc others → others = entries) ∧
        nested.walk ⟨"."⟩ ["dist"] ((Path.mk ".").join ⟨"s"⟩) = .ok walked ∧
        walked.Shows ⟨"."⟩ ((Path.mk ".").join ⟨"s"⟩) entries := by
  have joined : (Path.mk ".").join ⟨"s"⟩ = ⟨"./s"⟩ := by decide +kernel
  have plain : nested.LinkFree := linkFree_iff.2 (by simp [nested, Node.folder])
  have there : nested.isFolder ((Path.mk ".").join ⟨"s"⟩) = true := by
    rw [joined]
    decide +kernel
  exact ⟨plain, there, walk_exact plain ⟨"."⟩ ⟨"s"⟩ ["dist"] there⟩

-- Two names that are no texts, and are shown as the same one.
def unread : Name := ⟨⟨[0x61, 0xFE, 0x2E, 0x74, 0x73]⟩, by decide⟩

def lookalike : Name := ⟨⟨[0x61, 0xFF, 0x2E, 0x74, 0x73]⟩, by decide⟩

def unreadable : Disk where
  here := []
  nodes := [([sourceName], .folder),
    ([unread, sourceName], .entry (.file (some "") .start2025)),
    ([lookalike, sourceName], .entry (.file (some "") .start2025))]
  distinct := by decide
  housed := by simp [Housed, Node.folder]
  settled := Or.inl rfl

def unreadableSource : Path := (Path.mk ".").join ⟨"s"⟩

theorem walk_unreadable {skipped : List String} (kept : "a\uFFFD.ts" ∉ skipped) :
    unreadable.walk ⟨"."⟩ skipped unreadableSource = .ok {
      tree := [.file "s/a\uFFFD.ts" "2025-01-01T00:00:00.000Z", .file "s/a\uFFFD.ts" "2025-01-01T00:00:00.000Z"]
      components := []
      code := [unreadableSource / unread, unreadableSource / lookalike] } := by
  have texts : unread.text = "a\uFFFD.ts" ∧ lookalike.text = "a\uFFFD.ts" := by decide +kernel
  have file : unreadable.stat (unreadableSource / unread) = .ok (.file (some "") .start2025) := by decide +kernel
  have twin : unreadable.stat (unreadableSource / lookalike) = .ok (.file (some "") .start2025) := by decide +kernel
  have inside : unreadable.list unreadableSource = .ok [unread, lookalike] := by rfl
  have walked := walk_of_files ⟨"."⟩ skipped (fun _ => .start2025) inside (by simp [texts, kept]) (by decide)
    (by simp [file, twin])
  have first : (unreadableSource / unread).relativeTo ⟨"."⟩ = "s/a\uFFFD.ts" := by decide +kernel
  have second : (unreadableSource / lookalike).relativeTo ⟨"."⟩ = "s/a\uFFFD.ts" := by decide +kernel
  have iso : Instant.start2025.iso = "2025-01-01T00:00:00.000Z" := by decide +kernel
  have kinds : Walked.isComponent unread = false ∧ Walked.isComponent lookalike = false ∧
      Walked.isCode unread = true ∧ Walked.isCode lookalike = true := by
    decide +kernel
  rw [walked]
  simp [first, second, iso, kinds, Walked.join, Walked.ofFile]

theorem walk_paths_not_distinct :
    unreadable.LinkFree ∧ unreadable.isFolder ((Path.mk ".").join ⟨"s"⟩) = true ∧
      ∃ walked, unreadable.walk ⟨"."⟩ [] ((Path.mk ".").join ⟨"s"⟩) = .ok walked ∧
        ¬(TreeNode.pathsOfAll walked.tree).Nodup := by
  have plain : unreadable.LinkFree := linkFree_iff.2 (by simp [unreadable, Node.folder])
  exact ⟨plain, by decide +kernel, _, walk_unreadable (by decide), by simp [TreeNode.pathsOfAll, TreeNode.paths]⟩

end Disk

end FrontendSurvey
