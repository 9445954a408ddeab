import FrontendSurvey.Proofs.Disk.Passing
import FrontendSurvey.Proofs.Env.Values
import FrontendSurvey.Proofs.Tree.Descent

set_option autoImplicit false

namespace FrontendSurvey.Env

open Disk

structure Names (d : Disk) (root : Path) (names : List Name) : Prop where
  ascending : names.Pairwise Name.Before
  exact : ∀ name, name ∈ names ↔ d.isFolder root = true ∧ ".env".toList <+: name.text.toList ∧
    d.isFile (root / name) = true

variable {d e : Disk} {view : View} {root : Path} {names others : List Name}

theorem isEnvName_iff {name : Name} :
    isEnvName name = true ↔ ".env".toList <+: name.text.toList := by
  rw [isEnvName, List.isPrefixOf_iff_prefix]

theorem Names.unique (first : Names d root names) (second : Names d root others) : names = others :=
  first.ascending.eq_of_mem_iff second.ascending fun name =>
    (first.exact name).trans (second.exact name).symm

theorem mem_entries {entries : List Name} {name : Name} (listed : d.list root = .ok entries)
    (file : d.isFile (root / name) = true) : name ∈ entries := by
  obtain ⟨loc, found, rfl⟩ := list_iff.1 listed
  obtain ⟨place, text, modified, there⟩ := isFile_iff.1 file
  exact mem_namesIn.2 (node?_of_find_child found there)

theorem files_of_folder (inside : d.isFolder root = true) :
    ∃ names, Names d root names ∧ files d root = .ok (names.map (root / ·)) := by
  obtain ⟨loc, found⟩ := isFolder_iff.1 inside
  refine ⟨_, ⟨Name.pairwise_mergeSort ((nodup_namesIn d loc).filter _), fun name => ?_⟩,
    by rw [files, list_eq found]; rfl⟩
  simp only [List.mem_mergeSort, List.mem_filter, Bool.and_eq_true, isEnvName_iff, inside, true_and]
  exact ⟨fun within => within.2, fun named => ⟨mem_entries (list_eq found) named.2, named⟩⟩

theorem Names.files (named : Names d root names) (inside : d.isFolder root = true) :
    files d root = .ok (names.map (root / ·)) := by
  obtain ⟨others, again, found⟩ := files_of_folder inside
  rw [found, again.unique named]

theorem exists_names (d : Disk) (root : Path) : ∃ names, Names d root names := by
  cases inside : d.isFolder root with
  | true =>
    obtain ⟨names, named, -⟩ := files_of_folder inside
    exact ⟨names, named⟩
  | false => exact ⟨[], List.Pairwise.nil, by simp [inside]⟩

theorem mem_files {paths : List Path} {path : Path} (found : files d root = .ok paths)
    (member : path ∈ paths) : ∃ name : Name, path = root / name ∧
      ".env".toList <+: name.text.toList ∧ d.isFile (root / name) = true := by
  cases listed : d.list root with
  | error why => simp [files, listed, Except.map] at found
  | ok all =>
    simp only [files, listed, Except.map, Except.ok.injEq] at found
    subst found
    obtain ⟨name, among, rfl⟩ := List.mem_map.1 member
    simp only [List.mem_mergeSort, List.mem_filter, Bool.and_eq_true, isEnvName_iff] at among
    exact ⟨name, rfl, among.2⟩

theorem keys_congr (same : files e root = files d root)
    (texts : ∀ name : Name, ".env".toList <+: name.text.toList → d.isFile (root / name) = true →
      e.need (root / name) = d.need (root / name)) : keys e root = keys d root := by
  rw [keys, keys, same]
  cases found : files d root with
  | error why => simp only [Except.mapError, bind, Except.bind]
  | ok paths =>
    have reads : paths.mapM e.need = paths.mapM d.need := by
      apply mapM_congr
      intro path member
      obtain ⟨name, rfl, prefixed, file⟩ := mem_files found member
      exact texts name prefixed file
    simp only [Except.mapError, bind, Except.bind, reads]

theorem list_error (outside : d.isFolder root = false) : ∃ why, d.list root = .error why := by
  cases listed : d.list root with
  | error why => exact ⟨why, rfl⟩
  | ok all =>
    obtain ⟨loc, found, -⟩ := list_iff.1 listed
    rw [isFolder_iff.2 ⟨loc, found⟩] at outside
    cases outside

theorem files_alike (alike : AlikeAt d e view root) (same : ∀ name : Name,
      ".env".toList <+: name.text.toList → e.isFile (root / name) = d.isFile (root / name)) :
    files e root = files d root := by
  cases inside : d.isFolder root with
  | true =>
    obtain ⟨names, named, found⟩ := files_of_folder inside
    have inside' : e.isFolder root = true := alike.isFolder.trans inside
    have again : Names e root names := by
      refine ⟨named.ascending, fun name => (named.exact name).trans ?_⟩
      rw [inside, inside']
      exact and_congr_right fun _ => and_congr_right fun env => by rw [same name env]
    rw [found, again.files inside']
  | false =>
    obtain ⟨why, refused⟩ := list_error inside
    simp only [files, refused, alike.list_error refused, Except.map]

end FrontendSurvey.Env
