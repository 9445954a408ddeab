import FrontendSurvey.Tree.Walk
import Mathlib.Data.List.Sort

set_option autoImplicit false

namespace FrontendSurvey

inductive Outline where
  | folder (name : Name) (entries : List Outline)
  | file (name : Name) (modified : Instant)

namespace Outline

def name : Outline → Name
  | folder name _ => name
  | file name _ => name

mutual

def node (root above : Path) : Outline → TreeNode
  | folder name entries =>
    .folder ((above / name).relativeTo root) (nodes root (above / name) entries)
  | file name modified => .file ((above / name).relativeTo root) modified.iso

def nodes (root above : Path) : List Outline → List TreeNode
  | [] => []
  | entry :: rest => entry.node root above :: nodes root above rest

end

mutual

def files (above : Path) : Outline → List (Path × Name)
  | folder name entries => filesOfAll (above / name) entries
  | file name _ => [(above / name, name)]

def filesOfAll (above : Path) : List Outline → List (Path × Name)
  | [] => []
  | entry :: rest => entry.files above ++ filesOfAll above rest

end

mutual

def places : Outline → List (List Name)
  | folder name entries => [name] :: (placesOfAll entries).map (name :: ·)
  | file name _ => [[name]]

def placesOfAll : List Outline → List (List Name)
  | [] => []
  | entry :: rest => entry.places ++ placesOfAll rest

end

end Outline

def Name.Before (a b : Name) : Prop := a.bytes < b.bytes

theorem Name.eq_of_bytes {a b : Name} (same : a.bytes = b.bytes) : a = b := by
  obtain ⟨⟨bytes⟩, ok⟩ := a
  obtain ⟨⟨bytes'⟩, ok'⟩ := b
  cases same
  rfl

theorem Name.before_of_le {a b : Name} (le : a.bytes ≤ b.bytes) (differ : a ≠ b) : a.Before b := by
  rcases Decidable.em (a.bytes < b.bytes) with less | above
  · exact less
  · exact absurd (Name.eq_of_bytes (List.le_antisymm le (List.not_lt.1 above))) differ

theorem Name.pairwise_mergeSort {names : List Name} (distinct : names.Nodup) :
    (names.mergeSort fun a b => a.bytes ≤ b.bytes).Pairwise Name.Before := by
  have sorted : (names.mergeSort fun a b => a.bytes ≤ b.bytes).Pairwise fun a b =>
      decide (a.bytes ≤ b.bytes) = true := by
    refine List.pairwise_mergeSort (fun a b c first second => ?_) (fun a b => ?_) names
    · rw [decide_eq_true_eq] at first second ⊢
      exact List.le_trans first second
    · simpa using List.le_total a.bytes b.bytes
  have apart := (List.mergeSort_perm names fun a b => decide (a.bytes ≤ b.bytes)).nodup_iff.2 distinct
  refine (sorted.and apart).imp fun {a b} ordered => ?_
  exact Name.before_of_le (by simpa using ordered.1) ordered.2

instance : Std.Irrefl Name.Before := ⟨fun a => List.lt_irrefl a.bytes⟩

instance : Std.Antisymm Name.Before := ⟨fun _ _ before after => absurd after (List.lt_asymm before)⟩

namespace Disk

structure Lists (d : Disk) (skipped : List String) (folder : Location) (names : List Name) : Prop where
  ascending : names.Pairwise Name.Before
  exact : ∀ name, name ∈ names ↔ d.node? (name :: folder) ≠ none ∧ name.text ∉ skipped

inductive Outlines (d : Disk) (skipped : List String) : Location → List Outline → Prop where
  | intro (folder : Location) (entries : List Outline)
      (lists : d.Lists skipped folder (entries.map Outline.name))
      (files : ∀ name modified, .file name modified ∈ entries →
        ∃ text, d.node? (name :: folder) = some (.entry (.file text modified)))
      (folders : ∀ name inner, .folder name inner ∈ entries → d.node? (name :: folder) = some .folder)
      (below : ∀ name inner, .folder name inner ∈ entries →
        Outlines d skipped (name :: folder) inner) :
      Outlines d skipped folder entries

variable {d : Disk} {skipped : List String} {folder : Location}

theorem Lists.unique {names others : List Name} (lists : d.Lists skipped folder names)
    (again : d.Lists skipped folder others) : names = others :=
  lists.ascending.eq_of_mem_iff again.ascending fun name =>
    (lists.exact name).trans (again.exact name).symm

end Disk

namespace Outline

theorem eq_of_names {entries others : List Outline}
    (names : entries.map Outline.name = others.map Outline.name)
    (same : ∀ entry ∈ entries, ∀ other ∈ others, entry.name = other.name → entry = other) :
    entries = others := by
  induction entries generalizing others with
  | nil => exact (List.map_eq_nil_iff.1 names.symm).symm
  | cons entry entries ih =>
    cases others with
    | nil => cases names
    | cons other others =>
      obtain ⟨first, rest⟩ := List.cons.inj names
      rw [same entry (by simp) other (by simp) first,
        ih rest fun a inside b there => same a (by simp [inside]) b (by simp [there])]

theorem mem_placesOfAll {entries : List Outline} {place : List Name} :
    place ∈ placesOfAll entries ↔ ∃ entry ∈ entries, place ∈ entry.places := by
  induction entries with
  | nil => simp [placesOfAll]
  | cons entry entries ih => simp [placesOfAll, ih]

theorem mem_filesOfAll {above : Path} {entries : List Outline} {file : Path × Name} :
    file ∈ filesOfAll above entries ↔ ∃ entry ∈ entries, file ∈ entry.files above := by
  induction entries with
  | nil => simp [filesOfAll]
  | cons entry entries ih => simp [filesOfAll, ih]

theorem head?_of_mem_places {entry : Outline} {place : List Name} (member : place ∈ entry.places) :
    place.head? = some entry.name := by
  cases entry with
  | folder name entries =>
    rw [places, List.mem_cons, List.mem_map] at member
    rcases member with rfl | ⟨_, -, rfl⟩ <;> rfl
  | file name modified =>
    rw [places, List.mem_singleton] at member
    rw [member]
    rfl

theorem nodup_placesOfAll {entries : List Outline} (names : (entries.map Outline.name).Nodup)
    (each : ∀ entry ∈ entries, entry.places.Nodup) : (placesOfAll entries).Nodup := by
  induction entries with
  | nil => exact List.nodup_nil
  | cons entry entries ih =>
    obtain ⟨fresh, names⟩ := List.nodup_cons.1 names
    rw [placesOfAll, List.nodup_append]
    refine ⟨each entry (by simp), ih names fun other inside => each other (by simp [inside]), ?_⟩
    rintro place first _ later rfl
    obtain ⟨other, inside, there⟩ := mem_placesOfAll.1 later
    have same : entry.name = other.name := by
      rw [← Option.some.injEq, ← head?_of_mem_places first, head?_of_mem_places there]
    exact fresh (List.mem_map.2 ⟨other, inside, same.symm⟩)

end Outline

namespace Disk

variable {d : Disk} {skipped : List String} {folder : Location}

theorem Outlines.unique {entries others : List Outline} (outlines : d.Outlines skipped folder entries)
    (again : d.Outlines skipped folder others) : entries = others := by
  induction outlines generalizing others with
  | intro folder entries lists files folders below ih =>
    obtain ⟨_, _, lists', files', folders', below'⟩ := again
    apply Outline.eq_of_names (lists.unique lists')
    intro entry inside other there same
    match entry, other, same with
    | .folder name inner, .folder _ inner', rfl => rw [ih name inner inside (below' name inner' there)]
    | .file name modified, .file _ modified', rfl =>
      obtain ⟨text, file⟩ := files name modified inside
      obtain ⟨text', file'⟩ := files' name modified' there
      rw [file] at file'
      cases file'
      rfl
    | .folder name inner, .file _ modified, rfl =>
      obtain ⟨text, file⟩ := files' name modified there
      rw [folders name inner inside] at file
      cases file
    | .file name modified, .folder _ inner, rfl =>
      obtain ⟨text, file⟩ := files name modified inside
      rw [folders' name inner there] at file
      cases file

theorem Outlines.nodup {entries : List Outline} (outlines : d.Outlines skipped folder entries) :
    (Outline.placesOfAll entries).Nodup := by
  induction outlines with
  | intro folder entries lists files folders below ih =>
    apply Outline.nodup_placesOfAll lists.ascending.nodup
    intro entry inside
    match entry with
    | .file name modified => exact List.nodup_singleton [name]
    | .folder name inner =>
      have deeper : [] ∉ Outline.placesOfAll inner := by
        intro member
        obtain ⟨_, -, there⟩ := Outline.mem_placesOfAll.1 member
        cases Outline.head?_of_mem_places there
      rw [Outline.places, List.nodup_cons]
      exact ⟨by simpa using deeper, (ih name inner inside).map (List.cons_injective)⟩

end Disk

end FrontendSurvey
