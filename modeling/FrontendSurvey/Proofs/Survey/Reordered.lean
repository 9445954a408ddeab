import FrontendSurvey.Proofs.Env.Files
import FrontendSurvey.Proofs.Survey.Failure

set_option autoImplicit false

namespace FrontendSurvey.Survey

open Disk

structure Reordered (d e : Disk) : Prop where
  here : e.here = d.here
  nodes : e.nodes.Perm d.nodes

variable {d e : Disk} {s : Settings}

theorem Reordered.node? (same : Reordered d e) (loc : Location) : e.node? loc = d.node? loc := by
  by_cases root : loc = []
  next => rw [root, node?_nil, node?_nil]
  next =>
    have entries (node : Node) : e.node? loc = some node ↔ d.node? loc = some node := by
      have there := same.nodes.mem_iff (a := (loc, node))
      rwa [mem_nodes_iff, mem_nodes_iff, and_iff_right root, and_iff_right root] at there
    exact Option.ext entries

theorem Reordered.alike (same : Reordered d e) (p : Path) : AlikeAt d e .inside p :=
  alikeAt_of_meets same.here fun place _ => by rw [same.node?]

theorem Reordered.walkNames (same : Reordered d e) (skipped : List String) (p : Path) :
    e.walkNames skipped p = d.walkNames skipped p := by
  cases inside : d.isFolder p with
  | true =>
    obtain ⟨loc, found⟩ := isFolder_iff.1 inside
    exact walkNames_eq found ((same.alike p).find_folder found) fun name _ => by rw [same.node?]
  | false =>
    obtain ⟨why, refused⟩ := Env.list_error inside
    rw [Disk.walkNames, Disk.walkNames, refused, (same.alike p).list_error refused]

theorem Reordered.walksAlike (same : Reordered d e) (skipped : List String) :
    WalksAlike d e .inside skipped fun _ => True where
  names p _ := same.walkNames skipped p
  entries p _ _ _ name _ := same.alike (p / name)
  onward _ _ _ _ := trivial

theorem Reordered.walk (same : Reordered d e) (root : Path) (skipped : List String) (folder : Path) :
    e.walk root skipped folder = d.walk root skipped folder :=
  (same.walksAlike skipped).walk_inside root trivial

theorem Reordered.need (same : Reordered d e) (p : Path) : e.need p = d.need p :=
  need_of_stat (same.alike p).stat_inside

theorem Reordered.keys (same : Reordered d e) (root : Path) : Env.keys e root = Env.keys d root := by
  have files : Env.files e root = Env.files d root :=
    Env.files_alike (same.alike root) fun name _ => (same.alike (root / name)).isFile
  exact Env.keys_congr files fun name _ _ => same.need (root / name)

theorem order_unseen (same : Reordered d e) :
    (∀ root skipped folder, e.walk root skipped folder = d.walk root skipped folder) ∧
    (∀ root, Env.keys e root = Env.keys d root) ∧
    ∀ s scan later, analyze e s later = (analyze d s scan).map (·.withScan later) := by
  refine ⟨same.walk, same.keys, fun s scan later => ?_⟩
  rw [← analyze_later]
  have source : e.isFolder s.source = d.isFolder s.source := (same.alike s.source).isFolder
  cases inside : d.isFolder s.source with
  | false => rw [analyze_missing inside, analyze_missing (source.trans inside)]
  | true =>
    exact analyze_congr inside (source.trans inside) (same.walk s.root s.skipped s.source)
      (fun _ _ path _ => same.need path) (same.keys s.root) (brain_alike (same.alike s.brain))
      (tsconfigs_alike fun candidate _ => same.alike (s.root / candidate))
      (plugin_alike fun plugin _ => same.alike plugin)

-- Two links that lead nowhere, and two environment files, in the order of their names and in the opposite one.
def ascending : Disk where
  here := []
  nodes := [([Env.envName], .entry (.file (some "A=1") .start2025)),
    ([⟨".env.test", by decide⟩], .entry (.file (some "B=1") .start2025)),
    ([sourceName], .folder),
    ([⟨"one.ts", by decide⟩, sourceName], .link ⟨"nowhere"⟩),
    ([⟨"two.ts", by decide⟩, sourceName], .link ⟨"elsewhere"⟩)]
  distinct := by decide
  housed := by simp [Housed, Node.folder]
  settled := Or.inl rfl

def descending : Disk where
  here := []
  nodes := ascending.nodes.reverse
  distinct := by decide
  housed := by simp [ascending, Housed, Node.folder]
  settled := Or.inl rfl

theorem order_unseen_broken :
    Reordered ascending descending ∧ descending.list ⟨"s"⟩ ≠ ascending.list ⟨"s"⟩ ∧
      (∀ root skipped folder, descending.walk root skipped folder = ascending.walk root skipped folder) ∧
      (∀ root, Env.keys descending root = Env.keys ascending root) ∧
      ∀ s scan later, analyze descending s later = (analyze ascending s scan).map (·.withScan later) := by
  have same : Reordered ascending descending := ⟨rfl, List.reverse_perm _⟩
  exact ⟨same, by decide +kernel, order_unseen same⟩

end FrontendSurvey.Survey
