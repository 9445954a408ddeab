import FrontendSurvey.Proofs.Survey.Readings
import FrontendSurvey.Proofs.Tree.Walk

set_option autoImplicit false

namespace FrontendSurvey

namespace Outline

mutual

theorem files_node (root above : Path) : (entry : Outline) →
    (entry.node root above).files = (entry.files above).map (·.1.relativeTo root)
  | folder name entries => by
    rw [node, TreeNode.files, filesOfAll_nodes root (above / name) entries, files]
  | file name modified => by simp [node, TreeNode.files, files]

theorem filesOfAll_nodes (root above : Path) : (entries : List Outline) →
    TreeNode.filesOfAll (nodes root above entries) =
      (filesOfAll above entries).map (·.1.relativeTo root)
  | [] => rfl
  | entry :: rest => by
    rw [nodes, TreeNode.filesOfAll, files_node root above entry, filesOfAll_nodes root above rest,
      filesOfAll, List.map_append]

end

end Outline

namespace Disk

variable {d : Disk} {root p : Path} {skipped : List String} {names : List Name} {name : Name}
  {walked : Walked} {fault : Fault} {below : Path → Except Fault Walked}

def walkStep (d : Disk) (root : Path) (skipped : List String) (below : Path → Except Fault Walked)
    (folder : Path) : Except Fault Walked := do
  let names ← (d.walkNames skipped folder).mapError (.refused folder)
  let parts ← names.mapM (d.visit root below folder)
  return .join parts

theorem walkTo_succ (d : Disk) (root : Path) (skipped : List String) (depth : Nat) :
    d.walkTo root skipped (depth + 1) = d.walkStep root skipped (d.walkTo root skipped depth) :=
  rfl

theorem lists_of_walkNames (listed : d.walkNames skipped p = .ok names) :
    ∃ loc, d.find .look p = .ok (.taken loc .folder) ∧ d.Lists skipped loc names := by
  cases found : d.list p with
  | error why => simp [walkNames, found, Except.map] at listed
  | ok all =>
    obtain ⟨loc, inside, -⟩ := list_iff.1 found
    obtain ⟨others, again, lists⟩ := lists_walkNames skipped inside
    obtain rfl := Except.ok.inj (listed.symm.trans again)
    exact ⟨loc, inside, lists⟩

theorem visit_eq_ok_iff : d.visit root below p name = .ok walked ↔
    (∃ text modified, d.stat (p / name) = .ok (.file text modified) ∧
      walked = .ofFile root (p / name) name modified) ∨
    d.stat (p / name) = .ok .folder ∧ ∃ inner, below (p / name) = .ok inner ∧
      walked = inner.under ((p / name).relativeTo root) := by
  cases there : d.stat (p / name) with
  | error why => simp [visit, there]
  | ok entry =>
    cases entry with
    | file text modified => simp [visit, there, eq_comm]
    | folder => cases inner : below (p / name) <;> simp [visit, there, inner, Except.map, eq_comm]

theorem visit_eq_error_iff : d.visit root below p name = .error fault ↔
    (∃ why, d.stat (p / name) = .error why ∧ fault = .refused (p / name) why) ∨
    d.stat (p / name) = .ok .folder ∧ below (p / name) = .error fault := by
  cases there : d.stat (p / name) with
  | error why => simp [visit, there, eq_comm]
  | ok entry =>
    cases entry with
    | file text modified => simp [visit, there]
    | folder => cases inner : below (p / name) <;> simp [visit, there, inner, Except.map]

theorem walkStep_eq_ok_iff : d.walkStep root skipped below p = .ok walked ↔
    ∃ names parts, d.walkNames skipped p = .ok names ∧
      names.mapM (d.visit root below p) = .ok parts ∧ walked = .join parts := by
  cases listed : d.walkNames skipped p with
  | error why => simp [walkStep, listed, Except.mapError, bind, Except.bind]
  | ok names =>
    cases visits : names.mapM (d.visit root below p) <;>
      simp [walkStep, listed, visits, Except.mapError, bind, Except.bind, pure, Except.pure, eq_comm]

theorem walkStep_eq_error_iff : d.walkStep root skipped below p = .error fault ↔
    (∃ why, d.walkNames skipped p = .error why ∧ fault = .refused p why) ∨
    ∃ names, d.walkNames skipped p = .ok names ∧ names.mapM (d.visit root below p) = .error fault := by
  cases listed : d.walkNames skipped p with
  | error why => simp [walkStep, listed, Except.mapError, bind, Except.bind, eq_comm]
  | ok names =>
    cases visits : names.mapM (d.visit root below p) <;>
      simp [walkStep, listed, visits, Except.mapError, bind, Except.bind, pure, Except.pure]

def Met (d : Disk) (file : Path × Name) : Prop :=
  ∃ (above : Path) (text : Option String) (modified : Instant),
    file.1 = above / file.2 ∧ d.stat file.1 = .ok (.file text modified)

def Unfolds (d : Disk) (root p : Path) (walked : Walked) (entries : List Outline) : Prop :=
  walked = Outline.walked root p entries ∧ ∀ file ∈ Outline.filesOfAll p entries, d.Met file

theorem unfolds_of_visit
    (inner : ∀ q w, below q = .ok w → ∃ entries, d.Unfolds root q w entries)
    (visited : d.visit root below p name = .ok walked) : ∃ entry, d.Unfolds root p walked [entry] := by
  rcases visit_eq_ok_iff.1 visited with ⟨text, modified, there, rfl⟩ | ⟨-, w, onward, rfl⟩
  · refine ⟨.file name modified, (Outline.walked_file root p name modified).symm, ?_⟩
    intro file member
    obtain rfl : file = (p / name, name) := by
      simpa [Outline.filesOfAll, Outline.files] using member
    exact ⟨p, text, modified, rfl, there⟩
  · obtain ⟨entries, rfl, met⟩ := inner _ w onward
    refine ⟨.folder name entries, (Outline.walked_folder root p name entries).symm, ?_⟩
    simpa [Outline.filesOfAll, Outline.files] using met

theorem unfolds_of_visits {parts : List Walked}
    (inner : ∀ q w, below q = .ok w → ∃ entries, d.Unfolds root q w entries)
    (visited : List.Forall₂ (fun name part => d.visit root below p name = .ok part) names parts) :
    ∃ entries, d.Unfolds root p (.join parts) entries := by
  induction visited with
  | nil => exact ⟨[], rfl, by simp [Outline.filesOfAll]⟩
  | @cons name part names parts first _ ih =>
    obtain ⟨entry, rfl, met⟩ := unfolds_of_visit inner first
    obtain ⟨entries, rest, others⟩ := ih
    refine ⟨entry :: entries, Outline.join_cons_walked root p entry entries rest,
      fun file member => ?_⟩
    rcases List.mem_append.1 member with here | later
    · exact met file (by simpa [Outline.filesOfAll] using here)
    · exact others file later

theorem unfolds_of_walkTo {depth : Nat} (done : d.walkTo root skipped depth p = .ok walked) :
    ∃ entries, d.Unfolds root p walked entries := by
  induction depth generalizing p walked with
  | zero => cases done
  | succ depth ih =>
    rw [walkTo_succ] at done
    obtain ⟨names, parts, -, visits, rfl⟩ := walkStep_eq_ok_iff.1 done
    exact unfolds_of_visits (fun _ _ => ih) (mapM_eq_ok_iff.1 visits)

end Disk

end FrontendSurvey
