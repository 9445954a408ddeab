import FrontendSurvey.Proofs.Disk.Passing
import FrontendSurvey.Proofs.Tree.Descent

set_option autoImplicit false

namespace FrontendSurvey

namespace View

def walked : View → Walked → Walked
  | inside, w => w
  -- the tree shows the times
  | outside, w => { w with tree := [] }

variable {view : View}

theorem map_walked_inside {ε : Type} (done : Except ε Walked) : done.map inside.walked = done := by
  cases done <;> rfl

theorem walked_ofFile {text text' : Option String} {modified modified' : Instant}
    (same : view.entry (.file text modified) = view.entry (.file text' modified')) (root path : Path)
    (name : Name) : view.walked (.ofFile root path name modified) =
      view.walked (.ofFile root path name modified') := by
  cases view with
  | inside =>
    cases same
    rfl
  | outside => rfl

theorem walked_under {w w' : Walked} (same : view.walked w = view.walked w') (folder : String) :
    view.walked (w.under folder) = view.walked (w'.under folder) := by
  cases view with
  | inside => exact congrArg (Walked.under · folder) same
  | outside => exact same

theorem walked_join {parts others : List Walked} (same : parts.map view.walked = others.map view.walked) :
    view.walked (.join parts) = view.walked (.join others) := by
  have joined (parts : List Walked) :
      view.walked (.join parts) = view.walked (.join (parts.map view.walked)) := by
    cases view with
    | inside => exact congrArg Walked.join (List.map_id' parts).symm
    | outside => simp [walked, Walked.join, List.flatMap_map]
  rw [joined parts, joined others, same]

end View

namespace Disk

variable {d e : Disk} {view : View} {root p path : Path} {skipped : List String} {loc : Location}
  {kind : Path → Prop} {walked : Walked}

theorem walkNames_eq (inside : d.find .look p = .ok (.taken loc .folder))
    (inside' : e.find .look p = .ok (.taken loc .folder))
    (same : ∀ name : Name, name.text ∉ skipped →
      (e.node? (name :: loc) = none ↔ d.node? (name :: loc) = none)) :
    e.walkNames skipped p = d.walkNames skipped p := by
  obtain ⟨names, listed, lists⟩ := lists_walkNames skipped inside
  obtain ⟨others, listed', lists'⟩ := lists_walkNames skipped inside'
  have again : d.Lists skipped loc others := by
    refine ⟨lists'.ascending, fun name => (lists'.exact name).trans ?_⟩
    exact and_congr_left fun kept => not_congr (same name kept)
  rw [listed, listed', again.unique lists]

theorem not_skipped {names : List Name} {name : Name} (listed : d.walkNames skipped p = .ok names)
    (member : name ∈ names) : name.text ∉ skipped := by
  obtain ⟨loc, -, lists⟩ := lists_of_walkNames listed
  exact ((lists.exact name).1 member).2

structure WalksAlike (d e : Disk) (view : View) (skipped : List String) (kind : Path → Prop) : Prop where
  names : ∀ p, kind p → e.walkNames skipped p = d.walkNames skipped p
  entries : ∀ p names, kind p → d.walkNames skipped p = .ok names → ∀ name ∈ names,
    AlikeAt d e view (p / name)
  onward : ∀ p child, kind p → d.Enters skipped child p → kind child

theorem visit_alike {below other : Path → Except Fault Walked} {name : Name}
    (alike : AlikeAt d e view (p / name))
    (onward : d.stat (p / name) = .ok .folder →
      (other (p / name)).map view.walked = (below (p / name)).map view.walked) :
    (e.visit root other p name).map view.walked = (d.visit root below p name).map view.walked := by
  rcases View.found_cases alike.stat with ⟨why, after, before⟩ | ⟨after, before⟩ |
    ⟨text, modified, text', modified', after, before, same⟩
  · simp only [visit, after, before]
  · simp only [visit, after, before]
    rcases cases_of_map_eq (onward before) with ⟨why, left, right⟩ | ⟨w, w', left, right, inner⟩
    · rw [left, right]
    · simp only [left, right, Except.map, View.walked_under inner]
  · simp only [visit, after, before, Except.map, View.walked_ofFile same]

theorem WalksAlike.walk (alike : WalksAlike d e view skipped kind) (root : Path) (here : kind p) :
    (e.walk root skipped p).map view.walked = (d.walk root skipped p).map view.walked := by
  induction p using (enters_wellFounded d skipped).induction with
  | _ p ih =>
    rw [walk_eq_walkStep e, walk_eq_walkStep d, walkStep, walkStep, alike.names p here]
    cases listed : d.walkNames skipped p with
    | error why => simp only [Except.mapError, bind, Except.bind]
    | ok names =>
      have visits : (names.mapM (e.visit root (e.walk root skipped) p)).map (List.map view.walked) =
          (names.mapM (d.visit root (d.walk root skipped) p)).map (List.map view.walked) := by
        apply map_mapM_congr
        intro name member
        refine visit_alike (alike.entries p names here listed name member) fun inside => ?_
        have enters : d.Enters skipped (p / name) p := ⟨names, listed, name, member, rfl, inside⟩
        exact ih _ enters (alike.onward p _ here enters)
      simp only [Except.mapError, bind, Except.bind]
      rcases cases_of_map_eq visits with ⟨why, after, before⟩ | ⟨parts, others, after, before, same⟩
      · rw [after, before]
      · rw [after, before]
        simp only [pure, Except.pure, Except.map, View.walked_join same]

theorem WalksAlike.walk_inside (alike : WalksAlike d e .inside skipped kind) (root : Path) (here : kind p) :
    e.walk root skipped p = d.walk root skipped p := by
  have same := alike.walk root here
  rwa [View.map_walked_inside, View.map_walked_inside] at same

theorem exists_of_mem_code (onward : ∀ p child, kind p → d.Enters skipped child p → kind child)
    (here : kind p) (done : d.walk root skipped p = .ok walked) (member : path ∈ walked.code) :
    ∃ q names, kind q ∧ d.walkNames skipped q = .ok names ∧ ∃ name ∈ names, path = q / name := by
  induction p using (enters_wellFounded d skipped).induction generalizing walked with
  | _ p ih =>
    rw [walk_eq_walkStep] at done
    obtain ⟨names, parts, listed, visits, rfl⟩ := walkStep_eq_ok_iff.1 done
    obtain ⟨part, among, within⟩ := List.mem_flatMap.1 member
    obtain ⟨name, named, visited⟩ := exists_of_mem_mapM visits among
    rcases visit_eq_ok_iff.1 visited with ⟨text, modified, stat, rfl⟩ | ⟨stat, below, inner, rfl⟩
    · have same : path = p / name := by
        simp only [Walked.ofFile] at within
        split at within
        next => exact List.mem_singleton.1 within
        next => cases within
      exact ⟨p, names, here, listed, name, named, same⟩
    · have enters : d.Enters skipped (p / name) p := ⟨names, listed, name, named, rfl, stat⟩
      exact ih _ enters (onward p _ here enters) inner within

theorem WalksAlike.code (alike : WalksAlike d e view skipped kind) (here : kind p)
    (done : d.walk root skipped p = .ok walked) (member : path ∈ walked.code) :
    AlikeAt d e view path := by
  obtain ⟨q, names, there, listed, name, among, rfl⟩ :=
    exists_of_mem_code alike.onward here done member
  exact alike.entries q names there listed name among

theorem components_subset (done : d.walk root skipped p = .ok walked) :
    walked.components ⊆ walked.code := by
  obtain ⟨entries, rfl, -⟩ := unfolds_of_walkTo done
  have among : (Outline.filesOfAll p entries).filter (Walked.isComponent ·.2) ⊆
      (Outline.filesOfAll p entries).filter (Walked.isCode ·.2) := by
    apply List.Sublist.subset
    apply List.monotone_filter_right
    intro file component
    exact List.any_eq_true.2 ⟨".vue", by simp, component⟩
  exact List.map_subset _ among

end Disk

end FrontendSurvey
