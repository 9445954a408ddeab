import FrontendSurvey.Proofs.Disk.Plain
import FrontendSurvey.Proofs.Path.Ancestors

set_option autoImplicit false

namespace FrontendSurvey

def Spot.loc : Spot → Location
  | .taken loc _ => loc
  | .free loc => loc

namespace Disk

def locate (d : Disk) (p : Path) : Location := p.route.foldl Move.next (p.startFrom d.here)

variable {d e : Disk} {p q : Path} {folder loc : Location} {moves : List Move}

theorem suffix_foldl_next {moves : List Move} (folder : Location) (straight : Move.up ∉ moves) :
    folder <:+ moves.foldl Move.next folder := by
  induction moves generalizing folder with
  | nil => exact List.suffix_refl folder
  | cons move rest ih =>
    have after : Move.up ∉ rest := fun member => straight (List.mem_cons_of_mem move member)
    cases move with
    | stay => exact ih folder after
    | slash => exact ih folder after
    | up => exact absurd List.mem_cons_self straight
    | down name => exact (List.suffix_cons name folder).trans (ih (name :: folder) after)

def Leading (d : Disk) (p : Path) (loc : Location) : Prop :=
  ∃ moves, moves <+: p.route ∧ loc = moves.foldl Move.next (p.startFrom d.here)

theorem leading_of_steps (begun : q.bytes ≠ []) (within : q.steps <+: p.steps) :
    d.Leading p (d.locate q) := by
  have start : q.startFrom d.here = p.startFrom d.here := by
    obtain ⟨step, steps, first⟩ := List.exists_cons_of_ne_nil (mt Path.steps_eq_nil_iff.1 begun)
    obtain ⟨rest, same⟩ := within
    have absolute : q.isAbsolute = p.isAbsolute := by
      rw [Bool.eq_iff_iff, Path.isAbsolute_iff, Path.isAbsolute_iff, ← same, first]
      simp
    rw [Path.startFrom, Path.startFrom, absolute]
  exact ⟨q.route, Path.route_mono within, by rw [locate, start]⟩

-- Without an upward step, all of these locations lie above the last one.
theorem Leading.suffix (straight : Path.Step.up ∉ p.steps) (leading : d.Leading p loc) :
    loc <:+ d.locate p := by
  obtain ⟨moves, ⟨rest, same⟩, rfl⟩ := leading
  have onward : Move.up ∉ rest := fun member =>
    straight (Path.up_mem_route_iff.1 (by simp [← same, member]))
  rw [locate, ← same, List.foldl_append]
  exact suffix_foldl_next _ onward

theorem loc_spotAt (d : Disk) (loc : Location) : (d.spotAt loc).loc = loc := by
  unfold spotAt
  split <;> rfl

section Follow

variable {aim : Aim} {jump jump' : Location → Path → List Move → Except Refusal Spot}

theorem follow_loc (plain : d.LinkFree) {spot : Spot}
    (found : d.follow aim jump folder moves = .ok spot) : spot.loc = moves.foldl Move.next folder := by
  induction moves generalizing folder with
  | nil =>
    obtain rfl := Except.ok.inj found
    rfl
  | cons move rest ih =>
    cases move with
    | stay => exact ih found
    | slash => exact ih found
    | up => exact ih found
    | down name =>
      by_cases inside : d.node? (name :: folder) = some .folder
      next =>
        rw [follow, inside] at found
        split at found
        · cases found
        · exact ih found
      next =>
        obtain ⟨rfl, rfl⟩ := follow_to_last plain inside found
        exact loc_spotAt d (name :: folder)

theorem follow_agree (plain : d.LinkFree) (straight : Move.up ∉ moves)
    (agree : e.node? (moves.foldl Move.next folder) = d.node? (moves.foldl Move.next folder))
    {entry : Entry} (sound : d.node? loc = some (.entry entry))
    (found : d.follow .look jump folder moves = .ok (.taken loc entry)) :
    e.follow .look jump' folder moves = .ok (.taken loc entry) := by
  induction moves generalizing folder with
  | nil =>
    rw [follow] at found ⊢
    exact found
  | cons move rest ih =>
    have after : Move.up ∉ rest := fun member => straight (List.mem_cons_of_mem move member)
    cases move with
    | stay => exact ih after agree found
    | slash => exact ih after agree found
    | up => exact absurd List.mem_cons_self straight
    | down name =>
      have place : loc = rest.foldl Move.next (name :: folder) := follow_loc plain found
      have stands : e.node? loc = some (.entry entry) := by
        rw [← sound, place]
        exact agree
      have above : name :: folder <:+ loc := place ▸ suffix_foldl_next _ after
      rw [follow, if_neg (by simp)]
      by_cases there : d.node? (name :: folder) = some .folder
      next =>
        have inside : e.node? (name :: folder) = some .folder := by
          by_cases last : name :: folder = loc
          next => rw [last, stands, ← sound, ← last, there]
          next => exact node?_above stands above last
        rw [follow, there, if_neg (by simp)] at found
        rw [inside]
        exact ih after agree found
      next =>
        obtain ⟨rfl, spot⟩ := follow_to_last plain there found
        obtain ⟨rfl, same⟩ := spotAt_eq_taken spot.symm
        cases entry with
        | folder => exact absurd same there
        | file text modified => rw [stands]; rfl

end Follow

theorem find_loc (plain : d.LinkFree) {aim : Aim} {spot : Spot} (found : d.find aim p = .ok spot) :
    spot.loc = d.locate p := by
  obtain ⟨jump, same⟩ := find_eq_follow d aim (text_ne_of_find found)
  rw [same] at found
  rw [locate, ← Path.busy_moves, Move.foldl_next_busy]
  exact follow_loc plain found

theorem locate_child (p : Path) (name : Name) :
    d.locate (p / name) = name :: d.locate p := by
  rw [locate, locate, Path.route_child, Path.startFrom_child, List.foldl_append]
  rfl

theorem stat_agree (plain : d.LinkFree) (here : e.here = d.here) (straight : Path.Step.up ∉ p.steps)
    (agree : e.node? (d.locate p) = d.node? (d.locate p)) {entry : Entry}
    (stat : d.stat p = .ok entry) : e.stat p = .ok entry := by
  obtain ⟨loc, found⟩ := stat_iff.1 stat
  have begun := text_ne_of_find found
  obtain ⟨jump, same⟩ := find_eq_follow d .look begun
  obtain ⟨jump', same'⟩ := find_eq_follow e .look begun
  have onward : Move.up ∉ p.moves := mt Path.up_mem_moves_iff.1 straight
  refine stat_iff.2 ⟨loc, ?_⟩
  rw [same', here]
  rw [locate, ← Path.busy_moves, Move.foldl_next_busy] at agree
  exact follow_agree plain onward agree (find_sound found) (same ▸ found)

end Disk

end FrontendSurvey
