import FrontendSurvey.Disk.Lookup
import FrontendSurvey.Proofs.Path.Ancestors

set_option autoImplicit false

namespace FrontendSurvey

namespace Move

variable {moves others : List Move}

theorem busy_eq_nil : busy moves = [] ↔ ∀ move ∈ moves, move.isIdle = true := by
  simp [busy]

theorem exists_of_busy_cons {move : Move} {rest : List Move} (same : busy moves = move :: rest) :
    ∃ idle later, moves = idle ++ move :: later ∧ busy idle = [] ∧ busy later = rest := by
  obtain ⟨idle, later, split, none, -, kept⟩ := List.filter_eq_cons_iff.1 same
  exact ⟨idle, later, split, by simpa [busy_eq_nil] using none, kept⟩

end Move

namespace Disk

variable {d : Disk} {folder : Location} {moves others : List Move} {spot spot' : Spot}
  {jump jump' : Location → Path → List Move → Except Refusal Spot}

theorem follow_idle {aim : Aim} (idle : Move.busy moves = []) (rest : List Move) :
    d.follow aim jump folder (moves ++ rest) = d.follow aim jump folder rest := by
  induction moves with
  | nil => rfl
  | cons move moves ih =>
    obtain ⟨first, others⟩ := List.forall_mem_cons.1 (Move.busy_eq_nil.1 idle)
    have rest := ih (Move.busy_eq_nil.2 others)
    cases move with
    | stay => exact rest
    | slash => exact rest
    | up => cases first
    | down name => cases first

theorem eq_of_last {rest : List Move} {place : Spot} {why : Refusal}
    (last : (if rest.isEmpty then Except.ok place else .error why) = .ok spot) : place = spot := by
  split at last
  next => exact Except.ok.inj last
  next => cases last

theorem follow_busy (same : Move.busy moves = Move.busy others)
    (jumps : ∀ folder target rest rest' spot spot', Move.busy rest = Move.busy rest' →
      jump folder target rest = .ok spot → jump' folder target rest' = .ok spot' → spot = spot')
    (found : d.follow .look jump folder moves = .ok spot)
    (found' : d.follow .look jump' folder others = .ok spot') : spot = spot' := by
  induction moves generalizing folder others with
  | nil =>
    rw [← List.append_nil others, follow_idle same.symm, follow] at found'
    rw [follow] at found
    exact Except.ok.inj (found.symm.trans found')
  | cons move rest ih =>
    cases move with
    | stay => exact ih same found found'
    | slash => exact ih same found found'
    | up =>
      obtain ⟨idle, later, rfl, none, after⟩ := Move.exists_of_busy_cons same.symm
      rw [follow_idle none, follow] at found'
      exact ih after.symm found found'
    | down name =>
      obtain ⟨idle, later, rfl, none, after⟩ := Move.exists_of_busy_cons same.symm
      rw [follow_idle none, follow, if_neg (by simp)] at found'
      rw [follow, if_neg (by simp)] at found
      cases there : d.node? (name :: folder) with
      | none =>
        simp only [there] at found found'
        exact (eq_of_last found).symm.trans (eq_of_last found')
      | some node =>
        cases node with
        | link target =>
          simp only [there] at found found'
          exact jumps _ _ _ _ _ _ after.symm found found'
        | entry entry =>
          cases entry with
          | folder =>
            simp only [there] at found found'
            exact ih after.symm found found'
          | file text modified =>
            simp only [there] at found found'
            exact (eq_of_last found).symm.trans (eq_of_last found')

theorem resolve_busy {links : Nat} (same : Move.busy moves = Move.busy others)
    (found : d.resolve .look links folder moves = .ok spot)
    (found' : d.resolve .look links folder others = .ok spot') : spot = spot' := by
  induction links generalizing folder moves others spot spot' with
  | zero =>
    refine follow_busy same (fun _ _ _ _ _ _ _ stopped => ?_) found found'
    cases stopped
  | succ links ih =>
    refine follow_busy same (fun _ target _ _ _ _ after => ?_) found found'
    exact ih (by rw [Move.busy_append, Move.busy_append, after])

theorem find_of_steps {p q : Path} (same : p.steps = q.steps) (found : d.find .look p = .ok spot)
    (found' : d.find .look q = .ok spot') : spot = spot' := by
  have start : p.startFrom d.here = q.startFrom d.here := by
    have absolute : p.isAbsolute = q.isAbsolute := by
      rw [Bool.eq_iff_iff, Path.isAbsolute_iff, Path.isAbsolute_iff, same]
    rw [Path.startFrom, Path.startFrom, absolute]
  have moves : Move.busy p.moves = Move.busy q.moves := by
    rw [Path.busy_moves, Path.busy_moves, Path.route, Path.route, same]
  unfold find at found found'
  split at found
  next => cases found
  next =>
    split at found'
    next => cases found'
    next => exact resolve_busy moves (start ▸ found) found'

end Disk

end FrontendSurvey
