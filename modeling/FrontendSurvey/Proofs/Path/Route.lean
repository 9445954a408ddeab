import FrontendSurvey.Proofs.Path.Steps
import Mathlib.Data.List.TakeDrop

set_option autoImplicit false

namespace FrontendSurvey

open Raw (slash dot)

namespace Path

def Step.move? : Step → Option Move
  | .root => none
  | .here => none
  | .up => some .up
  | .name raw =>
    if ok : raw.bytes ≠ [] ∧ raw.bytes ≠ [dot] ∧ raw.bytes ≠ [dot, dot] ∧ slash ∉ raw.bytes then
      some (.down ⟨raw, ok⟩)
    else none

def route (p : Path) : List Move := p.steps.filterMap Step.move?

theorem move?_name (name : Name) : Step.move? (.name name.toRaw) = some (.down name) := by
  simp [Step.move?, name.ok]

theorem route_child (p : Path) (name : Name) : (p / name).route = p.route ++ [.down name] := by
  simp [route, steps_child, move?_name]

theorem route_mono {p q : Path} (within : q.steps <+: p.steps) : q.route <+: p.route :=
  within.filterMap Step.move?

theorem up_mem_route_iff {p : Path} : Move.up ∈ p.route ↔ Step.up ∈ p.steps := by
  have back {step : Step} (up : step.move? = some .up) : step = .up := by
    cases step with
    | up => rfl
    | name s =>
      rw [Step.move?] at up
      split at up <;> simp at up
    | _ => simp [Step.move?] at up
  simp only [route, List.mem_filterMap]
  constructor
  · rintro ⟨step, member, up⟩
    rwa [← back up]
  · intro member
    exact ⟨.up, member, rfl⟩

end Path

namespace Move

def isIdle (move : Move) : Bool := move == .stay || move == .slash

def next (folder : Location) : Move → Location
  | .up => folder.tail
  | .down name => name :: folder
  | _ => folder

def busy (moves : List Move) : List Move := moves.filter (!·.isIdle)

@[simp] theorem busy_append (moves rest : List Move) : busy (moves ++ rest) = busy moves ++ busy rest :=
  List.filter_append ..

theorem foldl_next_busy (folder : Location) (moves : List Move) :
    (busy moves).foldl next folder = moves.foldl next folder := by
  induction moves generalizing folder with
  | nil => rfl
  | cons move rest ih =>
    cases move with
    | stay => exact ih folder
    | slash => exact ih folder
    | up => exact ih folder.tail
    | down name => exact ih (name :: folder)

theorem ofPiece_idle {piece : List UInt8} (idle : Path.isIdle piece = true) : ofPiece piece = .stay := by
  simp only [Path.isIdle, Bool.or_eq_true, beq_iff_eq] at idle
  rcases idle with rfl | rfl <;> decide

theorem ofPiece_step {piece : List UInt8} (step : Path.isIdle piece = false) (clean : Raw.slash ∉ piece) :
    (Path.stepOf piece).move? = some (ofPiece piece) ∧ (ofPiece piece).isIdle = false := by
  simp only [Path.isIdle, Bool.or_eq_false_iff, beq_eq_false_iff_ne, ne_eq] at step
  by_cases up : piece = [dot, dot]
  next =>
    subst up
    decide
  next =>
    have ok : piece ≠ [] ∧ piece ≠ [dot] ∧ piece ≠ [dot, dot] ∧ Raw.slash ∉ piece :=
      ⟨step.1, step.2, up, clean⟩
    simp only [Path.stepOf, if_neg up, Path.Step.move?, ofPiece, dif_pos ok, true_and]
    rfl

theorem busy_map_ofPiece {pieces : List (List UInt8)} (clean : Path.Clean pieces) :
    busy (pieces.map ofPiece) = (Path.bodySteps pieces).filterMap Path.Step.move? := by
  induction pieces with
  | nil => rfl
  | cons piece rest ih =>
    have tail := ih fun other member => clean other (by simp [member])
    rw [Path.bodySteps_cons, List.map_cons]
    cases idle : Path.isIdle piece with
    | true =>
      rw [ofPiece_idle idle]
      exact tail
    | false =>
      obtain ⟨same, kept⟩ := ofPiece_step idle (clean piece (by simp))
      simp [busy, kept, same, ← tail]

end Move

namespace Path

theorem bodySteps_pieces (p : Path) : bodySteps p.pieces = bodySteps p.parts.body := by
  rw [pieces, parts]
  generalize p.bytes = s
  fun_cases partsOf s with
  | case1 r => simp [Text.splitAt, bodySteps_cons, isIdle]
  | case2 => simp [Text.splitAt, bodySteps_cons, isIdle]
  | case3 r => simp [Text.splitAt, bodySteps_cons, isIdle]
  | case4 => rfl

theorem steps_eq_pieces (p : Path) : p.steps = p.parts.lead.toList ++ bodySteps p.pieces := by
  rw [steps_eq, bodySteps_pieces]

theorem lead_move? (p : Path) : p.parts.lead.toList.filterMap Step.move? = [] := by
  rw [parts]
  fun_cases partsOf p.bytes <;> rfl

theorem busy_pieces (p : Path) : Move.busy (p.pieces.map Move.ofPiece) = p.route := by
  have clean : Clean p.pieces := clean_splitAt p.bytes
  rw [Move.busy_map_ofPiece clean, route, steps_eq_pieces, List.filterMap_append, lead_move?,
    List.nil_append]

theorem moves_eq (p : Path) :
    p.moves = (p.pieces.reverse.dropWhile (· == [])).reverse.map Move.ofPiece ++
      if (p.pieces.reverse.takeWhile (· == [])).isEmpty then [] else [.slash] := by
  rw [moves, List.span_eq_takeWhile_dropWhile]

theorem busy_trimmed (p : Path) :
    Move.busy ((p.pieces.reverse.dropWhile (· == [])).reverse.map Move.ofPiece) = p.route := by
  have parted : p.pieces = (p.pieces.reverse.dropWhile (· == [])).reverse ++
      (p.pieces.reverse.takeWhile (· == [])).reverse := by
    rw [← List.reverse_append, List.takeWhile_append_dropWhile, List.reverse_reverse]
  -- what is left out are empty pieces at the end
  have ending : Move.busy ((p.pieces.reverse.takeWhile (· == [])).reverse.map Move.ofPiece) = [] := by
    have empty := List.all_eq_true.1 (List.all_takeWhile (p := (· == [])) (l := p.pieces.reverse))
    simp only [Move.busy, List.filter_eq_nil_iff, List.mem_map, List.mem_reverse]
    rintro _ ⟨piece, member, rfl⟩
    rw [eq_of_beq (empty piece member)]
    decide
  have whole := busy_pieces p
  rwa [parted, List.map_append, Move.busy_append, ending, List.append_nil] at whole

theorem busy_moves (p : Path) : Move.busy p.moves = p.route := by
  rw [moves_eq, Move.busy_append, busy_trimmed]
  split <;> simp [Move.busy, Move.isIdle]

theorem route_of_last {p : Path} {last : List UInt8} {above : List (List UInt8)}
    (parted : p.pieces.reverse.dropWhile (· == []) = last :: above) :
    p.route = Move.busy (above.reverse.map Move.ofPiece) ++ Move.busy [Move.ofPiece last] := by
  rw [← busy_trimmed, parted, List.reverse_cons, List.map_append, Move.busy_append]
  rfl

theorem up_mem_moves_iff {p : Path} : Move.up ∈ p.moves ↔ Step.up ∈ p.steps := by
  rw [← up_mem_route_iff, ← busy_moves, Move.busy, List.mem_filter]
  simp [Move.isIdle]

end Path

end FrontendSurvey
