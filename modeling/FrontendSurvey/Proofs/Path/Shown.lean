import FrontendSurvey.Proofs.Path.Ancestors
import FrontendSurvey.Proofs.Text.Raw

set_option autoImplicit false

namespace FrontendSurvey.Path

open Raw (slash dot)

variable {root p q : Path}

def Step.shown : Step → Step
  | .name raw => .name raw.shown
  | step => step

@[simp] theorem Step.shown_shown (step : Step) : step.shown.shown = step.shown := by
  cases step with
  | name raw => simp [shown, Raw.shown]
  | _ => rfl

def shownPiece (piece : List UInt8) : List UInt8 := (Raw.mk piece).shown.bytes

theorem chars_dots (n : Nat) : Raw.chars none (List.replicate n dot) = List.replicate n '.' := by
  induction n with
  | zero => rfl
  | succ n ih =>
    rw [List.replicate_succ, Raw.chars_low (by decide), ih, List.replicate_succ]
    simp [dot]

theorem shownPiece_dots (n : Nat) : shownPiece (List.replicate n dot) = List.replicate n dot := by
  have encoded : String.utf8EncodeChar '.' = [dot] := by decide
  rw [shownPiece, Raw.bytes_shown, chars_dots]
  simp [List.flatMap_replicate, encoded]

-- Nothing else is shown as dots, so no step is taken for another one.
theorem shownPiece_eq_replicate {piece : List UInt8} (n : Nat) :
    shownPiece piece = List.replicate n dot ↔ piece = List.replicate n dot := by
  constructor
  · intro same
    have single : ∀ c ∈ Raw.chars none (List.replicate n dot), Raw.Single c := by
      intro c member
      rw [chars_dots] at member
      rw [List.eq_of_mem_replicate member]
      decide
    have raw : Raw.mk piece = Raw.mk (List.replicate n dot) := Raw.eq_of_shown_eq single (congrArg Raw.mk same)
    exact congrArg Raw.bytes raw
  · rintro rfl
    exact shownPiece_dots n

@[simp] theorem shownPiece_eq_nil {piece : List UInt8} : shownPiece piece = [] ↔ piece = [] :=
  shownPiece_eq_replicate 0

@[simp] theorem shownPiece_eq_dot {piece : List UInt8} : shownPiece piece = [dot] ↔ piece = [dot] :=
  shownPiece_eq_replicate 1

@[simp] theorem shownPiece_eq_dots {piece : List UInt8} : shownPiece piece = [dot, dot] ↔ piece = [dot, dot] :=
  shownPiece_eq_replicate 2

theorem isIdle_shownPiece (piece : List UInt8) : isIdle (shownPiece piece) = isIdle piece := by
  rw [Bool.eq_iff_iff]
  simp [isIdle]

theorem stepOf_shownPiece (piece : List UInt8) : stepOf (shownPiece piece) = (stepOf piece).shown := by
  simp only [stepOf, shownPiece_eq_dots]
  split <;> rfl

theorem bodySteps_shown (pieces : List (List UInt8)) :
    bodySteps (pieces.map shownPiece) = (bodySteps pieces).map Step.shown := by
  induction pieces with
  | nil => rfl
  | cons piece rest ih =>
    rw [List.map_cons, bodySteps_cons, bodySteps_cons, isIdle_shownPiece, stepOf_shownPiece, ih]
    split <;> rfl

def leadOf : List (List UInt8) → Option Step
  | [] => none
  | first :: rest =>
    if first = [] then if rest = [] then none else some .root
    else if first = [dot] then some .here
    else none

theorem lead_eq (p : Path) : p.parts.lead = leadOf p.pieces := by
  rw [parts, pieces]
  generalize p.bytes = s
  fun_cases partsOf s with
  | case1 r => simp [Text.splitAt, leadOf, Text.splitAt_ne_nil]
  | case2 => rfl
  | case3 r => simp [Text.splitAt, leadOf]
  | case4 _ led alone dotted =>
    cases s with
    | nil => rfl
    | cons c r =>
      obtain ⟨piece, others, parted, step⟩ := splitAt_plain (fun same => led r (by rw [same])) alone dotted
      simp only [isIdle, Bool.or_eq_false_iff, beq_eq_false_iff_ne] at step
      simp [parted, leadOf, step]

theorem leadOf_shown (pieces : List (List UInt8)) : leadOf (pieces.map shownPiece) = leadOf pieces := by
  cases pieces with
  | nil => rfl
  | cons first rest => simp [leadOf]

theorem map_shown_leadOf (pieces : List (List UInt8)) :
    (leadOf pieces).toList.map Step.shown = (leadOf pieces).toList := by
  cases pieces with
  | nil => rfl
  | cons first rest =>
    simp only [leadOf]
    split_ifs <;> rfl

theorem pieces_mk_text (p : Path) : (Path.mk p.text).pieces = p.pieces.map shownPiece := Raw.splitAt_shown p.toRaw

theorem steps_mk_text (p : Path) : (Path.mk p.text).steps = p.steps.map Step.shown := by
  rw [steps_eq_pieces, steps_eq_pieces p, lead_eq, lead_eq p, pieces_mk_text, leadOf_shown, bodySteps_shown,
    List.map_append, map_shown_leadOf]

theorem isAbsolute_mk_text (p : Path) : (Path.mk p.text).isAbsolute = p.isAbsolute := by
  have head (step : Option Step) : step.map Step.shown = some .root ↔ step = some .root := by
    rcases step with none | root | _ <;> simp [Step.shown]
  rw [Bool.eq_iff_iff, isAbsolute_iff, isAbsolute_iff, steps_mk_text, List.head?_map, head]

/-- The steps of what a report shows of a path, once the root is put before it again. -/
def stepsShown (p root : Path) : List Step :=
  if root.steps <+: p.steps then root.steps ++ (p.steps.drop root.steps.length).map Step.shown
  else p.steps.map Step.shown

theorem map_shown_stepsShown (p root : Path) : (p.stepsShown root).map Step.shown = p.steps.map Step.shown := by
  have twice (steps : List Step) : (steps.map Step.shown).map Step.shown = steps.map Step.shown := by simp
  unfold stepsShown
  split
  next led =>
    obtain ⟨onward, same⟩ := led
    rw [← same, List.drop_left, List.map_append, List.map_append, twice]
  next => exact twice p.steps

theorem stepsShown_of_isText (plain : ∀ raw, .name raw ∈ p.steps → raw.IsText) : p.stepsShown root = p.steps := by
  have kept : ∀ step ∈ p.steps, step.shown = step := by
    intro step member
    cases step with
    | name raw => exact congrArg Step.name (plain raw member).shown
    | _ => rfl
  have same {steps : List Step} (within : steps <:+ p.steps) : steps.map Step.shown = steps := by
    simpa using List.map_congr_left fun step member => kept step (within.mem member)
  unfold stepsShown
  split
  next led =>
    rw [same (List.drop_suffix _ _)]
    exact List.prefix_iff_eq_append.1 led
  next => exact same (List.suffix_refl _)

theorem steps_join_relativeTo
    (within : root.bytes = [] ∨ p.isAbsolute = true ∨ root.steps <+: p.steps) :
    (root.join ⟨p.relativeTo root⟩).steps = p.stepsShown root := by
  rw [relativeTo, stripped]
  by_cases empty : root.bytes = []
  next =>
    obtain ⟨q, behind, same⟩ := behind?_of_empty (p := p) empty
    rw [join_of_empty empty, behind, stepsShown, steps_eq_nil_iff.2 empty, if_pos List.nil_prefix, ← same]
    exact steps_mk_text q
  next =>
    cases behind : behind? root p with
    | some q =>
      obtain ⟨relative, same⟩ := behind?_eq_some empty behind
      rw [Option.getD_some, steps_join empty (by rw [isAbsolute_mk_text, relative]), pieces_mk_text, bodySteps_shown,
        stepsShown, same, if_pos (List.prefix_append ..), List.drop_left]
    | none =>
      have apart : ¬root.steps <+: p.steps := by
        intro led
        obtain ⟨q, found⟩ := behind?_of_led led
        rw [behind] at found
        cases found
      obtain none | absolute | led := within
      · exact absurd none empty
      · rw [Option.getD_none, join_of_absolute root (by rw [isAbsolute_mk_text, absolute]), steps_mk_text, stepsShown,
          if_neg apart]
      · exact absurd led apart

theorem shown_steps_eq_of_relativeTo_eq
    (within : root.bytes = [] ∨ p.isAbsolute = true ∨ root.steps <+: p.steps)
    (within' : root.bytes = [] ∨ q.isAbsolute = true ∨ root.steps <+: q.steps)
    (same : p.relativeTo root = q.relativeTo root) : p.steps.map Step.shown = q.steps.map Step.shown := by
  rw [← map_shown_stepsShown p root, ← steps_join_relativeTo within, same, steps_join_relativeTo within',
    map_shown_stepsShown]

end FrontendSurvey.Path
