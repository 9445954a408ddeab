import FrontendSurvey.Disk.Change
import FrontendSurvey.Proofs.Path.Relative
import FrontendSurvey.Proofs.Path.Route

set_option autoImplicit false

namespace FrontendSurvey

open Raw (slash dot)

namespace Path

variable {p q : Path}

theorem bodySteps_mono {pieces rest : List (List UInt8)} (within : rest <+: pieces) :
    bodySteps rest <+: bodySteps pieces :=
  (within.filter _).map _

theorem steps_parent (up : p.parent? = some q) : p.bytes ≠ [] ∧ q.steps <+: p.steps := by
  unfold parent? at up
  split at up
  next =>
    split at up
    next lead =>
      obtain rfl := Option.some.inj up
      refine ⟨fun empty => ?_, List.nil_prefix⟩
      simp [parts, empty, partsOf] at lead
    next => cases up
  next pieces kept =>
    obtain rfl := Option.some.inj up
    have within : (dropIdleEnd p.parts.body).dropLast <+: (partsOf p.bytes).body :=
      (List.dropLast_prefix _).trans (dropIdleEnd_within _)
    refine ⟨fun empty => kept ?_, ?_⟩
    · simp [parts, empty, partsOf, Text.splitAt, dropIdleEnd, isIdle]
    · have steps := steps_trimmed within
      rw [← parts] at steps within
      rw [steps, steps_eq]
      exact (List.prefix_append_right_inj _).2 (bodySteps_mono within)

theorem route_of_parent? (top : p.parent? = none) : p.route = [] := by
  unfold parent? at top
  split at top
  next bare =>
    have none : bodySteps p.parts.body = [] := by rw [← bodySteps_dropIdleEnd, bare, bodySteps_nil]
    rw [route, steps_eq, none, List.append_nil, lead_move?]
  next => cases top

theorem of_mem_ancestorsWithin {n : Nat} (member : q ∈ ancestorsWithin n p) :
    q.bytes ≠ [] ∧ q.steps <+: p.steps := by
  induction n generalizing p with
  | zero => cases member
  | succ n ih =>
    rw [ancestorsWithin] at member
    split at member
    next => cases member
    next parent up =>
      rcases List.mem_cons.1 member with rfl | above
      · exact ⟨(steps_parent up).1, List.prefix_refl _⟩
      · obtain ⟨begun, within⟩ := ih above
        exact ⟨begun, within.trans (steps_parent up).2⟩

theorem of_mem_ancestors (member : q ∈ p.ancestors) : q.bytes ≠ [] ∧ q.steps <+: p.steps :=
  of_mem_ancestorsWithin member

theorem ancestors_cases (p : Path) :
    p.ancestors = [] ∧ p.route = [] ∨ ∃ above, p.ancestors = p :: above := by
  rw [ancestors, ancestorsWithin]
  cases up : p.parent? with
  | none => exact Or.inl ⟨rfl, route_of_parent? up⟩
  | some parent => exact Or.inr ⟨_, rfl⟩

theorem stepOf_ne_root (piece : List UInt8) : stepOf piece ≠ .root := by
  unfold stepOf
  split <;> simp

theorem isAbsolute_iff : p.isAbsolute = true ↔ p.steps.head? = some .root := by
  rw [isAbsolute, steps_eq, parts]
  generalize p.bytes = s
  fun_cases partsOf s with
  | case1 r => simp
  | case2 => simp
  | case3 r => simp
  | case4 s led alone dotted =>
    have relative : s.head? ≠ some slash := by
      intro first
      obtain ⟨r, rfl⟩ := List.head?_eq_some_iff.1 first
      exact led r rfl
    simp only [beq_iff_eq, relative, false_iff]
    intro first
    obtain ⟨rest, steps⟩ := List.head?_eq_some_iff.1 first
    have member : Step.root ∈ bodySteps (Text.splitAt slash s) := by simp_all
    obtain ⟨piece, -, same⟩ := List.mem_map.1 member
    exact stepOf_ne_root piece same

end Path

end FrontendSurvey
