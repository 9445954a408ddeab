import FrontendSurvey.Proofs.Path.Shown

set_option autoImplicit false

namespace FrontendSurvey.Path

open Raw (slash dot)

variable {p root : Path} {raw : Raw}

theorem lead_ne_name (p : Path) (raw : Raw) : p.parts.lead ≠ some (.name raw) := by
  rw [parts]
  fun_cases partsOf p.bytes <;> simp

theorem fileName?_eq_some_iff : p.fileName? = some raw ↔ p.steps.getLast? = some (.name raw) := by
  unfold fileName?
  split
  next name last => simp [last]
  next other => simpa using fun last => other raw last

theorem fileName?_clean (named : p.fileName? = some raw) : slash ∉ raw.bytes := by
  have member := List.mem_of_getLast? (fileName?_eq_some_iff.1 named)
  rw [steps_eq, List.mem_append] at member
  rcases member with lead | inBody
  · exact absurd (by simpa using lead) (lead_ne_name p raw)
  · obtain ⟨piece, among, same⟩ := List.mem_map.1 inBody
    have clean := clean_body p piece (List.mem_filter.1 among).1
    unfold stepOf at same
    split at same
    next => cases same
    next =>
      obtain rfl := Step.name.inj same
      exact clean

theorem fileName?_mk_text (named : p.fileName? = some raw) : (Path.mk p.text).fileName? = some raw.shown := by
  rw [fileName?_eq_some_iff] at named ⊢
  rw [steps_mk_text, List.getLast?_map, named]
  rfl

theorem fileName?_stripped (named : p.fileName? = some raw) (other : p.steps ≠ root.steps) :
    (p.stripped root).fileName? = some raw := by
  rw [fileName?_eq_some_iff] at named ⊢
  cases behind : behind? root p with
  | none =>
    rw [stripped, behind]
    exact named
  | some q =>
    rw [stripped, behind]
    by_cases empty : root.bytes = []
    next =>
      obtain ⟨q', behind', same⟩ := behind?_of_empty (p := p) empty
      obtain rfl := Option.some.inj (behind.symm.trans behind')
      rwa [Option.getD_some, same]
    next =>
      -- some step of the path is left, and the last one is still its name
      obtain ⟨-, same⟩ := behind?_eq_some empty behind
      rcases List.eq_nil_or_concat (bodySteps q.pieces) with none | ⟨onward, last, left⟩
      · exact absurd (by rw [same, none, List.append_nil]) other
      · rw [same, left] at named
        rw [Option.getD_some, steps_eq_pieces, left]
        simpa using named

end FrontendSurvey.Path
