import FrontendSurvey.Proofs.Path.Steps

set_option autoImplicit false

namespace FrontendSurvey.Path

open Raw (slash dot)

variable {root p q : Path} {steps : List Step} {pieces rest : List (List UInt8)}

theorem dropSteps_eq_some (dropped : dropSteps steps pieces = some rest) :
    rest <:+ pieces ∧ bodySteps pieces = steps ++ bodySteps rest := by
  induction pieces generalizing steps with
  | nil =>
    cases steps with
    | nil =>
      obtain rfl := Option.some.inj dropped
      simp
    | cons step steps => cases dropped
  | cons piece pieces ih =>
    cases steps with
    | nil =>
      obtain rfl := Option.some.inj dropped
      simp
    | cons step steps =>
      rw [dropSteps] at dropped
      rw [bodySteps_cons]
      split at dropped
      next idle =>
        obtain ⟨within, same⟩ := ih dropped
        exact ⟨within.trans (List.suffix_cons piece pieces), by rw [if_pos idle, same]⟩
      next step' =>
        split at dropped
        next taken =>
          obtain ⟨within, same⟩ := ih dropped
          refine ⟨within.trans (List.suffix_cons piece pieces), ?_⟩
          rw [if_neg step', taken, same, List.cons_append]
        next => cases dropped

theorem dropSteps_of_led (led : steps <+: bodySteps pieces) :
    ∃ rest, dropSteps steps pieces = some rest := by
  induction pieces generalizing steps with
  | nil =>
    obtain rfl := List.prefix_nil.1 led
    exact ⟨[], rfl⟩
  | cons piece pieces ih =>
    cases steps with
    | nil => exact ⟨_, rfl⟩
    | cons step steps =>
      rw [bodySteps_cons] at led
      rw [dropSteps]
      split at led
      next idle =>
        rw [if_pos idle]
        exact ih led
      next step' =>
        obtain ⟨same, led⟩ := List.cons_prefix_cons.1 led
        rw [if_neg step', if_pos same.symm]
        exact ih led

theorem clean_body (p : Path) : Clean p.parts.body := by
  unfold parts
  fun_cases partsOf p.bytes with
  | case1 r => exact clean_splitAt r
  | case2 => simp [Clean]
  | case3 r => simpa [Clean] using clean_splitAt r
  | case4 => exact clean_splitAt _

theorem bodySteps_splitAt_joinPieces (clean : Clean pieces) :
    bodySteps (Text.splitAt slash (joinPieces pieces)) = bodySteps pieces := by
  by_cases none : pieces = []
  next => simp [none, joinPieces, Text.splitAt, bodySteps_cons, isIdle]
  next => rw [joinPieces, Text.splitAt_intercalate none clean]

theorem partsOf_of_step {s piece : List UInt8} (parted : Text.splitAt slash s = piece :: pieces)
    (step : isIdle piece = false) : partsOf s = ⟨none, piece :: pieces⟩ := by
  fun_cases partsOf s with
  | case1 r =>
    obtain ⟨rfl, -⟩ := List.cons.inj parted
    simp [isIdle] at step
  | case2 =>
    obtain ⟨rfl, -⟩ := List.cons.inj parted
    simp [isIdle] at step
  | case3 r =>
    obtain ⟨rfl, -⟩ := List.cons.inj parted
    simp [isIdle] at step
  | case4 => rw [parted]

theorem head?_ne_of_step {s piece : List UInt8} (parted : Text.splitAt slash s = piece :: pieces)
    (step : isIdle piece = false) : s.head? ≠ some slash := by
  intro slash
  obtain ⟨r, rfl⟩ := List.head?_eq_some_iff.1 slash
  obtain ⟨rfl, -⟩ := List.cons.inj parted
  simp [isIdle] at step

theorem isAbsolute_ofBytes {s : List UInt8} :
    (ofBytes s).isAbsolute = false ↔ s.head? ≠ some slash := by
  simp [isAbsolute, ofBytes]

theorem dropIdleEnd_within (pieces : List (List UInt8)) : dropIdleEnd pieces <+: pieces := by
  have within := List.reverse_prefix.2 (List.dropWhile_suffix isIdle (l := pieces.reverse))
  rwa [List.reverse_reverse] at within

theorem clean_dropIdleEnd (clean : Clean pieces) : Clean (dropIdleEnd pieces) :=
  clean.of_first (dropIdleEnd_within pieces)

theorem dropIdleEnd_cons_of_step {piece : List UInt8} (pieces : List (List UInt8))
    (step : isIdle piece = false) : ∃ rest, dropIdleEnd (piece :: pieces) = piece :: rest := by
  have steps := bodySteps_dropIdleEnd (piece :: pieces)
  rw [bodySteps_cons, if_neg (by simp [step])] at steps
  cases kept : dropIdleEnd (piece :: pieces) with
  | nil => simp [kept] at steps
  | cons first rest =>
    have within := dropIdleEnd_within (piece :: pieces)
    rw [kept, List.cons_prefix_cons] at within
    exact ⟨rest, by rw [within.1]⟩

theorem clean_dropWhile (clean : Clean pieces) : Clean (pieces.dropWhile isIdle) :=
  clean.of_suffix (List.dropWhile_suffix isIdle)

-- What is written of the pieces behind a root is relative, and no step is lost.
theorem trimmed_relative (clean : Clean pieces) :
    (ofBytes (joinPieces (dropIdleEnd (pieces.dropWhile isIdle)))).isAbsolute = false := by
  cases trimmed : pieces.dropWhile isIdle with
  | nil => rfl
  | cons piece rest =>
    have step : isIdle piece = false := by
      have first := List.head?_dropWhile_not isIdle pieces
      simpa [trimmed] using first
    obtain ⟨kept, same⟩ := dropIdleEnd_cons_of_step rest step
    have cleanKept : Clean (piece :: kept) := by
      rw [← same, ← trimmed]
      exact clean_dropIdleEnd (clean_dropWhile clean)
    rw [same, isAbsolute_ofBytes, joinPieces]
    exact head?_ne_of_step (Text.splitAt_intercalate (by simp) cleanKept) step

theorem bodySteps_trimmed (clean : Clean pieces) :
    bodySteps (ofBytes (joinPieces (dropIdleEnd (pieces.dropWhile isIdle)))).pieces =
      bodySteps pieces := by
  have trimmed := bodySteps_splitAt_joinPieces (clean_dropIdleEnd (clean_dropWhile clean))
  simpa [Path.pieces, ofBytes] using trimmed

theorem splitAt_plain {c : UInt8} {r : List UInt8} (other : c ≠ slash) (alone : c :: r ≠ [dot])
    (dotted : ∀ s, c :: r ≠ dot :: slash :: s) :
    ∃ piece pieces, Text.splitAt slash (c :: r) = piece :: pieces ∧ isIdle piece = false := by
  rw [Text.splitAt, if_neg other]
  cases r with
  | nil =>
    refine ⟨_, _, rfl, ?_⟩
    simpa [isIdle] using alone
  | cons e r =>
    cases parted : Text.splitAt slash (e :: r) with
    | nil => exact absurd parted (Text.splitAt_ne_nil slash (e :: r))
    | cons piece pieces =>
      refine ⟨_, _, rfl, ?_⟩
      cases piece with
      | cons => simp [isIdle]
      | nil =>
        -- the text goes on with a separator
        have next : e = slash := by
          refine Decidable.byContradiction fun other => ?_
          rw [Text.splitAt, if_neg other] at parted
          split at parted <;> cases parted
        have first : c ≠ dot := by
          rintro rfl
          exact dotted r (by rw [next])
        simpa [isIdle] using first

theorem partsOf_cases (s : List UInt8) :
    s = [] ∨ (partsOf s).lead ≠ none ∨
      ∃ piece pieces, partsOf s = ⟨none, piece :: pieces⟩ ∧ isIdle piece = false := by
  fun_cases partsOf s with
  | case1 => simp
  | case2 => simp
  | case3 => simp
  | case4 s led alone dotted =>
    cases s with
    | nil => exact Or.inl rfl
    | cons c r =>
      obtain ⟨piece, pieces, parted, step⟩ := splitAt_plain
        (fun same => led r (by rw [same])) alone dotted
      exact Or.inr (Or.inr ⟨piece, pieces, by rw [parted], step⟩)

theorem steps_eq_nil_iff : p.steps = [] ↔ p.bytes = [] := by
  constructor
  · intro none
    rw [steps_eq, List.append_eq_nil_iff] at none
    rcases partsOf_cases p.bytes with empty | lead | ⟨piece, pieces, parted, step⟩
    · simpa using empty
    · exact absurd (by simpa [parts] using none.1) lead
    · rw [parts, parted, bodySteps_cons, if_neg (by simp [step])] at none
      cases none.2
  · intro empty
    simp [steps_eq, parts, empty, partsOf, Text.splitAt, bodySteps_cons, isIdle]

-- What a path starts with and some of its pieces, the first ones, make up a path of just their steps.
theorem steps_trimmed {s : List UInt8} (within : pieces <+: (partsOf s).body) :
    (ofBytes (leadBytes (partsOf s).lead ++ joinPieces (dropIdleEnd pieces))).steps =
      (partsOf s).lead.toList ++ bodySteps pieces := by
  rw [steps_ofBytes]
  have kept := bodySteps_dropIdleEnd pieces
  have trimmed := dropIdleEnd_within pieces
  revert within
  fun_cases partsOf s with intro within
  | case1 r =>
    have clean := (clean_splitAt r).of_first within
    simp [leadBytes, partsOf, bodySteps_splitAt_joinPieces (clean_dropIdleEnd clean)]
  | case2 =>
    obtain rfl := List.prefix_nil.1 within
    simp [leadBytes, dropIdleEnd, joinPieces, partsOf]
  | case3 r =>
    cases short : dropIdleEnd pieces with
    | nil =>
      rw [short] at kept
      simp [leadBytes, joinPieces, partsOf, ← kept]
    | cons piece rest =>
      rw [short] at kept trimmed
      obtain ⟨rfl, inside⟩ := List.cons_prefix_cons.1 (trimmed.trans within)
      cases rest with
      | nil =>
        simp only [leadBytes, joinPieces, List.intercalate_singleton, List.append_nil, partsOf,
          ← kept]
        simp [bodySteps_cons, isIdle]
      | cons next rest =>
        have joined : leadBytes (some .here) ++ joinPieces ([] :: next :: rest) =
            dot :: slash :: joinPieces (next :: rest) := by
          simp [leadBytes, joinPieces, List.intercalate]
        rw [joined, partsOf, ← kept, bodySteps_cons, bodySteps_cons,
          bodySteps_splitAt_joinPieces ((clean_splitAt r).of_first inside)]
  | case4 s led alone dotted =>
    cases pieces with
    | nil => simp [leadBytes, dropIdleEnd, joinPieces, partsOf, Text.splitAt, bodySteps_cons, isIdle]
    | cons first pieces =>
      cases s with
      | nil =>
        obtain ⟨rfl, none⟩ := List.cons_prefix_cons.1 within
        obtain rfl := List.prefix_nil.1 none
        simp [leadBytes, dropIdleEnd, joinPieces, partsOf, Text.splitAt, bodySteps_cons, isIdle]
      | cons c r =>
        obtain ⟨piece, others, parted, step⟩ := splitAt_plain
          (fun same => led r (by rw [same])) alone dotted
        have clean := clean_dropIdleEnd ((clean_splitAt (c :: r)).of_first within)
        rw [parted] at within
        obtain ⟨rfl, -⟩ := List.cons_prefix_cons.1 within
        obtain ⟨rest, same⟩ := dropIdleEnd_cons_of_step pieces step
        rw [same] at kept clean ⊢
        simp only [leadBytes, List.nil_append]
        rw [joinPieces, partsOf_of_step (Text.splitAt_intercalate (by simp) clean) step]
        simp [kept]

theorem behind?_of_empty (empty : root.bytes = []) :
    ∃ q, behind? root p = some q ∧ q.steps = p.steps := by
  refine ⟨_, behind?_self_of_steps_nil (steps_eq_nil_iff.2 empty) p, ?_⟩
  rw [parts, steps_trimmed (List.prefix_refl _)]
  rfl

theorem behind?_eq_some (begun : root.bytes ≠ []) (behind : behind? root p = some q) :
    q.isAbsolute = false ∧ p.steps = root.steps ++ bodySteps q.pieces := by
  have dropped {steps : List Step} {rest : List (List UInt8)}
      (dropped : dropSteps steps p.parts.body = some rest) :
      bodySteps p.parts.body = steps ++ bodySteps rest ∧ Clean rest :=
    ⟨(dropSteps_eq_some dropped).2, (clean_body p).of_suffix (dropSteps_eq_some dropped).1⟩
  unfold behind? at behind
  split at behind
  next none => exact absurd (steps_eq_nil_iff.1 none) begun
  next free _ =>
    obtain ⟨rest, found, rfl⟩ := Option.map_eq_some_iff.1 behind
    obtain ⟨same, clean⟩ := dropped found
    rw [steps_eq, free, bodySteps_trimmed clean, same]
    exact ⟨trimmed_relative clean, rfl⟩
  next step steps lead first fixed =>
    split at behind
    next led =>
      obtain ⟨rest, found, rfl⟩ := Option.map_eq_some_iff.1 behind
      obtain ⟨same, clean⟩ := dropped found
      rw [steps_eq, fixed, first, bodySteps_trimmed clean, same, led]
      exact ⟨trimmed_relative clean, rfl⟩
    next => cases behind

theorem behind?_of_led (led : root.steps <+: p.steps) : ∃ q, behind? root p = some q := by
  unfold behind?
  rw [steps_eq p] at led
  split
  next => exact ⟨_, rfl⟩
  next free _ =>
    rw [free] at led
    obtain ⟨rest, found⟩ := dropSteps_of_led led
    exact ⟨_, by rw [found]; rfl⟩
  next step steps lead first fixed =>
    rw [first, fixed] at led
    obtain ⟨same, led⟩ := List.cons_prefix_cons.1 led
    obtain ⟨rest, found⟩ := dropSteps_of_led led
    exact ⟨_, by rw [if_pos same, found]; rfl⟩

theorem steps_join_stripped
    (within : root.bytes = [] ∨ p.isAbsolute = true ∨ root.steps <+: p.steps) :
    (root.join (p.stripped root)).steps = p.steps := by
  by_cases empty : root.bytes = []
  next =>
    obtain ⟨q, behind, same⟩ := behind?_of_empty (p := p) empty
    rw [join_of_empty empty, stripped, behind]
    exact same
  next =>
    cases behind : behind? root p with
    | some q =>
      obtain ⟨relative, same⟩ := behind?_eq_some empty behind
      rw [stripped, behind, same]
      exact steps_join empty relative
    | none =>
      rcases within with none | absolute | led
      · exact absurd none empty
      · rw [stripped, behind]
        exact congrArg steps (join_of_absolute root absolute)
      · obtain ⟨q, found⟩ := behind?_of_led led
        rw [behind] at found
        cases found

end FrontendSurvey.Path
