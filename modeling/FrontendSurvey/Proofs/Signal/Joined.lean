import FrontendSurvey.Proofs.Hygiene.Totals
import FrontendSurvey.Proofs.Signal.Occurrences
import FrontendSurvey.Proofs.Text.Joined
import FrontendSurvey.Signal.PerfSignals

set_option autoImplicit false

namespace FrontendSurvey

open Text Pattern

namespace TypeSignals

theorem steady_wholeWord {name : String} (begun : name.toList ≠ []) (letters : InWord name.toList) :
    (wholeWord name).Steady := by
  have takes : (wholeWord name).Takes name.toList.length := by
    intro before t rest matched
    rw [((matches_wholeWord begun letters).1 matched).1]
  exact takes.steady (List.length_pos_of_ne_nil begun)

theorem oneLine_wholeWord {name : String} (begun : name.toList ≠ []) (letters : InWord name.toList) :
    (wholeWord name).OneLine := by
  intro before t rest matched member
  rw [((matches_wholeWord begun letters).1 matched).1] at member
  exact absurd (letters _ member) (by decide)

theorem local_wholeWord (name : String) : (wholeWord name).Local := by
  simp [wholeWord, word]

theorem local_directive (name : String) : (Pattern.directive name).Local := by
  simp [Pattern.directive, word, blanks]

theorem local_declared (keyword : String) : (Pattern.declared keyword).Local := by
  simp [Pattern.declared, word, someBlanks, someWordChars, blanks, wordChars]

theorem local_genericAngles : Pattern.genericAngles.Local := by
  simp [Pattern.genericAngles, blanks, is, Pattern.typeName, wordChars]

theorem exists_pattern {counter : TypeSignals → Nat} (member : counter ∈ counters) :
    ∃ p : Text.Pattern, p.Steady ∧ p.Local ∧ ∀ s, counter (ofText s) = p.count s := by
  have union : Pattern.union.Takes 5 :=
    ((((takes_char _).append (takes_char _)).append (takes_char _)).append (takes_char _)).append (takes_char _)
  have intersection : Pattern.intersection.Takes 3 :=
    ((takes_char _).append (takes_char _)).append (takes_char _)
  have nonNull : Pattern.nonNull.Takes 2 := takes_literal _
  simp only [counters, List.mem_cons, List.not_mem_nil, or_false] at member
  rcases member with rfl | rfl | rfl | rfl | rfl | rfl | rfl | rfl | rfl | rfl | rfl | rfl | rfl
  · exact ⟨_, steady_wholeWord (by decide) (List.all_eq_true.1 (by decide)), local_wholeWord "any", fun _ => rfl⟩
  · exact ⟨_, (solitary_directive (by decide) (by decide) (by decide)).steady, local_directive "@ts-ignore",
      fun _ => rfl⟩
  · exact ⟨_, (solitary_directive (by decide) (by decide) (by decide)).steady, local_directive "@ts-expect-error",
      fun _ => rfl⟩
  · exact ⟨_, nonNull.steady (by decide), local_literal _, fun _ => rfl⟩
  · exact ⟨_, solitary_asConst.steady, by simp [Pattern.asConst, word, someBlanks, blanks], fun _ => rfl⟩
  · exact ⟨_, steady_wholeWord (by decide) (List.all_eq_true.1 (by decide)), local_wholeWord "satisfies",
      fun _ => rfl⟩
  · exact ⟨_, steady_wholeWord (by decide) (List.all_eq_true.1 (by decide)), local_wholeWord "readonly",
      fun _ => rfl⟩
  · exact ⟨_, steady_declared (by decide) (List.all_eq_true.1 (by decide)), local_declared "enum", fun _ => rfl⟩
  · exact ⟨_, steady_declared (by decide) (List.all_eq_true.1 (by decide)), local_declared "interface",
      fun _ => rfl⟩
  · exact ⟨_, solitary_typeAlias.steady, by simp [Pattern.typeAlias, local_declared, blanks, is], fun _ => rfl⟩
  · exact ⟨_, solitary_genericAngles.steady, local_genericAngles, fun _ => rfl⟩
  · exact ⟨_, union.steady (by decide), by simp [Pattern.union, is], fun _ => rfl⟩
  · exact ⟨_, intersection.steady (by decide), by simp [Pattern.intersection, is], fun _ => rfl⟩

theorem counter_joined {counter : TypeSignals → Nat} (member : counter ∈ counters) (a b : String) :
    counter (ofText a) + counter (ofText b) ≤ counter (ofText (a ++ "\n" ++ b)) := by
  obtain ⟨p, steady, isLocal, counts⟩ := exists_pattern member
  rw [counts, counts, counts]
  exact count_joined_ge steady isLocal a b

theorem count_word_joined {name : String} (begun : name.toList ≠ []) (letters : InWord name.toList) (a b : String) :
    (wholeWord name).count (a ++ "\n" ++ b) = (wholeWord name).count a + (wholeWord name).count b :=
  count_joined (steady_wholeWord begun letters) (local_wholeWord name) (oneLine_wholeWord begun letters) a b

theorem count_nonNull_joined (a b : String) : Pattern.nonNull.count (a ++ "\n" ++ b) =
    Pattern.nonNull.count a + Pattern.nonNull.count b := by
  have takes : Pattern.nonNull.Takes 2 := takes_literal _
  have oneLine : Pattern.nonNull.OneLine := by
    intro before t rest matched
    rw [matches_literal.1 matched]
    decide
  exact count_joined (takes.steady (by decide)) (local_literal _) oneLine a b

end TypeSignals

namespace PerfSignals

theorem local_call {name : Text.Pattern} (isLocal : name.Local) : (Pattern.call name).Local := by
  simp [Pattern.call, isLocal, blanks, is]

theorem exists_pattern {flag : PerfSignals → Bool} (member : flag ∈ flags) :
    ∃ p : Text.Pattern, p.Solid ∧ p.Local ∧ ∀ s, flag (ofText s) = p.occursIn s := by
  simp only [flags, List.mem_cons, List.not_mem_nil, or_false] at member
  rcases member with rfl | rfl | rfl | rfl | rfl
  · exact ⟨_, (solid_is '(').behind _, local_call (local_literal _), fun _ => rfl⟩
  · exact ⟨_, (solid_is '(').behind _, local_call (local_literal _), fun _ => rfl⟩
  · exact ⟨_, (TypeSignals.steady_wholeWord (by decide) (List.all_eq_true.1 (by decide))).solid,
      TypeSignals.local_wholeWord "IntersectionObserver", fun _ => rfl⟩
  · have name : (word "console." ++ alt (word "time") (word "timeEnd")).Local :=
      by simp [word]
    exact ⟨_, (solid_is '(').behind _, local_call name, fun _ => rfl⟩
  · have call : (Pattern.call (word "import")).Local := local_call (local_literal _)
    refine ⟨Pattern.dynamicImport, (solid_is ')').behind _, ?_, fun _ => rfl⟩
    simp [Pattern.dynamicImport, call, blanks, oneOf, is]

theorem flag_joined {flag : PerfSignals → Bool} (member : flag ∈ flags) (a b : String)
    (some : flag (ofText a) = true ∨ flag (ofText b) = true) : flag (ofText (a ++ "\n" ++ b)) = true := by
  obtain ⟨p, solid, isLocal, occurs⟩ := exists_pattern member
  rw [occurs, occurs] at some
  rw [occurs]
  exact occursIn_joined solid isLocal a b some

end PerfSignals

theorem signals_joined (a b : String) :
    (∀ counter ∈ TypeSignals.counters, counter (.ofText a) + counter (.ofText b) ≤
      counter (.ofText (a ++ "\n" ++ b))) ∧
    (∀ counter ∈ [TypeSignals.any, TypeSignals.satisfies, TypeSignals.readonly, TypeSignals.nonNull],
      counter (.ofText (a ++ "\n" ++ b)) = counter (.ofText a) + counter (.ofText b)) ∧
    ∀ flag ∈ PerfSignals.flags, flag (.ofText a) = true ∨ flag (.ofText b) = true →
      flag (.ofText (a ++ "\n" ++ b)) = true := by
  refine ⟨fun counter member => TypeSignals.counter_joined member a b, ?_,
    fun flag member => PerfSignals.flag_joined member a b⟩
  simp only [List.forall_mem_cons, List.not_mem_nil, false_implies, implies_true, and_true]
  exact ⟨TypeSignals.count_word_joined (by decide) (List.all_eq_true.1 (by decide)) a b,
    TypeSignals.count_word_joined (by decide) (List.all_eq_true.1 (by decide)) a b,
    TypeSignals.count_word_joined (by decide) (List.all_eq_true.1 (by decide)) a b,
    TypeSignals.count_nonNull_joined a b⟩

-- The other counts may gain one across the line end.
example : (TypeSignals.ofText "x as").asConst + (TypeSignals.ofText "const").asConst = 0 ∧
    (TypeSignals.ofText ("x as" ++ "\n" ++ "const")).asConst = 1 := by decide +kernel

theorem signals_joined_seam :
    TypeSignals.asConst ∈ TypeSignals.counters ∧
    (TypeSignals.ofText "let x: any = [] as").asConst + (TypeSignals.ofText "const; import('m')").asConst ≤
      (TypeSignals.ofText ("let x: any = [] as" ++ "\n" ++ "const; import('m')")).asConst ∧
    TypeSignals.any ∈ [TypeSignals.any, TypeSignals.satisfies, TypeSignals.readonly, TypeSignals.nonNull] ∧
    (TypeSignals.ofText ("let x: any = [] as" ++ "\n" ++ "const; import('m')")).any = 1 + 0 ∧
    PerfSignals.dynamicImport ∈ PerfSignals.flags ∧
    (PerfSignals.ofText "const; import('m')").dynamicImport = true ∧
    (PerfSignals.ofText ("let x: any = [] as" ++ "\n" ++ "const; import('m')")).dynamicImport = true := by
  have counted : TypeSignals.asConst ∈ TypeSignals.counters := by simp [TypeSignals.counters]
  have kept : TypeSignals.any ∈
      [TypeSignals.any, TypeSignals.satisfies, TypeSignals.readonly, TypeSignals.nonNull] := by simp
  have flagged : PerfSignals.dynamicImport ∈ PerfSignals.flags := by simp [PerfSignals.flags]
  have one : (TypeSignals.ofText "let x: any = [] as").any = 1 := by decide +kernel
  have none : (TypeSignals.ofText "const; import('m')").any = 0 := by decide +kernel
  have second : (PerfSignals.ofText "const; import('m')").dynamicImport = true := by decide +kernel
  have joined := signals_joined "let x: any = [] as" "const; import('m')"
  have sum := joined.2.1 _ kept
  rw [one, none] at sum
  exact ⟨counted, joined.1 _ counted, kept, sum, flagged, second, joined.2.2 _ flagged (.inr second)⟩

end FrontendSurvey
