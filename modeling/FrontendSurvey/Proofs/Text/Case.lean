import FrontendSurvey.Proofs.Text.Joined

set_option autoImplicit false

namespace FrontendSurvey.Text

def Spells (word : String) (t : List Char) : Prop := t.map foldCase = word.toList

def SameButCase (s t : List Char) : Prop := s.map Char.toLower = t.map Char.toLower

def EitherCase (ok : Char → Bool) : Prop := ∀ a b : Char, a.toLower = b.toLower → ok a = ok b

variable {a b : Char} {word : String} {before before' : Option Char} {s t u rest rest' : List Char}

theorem cases_of_toLower (same : a.toLower = b.toLower) : a = b ∨ a.isAlpha = true ∧ b.isAlpha = true := by
  have kinds : a.isAlpha = b.isAlpha := by
    rw [← Char.isLower_toLower_eq_isAlpha, ← Char.isLower_toLower_eq_isAlpha, same]
  cases letter : a.isAlpha with
  | true => exact .inr ⟨rfl, kinds.symm.trans letter⟩
  | false =>
    have lower {c : Char} (other : c.isAlpha = false) : c.toLower = c := by
      apply Char.toLower_eq_of_not_isUpper
      intro upper
      simp [Char.isAlpha, upper] at other
    rw [lower letter, lower (kinds.symm.trans letter)] at same
    exact .inl same

theorem isWordChar_of_isAlpha (letter : a.isAlpha = true) : isWordChar a = true := by
  simp [isWordChar, Char.isAlphanum, letter]

theorem ne_of_isAlpha (letter : a.isAlpha = true) (other : b.isAlpha = false) : a ≠ b := by
  intro same
  rw [same, other] at letter
  cases letter

theorem foldCase_of_isAlpha (letter : a.isAlpha = true) : foldCase a = a.toLower := by
  rw [foldCase, if_neg (ne_of_isAlpha letter (by decide)), if_neg (ne_of_isAlpha letter (by decide))]

theorem eitherCase_of_letters {ok : Char → Bool} {value : Bool}
    (letters : ∀ c : Char, c.isAlpha = true → ok c = value) : EitherCase ok := by
  intro a b same
  rcases cases_of_toLower same with rfl | ⟨left, right⟩
  · rfl
  · rw [letters a left, letters b right]

theorem eitherCase_isWordChar : EitherCase isWordChar :=
  eitherCase_of_letters fun _ => isWordChar_of_isAlpha

theorem eitherCase_isBlank : EitherCase isBlank :=
  eitherCase_of_letters fun _ letter => not_isBlank_of_isWordChar (isWordChar_of_isAlpha letter)

theorem eitherCase_foldCase (b : Char) : EitherCase (foldCase · == b) := by
  intro c d same
  rcases cases_of_toLower same with rfl | ⟨left, right⟩
  · rfl
  · simp only [foldCase_of_isAlpha left, foldCase_of_isAlpha right, same]

-- Only two letters have folds of other than ASCII letters.
theorem isWordChar_of_foldCase (fold : foldCase a = b) (letter : b.isAlpha = true) (long : b ≠ 's')
    (kelvin : b ≠ 'k') : isWordChar a = true := by
  apply isWordChar_of_isAlpha
  rw [foldCase] at fold
  split at fold
  next => exact absurd fold.symm long
  next =>
    split at fold
    next => exact absurd fold.symm kelvin
    next => rw [← Char.isAlpha_toLower_eq_isAlpha, fold, letter]

theorem Spells.ne_nil (spells : Spells word t) (begun : word.toList ≠ []) : t ≠ [] := by
  rintro rfl
  exact begun spells.symm

theorem Spells.fold_mem (spells : Spells word t) (member : a ∈ t) : foldCase a ∈ word.toList := by
  have among : foldCase a ∈ t.map foldCase := List.mem_map_of_mem member
  rwa [show t.map foldCase = word.toList from spells] at among

theorem Spells.not_mem (spells : Spells word t) (other : foldCase a ∉ word.toList) : a ∉ t :=
  fun member => other (spells.fold_mem member)

namespace Pattern

theorem matches_anyCase {word : List Char} :
    (anyCase word).Matches before s rest ↔ s.map foldCase = word.map foldCase := by
  induction word generalizing before s with
  | nil => simp [anyCase]
  | cons c word ih =>
    simp only [anyCase, matches_append, matches_char, beq_iff_eq, ih]
    constructor
    · rintro ⟨_, v, split, ⟨a, same, first⟩, others⟩
      rw [split, same, List.singleton_append, List.map_cons, List.map_cons, first, others]
    · intro same
      obtain ⟨a, v, rfl, first, others⟩ := List.map_eq_cons_iff.1 same
      exact ⟨[a], v, rfl, ⟨a, rfl, first⟩, others⟩

theorem matches_wordAnyCase (lower : word.toList.map foldCase = word.toList) :
    (wordAnyCase word).Matches before s rest ↔ Spells word s := by
  rw [wordAnyCase, matches_anyCase, lower, Spells]

def Caseless : Pattern → Prop
  | char ok | run ok | shortRun ok => EitherCase ok
  | look ok => ∀ c d : Cursor, c.before.map Char.toLower = d.before.map Char.toLower →
      SameButCase c.rest d.rest → ok c = ok d
  | seq p q | alt p q => p.Caseless ∧ q.Caseless
  | many p => p.Caseless

variable {p : Pattern}

theorem map_past_congr (first : before.map Char.toLower = before'.map Char.toLower) (same : SameButCase s t) :
    (past before s).map Char.toLower = (past before' t).map Char.toLower := by
  induction s generalizing before before' t with
  | nil =>
    rw [List.map_eq_nil_iff.1 same.symm]
    exact first
  | cons c s ih =>
    obtain ⟨d, t, rfl, head, tail⟩ := List.map_eq_cons_iff.1 same.symm
    have next : (some c).map Char.toLower = (some d).map Char.toLower := congrArg some head.symm
    rw [past_cons, past_cons]
    exact ih next tail.symm

theorem SameButCase.append (left : SameButCase s t) (right : SameButCase rest rest') :
    SameButCase (s ++ rest) (t ++ rest') := by
  rw [SameButCase, List.map_append, List.map_append, left, right]

theorem EitherCase.forall_mem {ok : Char → Bool} (alike : EitherCase ok)
    (same : SameButCase s t) (inside : ∀ c ∈ s, ok c = true) : ∀ c ∈ t, ok c = true := by
  intro d member
  have among : d.toLower ∈ s.map Char.toLower := by
    rw [same]
    exact List.mem_map_of_mem member
  obtain ⟨c, within, lower⟩ := List.mem_map.1 among
  rw [← alike c d lower]
  exact inside c within

theorem Matches.of_case (caseless : p.Caseless) (matched : p.Matches before s rest)
    (behind : before.map Char.toLower = before'.map Char.toLower) (same : SameButCase s t)
    (ahead : SameButCase rest rest') : p.Matches before' t rest' := by
  induction p generalizing before s rest before' t rest' with
  | char ok =>
    obtain ⟨a, rfl, inside⟩ := matched
    obtain ⟨b, _, rfl, lower, nothing⟩ := List.map_eq_cons_iff.1 same.symm
    rw [List.map_eq_nil_iff.1 nothing]
    exact ⟨b, rfl, (caseless a b lower.symm).symm.trans inside⟩
  | look ok =>
    obtain ⟨rfl, holds⟩ := matched
    exact ⟨List.map_eq_nil_iff.1 same.symm, (caseless _ _ behind ahead).symm.trans holds⟩
  | seq p q first second =>
    obtain ⟨u, v, rfl, left, right⟩ := matched
    have parts : t.map Char.toLower = u.map Char.toLower ++ v.map Char.toLower := by
      rw [← List.map_append]
      exact same.symm
    obtain ⟨u', v', rfl, front, back⟩ := List.map_eq_append_iff.1 parts
    exact ⟨u', v', rfl, first caseless.1 left behind front.symm (SameButCase.append back.symm ahead),
      second caseless.2 right (map_past_congr behind front.symm) back.symm ahead⟩
  | alt p q first second =>
    cases matched with
    | inl left => exact .inl (first caseless.1 left behind same ahead)
    | inr right => exact .inr (second caseless.2 right behind same ahead)
  | run ok => exact EitherCase.forall_mem caseless same matched
  | shortRun ok => exact EitherCase.forall_mem caseless same matched
  | many p ih =>
    have repeats : Repeats p.Matches before s rest := matched
    show Repeats p.Matches before' t rest'
    clear matched
    induction repeats generalizing before' t rest' with
    | none before rest =>
      rw [List.map_eq_nil_iff.1 same.symm]
      exact .none before' rest'
    | @more before u v rest first others later =>
      have parts : t.map Char.toLower = u.map Char.toLower ++ v.map Char.toLower := by
        rw [← List.map_append]
        exact same.symm
      obtain ⟨u', v', rfl, front, back⟩ := List.map_eq_append_iff.1 parts
      exact .more (ih caseless first behind front.symm (SameButCase.append back.symm ahead))
        (later (map_past_congr behind front.symm) back.symm ahead)

theorem caseless_is (other : a.isAlpha = false) : (is a).Caseless :=
  eitherCase_of_letters fun _ letter => beq_false_of_ne (ne_of_isAlpha letter other)

theorem caseless_anyCase (word : List Char) : (anyCase word).Caseless := by
  induction word with
  | nil => exact fun _ _ _ _ => rfl
  | cons c word ih => exact ⟨eitherCase_foldCase (foldCase c), ih⟩

theorem caseless_oneOf {marks : String} (others : (marks.toList.any Char.isAlpha) = false) :
    (oneOf marks).Caseless := by
  have outside : ∀ c : Char, c.isAlpha = true → marks.toList.contains c = false := by
    intro c letter
    simp only [List.contains_eq_mem, decide_eq_false_iff_not]
    intro member
    exact ne_of_isAlpha letter (by simpa using List.any_eq_false.1 others c member) rfl
  exact eitherCase_of_letters outside

theorem any_congr_case {c d : Option Char} (same : c.map Char.toLower = d.map Char.toLower) :
    c.any isWordChar = d.any isWordChar := by
  cases c <;> cases d <;> simp at same
  · rfl
  · exact eitherCase_isWordChar _ _ same

theorem SameButCase.head? (same : SameButCase s t) : s.head?.map Char.toLower = t.head?.map Char.toLower := by
  rw [← List.head?_map, ← List.head?_map, same]

theorem caseless_boundary : boundary.Caseless := by
  rintro ⟨before, rest⟩ ⟨before', rest'⟩ behind ahead
  simp only [Cursor.afterWordChar_eq, Cursor.beforeWordChar_eq]
  rw [any_congr_case behind, any_congr_case (SameButCase.head? ahead)]

theorem occursIn_congr_case (solid : p.Solid) (caseless : p.Caseless) {s t : String}
    (same : SameButCase s.toList t.toList) : p.occursIn s = p.occursIn t := by
  have onward {s t : String} (same : SameButCase s.toList t.toList) (found : p.occursIn s = true) :
      p.occursIn t = true := by
    rw [occursIn_iff solid] at found ⊢
    obtain ⟨x, u, y, rest, split, -, matched⟩ := found
    have parts : t.toList.map Char.toLower =
        u.map Char.toLower ++ y.map Char.toLower ++ rest.map Char.toLower := by
      rw [← same, split, List.map_append, List.map_append]
    obtain ⟨front, rest', whole, first, last⟩ := List.map_eq_append_iff.1 parts
    obtain ⟨u', y', rfl, front, middle⟩ := List.map_eq_append_iff.1 first
    exact ⟨_, u', y', rest', whole, rfl,
      matched.of_case caseless (map_past_congr rfl front.symm) middle.symm last.symm⟩
  rw [Bool.eq_iff_iff]
  exact ⟨onward same, onward same.symm⟩

end Pattern

end FrontendSurvey.Text
