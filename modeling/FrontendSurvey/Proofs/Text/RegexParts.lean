import FrontendSurvey.Proofs.Text.RegexPattern

set_option autoImplicit false

namespace FrontendSurvey.Text.Regex

open Pattern

def inOrder (parts : List Regex) : Regex := sequence parts.reverse

def inTurn : List Pattern → Pattern
  | [] => look fun _ => true
  | p :: ps => p ++ inTurn ps

def Spells (parts : List Regex) (p : Pattern) : Prop := (inTurn (parts.map pattern)).ends = p.ends

variable {parts parts' : List Regex} {p q : Pattern} {r : Regex}

theorem ends_last (p : Pattern) : (p ++ inTurn []).ends = p.ends := by
  funext c
  exact List.flatMap_singleton' (p.ends c)

theorem ends_inTurn_append (ps qs : List Pattern) : (inTurn (ps ++ qs)).ends = (inTurn ps ++ inTurn qs).ends := by
  induction ps with
  | nil =>
    funext c
    simp [inTurn]
  | cons p ps ih =>
    funext c
    rw [List.cons_append, inTurn, inTurn, ends_append, ih, ends_append, ends_append, List.flatMap_assoc]
    rfl

theorem ends_sequence (parts : List Regex) :
    (sequence parts).pattern.ends = (inTurn (parts.reverse.map pattern)).ends := by
  induction parts using sequence.induct with
  | case1 => rfl
  | case2 r => exact (ends_last r.pattern).symm
  | case3 r s parts ih =>
    funext c
    rw [sequence, pattern, List.reverse_cons, List.map_append, ends_inTurn_append, ends_append, ends_append, ih]
    exact congrArg (List.flatMap · _) (ends_last r.pattern).symm

theorem Spells.ends_inOrder (spells : Spells parts p) : (inOrder parts).pattern.ends = p.ends := by
  rw [inOrder, ends_sequence, List.reverse_reverse]
  exact spells

theorem Spells.append (first : Spells parts p) (second : Spells parts' q) : Spells (parts ++ parts') (p ++ q) := by
  funext c
  rw [List.map_append, ends_inTurn_append, ends_append, ends_append, first, second]

theorem spells_single (same : r.pattern.ends = p.ends) : Spells [r] p := (ends_last r.pattern).trans same

theorem spells_edge : Spells [edge] boundary := spells_single rfl

theorem holds_range_iff {space : Nat → Bool} {first last c : Char} :
    holds space c.toNat (.range first last) = true ↔ first ≤ c ∧ c ≤ last := by
  simp [holds, Char.le_def, UInt32.le_iff_toNat_le]

theorem between_iff {a c : Char} : a ≤ c ∧ c ≤ a ↔ c = a := by
  rw [and_comm, ← le_antisymm_iff]

def blank : Regex := unit false [.space]

def letter : Regex := unit false [.word]

def outside (c : Char) : Regex := unit true [.range c c]

def upper : Regex := unit false [.range 'A' 'Z']

def nameUnit : Regex := unit false [.range 'A' 'Z', .range 'a' 'z', .range '0' '9', .range '_' '_']

theorem pattern_unit {items : List RegexItem} {ok : Char → Bool}
    (same : ∀ c : Char, (∃ item ∈ items, holds isBlankCode c.toNat item = true) ↔ ok c = true) :
    (unit false items).pattern = char ok := by
  refine congrArg char (funext fun c => ?_)
  rw [Bool.eq_iff_iff, ← same c]
  simp

theorem pattern_one (a : Char) : (one a).pattern = is a :=
  pattern_unit fun c => by simp [holds_range_iff, between_iff]

theorem pattern_outside (a : Char) : (outside a).pattern = char (· != a) := by
  refine congrArg char (funext fun c => ?_)
  have same : holds isBlankCode c.toNat (.range a a) = (c == a) := by
    rw [Bool.eq_iff_iff, holds_range_iff, between_iff, beq_iff_eq]
  simp [same, bne]

theorem pattern_blank : blank.pattern = char isBlank :=
  pattern_unit fun c => by simp [holds, isBlank]

theorem pattern_letter : letter.pattern = char isWordChar :=
  pattern_unit fun c => by simp [holds, isWordUnit_toNat]

theorem pattern_upper : upper.pattern = char Char.isUpper :=
  pattern_unit fun c => by simp [holds_range_iff, Char.isUpper, Char.le_def]

theorem pattern_nameUnit : nameUnit.pattern = char isWordChar :=
  pattern_unit fun c => by
    simp [holds_range_iff, ← between_iff, isWordChar, Char.isAlphanum, Char.isAlpha, Char.isUpper, Char.isLower,
      Char.isDigit, Char.le_def, or_assoc]

theorem spells_char {ok : Char → Bool} (same : r.pattern = char ok) : Spells [r] (char ok) :=
  spells_single (congrArg Pattern.ends same)

theorem spells_is (a : Char) : Spells [one a] (is a) := spells_char (pattern_one a)

theorem spells_literal (word : List Char) : Spells (letters word) (literal word) := by
  induction word using literal.induct with
  | case1 => rfl
  | case2 a => exact spells_is a
  | case3 a r other ih =>
    rw [literal]
    · exact (spells_is a).append ih
    · exact other

theorem ends_many_char (ok : Char → Bool) : (Pattern.many (char ok)).ends = (Pattern.run ok).ends := by
  funext c
  obtain ⟨before, s⟩ := c
  change manyEnds (char ok).ends s.length ⟨before, s⟩ = (runEnds ok before s).reverse
  induction s generalizing before with
  | nil => rfl
  | cons a r ih =>
    rw [List.length_cons, manyEnds, ends_char_cons, runEnds]
    split <;> simp [ih]

theorem spells_run {ok : Char → Bool} (same : r.pattern = char ok) : Spells [many 0 r] (Pattern.run ok) := by
  apply spells_single
  rw [pattern, same]
  exact ends_many_char ok

theorem spells_some {ok : Char → Bool} (same : r.pattern = char ok) :
    Spells [many 1 r] (char ok ++ Pattern.run ok) := by
  apply spells_single
  funext c
  rw [ends_append, ← ends_many_char, ← same]
  rfl

theorem Spells.many (spells : Spells parts p) : Spells [many 0 (inOrder parts)] (Pattern.many p) := by
  apply spells_single
  funext c
  change manyEnds (inOrder parts).pattern.ends c.rest.length c = manyEnds p.ends c.rest.length c
  rw [spells.ends_inOrder]

end FrontendSurvey.Text.Regex
