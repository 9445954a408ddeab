import FrontendSurvey.Proofs.Text.Solitary
import FrontendSurvey.Proofs.Text.Words
import FrontendSurvey.Signal.TypeSignals

set_option autoImplicit false

namespace FrontendSurvey.TypeSignals

open Text Pattern

def TypeName (s : List Char) : Prop := ∃ c r, s = c :: r ∧ c.isUpper = true ∧ InWord r

def TypeItem (s : List Char) : Prop :=
  ∃ lead name trail, s = lead ++ name ++ trail ∧ InGap lead ∧ TypeName name ∧ InGap trail

def TypeList (s : List Char) : Prop :=
  ∃ items, s = List.intercalate [','] items ∧ items ≠ [] ∧ ∀ item ∈ items, TypeItem item

def OpensTypes (s : List Char) (i : Nat) : Prop :=
  ∃ above types below, s = above ++ '<' :: types ++ '>' :: below ∧ above.length = i ∧ TypeList types

variable {before : Option Char} {s t rest : List Char} {c : Char}

def furtherName : Text.Pattern := blanks ++ is ',' ++ blanks ++ Pattern.typeName

theorem matches_typeName : Pattern.typeName.Matches before s rest ↔ TypeName s := by
  simp only [Pattern.typeName, wordChars, matches_append, matches_char, matches_run]
  constructor
  · rintro ⟨_, r, split, ⟨c, same, upper⟩, letters⟩
    exact ⟨c, r, by rw [split, same]; rfl, upper, letters⟩
  · rintro ⟨c, r, split, upper, letters⟩
    exact ⟨[c], r, split, ⟨c, rfl, upper⟩, letters⟩

theorem matches_furtherName : furtherName.Matches before s rest ↔
    ∃ gap lead name, s = gap ++ ',' :: (lead ++ name) ∧ InGap gap ∧ InGap lead ∧ TypeName name := by
  simp only [furtherName, blanks, matches_append, matches_is, matches_run, matches_typeName]
  constructor
  · rintro ⟨_, name, split, ⟨_, lead, split', ⟨gap, _, split'', gaps, comma⟩, leads⟩, named⟩
    subst split split' split'' comma
    exact ⟨gap, lead, name, by simp, gaps, leads, named⟩
  · rintro ⟨gap, lead, name, split, gaps, leads, named⟩
    subst split
    exact ⟨gap ++ [','] ++ lead, name, by simp, ⟨gap ++ [','], lead, rfl, ⟨gap, [','], rfl, gaps, rfl⟩, leads⟩,
      named⟩

theorem intercalate_cons (item : List Char) {items : List (List Char)} (some : items ≠ []) :
    List.intercalate [','] (item :: items) = item ++ ',' :: List.intercalate [','] items := by
  cases items with
  | nil => exact absurd rfl some
  | cons next items => rw [List.intercalate_cons_cons, List.append_assoc, List.singleton_append]

theorem typeList_of_repeats {lead name names trail : List Char}
    (repeats : Repeats furtherName.Matches before names rest) (leads : InGap lead) (named : TypeName name)
    (trails : InGap trail) : TypeList (lead ++ name ++ names ++ trail) := by
  induction repeats generalizing lead name with
  | none before rest =>
    refine ⟨[lead ++ name ++ trail], by simp, by simp, ?_⟩
    intro item member
    exact ⟨lead, name, trail, List.mem_singleton.1 member, leads, named, trails⟩
  | more first _ ih =>
    obtain ⟨gap, lead', name', split, gaps, leads', named'⟩ := matches_furtherName.1 first
    obtain ⟨items, list, some, each⟩ := ih leads' named'
    subst split
    refine ⟨(lead ++ name ++ gap) :: items, ?_, by simp, ?_⟩
    · rw [intercalate_cons _ some, ← list]
      simp
    · intro item member
      cases List.mem_cons.1 member with
      | inl same => exact ⟨lead, name, gap, same, leads, named, gaps⟩
      | inr later => exact each item later

theorem repeats_of_typeList (list : TypeList s) : ∃ lead name names trail,
    s = lead ++ name ++ names ++ trail ∧ InGap lead ∧ TypeName name ∧ InGap trail ∧
      ∀ before rest, Repeats furtherName.Matches before names rest := by
  obtain ⟨items, split, some, each⟩ := list
  subst split
  induction items with
  | nil => exact absurd rfl some
  | cons item items ih =>
    obtain ⟨lead, name, trail, split, leads, named, trails⟩ := each item (by simp)
    cases items with
    | nil =>
      exact ⟨lead, name, [], trail, by simp [split], leads, named, trails, fun before rest => .none before rest⟩
    | cons next items =>
      obtain ⟨lead', name', names, last, list, leads', named', lasts, repeats⟩ :=
        ih (by simp) fun other member => each other (List.mem_cons_of_mem item member)
      refine ⟨lead, name, trail ++ ',' :: (lead' ++ name') ++ names, last, ?_, leads, named, lasts, ?_⟩
      · rw [intercalate_cons item (by simp), list, split]
        simp
      · intro before rest
        exact .more (matches_furtherName.2 ⟨trail, lead', name', rfl, trails, leads', named'⟩) (repeats _ _)

theorem matches_genericAngles : Pattern.genericAngles.Matches before s rest ↔
    ∃ types, s = '<' :: types ++ ['>'] ∧ TypeList types := by
  have parts : Pattern.genericAngles =
      is '<' ++ blanks ++ Pattern.typeName ++ many furtherName ++ blanks ++ is '>' := rfl
  have repeated {before : Option Char} {s rest : List Char} :
      (many furtherName).Matches before s rest ↔ Repeats furtherName.Matches before s rest := Iff.rfl
  simp only [parts, blanks, matches_append, matches_is, matches_run, matches_typeName, repeated]
  constructor
  · rintro ⟨_, _, split, ⟨_, trail, split', ⟨_, names, split'', ⟨_, name, split''', ⟨_, lead, last, opening, leads⟩,
      named⟩, repeats⟩, trails⟩, closing⟩
    subst split split' split'' split''' last opening closing
    exact ⟨lead ++ name ++ names ++ trail, by simp, typeList_of_repeats repeats leads named trails⟩
  · rintro ⟨types, split, list⟩
    obtain ⟨lead, name, names, trail, same, leads, named, trails, repeats⟩ := repeats_of_typeList list
    subst split same
    exact ⟨'<' :: lead ++ name ++ names ++ trail, ['>'], by simp, ⟨'<' :: lead ++ name ++ names, trail, rfl,
      ⟨'<' :: lead ++ name, names, rfl, ⟨'<' :: lead, name, rfl, ⟨['<'], lead, rfl, rfl, leads⟩, named⟩,
        repeats _ _⟩, trails⟩, rfl⟩

theorem not_bracket_of_word (letter : isWordChar c = true) : c ≠ '<' ∧ c ≠ '>' := by
  constructor
  all_goals
    intro same
    simp [same, isWordChar] at letter

theorem not_bracket_of_blank (blank : isBlank c = true) : c ≠ '<' ∧ c ≠ '>' := by
  constructor
  all_goals
    intro same
    rw [same] at blank
    exact absurd blank (by decide)

theorem isWordChar_of_isUpper (upper : c.isUpper = true) : isWordChar c = true := by
  simp [isWordChar, Char.isAlphanum, Char.isAlpha, upper]

theorem TypeName.inWord (named : TypeName s) : InWord s := by
  obtain ⟨c, r, same, upper, letters⟩ := named
  subst same
  exact List.forall_mem_cons.2 ⟨isWordChar_of_isUpper upper, letters⟩

theorem TypeItem.no_bracket (item : TypeItem s) (member : c ∈ s) : c ≠ '<' ∧ c ≠ '>' := by
  obtain ⟨lead, name, trail, split, leads, named, trails⟩ := item
  subst split
  simp only [List.mem_append] at member
  rcases member with (member | member) | member
  · exact not_bracket_of_blank (leads c member)
  · exact not_bracket_of_word (named.inWord c member)
  · exact not_bracket_of_blank (trails c member)

theorem TypeList.no_bracket (list : TypeList s) (member : c ∈ s) : c ≠ '<' ∧ c ≠ '>' := by
  obtain ⟨items, split, some, each⟩ := list
  subst split
  clear some
  induction items with
  | nil => simp at member
  | cons item items ih =>
    have first : c ∈ item → c ≠ '<' ∧ c ≠ '>' := (each item (by simp)).no_bracket
    have others := ih fun other inside => each other (List.mem_cons_of_mem item inside)
    cases items with
    | nil => exact first (by simpa using member)
    | cons next items =>
      rw [intercalate_cons item (by simp), List.mem_append, List.mem_cons] at member
      rcases member with member | rfl | member
      · exact first member
      · decide
      · exact others member

theorem solitary_genericAngles : Pattern.genericAngles.Solitary where
  solid before t rest matched := by
    obtain ⟨types, split, -⟩ := matches_genericAngles.1 matched
    simp [split]
  single before t rest t' rest' matched matched' same := by
    obtain ⟨types, split, list⟩ := matches_genericAngles.1 matched
    obtain ⟨types', split', list'⟩ := matches_genericAngles.1 matched'
    have inside {types : List Char} (list : TypeList types) : ∀ c ∈ types, (c != '>') = true := by
      intro c member
      simpa using (list.no_bracket member).2
    have closed : types ++ ('>' :: rest) = types' ++ ('>' :: rest') := by
      rw [split, split'] at same
      simpa using same
    have equal := eq_of_span (inside list) (by simp) (inside list') (by simp) closed
    rw [split, split', equal.1]
  clear before u w rest matched begun more t rest' same inner := by
    obtain ⟨types, split, list⟩ := matches_genericAngles.1 matched
    obtain ⟨types', split', -⟩ := matches_genericAngles.1 inner
    subst split'
    obtain ⟨a, u, rfl⟩ := List.exists_cons_of_ne_nil begun
    obtain ⟨c, w, rfl⟩ := List.exists_cons_of_ne_nil more
    have head : c = '<' := (List.cons.inj same).1
    have within : u ++ c :: w = types ++ ['>'] := (List.cons.inj split).2
    have member : c ∈ types ++ ['>'] := by simp [← within]
    rcases List.mem_append.1 member with inside | last
    · exact (list.no_bracket inside).1 head
    · simp [head] at last

theorem startsAt_genericAngles_iff {i : Nat} : Pattern.genericAngles.StartsAt s i ↔ OpensTypes s i := by
  constructor
  · rintro ⟨stop, u, t, rest, split, place, matched⟩
    obtain ⟨types, same, list⟩ := matches_genericAngles.1 matched
    have start : i = u.length := congrArg Stretch.start place
    exact ⟨u, types, rest, by simp [split, same], start.symm, list⟩
  · rintro ⟨above, types, below, split, length, list⟩
    refine ⟨above.length + ('<' :: types ++ ['>']).length, above, '<' :: types ++ ['>'], below, ?_, ?_, ?_⟩
    · simp [split]
    · rw [length]
    · exact matches_genericAngles.2 ⟨types, rfl, list⟩

end FrontendSurvey.TypeSignals
