import FrontendSurvey.Proofs.Signal.Overlaps
import FrontendSurvey.Proofs.Signal.TypeLists

set_option autoImplicit false

namespace FrontendSurvey

open Text Pattern

namespace TypeSignals

variable {before : Option Char} {s t rest : List Char}

theorem solitary_spaced {p : Text.Pattern} {c d : Char} {tail : List Char} (mark : isBlank c = false)
    (begun : tail ≠ []) (apart : tail.head?.any isBlank = false) (absent : c ∉ tail)
    (form : ∀ before t rest, p.Matches before t rest → ∃ gap, t = c :: d :: (gap ++ tail) ∧ InGap gap) :
    p.Solitary where
  solid before t rest matched := by
    obtain ⟨gap, split, -⟩ := form _ _ _ matched
    simp [split]
  single before t rest t' rest' matched matched' same := by
    obtain ⟨gap, split, blank⟩ := form _ _ _ matched
    obtain ⟨gap', split', blank'⟩ := form _ _ _ matched'
    have ends (rest : List Char) : ∀ e ∈ (tail ++ rest).head?, isBlank e = false := by
      rw [List.head?_append_of_ne_nil tail begun]
      intro e first
      simpa [Option.mem_def.1 first] using apart
    have behind : gap ++ (tail ++ rest) = gap' ++ (tail ++ rest') := by
      rw [split, split'] at same
      simpa using same
    have equal := eq_of_span blank (ends rest) blank' (ends rest') behind
    rw [split, split', equal.1]
  clear before u w rest matched some more t' rest' same inner := by
    obtain ⟨gap, split, blank⟩ := form _ _ _ matched
    obtain ⟨gap', split', -⟩ := form _ _ _ inner
    subst split'
    have repeated : c ∈ gap ++ tail := by
      obtain ⟨a, u, rfl⟩ := List.exists_cons_of_ne_nil some
      obtain ⟨b, w, rfl⟩ := List.exists_cons_of_ne_nil more
      have first : b = c := (List.cons.inj same).1
      have second : w ++ rest = d :: (gap' ++ tail ++ rest') := by simpa using (List.cons.inj same).2
      have inside : u ++ b :: w = d :: (gap ++ tail) := (List.cons.inj split).2
      cases u with
      | nil =>
        -- here the two marks are the same, and the second one is followed by a third one
        obtain ⟨mark', tail'⟩ := List.cons.inj inside
        have marks : d = c := mark'.symm.trans first
        have some : w ≠ [] := by simp [tail', begun]
        obtain ⟨e, w, rfl⟩ := List.exists_cons_of_ne_nil some
        have third : e = d := (List.cons.inj second).1
        simp [← tail', third, marks]
      | cons a u =>
        have within : u ++ b :: w = gap ++ tail := (List.cons.inj inside).2
        simp [← within, first]
    rcases List.mem_append.1 repeated with within | within
    · simp [blank c within] at mark
    · exact absent within

theorem solitary_directive {name : String} (begun : name.toList ≠ [])
    (apart : name.toList.head?.any isBlank = false) (absent : '/' ∉ name.toList) :
    (Pattern.directive name).Solitary := by
  apply solitary_spaced (c := '/') (d := '/') (by decide) begun apart absent
  intro before t rest matched
  simp only [Pattern.directive, word, blanks, matches_append, matches_literal, matches_run] at matched
  obtain ⟨_, _, split, ⟨_, _, split', ⟨_, gap, split'', slashes, blank⟩, named⟩, edge⟩ := matched
  subst split split' split'' slashes named
  exact ⟨gap, by simp [edge.1], blank⟩

theorem solitary_asConst : Pattern.asConst.Solitary := by
  have begun : "const".toList ≠ [] := by decide
  apply solitary_spaced (c := 'a') (d := 's') (by decide) begun (by decide) (by decide)
  intro before t rest matched
  have gaps {before : Option Char} {s rest : List Char} : someBlanks.Matches before s rest ↔
      s ≠ [] ∧ ∀ c ∈ s, isBlank c = true := matches_some
  simp only [Pattern.asConst, word, matches_append, matches_literal, gaps] at matched
  obtain ⟨_, _, split, ⟨_, _, split', ⟨_, gap, split'', ⟨_, _, split''', edge, as⟩, blank⟩, const⟩, edge'⟩ := matched
  subst split split' split'' split''' as const
  exact ⟨gap, by simp [edge.1, edge'.1], blank.2⟩

theorem matches_typeAlias : Pattern.typeAlias.Matches before s rest ↔ ∃ gap name trail,
    s = "type".toList ++ gap ++ name ++ trail ++ ['='] ∧ Declares before gap name ∧ InGap trail := by
  have head {before : Option Char} {s rest : List Char} : (Pattern.declared "type").Matches before s rest ↔
      ∃ gap name, s = "type".toList ++ gap ++ name ∧ Declares before gap name :=
    matches_declared (by decide) (List.all_eq_true.1 (by decide))
  simp only [Pattern.typeAlias, blanks, matches_append, matches_run, matches_is, head]
  constructor
  · rintro ⟨_, _, split, ⟨_, trail, split', ⟨gap, name, split'', declares⟩, trails⟩, sign⟩
    exact ⟨gap, name, trail, by rw [split, split', split'', sign], declares, trails⟩
  · rintro ⟨gap, name, trail, split, declares, trails⟩
    exact ⟨_, _, split, ⟨_, trail, rfl, ⟨gap, name, rfl, declares⟩, trails⟩, rfl⟩

theorem Declares.head_name {gap name : List Char} (declares : Declares before gap name) (rest : List Char) :
    ∀ c ∈ (name ++ rest).head?, isBlank c = false := by
  rw [List.head?_append_of_ne_nil name declares.named]
  intro c first
  exact not_isBlank_of_isWordChar (declares.letters c (List.mem_of_head? first))

theorem head_trail {trail : List Char} (blank : InGap trail) (rest : List Char) :
    ∀ c ∈ (trail ++ '=' :: rest).head?, isWordChar c = false := by
  cases trail with
  | nil =>
    intro c first
    cases first
    decide
  | cons a trail =>
    intro c first
    cases first
    exact not_isWordChar_of_isBlank (blank _ (by simp))

theorem head_sign (rest : List Char) : ∀ c ∈ ('=' :: rest).head?, isBlank c = false := by
  intro c first
  cases first
  decide

theorem Declares.eq_of_append {before' : Option Char} {gap name trail gap' name' trail' rest' : List Char}
    (left : Declares before gap name) (trails : InGap trail) (right : Declares before' gap' name')
    (trails' : InGap trail')
    (same : gap ++ (name ++ (trail ++ '=' :: rest)) = gap' ++ (name' ++ (trail' ++ '=' :: rest'))) :
    gap = gap' ∧ name = name' ∧ trail = trail' := by
  have gaps := eq_of_span left.blanks (left.head_name _) right.blanks (right.head_name _) same
  have names := eq_of_span left.letters (head_trail trails rest) right.letters (head_trail trails' rest') gaps.2
  exact ⟨gaps.1, names.1, (eq_of_span trails (head_sign rest) trails' (head_sign rest') names.2).1⟩

-- A name that spells the keyword is followed by an equals sign, where the keyword is followed by a name.
theorem Declares.ne_keyword {before' : Option Char} {keyword gap name trail gap' name' further : List Char}
    (letters : InWord keyword) (left : Declares before gap name) (trails : InGap trail)
    (right : Declares before' gap' name') :
    name ++ (trail ++ '=' :: rest) ≠ keyword ++ (gap' ++ (name' ++ further)) := by
  intro same
  have ends : ∀ c ∈ (gap' ++ (name' ++ further)).head?, isWordChar c = false := by
    rw [List.head?_append_of_ne_nil gap' right.gapped]
    intro c first
    exact not_isWordChar_of_isBlank (right.blanks c (List.mem_of_head? first))
  have behind := (eq_of_span left.letters (head_trail trails rest) letters ends same).2
  have names := (eq_of_span trails (head_sign rest) right.blanks (right.head_name further) behind).2
  obtain ⟨n, r, spelled⟩ := List.exists_cons_of_ne_nil right.named
  have letter : isWordChar n = true := right.letters n (by simp [spelled])
  rw [spelled] at names
  rw [← (List.cons.inj names).1] at letter
  exact absurd letter (by decide)

-- A keyword inside an alias, behind its own one, can only be the start of the name.
theorem Declares.name_of_inside {keyword gap name trail u w : List Char} {c : Char} (letters : InWord keyword)
    (declares : Declares before gap name) (trails : InGap trail) (inside : isWordChar c = true) (begun : u ≠ [])
    (edge : (past before u).any isWordChar = false)
    (split : keyword ++ gap ++ name ++ trail ++ ['='] = u ++ c :: w) : c :: w = name ++ (trail ++ ['=']) := by
  obtain ⟨above, z, rfl⟩ : ∃ above z, u = above ++ [z] := by simpa [begun] using List.eq_nil_or_concat u
  have apart : isWordChar z = false := by simpa using edge
  rw [List.append_assoc (keyword ++ gap ++ name)] at split
  cases List.append_eq_append_iff.1 split with
  | inl beyond =>
    -- no word begins in the blanks behind the name, nor with the equals sign
    obtain ⟨x, _, behind⟩ := beyond
    have member : c ∈ trail ++ ['='] := by simp [behind]
    cases List.mem_append.1 member with
    | inl blank =>
      rw [not_isWordChar_of_isBlank (trails c blank)] at inside
      cases inside
    | inr sign =>
      rw [List.mem_singleton.1 sign] at inside
      exact absurd inside (by decide)
  | inr within =>
    obtain ⟨x, front, behind⟩ := within
    cases x with
    | nil =>
      have outside := head_trail trails [] c (by rw [← List.nil_append (trail ++ _), ← behind]; rfl)
      rw [inside] at outside
      cases outside
    | cons d x =>
      obtain ⟨rfl, rfl⟩ := List.cons.inj behind
      have start := eq_of_word_start letters declares.blanks declares.letters front.symm apart (by simp [inside])
      rw [← start] at front
      rw [List.append_cancel_left front]
      rfl

theorem solitary_typeAlias : Pattern.typeAlias.Solitary where
  solid before t rest matched := by
    obtain ⟨gap, name, trail, split, -⟩ := matches_typeAlias.1 matched
    simp [split]
  single before t rest t' rest' matched matched' same := by
    obtain ⟨gap, name, trail, split, declares, trails⟩ := matches_typeAlias.1 matched
    obtain ⟨gap', name', trail', split', declares', trails'⟩ := matches_typeAlias.1 matched'
    have behind : gap ++ (name ++ (trail ++ '=' :: rest)) = gap' ++ (name' ++ (trail' ++ '=' :: rest')) := by
      rw [split, split'] at same
      simpa using same
    have equal := declares.eq_of_append trails declares' trails' behind
    rw [split, split', equal.1, equal.2.1, equal.2.2]
  clear before u w rest matched begun more t' rest' same inner := by
    obtain ⟨gap, name, trail, split, declares, trails⟩ := matches_typeAlias.1 matched
    obtain ⟨gap', name', trail', split', declares', -⟩ := matches_typeAlias.1 inner
    have letters : InWord "type".toList := List.all_eq_true.1 (by decide)
    obtain ⟨c, w, rfl⟩ := List.exists_cons_of_ne_nil more
    rw [split'] at same
    have first : c = 't' := (List.cons.inj same).1
    have inside : isWordChar c = true := by rw [first]; decide
    have named := declares.name_of_inside letters trails inside begun declares'.apart split.symm
    have again : name ++ (trail ++ '=' :: rest) = "type".toList ++ (gap' ++ (name' ++ (trail' ++ '=' :: rest'))) := by
      rw [named] at same
      simpa using same
    exact declares.ne_keyword letters trails declares' again

structure EachCounted (p : Text.Pattern) (s : String) (n : Nat) : Prop where
  occurrences : {x | p.OccursAt s.toList x}.encard = n
  places : {i | p.StartsAt s.toList i}.encard = n
  apart : ∀ x y, p.OccursAt s.toList x → p.OccursAt s.toList y → x ≠ y → x.Apart y

theorem eachCounted {p : Text.Pattern} (solitary : p.Solitary) (s : String) : EachCounted p s (p.count s) where
  occurrences := solitary.encard_occurrences s
  places := solitary.encard_starts s
  apart _ _ left right differ := solitary.apart left right differ

theorem counts_every (s : String) :
    (ofText s).any = (words s.toList).count "any".toList ∧
    (ofText s).satisfies = (words s.toList).count "satisfies".toList ∧
    (ofText s).readonly = (words s.toList).count "readonly".toList ∧
    EachCounted Pattern.tsIgnore s (ofText s).tsIgnore ∧
    EachCounted Pattern.tsExpectError s (ofText s).tsExpectError ∧
    EachCounted Pattern.asConst s (ofText s).asConst ∧
    EachCounted Pattern.typeAlias s (ofText s).typeAlias ∧
    EachCounted Pattern.genericAngles s (ofText s).genericAngles ∧
    {i | OpensTypes s.toList i}.encard = (ofText s).genericAngles := by
  have opens : {i | OpensTypes s.toList i} = {i | Pattern.genericAngles.StartsAt s.toList i} := by
    ext i
    exact startsAt_genericAngles_iff.symm
  refine ⟨count_wholeWord (by decide) (List.all_eq_true.1 (by decide)) s,
    count_wholeWord (by decide) (List.all_eq_true.1 (by decide)) s,
    count_wholeWord (by decide) (List.all_eq_true.1 (by decide)) s,
    eachCounted (solitary_directive (by decide) (by decide) (by decide)) s,
    eachCounted (solitary_directive (by decide) (by decide) (by decide)) s,
    eachCounted solitary_asConst s, eachCounted solitary_typeAlias s, eachCounted solitary_genericAngles s, ?_⟩
  rw [opens]
  exact solitary_genericAngles.encard_starts s

end TypeSignals

end FrontendSurvey
