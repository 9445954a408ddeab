import FrontendSurvey.Proofs.Text.Packing
import FrontendSurvey.Signal.TypeSignals

set_option autoImplicit false

namespace FrontendSurvey

open Text Pattern

namespace TypeSignals

variable {before : Option Char} {s t rest : List Char}

structure Declares (before : Option Char) (gap name : List Char) : Prop where
  apart : before.any isWordChar = false
  gapped : gap ≠ []
  blanks : ∀ c ∈ gap, isBlank c = true
  named : name ≠ []
  letters : ∀ c ∈ name, isWordChar c = true

theorem matches_declared {keyword : String} (begun : keyword.toList ≠ [])
    (letters : ∀ c ∈ keyword.toList, isWordChar c = true) :
    (Pattern.declared keyword).Matches before s rest ↔
      ∃ gap name, s = keyword.toList ++ gap ++ name ∧ Declares before gap name := by
  have gaps {before : Option Char} {s rest : List Char} : someBlanks.Matches before s rest ↔
      s ≠ [] ∧ ∀ c ∈ s, isBlank c = true := matches_some
  have names {before : Option Char} {s rest : List Char} : someWordChars.Matches before s rest ↔
      s ≠ [] ∧ ∀ c ∈ s, isWordChar c = true := matches_some
  simp only [Pattern.declared, Text.Pattern.word, matches_append, matches_literal, gaps, names]
  generalize keyword.toList = word at begun letters
  obtain ⟨c, r, rfl⟩ := List.exists_cons_of_ne_nil begun
  have first : isWordChar c = true := letters c (by simp)
  constructor
  · rintro ⟨_, name, rfl, ⟨_, gap, rfl, ⟨edge, _, rfl, start, rfl⟩, gapped, blanks⟩, named, spelled⟩
    obtain ⟨rfl, apart⟩ := (matches_boundary first _).1 start
    exact ⟨gap, name, rfl, apart, gapped, blanks, named, spelled⟩
  · rintro ⟨gap, name, rfl, declares⟩
    exact ⟨_, name, rfl, ⟨_, gap, rfl, ⟨[], _, rfl, (matches_boundary first _).2 ⟨rfl, declares.apart⟩, rfl⟩,
      declares.gapped, declares.blanks⟩, declares.named, declares.letters⟩

theorem pairwise_keyword {keyword gap : List Char} (letters : ∀ c ∈ keyword, isWordChar c = true)
    (blanks : ∀ c ∈ gap, isBlank c = true) :
    (keyword ++ gap).Pairwise fun a b => isWordChar a = true ∨ isWordChar b = false := by
  rw [List.pairwise_append]
  refine ⟨?_, ?_, fun a inside b _ => .inl (letters a inside)⟩
  · rw [List.pairwise_iff_forall_sublist]
    exact fun within => .inl (letters _ (within.subset (by simp)))
  · rw [List.pairwise_iff_forall_sublist]
    exact fun within => .inr (not_isWordChar_of_isBlank (blanks _ (within.subset (by simp))))

theorem eq_of_word_start {keyword gap name above behind : List Char} {z c : Char}
    (letters : ∀ c ∈ keyword, isWordChar c = true) (blanks : ∀ c ∈ gap, isBlank c = true)
    (named : ∀ c ∈ name, isWordChar c = true) (split : above ++ [z] ++ c :: behind = keyword ++ gap ++ name)
    (edge : isWordChar z = false) (start : isWordChar c = true) : above ++ [z] = keyword ++ gap := by
  rcases List.append_eq_append_iff.1 split with ⟨x, longer, cut⟩ | ⟨x, shorter, cut⟩
  · cases x with
    | nil => simpa using longer.symm
    | cons d x =>
      obtain ⟨rfl, -⟩ := List.cons.inj cut
      have pair : List.Sublist [z, c] (keyword ++ gap) := by
        rw [longer, List.append_assoc]
        exact (List.sublist_append_left [z, c] x).trans (List.sublist_append_right above _)
      have order := (pairwise_keyword letters blanks).sublist pair
      simp [edge, start] at order
  · rcases List.eq_nil_or_concat x with rfl | ⟨x, d, rfl⟩
    · simpa using shorter
    · obtain ⟨-, rfl⟩ : above = keyword ++ gap ++ x ∧ z = d := by
        simpa [← List.append_assoc] using shorter
      have inName : isWordChar z = true := named z (by simp [cut])
      simp [edge] at inName

-- The keyword and the blanks of a declaration hold no other declaration, for its name would stand behind blanks.
theorem Declares.not_within {keyword gap word gap' name' above behind : List Char}
    (letters : ∀ c ∈ keyword, isWordChar c = true) (blanks : ∀ c ∈ gap, isBlank c = true)
    (inside : Declares before gap' name') : above ++ (word ++ gap' ++ name') ++ behind ≠ keyword ++ gap := by
  intro within
  obtain ⟨g, gs, rfl⟩ := List.exists_cons_of_ne_nil inside.gapped
  obtain ⟨n, ns, rfl⟩ := List.exists_cons_of_ne_nil inside.named
  have pair : List.Sublist [g, n] (keyword ++ gap) := by
    have inner : List.Sublist ([g] ++ [n]) (g :: gs ++ n :: ns) :=
      (List.sublist_append_left [g] gs).append (List.sublist_append_left [n] ns)
    rw [← within, List.append_assoc word]
    exact ((inner.trans (List.sublist_append_right _ _)).trans (List.sublist_append_right _ _)).trans
      (List.sublist_append_left _ _)
  have order := (pairwise_keyword letters blanks).sublist pair
  have letter : isWordChar n = true := inside.letters n (by simp)
  have blank : isWordChar g = false := not_isWordChar_of_isBlank (inside.blanks g (by simp))
  simp [letter, blank] at order

theorem steady_declared {keyword : String} (begun : keyword.toList ≠ [])
    (letters : ∀ c ∈ keyword.toList, isWordChar c = true) : (Pattern.declared keyword).Steady where
  solid before t rest matched := by
    obtain ⟨gap, name, rfl, -⟩ := (matches_declared begun letters).1 matched
    simp [begun]
  settled before u t v w rest whole inner more t' rest' after next := by
    obtain ⟨gap, name, split, declares⟩ := (matches_declared begun letters).1 whole
    obtain ⟨gap', name', rfl, inside⟩ := (matches_declared begun letters).1 inner
    obtain ⟨gap'', name'', rfl, further⟩ := (matches_declared begun letters).1 next
    generalize keyword.toList = word at begun letters split after further
    obtain ⟨k, r, rfl⟩ := List.exists_cons_of_ne_nil begun
    obtain ⟨c, w, rfl⟩ := List.exists_cons_of_ne_nil more
    obtain ⟨rfl, -⟩ := List.cons.inj after
    have start : isWordChar c = true := letters c (by simp)
    -- the character before the further match is none of a word, so that this match begins with the name
    obtain ⟨above, z, last⟩ : ∃ above z, u ++ (c :: r ++ gap' ++ name') ++ v = above ++ [z] := by
      simpa using List.eq_nil_or_concat (u ++ (c :: r ++ gap' ++ name') ++ v)
    have edge : isWordChar z = false := by
      have apart := further.apart
      rw [last, past_append] at apart
      simpa using apart
    rw [last] at split
    have front := eq_of_word_start letters declares.blanks declares.letters split edge start
    -- but then the second match lies before the name
    exact inside.not_within letters declares.blanks (last.trans front)

def pairs : List Char → Nat
  -- how often two exclamation marks can be taken from the left
  | '!' :: '!' :: r => pairs r + 1
  | _ :: r => pairs r
  | [] => 0

def runsOf (c : Char) (s : List Char) : List (List Char) :=
  (s.splitBy (· == ·)).filter (·.head? == some c)

theorem find?_nonNull (before : Option Char) (s : List Char) : Pattern.nonNull.find? ⟨before, s⟩ =
    match s with
    | '!' :: '!' :: r => some (['!', '!'], ⟨some '!', r⟩)
    | _ => none := by
  have mark : ∀ t rest, s = t ++ rest → Pattern.nonNull.Matches before t rest → s = '!' :: '!' :: rest := by
    intro t rest split matched
    rw [split, matches_literal.1 matched]
    rfl
  split
  next r =>
    have taken : Cursor.upTo ⟨before, '!' :: '!' :: r⟩ ⟨some '!', r⟩ = ['!', '!'] := Cursor.upTo_eq rfl
    simp [Pattern.nonNull, Text.Pattern.word, literal, is, Text.Pattern.find?, taken]
  next other =>
    rw [find?_eq_none_iff]
    exact fun t rest split matched => other rest (mark t rest split matched)

theorem length_search_nonNull (before : Option Char) (s : List Char) :
    (searchFrom Pattern.nonNull.find? before s 0).length = pairs s := by
  induction s using pairs.induct generalizing before with
  | case1 r ih =>
    have found := find?_nonNull before (['!', '!'] ++ r)
    have result := searchFrom_some (by simp) found rfl
    rw [pairs, ← ih]
    exact congrArg List.length result
  | case2 c r other ih =>
    have nothing : Pattern.nonNull.find? ⟨before, c :: r⟩ = none := by
      rw [find?_nonNull]
      split
      next r' same =>
        obtain ⟨rfl, rfl⟩ := List.cons.inj same
        exact absurd rfl (other _ rfl)
      next => rfl
    rw [pairs, searchFrom_none nothing, ih]
    exact other
  | case3 => rfl

theorem pairs_of_ne {c : Char} (other : c ≠ '!') (r : List Char) : pairs (c :: r) = pairs r := by
  rw [pairs]
  exact fun _ same => absurd same other

theorem pairs_replicate (n : Nat) {rest : List Char} (ends : rest.head? ≠ some '!') :
    pairs (List.replicate n '!' ++ rest) = n / 2 + pairs rest := by
  induction n using Nat.twoStepInduction with
  | zero => simp
  | one =>
    rw [List.replicate_one, List.singleton_append, pairs]
    · simp
    · rintro r - rfl
      exact ends rfl
  | more n ih _ =>
    rw [List.replicate_succ, List.replicate_succ, List.cons_append, List.cons_append, pairs, ih]
    omega

theorem pairs_append {s : List Char} (absent : '!' ∉ s) (t : List Char) : pairs (s ++ t) = pairs t := by
  induction s with
  | nil => rfl
  | cons c r ih =>
    obtain ⟨first, others⟩ := not_or.1 (mt List.mem_cons.2 absent)
    rw [List.cons_append, pairs_of_ne (Ne.symm first), ih others]

theorem runsOf_cons (mark c : Char) (n : Nat) {rest : List Char} (ends : rest.head? ≠ some c) :
    runsOf mark (List.replicate (n + 1) c ++ rest) =
      if c = mark then List.replicate (n + 1) c :: runsOf mark rest else runsOf mark rest := by
  have one : (List.replicate (n + 1) c).splitBy (· == ·) = [List.replicate (n + 1) c] := by
    apply List.splitBy_of_isChain (by simp)
    exact List.isChain_replicate_of_rel (n + 1) (by simp)
  have cut : (List.replicate (n + 1) c ++ rest).splitBy (· == ·) =
      List.replicate (n + 1) c :: rest.splitBy (· == ·) := by
    rw [List.splitBy_append, one, List.singleton_append]
    intro x last y first
    obtain rfl : x = c := by simpa [List.getLast?_replicate, eq_comm] using last
    simpa using fun same : x = y => ends (same ▸ first)
  rw [runsOf, cut, List.filter_cons, List.head?_replicate]
  simp [runsOf]

theorem exists_run (c : Char) (s : List Char) :
    ∃ n rest, c :: s = List.replicate (n + 1) c ++ rest ∧ rest.head? ≠ some c := by
  induction s with
  | nil => exact ⟨0, [], rfl, by simp⟩
  | cons d s ih =>
    by_cases same : d = c
    next =>
      obtain ⟨n, rest, split, ends⟩ := ih
      exact ⟨n + 1, rest, by rw [same, split, List.replicate_succ (n := n + 1), List.cons_append], ends⟩
    next => exact ⟨0, d :: s, rfl, by simpa using same⟩

theorem pairs_eq_sum (s : List Char) : pairs s = ((runsOf '!' s).map (·.length / 2)).sum := by
  induction length : s.length using Nat.strong_induction_on generalizing s with
  | _ n ih =>
    cases s with
    | nil => rfl
    | cons c r =>
      obtain ⟨k, rest, split, ends⟩ := exists_run c r
      have less : rest.length < n := by
        rw [← length, split]
        simp
      rw [split, runsOf_cons _ _ _ ends]
      split
      next mark =>
        subst mark
        rw [pairs_replicate _ ends, ih _ less rest rfl]
        simp
      next other =>
        rw [pairs_append (by simp [List.mem_replicate, Ne.symm other]), ih _ less rest rfl]

theorem counts_mostApart (s : String) :
    Pattern.union.MostApart s.toList (ofText s).union ∧
    Pattern.intersection.MostApart s.toList (ofText s).intersection ∧
    Pattern.enum.MostApart s.toList (ofText s).enum ∧
    Pattern.interface.MostApart s.toList (ofText s).interface ∧
    Pattern.nonNull.MostApart s.toList (ofText s).nonNull ∧
    (ofText s).nonNull = ((runsOf '!' s.toList).map (·.length / 2)).sum := by
  have union : Pattern.union.Takes 5 :=
    ((((takes_char _).append (takes_char _)).append (takes_char _)).append (takes_char _)).append (takes_char _)
  have intersection : Pattern.intersection.Takes 3 :=
    ((takes_char _).append (takes_char _)).append (takes_char _)
  have nonNull : Pattern.nonNull.Takes 2 := takes_literal _
  refine ⟨mostApart_count (union.steady (by decide)) s, mostApart_count (intersection.steady (by decide)) s,
    mostApart_count (steady_declared (by decide) (List.all_eq_true.1 (by decide))) s,
    mostApart_count (steady_declared (by decide) (List.all_eq_true.1 (by decide))) s,
    mostApart_count (nonNull.steady (by decide)) s, ?_⟩
  rw [← pairs_eq_sum]
  exact length_search_nonNull none s.toList

end TypeSignals

end FrontendSurvey
