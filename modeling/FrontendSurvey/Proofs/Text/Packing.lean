import FrontendSurvey.Proofs.Text.Matching

set_option autoImplicit false

namespace FrontendSurvey.Text

structure Stretch where
  start : Nat
  stop : Nat
  deriving DecidableEq

def Stretch.Apart (x y : Stretch) : Prop := x.stop ≤ y.start ∨ y.stop ≤ x.start

namespace Pattern

def OccursAt (p : Pattern) (s : List Char) (x : Stretch) : Prop :=
  ∃ u t rest, s = u ++ t ++ rest ∧ x = ⟨u.length, u.length + t.length⟩ ∧ p.Matches (past none u) t rest

structure Packing (p : Pattern) (s : List Char) (xs : Finset Stretch) : Prop where
  occurs : ∀ x ∈ xs, p.OccursAt s x
  apart : ∀ x ∈ xs, ∀ y ∈ xs, x ≠ y → x.Apart y

def MostApart (p : Pattern) (s : List Char) (n : Nat) : Prop :=
  IsGreatest {k | ∃ xs, Packing p s xs ∧ xs.card = k} n

/-- A pattern takes up text, and no match begins inside another one and behind a third one in it. -/
structure Steady (p : Pattern) : Prop where
  solid : ∀ before t rest, p.Matches before t rest → t ≠ []
  settled : ∀ before u t v w rest, p.Matches before (u ++ t ++ v ++ w) rest →
    p.Matches (past before u) t (v ++ w ++ rest) → w ≠ [] →
    ∀ t' rest', w ++ rest = t' ++ rest' → ¬ p.Matches (past before (u ++ t ++ v)) t' rest'

inductive Chain (p : Pattern) : Option Char → List Char → Nat → Prop where
  | nil (before : Option Char) (s : List Char) : Chain p before s 0
  | next {before : Option Char} (u : List Char) {t rest : List Char} {n : Nat}
      (here : p.Matches (past before u) t rest) (later : Chain p (past before (u ++ t)) rest n) :
      Chain p before (u ++ t ++ rest) (n + 1)

variable {p : Pattern} {before : Option Char} {s t v w rest : List Char} {n : Nat}

theorem Chain.behind (chain : Chain p (past before v) s n) : Chain p before (v ++ s) n := by
  cases chain with
  | nil => exact .nil before (v ++ s)
  | next u here later =>
    rw [← past_append] at here
    rw [← past_append, ← List.append_assoc] at later
    rw [← List.append_assoc, ← List.append_assoc]
    exact .next (v ++ u) here later

theorem Chain.skip (chain : Chain p before (v ++ rest) n)
    (quiet : ∀ u w, v = u ++ w → w ≠ [] → ∀ t rest', w ++ rest = t ++ rest' →
      ¬ p.Matches (past before u) t rest') : Chain p (past before v) rest n := by
  generalize whole : v ++ rest = s at chain
  cases chain with
  | nil => exact .nil _ _
  | @next _ u t rest' n here later =>
    rw [List.append_assoc] at whole
    rcases List.append_eq_append_iff.1 whole with ⟨between, rfl, rfl⟩ | ⟨w, rfl, split⟩
    · rw [past_append] at here
      rw [List.append_assoc, past_append] at later
      rw [← List.append_assoc]
      exact .next between here later
    · by_cases none : w = []
      · subst none
        obtain rfl : rest = t ++ rest' := by simpa using split.symm
        rw [List.append_nil]
        rw [past_append] at later
        exact .next [] here later
      · exact absurd here (quiet u w rfl none t rest' split.symm)

section

variable {q : Pattern} {m : Nat}

def Takes (p : Pattern) (n : Nat) : Prop := ∀ before t rest, p.Matches before t rest → t.length = n

theorem takes_char (ok : Char → Bool) : (char ok).Takes 1 := by
  rintro before _ rest ⟨a, rfl, -⟩
  rfl

theorem takes_literal (word : List Char) : (literal word).Takes word.length := by
  intro before t rest matched
  rw [matches_literal.1 matched]

theorem Takes.append (first : p.Takes n) (second : q.Takes m) : (p ++ q).Takes (n + m) := by
  intro before t rest matched
  obtain ⟨u, v, rfl, left, right⟩ := matches_append.1 matched
  rw [List.length_append, first _ _ _ left, second _ _ _ right]

theorem Takes.steady (takes : p.Takes n) (some : 0 < n) : p.Steady where
  solid before t rest matched := by
    rintro rfl
    have := takes _ _ _ matched
    simp at this
    omega
  settled before u t v w rest whole inner more := by
    have long := takes _ _ _ whole
    have short := takes _ _ _ inner
    have := List.length_pos_of_ne_nil more
    simp only [List.length_append] at long
    omega

end

theorem Steady.rest_lt (steady : p.Steady) {e : Cursor} (split : s = t ++ e.rest)
    (matched : p.Matches before t e.rest) : e.rest.length < s.length := by
  have := List.length_pos_of_ne_nil (steady.solid _ _ _ matched)
  rw [split, List.length_append]
  omega

theorem chain_search (steady : p.Steady) (before : Option Char) (s : List Char) :
    Chain p before s (searchFrom p.find? before s 0).length := by
  induction length : s.length using Nat.strong_induction_on generalizing before s with
  | _ n ih =>
    cases s with
    | nil => exact .nil before []
    | cons a r =>
      cases here : p.find? ⟨before, a :: r⟩ with
      | none =>
        rw [searchFrom_none here]
        exact Chain.behind (v := [a]) (ih r.length (by simp [← length]) (some a) r rfl)
      | some found =>
        obtain ⟨t, e⟩ := found
        obtain ⟨split, matched⟩ := matches_of_find? here
        have less := steady.rest_lt split matched
        rw [split] at here ⊢
        rw [searchFrom_some (steady.solid _ _ _ matched) here rfl]
        exact .next [] matched (ih _ (length ▸ less) (past before t) e.rest rfl)

theorem Chain.onward (steady : p.Steady) {u x rest' : List Char} (split : u ++ t ++ rest = x ++ rest')
    (matched : p.Matches before x rest') (here : p.Matches (past before u) t rest)
    (later : Chain p (past before (u ++ t)) rest n) : Chain p (past before x) rest' n := by
  rcases List.append_eq_append_iff.1 split with ⟨v, rfl, rfl⟩ | ⟨v, wider, rfl⟩
  · -- the search takes more than the first choice does, but no second choice begins in what it takes
    rw [past_append]
    refine later.skip fun y w cut more t' rest'' after inside => ?_
    subst cut
    rw [← past_append] at inside
    exact steady.settled before u t y w rest' (by simpa using matched) (by simpa using here) more t' rest''
      after inside
  · rw [wider, past_append] at later
    exact later.behind

theorem Chain.le_search (steady : p.Steady) (chain : Chain p before s n) :
    n ≤ (searchFrom p.find? before s 0).length := by
  induction length : s.length using Nat.strong_induction_on generalizing before s n with
  | _ k ih =>
    cases chain with
    | nil => exact Nat.zero_le _
    | @next _ u t rest n here later =>
      cases found : p.find? ⟨before, u ++ t ++ rest⟩ with
      | none =>
        -- nothing begins at once, so the first occurrence that is chosen stands further on
        cases u with
        | nil => exact absurd here (find?_eq_none_iff.1 found t rest rfl)
        | cons a u =>
          have onward : Chain p (some a) (u ++ t ++ rest) (n + 1) := .next u here later
          have result : searchFrom p.find? before (a :: u ++ t ++ rest) 0 =
              searchFrom p.find? (some a) (u ++ t ++ rest) 0 := searchFrom_none found
          rw [result]
          exact ih _ (by simp [← length]) onward rfl
      | some taken =>
        obtain ⟨x, e⟩ := taken
        obtain ⟨split, matched⟩ := matches_of_find? found
        have less := steady.rest_lt split matched
        have onward := Chain.onward steady split matched here later
        rw [split] at found ⊢
        rw [searchFrom_some (steady.solid _ _ _ matched) found rfl]
        exact Nat.succ_le_succ (ih _ (length ▸ less) onward rfl)

variable {xs : Finset Stretch} {x first : Stretch} {u : List Char}

theorem Steady.start_lt (steady : p.Steady) (occurs : p.OccursAt s x) : x.start < x.stop := by
  obtain ⟨u, t, rest, -, rfl, matched⟩ := occurs
  have := List.length_pos_of_ne_nil (steady.solid _ _ _ matched)
  show u.length < u.length + t.length
  omega

theorem OccursAt.behind (occurs : p.OccursAt (u ++ s) x) (behind : u.length ≤ x.start) :
    ∃ between t rest, s = between ++ t ++ rest ∧
      x = ⟨(u ++ between).length, (u ++ between).length + t.length⟩ ∧
      p.Matches (past (past none u) between) t rest := by
  obtain ⟨v, t, rest, split, rfl, matched⟩ := occurs
  obtain ⟨between, rfl, same⟩ : ∃ between, v = u ++ between ∧ s = between ++ (t ++ rest) := by
    rw [List.append_assoc] at split
    rcases List.append_eq_append_iff.1 split with ⟨between, rfl, rfl⟩ | ⟨more, rfl, same⟩
    · exact ⟨between, rfl, rfl⟩
    · obtain rfl : more = [] := List.length_eq_zero_iff.1 (by simpa using behind)
      exact ⟨[], by simp, same.symm⟩
  rw [past_append] at matched
  exact ⟨between, t, rest, by simp [same], rfl, matched⟩

theorem Packing.erase (packing : Packing p s xs) (x : Stretch) : Packing p s (xs.erase x) where
  occurs y inside := packing.occurs y (Finset.mem_of_mem_erase inside)
  apart y left z right := packing.apart y (Finset.mem_of_mem_erase left) z (Finset.mem_of_mem_erase right)

theorem Packing.insert (packing : Packing p s xs) (occurs : p.OccursAt s first)
    (behind : ∀ x ∈ xs, first.stop ≤ x.start) : Packing p s (Insert.insert first xs) where
  occurs x member := by
    rcases Finset.mem_insert.1 member with rfl | member
    · exact occurs
    · exact packing.occurs x member
  apart x left y right differ := by
    rcases Finset.mem_insert.1 left with rfl | before <;> rcases Finset.mem_insert.1 right with rfl | after
    · exact absurd rfl differ
    · exact .inl (behind y after)
    · exact .inr (behind x before)
    · exact packing.apart x before y after differ

theorem Packing.stop_le (steady : p.Steady) (packing : Packing p s xs) (member : first ∈ xs)
    (least : ∀ x ∈ xs, first.start ≤ x.start) : ∀ x ∈ xs.erase first, first.stop ≤ x.start := by
  intro x inside
  obtain ⟨differ, among⟩ := Finset.mem_erase.1 inside
  have lower := least x among
  have long := steady.start_lt (packing.occurs x among)
  have apart := packing.apart first member x among (Ne.symm differ)
  simp only [Stretch.Apart] at apart
  omega

theorem Chain.exists_packing (steady : p.Steady) (chain : Chain p (past none u) s n) :
    ∃ xs, Packing p (u ++ s) xs ∧ xs.card = n ∧ ∀ x ∈ xs, u.length ≤ x.start := by
  induction n generalizing u s with
  | zero => exact ⟨∅, ⟨by simp, by simp⟩, rfl, by simp⟩
  | succ n ih =>
    cases chain with
    | @next _ between t rest _ here later =>
      rw [← past_append, ← List.append_assoc] at later
      rw [← past_append] at here
      obtain ⟨xs, packing, card, behind⟩ := ih later
      obtain ⟨first, place⟩ : ∃ first : Stretch, first = ⟨(u ++ between).length, (u ++ between).length + t.length⟩ :=
        ⟨_, rfl⟩
      have occurs : p.OccursAt (u ++ between ++ t ++ rest) first := ⟨_, t, rest, rfl, place, here⟩
      have onward : ∀ x ∈ xs, first.stop ≤ x.start := by simpa [place, Nat.add_assoc] using behind
      have long := steady.start_lt occurs
      have fresh : first ∉ xs := fun member => absurd (onward first member) (Nat.not_le.2 long)
      refine ⟨Insert.insert first xs, by simpa using packing.insert occurs onward, ?_, fun x member => ?_⟩
      · rw [Finset.card_insert_of_notMem fresh, card]
      · have start : u.length ≤ first.start := by simp [place]
        rcases Finset.mem_insert.1 member with rfl | member
        · exact start
        · have := onward x member
          omega

theorem Packing.chain (steady : p.Steady) (packing : Packing p (u ++ s) xs)
    (behind : ∀ x ∈ xs, u.length ≤ x.start) : Chain p (past none u) s xs.card := by
  induction card : xs.card generalizing u s xs with
  | zero => exact .nil _ _
  | succ n ih =>
    -- the occurrence that starts first, with all others behind it
    have some : xs.Nonempty := Finset.card_pos.1 (by omega)
    obtain ⟨first, member, least⟩ := xs.exists_min_image Stretch.start some
    have onward := packing.stop_le steady member least
    obtain ⟨between, t, rest, rfl, place, matched⟩ := (packing.occurs first member).behind (behind _ member)
    have others : Packing p (u ++ between ++ t ++ rest) (xs.erase first) := by simpa using packing.erase first
    refine .next between matched ?_
    rw [← past_append, ← List.append_assoc]
    exact ih others (by simpa [place, Nat.add_assoc] using onward)
      (by rw [Finset.card_erase_of_mem member, card, Nat.add_sub_cancel])

theorem mostApart_count (steady : p.Steady) (s : String) : p.MostApart s.toList (p.count s) := by
  constructor
  · obtain ⟨xs, packing, card, -⟩ := (chain_search steady none s.toList).exists_packing (u := []) steady
    exact ⟨xs, packing, card⟩
  · rintro n ⟨xs, packing, rfl⟩
    exact (packing.chain (u := []) steady (by simp)).le_search steady

end Pattern

end FrontendSurvey.Text
