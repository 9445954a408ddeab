import FrontendSurvey.Proofs.Text.Packing

set_option autoImplicit false

namespace FrontendSurvey.Text

structure SameEdges (before : Option Char) (rest : List Char) (before' : Option Char) (rest' : List Char) : Prop where
  behind : before.any isWordChar = before'.any isWordChar
  ahead : rest.head?.any isWordChar = rest'.head?.any isWordChar

variable {before before' : Option Char} {s t rest rest' : List Char}

theorem any_past_congr (same : before.any isWordChar = before'.any isWordChar) (s : List Char) :
    (past before s).any isWordChar = (past before' s).any isWordChar := by
  cases s with
  | nil => exact same
  | cons a r => rfl

theorem SameEdges.cut_left (edges : SameEdges before rest before' rest') (v : List Char) :
    SameEdges before (v ++ rest) before' (v ++ rest') where
  behind := edges.behind
  ahead := by
    cases v with
    | nil => exact edges.ahead
    | cons a r => rfl

theorem SameEdges.cut_right (edges : SameEdges before rest before' rest') (u : List Char) :
    SameEdges (past before u) rest (past before' u) rest' where
  behind := any_past_congr edges.behind u
  ahead := edges.ahead

theorem SameEdges.symm (edges : SameEdges before rest before' rest') : SameEdges before' rest' before rest where
  behind := edges.behind.symm
  ahead := edges.ahead.symm

-- The line end in front of a text, or behind one, is like no character at all.
theorem sameEdges_front (s rest : List Char) : SameEdges (past before (s ++ ['\n'])) rest none rest where
  behind := by simp [isWordChar]
  ahead := rfl

theorem sameEdges_behind (before : Option Char) (rest t : List Char) :
    SameEdges before rest before (rest ++ '\n' :: t) where
  behind := rfl
  ahead := by cases rest <;> simp [isWordChar]

theorem cases_of_mark {u x z : List Char} {mark : Char} (split : u ++ x ++ z = s ++ mark :: t) (clean : mark ∉ x) :
    (∃ y, s = u ++ x ++ y ∧ z = y ++ mark :: t) ∨ ∃ y, u = s ++ mark :: y ∧ t = y ++ x ++ z := by
  rcases List.append_eq_append_iff.1 split with ⟨y, front, behind⟩ | ⟨y, front, behind⟩
  · exact .inl ⟨y, front, behind⟩
  · cases y with
    | nil => exact .inl ⟨[], by simpa using front.symm, by simpa using behind.symm⟩
    | cons c y =>
      obtain ⟨same, later⟩ := List.cons.inj behind
      subst same
      rcases List.append_eq_append_iff.1 front with ⟨w, -, within⟩ | ⟨w, before, within⟩
      · exact absurd (by simp [within]) clean
      · cases w with
        | nil => exact absurd (by simp [← within.trans (List.nil_append x)]) clean
        | cons d w =>
          obtain ⟨same, rest⟩ := List.cons.inj within
          exact .inr ⟨w, by rw [before, same], by rw [later, rest]; rfl⟩

namespace Pattern

def Local : Pattern → Prop
  | char _ | run _ | shortRun _ => True
  | look ok => ∀ c d : Cursor, c.afterWordChar = d.afterWordChar → c.beforeWordChar = d.beforeWordChar → ok c = ok d
  | seq p q | alt p q => p.Local ∧ q.Local
  | many p => p.Local

def OneLine (p : Pattern) : Prop := ∀ before t rest, p.Matches before t rest → '\n' ∉ t

variable {p q : Pattern} {n m : Nat}

@[simp] theorem local_append : (p ++ q).Local ↔ p.Local ∧ q.Local := Iff.rfl

@[simp] theorem local_alt : (alt p q).Local ↔ p.Local ∧ q.Local := Iff.rfl

@[simp] theorem local_many : (many p).Local ↔ p.Local := Iff.rfl

@[simp] theorem local_char (ok : Char → Bool) : (char ok).Local := trivial

@[simp] theorem local_run (ok : Char → Bool) : (run ok).Local := trivial

@[simp] theorem local_shortRun (ok : Char → Bool) : (shortRun ok).Local := trivial

@[simp] theorem local_literal (word : List Char) : (literal word).Local := by
  induction word using literal.induct with
  | case1 => exact fun _ _ _ _ => rfl
  | case2 a => exact local_char _
  | case3 a r other ih =>
    rw [literal]
    · exact ⟨local_char _, ih⟩
    · exact other

@[simp] theorem local_boundary : boundary.Local := by
  intro c d behind ahead
  simp only [behind, ahead]

theorem look_congr {ok : Cursor → Bool} (isLocal : (look ok).Local)
    (edges : SameEdges before rest before' rest') : ok ⟨before, rest⟩ = ok ⟨before', rest'⟩ := by
  apply isLocal
  · rw [Cursor.afterWordChar_eq, Cursor.afterWordChar_eq, edges.behind]
  · rw [Cursor.beforeWordChar_eq, Cursor.beforeWordChar_eq, edges.ahead]

theorem Matches.of_edges (isLocal : p.Local) (matched : p.Matches before s rest)
    (edges : SameEdges before rest before' rest') : p.Matches before' s rest' := by
  induction p generalizing before s rest before' rest' with
  | char ok => exact matched
  | look ok => exact ⟨matched.1, (look_congr isLocal edges).symm.trans matched.2⟩
  | seq p q first second =>
    obtain ⟨u, v, split, left, right⟩ := matched
    exact ⟨u, v, split, first isLocal.1 left (edges.cut_left v), second isLocal.2 right (edges.cut_right u)⟩
  | alt p q first second =>
    cases matched with
    | inl left => exact .inl (first isLocal.1 left edges)
    | inr right => exact .inr (second isLocal.2 right edges)
  | run ok => exact matched
  | shortRun ok => exact matched
  | many p ih =>
    have repeats : Repeats p.Matches before s rest := matched
    show Repeats p.Matches before' s rest'
    clear matched
    induction repeats generalizing before' rest' with
    | none before rest => exact .none before' rest'
    | @more before u v rest first others later =>
      exact .more (ih isLocal first (edges.cut_left v)) (later (edges.cut_right u))

theorem Chain.of_edges (isLocal : p.Local) (chain : Chain p before s n)
    (same : before.any isWordChar = before'.any isWordChar) : Chain p before' s n := by
  induction chain generalizing before' with
  | nil before s => exact .nil before' s
  | next u here later ih =>
    have here' := here.of_edges isLocal ⟨any_past_congr same u, rfl⟩
    exact .next u here' (ih (any_past_congr same _))

theorem Chain.joined (isLocal : p.Local) (first : Chain p before s n) (second : Chain p none t m) :
    Chain p before (s ++ '\n' :: t) (n + m) := by
  induction first with
  | nil before s =>
    have front : Chain p (past before (s ++ ['\n'])) t m :=
      second.of_edges isLocal (sameEdges_front s t).behind.symm
    simpa using front.behind
  | @next before u x rest n here later ih =>
    have ahead := here.of_edges isLocal (sameEdges_behind (past before u) rest t)
    have whole : Chain p before (u ++ x ++ (rest ++ '\n' :: t)) (n + m + 1) := .next u ahead ih
    rw [Nat.add_right_comm]
    simpa using whole

theorem Chain.parted (isLocal : p.Local) (oneLine : p.OneLine) (chain : Chain p before (s ++ '\n' :: t) n) :
    ∃ k l, n = k + l ∧ Chain p before s k ∧ Chain p none t l := by
  generalize whole : s ++ '\n' :: t = joined at chain
  induction chain generalizing s with
  | nil before => exact ⟨0, 0, rfl, .nil before s, .nil none t⟩
  | @next before u x rest n here later ih =>
    cases cases_of_mark whole.symm (oneLine _ _ _ here) with
    | inl inside =>
      obtain ⟨z, front, behind⟩ := inside
      obtain ⟨k, l, sum, left, right⟩ := ih behind.symm
      subst front sum behind
      have here' := here.of_edges isLocal (sameEdges_behind (past before u) z t).symm
      exact ⟨k + 1, l, by omega, .next u here' left, right⟩
    | inr beyond =>
      obtain ⟨y, front, behind⟩ := beyond
      subst front behind
      have edges (v : List Char) : SameEdges (past before (s ++ '\n' :: v)) rest (past none v) rest := by
        have front : SameEdges (past before (s ++ ['\n'])) rest none rest := sameEdges_front s rest
        simpa using front.cut_right v
      have later' : Chain p (past none (y ++ x)) rest n :=
        later.of_edges isLocal (by simpa using (edges (y ++ x)).behind)
      exact ⟨0, n + 1, by omega, .nil before s, .next y (here.of_edges isLocal (edges y)) later'⟩

theorem count_joined_ge (steady : p.Steady) (isLocal : p.Local) (a b : String) :
    p.count a + p.count b ≤ p.count (a ++ "\n" ++ b) := by
  have first := chain_search steady none a.toList
  have second := chain_search steady none b.toList
  have both := (first.joined isLocal second).le_search steady
  simpa [count, occurrences, search] using both

theorem count_joined (steady : p.Steady) (isLocal : p.Local) (oneLine : p.OneLine) (a b : String) :
    p.count (a ++ "\n" ++ b) = p.count a + p.count b := by
  apply Nat.le_antisymm _ (count_joined_ge steady isLocal a b)
  have whole := chain_search steady none (a.toList ++ '\n' :: b.toList)
  obtain ⟨k, l, sum, left, right⟩ := whole.parted isLocal oneLine
  have first : k ≤ p.count a := left.le_search steady
  have second : l ≤ p.count b := right.le_search steady
  have all : p.count (a ++ "\n" ++ b) = k + l := by simpa [count, occurrences, search] using sum
  omega

def Solid (p : Pattern) : Prop := ∀ before t rest, p.Matches before t rest → t ≠ []

theorem solid_is (c : Char) : (is c).Solid := by
  intro before t rest matched
  simp [matches_is.1 matched]

theorem Solid.behind (solid : q.Solid) (p : Pattern) : (p ++ q).Solid := by
  intro before t rest matched
  obtain ⟨u, v, split, -, second⟩ := matches_append.1 matched
  have some := solid _ _ _ second
  simp [split, some]

theorem occursIn_iff (solid : p.Solid) (s : String) :
    p.occursIn s = true ↔ ∃ x, p.OccursAt s.toList x := by
  have some : p.occursIn s = true ↔ search p.find? s.toList ≠ [] := by simp [occursIn, occurrences]
  rw [some, search, ne_eq, searchFrom_eq_nil_iff]
  constructor
  · intro found
    by_contra nothing
    apply found
    intro u v split _
    rw [find?_eq_none_iff]
    intro t rest cut matched
    exact nothing ⟨_, u, t, rest, by rw [split, cut, List.append_assoc], rfl, matched⟩
  · rintro ⟨x, u, t, rest, split, _, matched⟩ nothing
    rw [List.append_assoc] at split
    have begun : t ++ rest ≠ [] := by simp [solid _ _ _ matched]
    exact find?_eq_none_iff.1 (nothing u (t ++ rest) split begun) t rest rfl matched

theorem OccursAt.joined_left {x : Stretch} (occurs : p.OccursAt s x) (isLocal : p.Local) (t : List Char) :
    p.OccursAt (s ++ '\n' :: t) x := by
  obtain ⟨u, y, rest, split, place, matched⟩ := occurs
  exact ⟨u, y, rest ++ '\n' :: t, by simp [split], place, matched.of_edges isLocal (sameEdges_behind _ rest t)⟩

theorem OccursAt.joined_right {x : Stretch} (occurs : p.OccursAt t x) (isLocal : p.Local) (s : List Char) :
    ∃ y, p.OccursAt (s ++ '\n' :: t) y := by
  obtain ⟨u, y, rest, split, -, matched⟩ := occurs
  have edges : SameEdges (past none u) rest (past none (s ++ '\n' :: u)) rest := by
    have front : SameEdges (past none (s ++ ['\n'])) rest none rest := sameEdges_front s rest
    simpa using front.symm.cut_right u
  exact ⟨_, s ++ '\n' :: u, y, rest, by simp [split], rfl, matched.of_edges isLocal edges⟩

theorem occursIn_joined (solid : p.Solid) (isLocal : p.Local)
    (a b : String) (some : p.occursIn a = true ∨ p.occursIn b = true) : p.occursIn (a ++ "\n" ++ b) = true := by
  have joined : (a ++ "\n" ++ b).toList = a.toList ++ '\n' :: b.toList := by simp
  rw [occursIn_iff solid, occursIn_iff solid] at some
  rw [occursIn_iff solid, joined]
  cases some with
  | inl first =>
    obtain ⟨x, occurs⟩ := first
    exact ⟨x, occurs.joined_left isLocal b.toList⟩
  | inr second =>
    obtain ⟨x, occurs⟩ := second
    exact occurs.joined_right isLocal a.toList

end Pattern

end FrontendSurvey.Text
