import FrontendSurvey.Proofs.Text.Packing

set_option autoImplicit false

namespace FrontendSurvey.Text.Pattern

/-- A pattern takes up text in one way at each place, and no match begins inside another one. -/
structure Solitary (p : Pattern) : Prop where
  solid : ∀ before t rest, p.Matches before t rest → t ≠ []
  single : ∀ before t rest t' rest', p.Matches before t rest → p.Matches before t' rest' →
    t ++ rest = t' ++ rest' → t = t'
  clear : ∀ before u w rest, p.Matches before (u ++ w) rest → u ≠ [] → w ≠ [] →
    ∀ t rest', w ++ rest = t ++ rest' → ¬ p.Matches (past before u) t rest'

def StartsAt (p : Pattern) (s : List Char) (i : Nat) : Prop := ∃ stop, p.OccursAt s ⟨i, stop⟩

variable {p : Pattern} {s : List Char} {x y : Stretch}

theorem Solitary.steady (solitary : p.Solitary) : p.Steady where
  solid := solitary.solid
  settled before u t v w rest whole inner more t' rest' split := by
    have begun : u ++ t ++ v ≠ [] := by
      have some := solitary.solid _ _ _ inner
      simp [some]
    exact solitary.clear before (u ++ t ++ v) w rest whole begun more t' rest' split

theorem OccursAt.le_length (occurs : p.OccursAt s x) : x.start ≤ s.length ∧ x.stop ≤ s.length := by
  obtain ⟨u, t, rest, rfl, rfl, -⟩ := occurs
  simp only [List.length_append]
  omega

theorem Solitary.stop_le (solitary : p.Solitary) (left : p.OccursAt s x) (right : p.OccursAt s y)
    (order : x.start ≤ y.start) (differ : x ≠ y) : x.stop ≤ y.start := by
  obtain ⟨u, t, rest, rfl, rfl, matched⟩ := left
  rw [List.append_assoc] at right
  obtain ⟨between, t', rest', split, rfl, matched'⟩ := right.behind order
  rw [List.append_assoc] at split
  by_cases far : t.length ≤ between.length
  next =>
    simp only [List.length_append]
    omega
  next =>
    -- the second occurrence would begin inside the first one, or where it begins
    have inside : between <+: t :=
      List.prefix_of_prefix_length_le (split ▸ List.prefix_append between _) (List.prefix_append t rest) (by omega)
    obtain ⟨w, rfl⟩ := inside
    have more : w ≠ [] := by
      rintro rfl
      simp at far
    have behind : w ++ rest = t' ++ rest' := by simpa using split
    cases between with
    | nil =>
      have same : w = t' := solitary.single _ _ _ _ _ matched matched' behind
      simp [same] at differ
    | cons c between =>
      exact absurd matched' (solitary.clear _ _ _ _ matched (by simp) more t' rest' behind)

theorem Solitary.apart (solitary : p.Solitary) (left : p.OccursAt s x) (right : p.OccursAt s y)
    (differ : x ≠ y) : x.Apart y := by
  by_cases order : x.start ≤ y.start
  next => exact .inl (solitary.stop_le left right order differ)
  next => exact .inr (solitary.stop_le right left (by omega) (Ne.symm differ))

theorem finite_occurrences (p : Pattern) (s : List Char) : {x | p.OccursAt s x}.Finite := by
  let places := Finset.range (s.length + 1)
  apply ((places ×ˢ places).image fun q => Stretch.mk q.1 q.2).finite_toSet.subset
  intro x occurs
  have bounds := OccursAt.le_length occurs
  simp only [Finset.coe_image, Set.mem_image, Finset.mem_coe, Finset.mem_product, Finset.mem_range, places]
  exact ⟨(x.start, x.stop), ⟨by omega, by omega⟩, rfl⟩

theorem Solitary.encard_occurrences (solitary : p.Solitary) (s : String) :
    {x | p.OccursAt s.toList x}.encard = p.count s := by
  have finite := finite_occurrences p s.toList
  have all : Packing p s.toList finite.toFinset := by
    constructor
    · intro x member
      exact finite.mem_toFinset.1 member
    · intro x left y right differ
      exact solitary.apart (finite.mem_toFinset.1 left) (finite.mem_toFinset.1 right) differ
  obtain ⟨⟨xs, packing, card⟩, most⟩ := mostApart_count solitary.steady s
  have upper : finite.toFinset.card ≤ p.count s := most ⟨finite.toFinset, all, rfl⟩
  have lower : xs.card ≤ finite.toFinset.card :=
    Finset.card_le_card fun x member => finite.mem_toFinset.2 (packing.occurs x member)
  have exact : finite.toFinset.card = p.count s := by omega
  rw [finite.encard_eq_coe_toFinset_card, exact]

theorem Solitary.encard_starts (solitary : p.Solitary) (s : String) :
    {i | p.StartsAt s.toList i}.encard = p.count s := by
  have image : {i | p.StartsAt s.toList i} = Stretch.start '' {x | p.OccursAt s.toList x} := by
    ext i
    constructor
    · rintro ⟨stop, occurs⟩
      exact ⟨⟨i, stop⟩, occurs, rfl⟩
    · rintro ⟨⟨start, stop⟩, occurs, same⟩
      subst same
      exact ⟨stop, occurs⟩
  have distinct : Set.InjOn Stretch.start {x | p.OccursAt s.toList x} := by
    intro x left y right same
    by_contra differ
    have apart := solitary.stop_le left right (Nat.le_of_eq same) differ
    have long := solitary.steady.start_lt left
    omega
  rw [image, distinct.encard_image, solitary.encard_occurrences]

/-- Each occurrence of a pattern holds one of the places, and each place has an occurrence of its own. -/
structure Marks (p : Pattern) (s : List Char) (marks : Set Nat) (own : Nat → Stretch) : Prop where
  borne : ∀ x, p.OccursAt s x → ∃ i ∈ marks, x.start ≤ i ∧ i < x.stop
  occurs : ∀ i ∈ marks, p.OccursAt s (own i)
  holds : ∀ i ∈ marks, (own i).start ≤ i ∧ i < (own i).stop
  apart : ∀ i ∈ marks, ∀ j ∈ marks, i < j → (own i).stop ≤ (own j).start

variable {marks : Set Nat} {own : Nat → Stretch}

theorem Marks.injOn (marked : Marks p s marks own) : Set.InjOn own marks := by
  intro i left j right same
  by_contra differ
  have start := congrArg Stretch.start same
  have first := marked.holds i left
  have second := marked.holds j right
  rcases Nat.lt_or_gt_of_ne differ with less | more
  · have := marked.apart i left j right less
    omega
  · have := marked.apart j right i left more
    omega

theorem Steady.encard_marks (steady : p.Steady) {s : String} (marked : Marks p s.toList marks own) :
    marks.encard = p.count s := by
  obtain ⟨⟨xs, packing, card⟩, most⟩ := mostApart_count steady s
  apply le_antisymm
  · have finite : marks.Finite := by
      have into : Set.MapsTo own marks {x | p.OccursAt s.toList x} := fun i member => marked.occurs i member
      exact .of_injOn into marked.injOn (finite_occurrences p s.toList)
    have chosen : Packing p s.toList (finite.toFinset.image own) := by
      constructor
      · simpa using marked.occurs
      · simp only [Finset.mem_image, Set.Finite.mem_toFinset]
        rintro _ ⟨i, left, rfl⟩ _ ⟨j, right, rfl⟩ differ
        have other : i ≠ j := fun same => differ (congrArg own same)
        rcases Nat.lt_or_gt_of_ne other with less | more
        · exact .inl (marked.apart i left j right less)
        · exact .inr (marked.apart j right i left more)
    have bound : (finite.toFinset.image own).card ≤ p.count s := most ⟨_, chosen, rfl⟩
    rw [Finset.card_image_of_injOn (by simpa using marked.injOn)] at bound
    rw [finite.encard_eq_coe_toFinset_card]
    exact_mod_cast bound
  · have borne : ∀ x ∈ xs, ∃ i ∈ marks, x.start ≤ i ∧ i < x.stop := fun x inside =>
      marked.borne x (packing.occurs x inside)
    choose! mark member bounds using borne
    have distinct : Set.InjOn mark xs := by
      intro x left y right same
      by_contra differ
      have first := bounds x left
      have second := bounds y right
      have apart := packing.apart x left y right differ
      simp only [Stretch.Apart] at apart
      omega
    have bound := Set.encard_le_encard_of_injOn (fun x inside => member x inside) distinct
    rwa [Set.encard_coe_eq_coe_finsetCard, card] at bound

end FrontendSurvey.Text.Pattern
