import FrontendSurvey.Proofs.Text.Search
import Mathlib

set_option autoImplicit false

namespace FrontendSurvey.Text

variable {α : Type}

structure Listed (stands : Nat → α → Prop) (places : List (Nat × α)) : Prop where
  ascending : places.Pairwise fun x y => x.1 < y.1
  exact : ∀ i x, (i, x) ∈ places ↔ stands i x

def placesOf (here : List Char → Option α) (s : List Char) : List (Nat × α) :=
  (List.range (s.length + 1)).filterMap fun i => (here (s.drop i)).map (i, ·)

variable {here : List Char → Option α} {find : Cursor → Option (α × Cursor)} {s t : List Char}

theorem listed_placesOf (here : List Char → Option α) (s : List Char) :
    Listed (fun i x => i ≤ s.length ∧ here (s.drop i) = some x) (placesOf here s) where
  ascending := by
    rw [placesOf, List.pairwise_filterMap]
    refine List.pairwise_lt_range.imp fun {i j} before x found y found' => ?_
    obtain ⟨_, -, rfl⟩ := Option.map_eq_some_iff.1 found
    obtain ⟨_, -, rfl⟩ := Option.map_eq_some_iff.1 found'
    exact before
  exact i x := by
    simp only [placesOf, List.mem_filterMap, List.mem_range, Option.map_eq_some_iff, Prod.mk.injEq]
    constructor
    · rintro ⟨_, within, _, found, rfl, rfl⟩
      exact ⟨Nat.lt_succ_iff.1 within, found⟩
    · rintro ⟨within, found⟩
      exact ⟨i, Nat.lt_succ_iff.2 within, x, found, rfl, rfl⟩

theorem map_placesOf (here : List Char → Option α) (s : List Char) :
    (placesOf here s).map Prod.snd = s.tails.filterMap here := by
  have each : (fun i => ((here (s.drop i)).map (i, ·)).map Prod.snd) = fun i => here (s.drop i) := by
    funext i
    simp [Function.comp_def]
  have tails : (List.range (s.length + 1)).map s.drop = s.tails := by
    apply List.ext_getElem (by simp)
    simp
  rw [placesOf, List.map_filterMap, each, ← tails, List.filterMap_map]
  rfl

theorem filterMap_tails_append (inside : ∀ u v, s = u ++ v → v ≠ [] → here (v ++ t) = none) :
    (s ++ t).tails.filterMap here = t.tails.filterMap here := by
  induction s with
  | nil => rfl
  | cons a r ih =>
    have first : here (a :: (r ++ t)) = none := inside [] (a :: r) rfl (by simp)
    rw [List.cons_append, List.tails_cons, List.filterMap_cons, first]
    exact ih fun u v split some => inside (a :: u) v (by rw [split, List.cons_append]) some

/-- What is found depends on the text ahead alone, and nothing is found inside of what is found. -/
structure Lookahead (find : Cursor → Option (α × Cursor)) (here : List Char → Option α) : Prop where
  told : ∀ before s, (find ⟨before, s⟩).map Prod.fst = here s
  taken : ∀ before s x e, find ⟨before, s⟩ = some (x, e) → ∃ c t, s = c :: (t ++ e.rest) ∧
    ∀ u v, t = u ++ v → v ≠ [] → here (v ++ e.rest) = none

theorem Lookahead.searchFrom_eq (ahead : Lookahead find here) (before : Option Char) (s : List Char) :
    searchFrom find before s 0 = s.tails.filterMap here := by
  induction length : s.length using Nat.strong_induction_on generalizing before s with
  | _ n ih =>
    cases s with
    | nil =>
      cases found : find ⟨before, []⟩ with
      | none => simp [← ahead.told before [], found]
      | some taken =>
        obtain ⟨c, t, split, -⟩ := ahead.taken _ _ _ _ found
        cases split
    | cons a r =>
      have told := ahead.told before (a :: r)
      rw [List.tails_cons, List.filterMap_cons, ← told]
      cases found : find ⟨before, a :: r⟩ with
      | none =>
        rw [searchFrom_none found]
        exact ih r.length (by simp [← length]) (some a) r rfl
      | some taken =>
        obtain ⟨x, e⟩ := taken
        obtain ⟨c, t, split, inside⟩ := ahead.taken _ _ _ _ found
        obtain ⟨rfl, rfl⟩ := List.cons.inj split
        have less : e.rest.length < n := by
          rw [← length, List.length_cons, List.length_append]
          omega
        have result := searchFrom_some (s := a :: t) (t := e.rest) (by simp) found rfl
        rw [List.cons_append] at result
        rw [result, filterMap_tails_append inside, ih _ less _ _ rfl]
        rfl

theorem Lookahead.search_eq (ahead : Lookahead find here) (s : List Char) :
    search find s = (placesOf here s).map Prod.snd := by
  rw [map_placesOf, search, ahead.searchFrom_eq]

end FrontendSurvey.Text
