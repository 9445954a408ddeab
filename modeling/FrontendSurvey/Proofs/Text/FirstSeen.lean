import Mathlib.Data.List.Nodup

set_option autoImplicit false

namespace FrontendSurvey.Text

variable {α : Type} [BEq α] [LawfulBEq α]

structure FirstSeen (kept : α → Bool) (seen all : List α) : Prop where
  once : seen.Nodup
  mem_iff : ∀ x, x ∈ seen ↔ x ∈ all ∧ kept x = true
  ordered : seen.Pairwise fun x y => all.idxOf x < all.idxOf y

theorem mem_eraseDups_filter {kept : α → Bool} {all : List α} {x : α} :
    x ∈ (all.filter kept).eraseDups ↔ x ∈ all ∧ kept x = true := by
  rw [List.mem_eraseDups, List.mem_filter]

theorem ordered_eraseDups_filter (kept : α → Bool) (all : List α) :
    (all.filter kept).eraseDups.Pairwise fun x y => all.idxOf x < all.idxOf y := by
  -- what is kept behind the first element is different from it
  induction all generalizing kept with
  | nil => simp
  | cons first rest ih =>
    have behind : ∀ kept' : α → Bool, kept' first = false →
        (rest.filter kept').eraseDups.Pairwise fun x y =>
          (first :: rest).idxOf x < (first :: rest).idxOf y := by
      intro kept' out
      refine (ih kept').imp_of_mem fun {x y} memberX memberY before => ?_
      have other : ∀ z ∈ (rest.filter kept').eraseDups, first ≠ z := by
        rintro z member rfl
        simp [(mem_eraseDups_filter.1 member).2] at out
      rw [List.idxOf_cons_ne _ (other x memberX), List.idxOf_cons_ne _ (other y memberY)]
      exact Nat.succ_lt_succ before
    cases keep : kept first with
    | false =>
      rw [List.filter_cons_of_neg (by simp [keep])]
      exact behind kept keep
    | true =>
      rw [List.filter_cons_of_pos keep, List.eraseDups_cons, List.filter_filter]
      refine List.pairwise_cons.2 ⟨fun y member => ?_, behind _ (by simp)⟩
      have other : first ≠ y := by
        rintro rfl
        simpa using (mem_eraseDups_filter.1 member).2
      rw [List.idxOf_cons_self, List.idxOf_cons_ne _ other]
      exact Nat.succ_pos _

theorem firstSeen_eraseDups (kept : α → Bool) (all : List α) :
    FirstSeen kept (all.filter kept).eraseDups all := by
  have ordered := ordered_eraseDups_filter kept all
  refine ⟨ordered.imp ?_, fun x => mem_eraseDups_filter, ordered⟩
  rintro x y before rfl
  exact Nat.lt_irrefl _ before

omit [LawfulBEq α] in
theorem FirstSeen.unique {kept : α → Bool} {seen seen' all : List α} (first : FirstSeen kept seen all)
    (other : FirstSeen kept seen' all) : seen = seen' := by
  have same : seen.Perm seen' :=
    (List.perm_ext_iff_of_nodup first.once other.once).2 fun x => (first.mem_iff x).trans (other.mem_iff x).symm
  refine same.eq_of_pairwise ?_ first.ordered other.ordered
  exact fun x y _ _ before behind => absurd behind (Nat.lt_asymm before)

theorem eraseDups_filter (kept : α → Bool) (all : List α) :
    (all.filter kept).eraseDups = all.eraseDups.filter kept := by
  induction length : all.length using Nat.strongRecOn generalizing all with
  | ind n ih =>
    cases all with
    | nil => simp
    | cons first rest =>
      have others := ih (rest.filter fun x => !x == first).length
        (by simpa [← length] using Nat.lt_succ_of_le (List.length_filter_le _ rest)) _ rfl
      rw [List.eraseDups_cons, List.filter_cons, List.filter_cons, ← others, List.filter_filter]
      split
      next => simp only [List.eraseDups_cons, List.filter_filter, Bool.and_comm]
      next out =>
        have apart : (fun x => kept x && !x == first) = kept := by
          funext x
          by_cases same : x = first <;> simp_all
        rw [apart]

theorem eraseDups_append (all more : List α) :
    (all ++ more).eraseDups = all.eraseDups ++ more.eraseDups.filter (!all.eraseDups.contains ·) := by
  have seen : (!all.eraseDups.contains ·) = (!all.contains ·) := by
    funext x
    simp [List.contains_eq_mem, List.mem_eraseDups]
  rw [List.eraseDups_append, seen, ← eraseDups_filter]
  rfl

end FrontendSurvey.Text
