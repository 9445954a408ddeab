import FrontendSurvey.Fault
import Mathlib

set_option autoImplicit false

namespace FrontendSurvey

theorem mapM_eq_ok_iff {α β ε : Type} {read : α → Except ε β} {xs : List α} {ys : List β} :
    xs.mapM read = .ok ys ↔ List.Forall₂ (fun x y => read x = .ok y) xs ys := by
  induction xs generalizing ys with
  | nil => simp [pure, Except.pure, eq_comm]
  | cons x xs ih =>
    rw [List.mapM_cons]
    simp only [List.forall₂_cons_left_iff, ← ih]
    cases read x with
    | error why => simp [bind, Except.bind]
    | ok y => cases xs.mapM read <;> simp [bind, Except.bind, pure, Except.pure, eq_comm]

theorem map_of_mapM {α β γ ε : Type} {read : α → Except ε β} {f : β → γ} {g : α → γ} {xs : List α}
    {ys : List β} (each : ∀ x y, read x = .ok y → f y = g x) (all : xs.mapM read = .ok ys) :
    ys.map f = xs.map g := by
  rw [mapM_eq_ok_iff] at all
  induction all with
  | nil => rfl
  | cons first _ ih => rw [List.map_cons, List.map_cons, each _ _ first, ih]

theorem exists_of_mapM {α β ε : Type} {read : α → Except ε β} {xs : List α} {ys : List β}
    (all : xs.mapM read = .ok ys) {x : α} (member : x ∈ xs) : ∃ y ∈ ys, read x = .ok y := by
  rw [mapM_eq_ok_iff] at all
  induction all with
  | nil => cases member
  | @cons first y _ _ here _ ih =>
    rcases List.mem_cons.1 member with rfl | later
    · exact ⟨y, by simp, here⟩
    · obtain ⟨y, among, there⟩ := ih later
      exact ⟨y, by simp [among], there⟩

theorem exists_of_mem_mapM {α β ε : Type} {read : α → Except ε β} {xs : List α} {ys : List β}
    (all : xs.mapM read = .ok ys) {y : β} (member : y ∈ ys) : ∃ x ∈ xs, read x = .ok y := by
  rw [mapM_eq_ok_iff] at all
  induction all with
  | nil => cases member
  | @cons x first _ _ here _ ih =>
    rcases List.mem_cons.1 member with rfl | later
    · exact ⟨x, by simp, here⟩
    · obtain ⟨z, among, there⟩ := ih later
      exact ⟨z, by simp [among], there⟩

theorem mapM_eq_error_iff {α β ε : Type} {read : α → Except ε β} {xs : List α} {why : ε} :
    xs.mapM read = .error why ↔ ∃ before x after, xs = before ++ x :: after ∧
      (∀ y ∈ before, ∃ z, read y = .ok z) ∧ read x = .error why := by
  induction xs with
  | nil => simp [pure, Except.pure]
  | cons x xs ih =>
    rw [List.mapM_cons]
    cases here : read x with
    | error first =>
      simp only [bind, Except.bind, Except.error.injEq]
      constructor
      · rintro rfl
        exact ⟨[], x, xs, rfl, by simp, here⟩
      · rintro ⟨_ | ⟨y, before⟩, z, after, split, earlier, failed⟩
        · obtain ⟨rfl, -⟩ := List.cons.inj split
          exact Except.error.inj (here.symm.trans failed)
        · obtain ⟨rfl, -⟩ := List.cons.inj split
          obtain ⟨_, read⟩ := earlier x (by simp)
          rw [here] at read
          cases read
    | ok value =>
      have onward : (xs.mapM read = .error why) ↔
          ((do let rest ← xs.mapM read; pure (value :: rest)) : Except ε (List β)) = .error why := by
        cases xs.mapM read <;> simp [bind, Except.bind, pure, Except.pure]
      simp only [bind, Except.bind] at onward ⊢
      rw [← onward, ih]
      constructor
      · rintro ⟨before, y, after, rfl, earlier, failed⟩
        exact ⟨x :: before, y, after, rfl, by simpa [here] using earlier, failed⟩
      · rintro ⟨_ | ⟨y, before⟩, z, after, split, earlier, failed⟩
        · obtain ⟨rfl, -⟩ := List.cons.inj split
          rw [here] at failed
          cases failed
        · obtain ⟨rfl, rfl⟩ := List.cons.inj split
          exact ⟨before, z, after, rfl, fun y member => earlier y (by simp [member]), failed⟩

theorem mapM_congr {α β ε : Type} {read other : α → Except ε β} {xs : List α}
    (same : ∀ x ∈ xs, read x = other x) : xs.mapM read = xs.mapM other := by
  induction xs with
  | nil => rfl
  | cons x xs ih =>
    rw [List.mapM_cons, List.mapM_cons, same x (by simp), ih fun y member => same y (by simp [member])]

theorem cases_of_map_eq {α β ε : Type} {f : α → β} {n m : Except ε α} (same : n.map f = m.map f) :
    (∃ why, n = .error why ∧ m = .error why) ∨ ∃ x y, n = .ok x ∧ m = .ok y ∧ f x = f y := by
  match n, m with
  | .error why, .error other =>
    cases same
    exact .inl ⟨why, rfl, rfl⟩
  | .error why, .ok y => cases same
  | .ok x, .error why => cases same
  | .ok x, .ok y => exact .inr ⟨x, y, rfl, rfl, Except.ok.inj same⟩

theorem map_mapM_congr {α β γ ε : Type} {read other : α → Except ε β} {f : β → γ} {xs : List α}
    (same : ∀ x ∈ xs, (read x).map f = (other x).map f) :
    (xs.mapM read).map (List.map f) = (xs.mapM other).map (List.map f) := by
  induction xs with
  | nil => rfl
  | cons x xs ih =>
    have rest := cases_of_map_eq (ih fun y member => same y (by simp [member]))
    rw [List.mapM_cons, List.mapM_cons]
    rcases cases_of_map_eq (same x (by simp)) with ⟨why, here, there⟩ | ⟨y, z, here, there, first⟩
    · rw [here, there]
      rfl
    · rcases rest with ⟨why, left, right⟩ | ⟨ys, zs, left, right, later⟩
      · rw [here, there, left, right]
        rfl
      · rw [here, there, left, right]
        simp [bind, Except.bind, pure, Except.pure, Except.map, first, later]

theorem Disk.need_of_stat {d e : Disk} {p : Path} (same : e.stat p = d.stat p) :
    e.need p = d.need p := by
  rw [need, need, readText, readText, same]

theorem Disk.need_eq_ok_iff {d : Disk} {path : Path} {text : String} :
    d.need path = .ok text ↔ d.readText path = .ok text := by
  rw [need]
  cases d.readText path <;> simp [Except.mapError]

end FrontendSurvey
