import FrontendSurvey.Hygiene.Tally
import Mathlib

set_option autoImplicit false

namespace FrontendSurvey

namespace TypeSignals

def counters : List (TypeSignals → Nat) :=
  [any, tsIgnore, tsExpectError, nonNull, asConst, satisfies, readonly, enum, interface, typeAlias,
    genericAngles, union, intersection]

theorem ext_counters {s t : TypeSignals} (same : ∀ counter ∈ counters, counter s = counter t) :
    s = t := by
  cases s
  cases t
  simpa [counters] using same

theorem counter_add {counter : TypeSignals → Nat} (member : counter ∈ counters) :
    counter 0 = 0 ∧ ∀ s t, counter (s + t) = counter s + counter t := by
  simp only [counters, List.mem_cons, List.not_mem_nil, or_false] at member
  rcases member with rfl | rfl | rfl | rfl | rfl | rfl | rfl | rfl | rfl | rfl | rfl | rfl | rfl
  all_goals exact ⟨rfl, fun _ _ => rfl⟩

theorem counter_total {counter : TypeSignals → Nat} (member : counter ∈ counters)
    (xs : List TypeSignals) : counter (total xs) = (xs.map counter).sum := by
  obtain ⟨zero, add⟩ := counter_add member
  induction xs with
  | nil => exact zero
  | cons x xs ih => rw [total, List.foldr_cons, add, ← total, ih, List.map_cons, List.sum_cons]

theorem total_perm {xs ys : List TypeSignals} (perm : xs.Perm ys) : total xs = total ys := by
  apply ext_counters
  intro counter member
  rw [counter_total member, counter_total member, (perm.map counter).sum_nat]

end TypeSignals

namespace PerfSignals

def flags : List (PerfSignals → Bool) :=
  [performanceNow, requestIdleCallback, intersectionObserver, consoleTime, dynamicImport]

theorem ext_flags {s t : PerfSignals} (same : ∀ flag ∈ flags, flag s = flag t) : s = t := by
  cases s
  cases t
  simpa [flags] using same

theorem flag_union {flag : PerfSignals → Bool} (member : flag ∈ flags) :
    flag none = false ∧ ∀ s t, flag (s.union t) = (flag s || flag t) := by
  simp only [flags, List.mem_cons, List.not_mem_nil, or_false] at member
  rcases member with rfl | rfl | rfl | rfl | rfl
  all_goals exact ⟨rfl, fun _ _ => rfl⟩

theorem flag_unions {flag : PerfSignals → Bool} (member : flag ∈ flags) (xs : List PerfSignals) :
    flag (unions xs) = xs.any flag := by
  obtain ⟨none, union⟩ := flag_union member
  induction xs with
  | nil => exact none
  | cons x xs ih => rw [unions, List.foldr_cons, union, ← unions, ih, List.any_cons]

theorem unions_perm {xs ys : List PerfSignals} (perm : xs.Perm ys) : unions xs = unions ys := by
  apply ext_flags
  intro flag member
  rw [flag_unions member, flag_unions member, perm.any_eq]

end PerfSignals

theorem Tally.ofFiles_perm {components : List Component} {code other : List Code}
    (perm : code.Perm other) : ofFiles components code = ofFiles components other := by
  rw [ofFiles, ofFiles, TypeSignals.total_perm (perm.map (·.types)),
    PerfSignals.unions_perm (perm.map (·.perf))]

end FrontendSurvey
