import FrontendSurvey.Disk
import FrontendSurvey.Proofs.Text.Pieces

set_option autoImplicit false

namespace FrontendSurvey.Path

open Raw (slash dot)

def bodySteps (pieces : List (List UInt8)) : List Step :=
  (pieces.filter (!isIdle ·)).map stepOf

theorem steps_eq (p : Path) : p.steps = p.parts.lead.toList ++ bodySteps p.parts.body := rfl

@[simp] theorem bodySteps_nil : bodySteps [] = [] := rfl

theorem bodySteps_cons (piece : List UInt8) (rest : List (List UInt8)) :
    bodySteps (piece :: rest) =
      if isIdle piece then bodySteps rest else stepOf piece :: bodySteps rest := by
  cases idle : isIdle piece <;> simp [bodySteps, idle]

@[simp] theorem bodySteps_append (pieces rest : List (List UInt8)) :
    bodySteps (pieces ++ rest) = bodySteps pieces ++ bodySteps rest := by
  simp [bodySteps]

theorem bodySteps_of_idle {pieces : List (List UInt8)} (idle : ∀ piece ∈ pieces, isIdle piece = true) :
    bodySteps pieces = [] := by
  simpa [bodySteps] using idle

@[simp] theorem bodySteps_dropWhile (pieces : List (List UInt8)) :
    bodySteps (pieces.dropWhile isIdle) = bodySteps pieces := by
  have taken : bodySteps (pieces.takeWhile isIdle) = [] :=
    bodySteps_of_idle (List.all_eq_true.1 List.all_takeWhile)
  have parted := congrArg bodySteps (List.takeWhile_append_dropWhile (p := isIdle) (l := pieces))
  rwa [bodySteps_append, taken, List.nil_append] at parted

@[simp] theorem bodySteps_dropIdleEnd (pieces : List (List UInt8)) :
    bodySteps (dropIdleEnd pieces) = bodySteps pieces := by
  have reversed (pieces : List (List UInt8)) :
      bodySteps pieces.reverse = (bodySteps pieces).reverse := by
    simp [bodySteps]
  rw [dropIdleEnd, reversed, bodySteps_dropWhile, reversed, List.reverse_reverse]

def Clean (pieces : List (List UInt8)) : Prop := ∀ piece ∈ pieces, slash ∉ piece

theorem Clean.of_suffix {pieces rest : List (List UInt8)} (clean : Clean pieces) (within : rest <:+ pieces) : Clean rest :=
  fun piece member => clean piece (within.mem member)

theorem Clean.of_first {pieces rest : List (List UInt8)} (clean : Clean pieces) (within : rest <+: pieces) : Clean rest :=
  fun piece member => clean piece (within.mem member)

theorem clean_splitAt (s : List UInt8) : Clean (Text.splitAt slash s) :=
  fun _ => Text.not_mem_of_mem_splitAt

theorem steps_ofBytes (s : List UInt8) :
    (ofBytes s).steps = (partsOf s).lead.toList ++ bodySteps (partsOf s).body := by
  simp [steps_eq, parts, ofBytes]

theorem partsOf_plain {c : UInt8} {r : List UInt8} (other : c ≠ slash) (alone : c :: r ≠ [dot])
    (dotted : ∀ s, c :: r ≠ dot :: slash :: s) :
    partsOf (c :: r) = ⟨none, Text.splitAt slash (c :: r)⟩ := by
  unfold partsOf
  split
  next same => exact absurd (List.cons.inj same).1 other
  next same => exact absurd same alone
  next same => exact absurd same (dotted _)
  next => rfl

-- The separator between two texts belongs to neither of them, whatever the first one starts with.
theorem steps_append {s : List UInt8} (begun : s ≠ []) (t : List UInt8) :
    (ofBytes (s ++ slash :: t)).steps =
      (ofBytes s).steps ++ bodySteps (Text.splitAt slash t) := by
  rw [steps_ofBytes, steps_ofBytes]
  fun_cases partsOf s with
  | case1 r =>
    rw [List.cons_append, partsOf, Text.splitAt_append]
    simp
  | case2 => simp [partsOf, bodySteps_cons, isIdle]
  | case3 r =>
    rw [List.cons_append, List.cons_append, partsOf, Text.splitAt_append]
    simp [bodySteps_cons, isIdle]
  | case4 _ led alone dotted =>
    obtain ⟨c, r, rfl⟩ := List.exists_cons_of_ne_nil begun
    have first : c ≠ slash := by
      rintro rfl
      exact led r rfl
    rw [List.cons_append, partsOf_plain first, ← List.cons_append, Text.splitAt_append]
    · simp
    · simp
    · intro u same
      cases r with
      | nil =>
        obtain ⟨rfl, -⟩ := List.cons.inj same
        exact alone rfl
      | cons e r =>
        obtain ⟨rfl, rest⟩ := List.cons.inj same
        obtain ⟨rfl, -⟩ := List.cons.inj rest
        exact dotted r rfl

theorem steps_extend {s : List UInt8} (ended : s.getLast? = some slash) (t : List UInt8) :
    (ofBytes (s ++ t)).steps = (ofBytes s).steps ++ bodySteps (Text.splitAt slash t) := by
  obtain ⟨u, rfl⟩ := List.getLast?_eq_some_iff.1 ended
  by_cases begun : u = []
  next => simp [begun, steps_ofBytes, partsOf, Text.splitAt, bodySteps_cons, isIdle]
  next =>
    rw [List.append_assoc, List.singleton_append, steps_append begun, steps_append begun]
    simp [Text.splitAt, bodySteps_cons, isIdle]

theorem join_of_absolute (p : Path) {q : Path} (absolute : q.isAbsolute = true) : p.join q = q := by
  simp [join, absolute]

theorem join_of_empty {p : Path} (empty : p.bytes = []) (q : Path) : p.join q = q := by
  simp [join, empty]

theorem join_of_relative {p q : Path} (begun : p.bytes ≠ []) (relative : q.isAbsolute = false) :
    p.join q = ofBytes (if p.bytes.getLast? = some slash then p.bytes ++ q.bytes
      else p.bytes ++ slash :: q.bytes) := by
  rw [join, if_neg (by simp [relative, begun])]
  split <;> rfl

theorem steps_join {p q : Path} (begun : p.bytes ≠ []) (relative : q.isAbsolute = false) :
    (p.join q).steps = p.steps ++ bodySteps q.pieces := by
  rw [join_of_relative begun relative]
  split
  next ended => exact steps_extend ended q.bytes
  next => exact steps_append begun q.bytes

theorem isIdle_name (name : Name) : isIdle name.bytes = false := by
  simp [isIdle, name.ok]

theorem stepOf_name (name : Name) : stepOf name.bytes = .name name.toRaw := by
  simp [stepOf, name.ok]

theorem bodySteps_name (name : Name) :
    bodySteps (Text.splitAt slash name.bytes) = [.name name.toRaw] := by
  rw [Text.splitAt_of_not_mem name.ok.2.2.2, bodySteps_cons, isIdle_name, stepOf_name]
  rfl

theorem isAbsolute_name (name : Name) : (Path.ofRaw name.toRaw).isAbsolute = false := by
  have clean := name.ok.2.2.2
  cases bytes : name.bytes with
  | nil => simp [isAbsolute, bytes]
  | cons c r =>
    rw [bytes, List.mem_cons, not_or] at clean
    simpa [isAbsolute, bytes] using Ne.symm clean.1

theorem steps_name (name : Name) : (Path.ofRaw name.toRaw).steps = [.name name.toRaw] := by
  have idle := isIdle_name name
  have steps := bodySteps_name name
  have clean := name.ok.2.2.2
  cases bytes : name.bytes with
  | nil => simp [bytes, isIdle] at idle
  | cons c r =>
    rw [bytes] at idle steps clean
    rw [steps_eq, parts, bytes, partsOf_plain]
    · simpa using steps
    · rintro rfl
      simp at clean
    · intro alone
      simp [alone, isIdle] at idle
    · intro s dotted
      simp [dotted] at clean

theorem steps_child (p : Path) (name : Name) : (p / name).steps = p.steps ++ [.name name.toRaw] := by
  by_cases begun : p.bytes = []
  next =>
    have joined : p / name = ⟨name.toRaw⟩ := join_of_empty begun _
    have start : p.steps = [] := by simp [steps_eq, parts, begun, partsOf, Text.splitAt, bodySteps_cons, isIdle]
    rw [joined, steps_name, start, List.nil_append]
  next => rw [← bodySteps_name]; exact steps_join begun (isAbsolute_name name)

end FrontendSurvey.Path
