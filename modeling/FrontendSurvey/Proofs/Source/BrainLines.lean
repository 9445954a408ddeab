import FrontendSurvey.Proofs.Text.Pieces
import FrontendSurvey.Source.Brain
import Mathlib

set_option autoImplicit false

namespace FrontendSurvey

namespace Text

/-- The text is cut at every line feed, and a carriage return before it is left out with it. -/
inductive CutAtBreaks : List Char → List (List Char) → Prop where
  | last {piece : List Char} (clean : '\n' ∉ piece) : CutAtBreaks piece [piece]
  | feed {piece rest : List Char} {pieces : List (List Char)} (clean : '\n' ∉ piece)
      (bare : piece.getLast? ≠ some '\r') (later : CutAtBreaks rest pieces) :
      CutAtBreaks (piece ++ '\n' :: rest) (piece :: pieces)
  | returnFeed {piece rest : List Char} {pieces : List (List Char)} (clean : '\n' ∉ piece)
      (later : CutAtBreaks rest pieces) : CutAtBreaks (piece ++ '\r' :: '\n' :: rest) (piece :: pieces)

def utf16 (c : Char) : List Nat :=
  if c.toNat < 0x10000 then [c.toNat]
  else [0xD800 + (c.toNat - 0x10000) / 0x400, 0xDC00 + (c.toNat - 0x10000) % 0x400]

def utf16Length (s : List Char) : Nat := (s.flatMap utf16).length

variable {s piece : List Char} {pieces : List (List Char)}

theorem unitLength_eq (s : List Char) : unitLength s = utf16Length s := by
  induction s with
  | nil => rfl
  | cons c s ih =>
    have first : units c = (utf16 c).length := by
      simp only [units, utf16]
      split <;> rfl
    rw [unitLength] at ih
    simp only [unitLength, utf16Length, List.foldr_cons, List.flatMap_cons, List.length_append, ih, first]

theorem dropReturn_return (s : List Char) : dropReturn (s ++ ['\r']) = s := by
  simp [dropReturn]

theorem dropReturn_bare (bare : s.getLast? ≠ some '\r') : dropReturn s = s := by
  rw [dropReturn, if_neg bare]

theorem exists_cut (s : List Char) : ∃ pieces, CutAtBreaks s pieces := by
  induction length : s.length using Nat.strong_induction_on generalizing s with
  | _ n ih =>
    by_cases broken : '\n' ∈ s
    next =>
      obtain ⟨piece, rest, rfl, clean⟩ := List.eq_append_cons_of_mem broken
      obtain ⟨pieces, later⟩ := ih rest.length (by simp [← length]; omega) rest rfl
      by_cases bare : piece.getLast? = some '\r'
      next =>
        obtain ⟨piece, rfl⟩ := List.getLast?_eq_some_iff.1 bare
        refine ⟨piece :: pieces, ?_⟩
        rw [List.append_assoc]
        exact .returnFeed (fun member => clean (by simp [member])) later
      next => exact ⟨piece :: pieces, .feed clean bare later⟩
    next => exact ⟨[s], .last broken⟩

-- A line feed cuts the text in both ways, and only the last piece may keep a carriage return at its end.
theorem CutAtBreaks.splitAt_eq (cut : CutAtBreaks s pieces) :
    ∃ raw last, splitAt '\n' s = raw ++ [last] ∧ pieces = raw.map dropReturn ++ [last] := by
  induction cut with
  | @last piece clean => exact ⟨[], piece, splitAt_of_not_mem clean, rfl⟩
  | @feed piece rest pieces clean bare later ih =>
    obtain ⟨raw, last, split, same⟩ := ih
    refine ⟨piece :: raw, last, ?_, ?_⟩
    · rw [splitAt_append, splitAt_of_not_mem clean, split]
      rfl
    · rw [List.map_cons, dropReturn_bare bare, same]
      rfl
  | @returnFeed piece rest pieces clean later ih =>
    obtain ⟨raw, last, split, same⟩ := ih
    refine ⟨(piece ++ ['\r']) :: raw, last, ?_, ?_⟩
    · have whole : piece ++ '\r' :: '\n' :: rest = (piece ++ ['\r']) ++ '\n' :: rest := by simp
      rw [whole, splitAt_append, splitAt_of_not_mem (by simp [clean]), split]
      rfl
    · rw [List.map_cons, dropReturn_return, same]
      rfl

theorem CutAtBreaks.unique {others : List (List Char)} (cut : CutAtBreaks s pieces)
    (other : CutAtBreaks s others) : others = pieces := by
  obtain ⟨raw, last, split, rfl⟩ := cut.splitAt_eq
  obtain ⟨raw', last', split', rfl⟩ := other.splitAt_eq
  obtain ⟨rfl, same⟩ := List.append_inj' (split'.symm.trans split) rfl
  rw [same]

theorem exists_lines (s : String) : ∃ init last, CutAtBreaks s.toList (init ++ [last]) ∧
    lines s = init ++ [dropReturn last] := by
  obtain ⟨pieces, cut⟩ := exists_cut s.toList
  obtain ⟨raw, last, split, rfl⟩ := cut.splitAt_eq
  exact ⟨raw.map dropReturn, last, cut, by rw [lines, split, List.map_append]; rfl⟩

end Text

namespace Brain

open Text

variable {path text : String}

theorem isGreatest_longestLine (path text : String) :
    IsGreatest {n | ∃ line ∈ Text.lines text, utf16Length line = n} (ofText path text).longestLine := by
  obtain ⟨init, last, -, same⟩ := exists_lines text
  have some : (Text.lines text).map unitLength ≠ [] := by simp [same]
  obtain ⟨longest, greatest⟩ := Option.ne_none_iff_exists'.1 (mt List.max?_eq_none_iff.1 some)
  obtain ⟨member, bound⟩ := List.max?_eq_some_iff.1 greatest
  have value : (ofText path text).longestLine = longest := by
    rw [ofText, List.foldl_max, greatest]
    simp
  rw [value]
  simp only [List.mem_map, unitLength_eq] at member
  refine ⟨member, ?_⟩
  rintro _ ⟨line, inside, rfl⟩
  exact bound _ (List.mem_map.2 ⟨line, inside, unitLength_eq line⟩)

theorem utf16Length_dropReturn {last : List Char} (ends : last.getLast? = some '\r') :
    utf16Length last = utf16Length (dropReturn last) + 1 := by
  obtain ⟨piece, rfl⟩ := List.getLast?_eq_some_iff.1 ends
  have one : utf16 '\r' = [0x0D] := by decide
  rw [dropReturn_return]
  simp [utf16Length, one]

theorem isGreatest_longer {init : List (List Char)} {last line : List Char} {longest : Nat}
    (longer : utf16Length line < utf16Length last)
    (greatest : IsGreatest {n | ∃ l ∈ init ++ [line], utf16Length l = n} longest) :
    IsGreatest {n | ∃ l ∈ init ++ [last], utf16Length l = n} longest ↔
      ∃ piece ∈ init, utf16Length last ≤ utf16Length piece := by
  obtain ⟨⟨l, inside, length⟩, bound⟩ := greatest
  have within (l : List Char) (inside : l ∈ init ++ [line]) : utf16Length l ≤ longest := bound ⟨l, inside, rfl⟩
  constructor
  · intro among
    have most : utf16Length last ≤ longest := among.2 ⟨last, by simp, rfl⟩
    rcases List.mem_append.1 inside with before | final
    · exact ⟨l, before, by omega⟩
    · rw [List.mem_singleton.1 final] at length
      omega
  · rintro ⟨piece, before, long⟩
    have most := within piece (by simp [before])
    constructor
    · rcases List.mem_append.1 inside with first | final
      · exact ⟨l, by simp [first], length⟩
      · rw [List.mem_singleton.1 final] at length
        omega
    · rintro _ ⟨l, inside, rfl⟩
      rcases List.mem_append.1 inside with first | final
      · exact within l (by simp [first])
      · rw [List.mem_singleton.1 final]
        exact long.trans most

theorem lines_of_breaks (path text : String) : ∃ init last,
    CutAtBreaks text.toList (init ++ [last]) ∧
    (∀ pieces, CutAtBreaks text.toList pieces → pieces = init ++ [last]) ∧
    (ofText path text).lines = (init ++ [last]).length ∧
    (IsGreatest {n | ∃ piece ∈ init ++ [last], utf16Length piece = n} (ofText path text).longestLine ↔
      (last.getLast? = some '\r' → ∃ piece ∈ init, utf16Length last ≤ utf16Length piece)) := by
  obtain ⟨init, last, cut, same⟩ := exists_lines text
  have greatest := isGreatest_longestLine path text
  rw [same] at greatest
  refine ⟨init, last, cut, fun pieces other => cut.unique other, ?_, ?_⟩
  · simp [ofText, same]
  · by_cases ends : last.getLast? = some '\r'
    next =>
      have longer : utf16Length (dropReturn last) < utf16Length last := by
        rw [utf16Length_dropReturn ends]
        exact Nat.lt_succ_self _
      rw [isGreatest_longer longer greatest]
      exact ⟨fun shorter _ => shorter, fun shorter => shorter ends⟩
    next =>
      rw [dropReturn_bare ends] at greatest
      exact ⟨fun _ last => absurd last ends, fun _ => greatest⟩

theorem longestLine_last_return : CutAtBreaks "abc\r".toList ["abc\r".toList] ∧
    ¬ IsGreatest {n | ∃ piece ∈ ["abc\r".toList], utf16Length piece = n}
      (ofText "ADD/brain.ts" "abc\r").longestLine := by
  refine ⟨.last (by decide), fun greatest => ?_⟩
  have bound : 4 ≤ (ofText "ADD/brain.ts" "abc\r").longestLine :=
    greatest.2 ⟨"abc\r".toList, by simp, by decide⟩
  exact absurd bound (by decide)

end Brain

end FrontendSurvey
