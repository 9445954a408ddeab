import FrontendSurvey.Proofs.Text.RegexParts
import FrontendSurvey.Proofs.Hygiene.Totals

set_option autoImplicit false

namespace FrontendSurvey

open Text Regex

theorem Text.Pattern.count_congr {p q : Pattern} (same : p.ends = q.ends) (text : String) :
    p.count text = q.count text := by
  have find : p.find? = q.find? := by
    funext c
    rw [Pattern.find?, Pattern.find?, same]
  rw [Pattern.count, Pattern.count, Pattern.occurrences, Pattern.occurrences, find]

namespace TypeSignals

structure Row where
  counter : TypeSignals → Nat
  pattern : String

def table : List Row :=
  [⟨any, r"\bany\b"⟩,
    ⟨tsIgnore, r"//\s*@ts-ignore\b"⟩,
    ⟨tsExpectError, r"//\s*@ts-expect-error\b"⟩,
    ⟨nonNull, r"!!"⟩,
    ⟨asConst, r"\bas\s+const\b"⟩,
    ⟨satisfies, r"\bsatisfies\b"⟩,
    ⟨readonly, r"\breadonly\b"⟩,
    ⟨enum, r"\benum\s+\w+"⟩,
    ⟨interface, r"\binterface\s+\w+"⟩,
    ⟨typeAlias, r"\btype\s+\w+\s*="⟩,
    ⟨genericAngles, r"<\s*[A-Z][A-Za-z0-9_]*(\s*,\s*[A-Z][A-Za-z0-9_]*)*\s*>"⟩,
    ⟨union, r"[^|]\s\|\s[^|]"⟩,
    ⟨intersection, r"\s&\s"⟩]

theorem spells_blanks : Spells [many 0 blank] Text.Pattern.blanks := spells_run pattern_blank

theorem spells_someBlanks : Spells [many 1 blank] Text.Pattern.someBlanks := spells_some pattern_blank

theorem spells_word (word : String) : Spells (letters word.toList) (Text.Pattern.word word) := spells_literal word.toList

theorem spells_wholeWord (name : String) :
    Spells ([edge] ++ letters name.toList ++ [edge]) (Text.Pattern.wholeWord name) :=
  (spells_edge.append (spells_word name)).append spells_edge

theorem spells_directive (name : String) :
    Spells (letters "//".toList ++ [many 0 blank] ++ letters name.toList ++ [edge]) (Pattern.directive name) :=
  (((spells_word "//").append spells_blanks).append (spells_word name)).append spells_edge

theorem spells_declared (keyword : String) :
    Spells ([edge] ++ letters keyword.toList ++ [many 1 blank] ++ [many 1 letter]) (Pattern.declared keyword) :=
  ((spells_edge.append (spells_word keyword)).append spells_someBlanks).append (spells_some pattern_letter)

theorem spells_typeName : Spells ([upper] ++ [many 0 nameUnit]) Pattern.typeName :=
  (spells_char pattern_upper).append (spells_run pattern_nameUnit)

theorem spells_genericAngles : Spells
    ([one '<'] ++ [many 0 blank] ++ ([upper] ++ [many 0 nameUnit]) ++
      [many 0 (inOrder ([many 0 blank] ++ [one ','] ++ [many 0 blank] ++ ([upper] ++ [many 0 nameUnit])))] ++
      [many 0 blank] ++ [one '>'])
    Pattern.genericAngles := by
  have more := ((spells_blanks.append (spells_is ',')).append spells_blanks).append spells_typeName
  have first := ((spells_is '<').append spells_blanks).append spells_typeName
  exact ((first.append more.many).append spells_blanks).append (spells_is '>')

theorem spells_union : Spells ([outside '|'] ++ [blank] ++ [one '|'] ++ [blank] ++ [outside '|']) Pattern.union := by
  have other := spells_char (pattern_outside '|')
  have blank := spells_char pattern_blank
  exact (((other.append blank).append (spells_is '|')).append blank).append other

structure Row.Spelled (row : Row) (parts : List Regex) (p : Text.Pattern) : Prop where
  read : read? row.pattern = some (inOrder parts)
  regular : (inOrder parts).regular = true
  takes : (inOrder parts).takesUp = true
  spells : Spells parts p
  counts : ∀ text, row.counter (ofText text) = p.count text

theorem exists_spelled : ∀ row ∈ table, ∃ parts p, row.Spelled parts p := by
  have asConst := ((((spells_edge.append (spells_word "as")).append spells_someBlanks).append
    (spells_word "const")).append spells_edge)
  have typeAlias := ((spells_declared "type").append spells_blanks).append (spells_is '=')
  have intersection := ((spells_char pattern_blank).append (spells_is '&')).append (spells_char pattern_blank)
  simp only [table, List.forall_mem_cons, List.not_mem_nil, false_imp_iff, implies_true, and_true]
  refine ⟨?_, ?_, ?_, ?_, ?_, ?_, ?_, ?_, ?_, ?_, ?_, ?_, ?_⟩
  · exact ⟨_, _, rfl, rfl, rfl, spells_wholeWord "any", fun _ => rfl⟩
  · exact ⟨_, _, rfl, rfl, rfl, spells_directive "@ts-ignore", fun _ => rfl⟩
  · exact ⟨_, _, rfl, rfl, rfl, spells_directive "@ts-expect-error", fun _ => rfl⟩
  · exact ⟨_, _, rfl, rfl, rfl, spells_word "!!", fun _ => rfl⟩
  · exact ⟨_, _, rfl, rfl, rfl, asConst, fun _ => rfl⟩
  · exact ⟨_, _, rfl, rfl, rfl, spells_wholeWord "satisfies", fun _ => rfl⟩
  · exact ⟨_, _, rfl, rfl, rfl, spells_wholeWord "readonly", fun _ => rfl⟩
  · exact ⟨_, _, rfl, rfl, rfl, spells_declared "enum", fun _ => rfl⟩
  · exact ⟨_, _, rfl, rfl, rfl, spells_declared "interface", fun _ => rfl⟩
  · exact ⟨_, _, rfl, rfl, rfl, typeAlias, fun _ => rfl⟩
  · exact ⟨_, _, rfl, rfl, rfl, spells_genericAngles, fun _ => rfl⟩
  · exact ⟨_, _, rfl, rfl, rfl, spells_union, fun _ => rfl⟩
  · exact ⟨_, _, rfl, rfl, rfl, intersection, fun _ => rfl⟩

theorem Row.Spelled.count {row : Row} {parts : List Regex} {p : Text.Pattern} (spelled : row.Spelled parts p)
    {text : String} (basic : ∀ c ∈ text.toList, c.toNat < 0x10000) :
    ((inOrder parts).matchAll isBlankCode (units text)).length = row.counter (ofText text) := by
  rw [length_matchAll spelled.regular spelled.takes basic, spelled.counts]
  exact Text.Pattern.count_congr spelled.spells.ends_inOrder text

theorem isBlankCode_eq (u : Nat) : isBlankCode u = (isSpaceUnit u || u == 0x85) := by
  rw [Bool.eq_iff_iff]
  simp only [isBlankCode, isSpaceUnit, Bool.or_eq_true, Bool.and_eq_true, decide_eq_true_eq, beq_iff_eq]
  omega

-- The one difference is the next-line character, which is white space here and not in JavaScript.
theorem counters_as_matched (text : String) (basic : ∀ c ∈ text.toList, c.toNat < 0x10000) :
    table.map Row.counter = counters ∧ ∀ row ∈ table, ∃ r, read? row.pattern = some r ∧
      (r.matchAll (fun u => isSpaceUnit u || u == 0x85) (units text)).length = row.counter (ofText text) ∧
      ('\u0085' ∉ text.toList → (r.matchAll isSpaceUnit (units text)).length = row.counter (ofText text)) := by
  refine ⟨rfl, fun row member => ?_⟩
  obtain ⟨parts, p, spelled⟩ := exists_spelled row member
  have count := spelled.count basic
  refine ⟨_, spelled.read, ?_, fun absent => ?_⟩
  · rwa [← funext isBlankCode_eq]
  · rw [← count]
    congr 1
    apply matchAll_congr
    intro u member
    have other : u ≠ 0x85 := by
      rintro rfl
      rw [units_eq basic] at member
      obtain ⟨c, inside, same⟩ := List.mem_map.1 member
      obtain rfl : c = '\u0085' := Char.toNat_inj.1 same
      exact absent inside
    simp [isBlankCode_eq, other]

theorem counters_as_matched_spaced :
    (∀ c ∈ "enum\u00a0A enum\ufeff\nB xenum C".toList, c.toNat < 0x10000) ∧
      '\u0085' ∉ "enum\u00a0A enum\ufeff\nB xenum C".toList ∧
      (ofText "enum\u00a0A enum\ufeff\nB xenum C").enum = 2 ∧ ∃ r, read? r"\benum\s+\w+" = some r ∧
        (r.matchAll isSpaceUnit (units "enum\u00a0A enum\ufeff\nB xenum C")).length = 2 := by
  have basic : ∀ c ∈ "enum\u00a0A enum\ufeff\nB xenum C".toList, c.toNat < 0x10000 := by simp
  have absent : '\u0085' ∉ "enum\u00a0A enum\ufeff\nB xenum C".toList := by simp
  have two : (ofText "enum\u00a0A enum\ufeff\nB xenum C").enum = 2 := by decide +kernel
  obtain ⟨r, read, -, same⟩ := (counters_as_matched _ basic).2 ⟨enum, r"\benum\s+\w+"⟩ (by simp [table])
  exact ⟨basic, absent, two, r, read, (same absent).trans two⟩

theorem enum_behind_next_line :
    (∀ c ∈ "enum\u0085A".toList, c.toNat < 0x10000) ∧ (ofText "enum\u0085A").enum = 1 ∧
      (read? r"\benum\s+\w+").map (·.matchAll isSpaceUnit (units "enum\u0085A")) = some [] :=
  ⟨by simp, by decide +kernel, by decide +kernel⟩

end TypeSignals

end FrontendSurvey
