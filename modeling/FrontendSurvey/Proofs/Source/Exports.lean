import FrontendSurvey.Proofs.Text.Solitary
import FrontendSurvey.Proofs.Text.Words
import FrontendSurvey.Source.Code

set_option autoImplicit false

namespace FrontendSurvey

namespace Code

open Text Pattern

def keywords : List (List Char) := ["default", "const", "function", "class"].map String.toList

structure Exporting (gap keyword below : List Char) : Prop where
  gapped : gap ≠ []
  blanks : InGap gap
  named : keyword ∈ keywords
  ends : below.head?.any isWordChar = false

def exported (gap keyword : List Char) : List Char := "export".toList ++ gap ++ keyword

structure Shows (s above lead gap keyword below : List Char) : Prop where
  whole : s = above ++ lead ++ exported gap keyword ++ below
  begun : above.getLast?.all (· == '\n') = true
  line : '\n' ∉ lead
  blank : InGap lead
  exporting : Exporting gap keyword below

/-- Only blanks stand before the word on its line, and behind it blanks and one of the keywords. -/
def ExportAt (s : List Char) (i : Nat) : Prop :=
  ∃ above lead gap keyword below, Shows s above lead gap keyword below ∧ (above ++ lead).length = i

def ExportOver (s : List Char) (i : Nat) (x : Stretch) : Prop :=
  ∃ above lead gap keyword below, Shows s above lead gap keyword below ∧ (above ++ lead).length = i ∧
    x = ⟨above.length, (above ++ lead ++ exported gap keyword).length⟩

variable {before : Option Char} {s t u v rest above lead gap keyword below : List Char} {i j : Nat} {x y : Stretch}

theorem exported_eq (gap keyword : List Char) : exported gap keyword = "export".toList ++ gap ++ keyword := rfl

theorem Exporting.no_x (exporting : Exporting gap keyword below) : 'x' ∉ "port".toList ++ gap ++ keyword := by
  have inGap : 'x' ∉ gap := fun member => absurd (exporting.blanks _ member) (by decide)
  have inKeyword : ∀ keyword ∈ keywords, 'x' ∉ keyword := by decide
  simp [inGap, inKeyword keyword exporting.named]

theorem Exporting.exists_last (exporting : Exporting gap keyword below) :
    ∃ start z, keyword = start ++ [z] ∧ isWordChar z = true ∧ z ≠ 'e' := by
  have last : ∀ keyword ∈ keywords, keyword.getLast?.any (fun z => isWordChar z && z != 'e') = true := by decide
  obtain ⟨z, ends, word⟩ := (Option.any_eq_true _ _).1 (last keyword exporting.named)
  obtain ⟨start, same⟩ := List.getLast?_eq_some_iff.1 ends
  exact ⟨start, z, same, by simpa using word⟩

theorem Exporting.head_keyword (exporting : Exporting gap keyword below) (rest : List Char) :
    ∀ c ∈ (keyword ++ rest).head?, isBlank c = false := by
  have heads : ∀ keyword ∈ keywords, keyword ≠ [] ∧ keyword.head?.all (!isBlank ·) = true := by decide
  obtain ⟨some, apart⟩ := heads keyword exporting.named
  rw [List.head?_append_of_ne_nil keyword some]
  simpa [Option.all_eq_true] using apart

theorem eq_of_prefix (left : s ∈ keywords) (right : t ∈ keywords) (front : s <+: t) : s = t := by
  have apart : ∀ s ∈ keywords, ∀ t ∈ keywords, s <+: t → s = t := by decide
  exact apart s left t right front

theorem Exporting.word_once (exporting : Exporting gap keyword below)
    (split : exported gap keyword ++ rest = u ++ "export".toList ++ v)
    (inside : u.length < (exported gap keyword).length) : u = [] := by
  -- the only `x` of the match is that of its own word
  have lone := exporting.no_x
  obtain ⟨start, z, named, -, other⟩ := exporting.exists_last
  obtain ⟨tail, body⟩ : ∃ tail, tail = "port".toList ++ gap ++ keyword := ⟨_, rfl⟩
  have word : exported gap keyword = 'e' :: 'x' :: tail := by
    rw [body]
    rfl
  rw [← body] at lone
  rw [word] at split inside
  match u with
  | [] => rfl
  | [a] => simp at split
  | a :: b :: u =>
    have behind : tail ++ rest = u ++ ('e' :: 'x' :: ("port".toList ++ v)) := by
      simpa using (List.cons.inj (List.cons.inj split).2).2
    have short : u.length < tail.length := by simpa using inside
    rcases List.append_eq_append_iff.1 behind with ⟨w, longer, -⟩ | ⟨w, within, onward⟩
    · simp [longer] at short
    · match w with
      | [] => simp [within] at short
      | [c] =>
        obtain ⟨rfl, -⟩ := List.cons.inj onward
        rw [body, named, ← List.append_assoc] at within
        exact absurd (List.append_inj' within rfl).2 (by simpa using other)
      | c :: d :: w =>
        obtain rfl : 'x' = d := (List.cons.inj (List.cons.inj onward).2).1
        exact absurd (by simp [within]) lone

theorem Exporting.prefix_of_word (exporting : Exporting gap keyword below)
    (split : exported gap keyword ++ rest = u ++ "export".toList ++ v) (some : u ≠ []) : exported gap keyword <+: u := by
  have far : ¬ u.length < (exported gap keyword).length := fun inside => some (exporting.word_once split inside)
  have front : u <+: exported gap keyword ++ rest := by
    rw [split, List.append_assoc]
    exact List.prefix_append u _
  exact List.prefix_of_prefix_length_le (List.prefix_append _ rest) front (by omega)

theorem Exporting.no_gap (exporting : Exporting gap keyword below) (blank : InGap lead)
    (within : u ++ exported gap keyword = v ++ lead) : lead = [] := by
  rcases List.eq_nil_or_concat lead with none | ⟨front, c, rfl⟩
  · exact none
  · obtain ⟨start, z, named, word, -⟩ := exporting.exists_last
    have same : (u ++ "export".toList ++ gap ++ start) ++ [z] = (v ++ front) ++ [c] := by
      simpa [exported_eq, named] using within
    obtain rfl : z = c := by simpa using (List.append_inj' same rfl).2
    have apart := blank z (by simp)
    rw [not_isBlank_of_isWordChar word] at apart
    cases apart

-- A match inside another one has the same blanks behind its word, and its keyword begins the other one's.
theorem Exporting.eq_of_inside {gap' keyword' below' : List Char} (exporting : Exporting gap keyword below)
    (blank : InGap lead) (inner : Exporting gap' keyword' below')
    (split : lead ++ exported gap keyword = u ++ exported gap' keyword' ++ v) : keyword = keyword' ++ v := by
  have front : u = lead := by
    rw [List.append_assoc] at split
    rcases List.append_eq_append_iff.1 split with ⟨m, later, within⟩ | ⟨m, earlier, within⟩
    · have short : m.length < (exported gap keyword).length := by
        rw [within]
        simp [exported_eq]
      have cut : exported gap keyword ++ [] = m ++ "export".toList ++ (gap' ++ keyword' ++ v) := by
        rw [within]
        simp [exported_eq]
      have none := exporting.word_once cut short
      simp [later, none]
    · cases m with
      | nil => simp [earlier]
      | cons c m =>
        obtain rfl : 'e' = c := (List.cons.inj within).1
        exact absurd (blank 'e' (by simp [earlier])) (by decide)
  have behind : gap ++ (keyword ++ []) = gap' ++ (keyword' ++ v) := by
    simpa [front, exported_eq] using split
  simpa using (eq_of_span exporting.blanks (exporting.head_keyword []) inner.blanks (inner.head_keyword v) behind).2

theorem matches_exportDeclaration : exportDeclaration.Matches before t rest ↔ before.all (· == '\n') = true ∧
    ∃ lead gap keyword, t = lead ++ exported gap keyword ∧ InGap lead ∧ Exporting gap keyword rest := by
  have gaps {before : Option Char} {s rest : List Char} : someBlanks.Matches before s rest ↔
      s ≠ [] ∧ ∀ c ∈ s, isBlank c = true := matches_some
  have alts {before : Option Char} {s rest : List Char} : (alt (word "default") (alt (word "const")
      (alt (word "function") (word "class")))).Matches before s rest ↔ s ∈ keywords := by
    simp only [Matches, word, matches_literal, keywords, List.map_cons, List.map_nil, List.mem_cons, List.not_mem_nil,
      or_false]
  have edge {before : Option Char} {keyword s rest : List Char} (named : keyword ∈ keywords) :
      boundary.Matches (past before keyword) s rest ↔ s = [] ∧ rest.head?.any isWordChar = false := by
    have letters : ∀ keyword ∈ keywords, keyword ≠ [] ∧ keyword.all isWordChar = true := by decide
    obtain ⟨some, inside⟩ := letters keyword named
    exact matches_boundary_behind (any_past some (List.all_eq_true.1 inside))
  have word : word "export" = literal "export".toList := rfl
  simp only [exportDeclaration, lineStart, blanks, word, matches_append, matches_look, matches_run, matches_literal,
    gaps, alts]
  constructor
  · rintro ⟨_, _, rfl, ⟨_, keyword, rfl, ⟨_, gap, rfl, ⟨_, _, rfl, ⟨_, lead, rfl, ⟨rfl, start⟩, blank⟩, rfl⟩, gapped,
      blanks⟩, named⟩, last⟩
    rw [past_append, edge named] at last
    obtain ⟨rfl, ends⟩ := last
    exact ⟨start, lead, gap, keyword, by simp [exported_eq], blank, gapped, blanks, named, by simpa using ends⟩
  · rintro ⟨start, lead, gap, keyword, rfl, blank, gapped, blanks, named, ends⟩
    refine ⟨lead ++ exported gap keyword, [], by simp, ⟨lead ++ "export".toList ++ gap, keyword, by simp [exported_eq],
      ⟨lead ++ "export".toList, gap, rfl, ⟨lead, "export".toList, rfl, ⟨[], lead, rfl, ⟨rfl, start⟩, blank⟩, rfl⟩,
      gapped, blanks⟩, named⟩, ?_⟩
    rw [exported_eq, ← List.append_assoc, past_append, edge named]
    exact ⟨rfl, ends⟩

theorem steady_exportDeclaration : exportDeclaration.Steady where
  solid before t rest matched := by
    obtain ⟨-, lead, gap, keyword, rfl, -⟩ := matches_exportDeclaration.1 matched
    simp [exported_eq]
  settled before u t v w rest whole inner more := by
    obtain ⟨-, lead, gap, keyword, split, blank, exporting⟩ := matches_exportDeclaration.1 whole
    obtain ⟨-, lead', gap', keyword', rfl, -, exporting'⟩ := matches_exportDeclaration.1 inner
    have same : keyword = keyword' ++ (v ++ w) := by
      apply exporting.eq_of_inside blank exporting' (u := u ++ lead')
      simpa using split.symm
    have whole := eq_of_prefix exporting'.named exporting.named ⟨v ++ w, same.symm⟩
    exact absurd (by simpa [whole] using same : v = [] ∧ w = []).2 more

theorem past_none (s : List Char) : past none s = s.getLast? := by
  rcases List.eq_nil_or_concat s with rfl | ⟨u, c, rfl⟩ <;> simp

theorem exists_lastLine (s : List Char) :
    ∃ above line, s = above ++ line ∧ '\n' ∉ line ∧ (above = [] ∨ above.getLast? = some '\n') := by
  induction s with
  | nil => exact ⟨[], [], rfl, by simp, .inl rfl⟩
  | cons c r ih =>
    obtain ⟨above, line, rfl, clean, ends⟩ := ih
    rcases ends with rfl | ends
    · by_cases breaks : c = '\n'
      next => exact ⟨['\n'], line, by simp [breaks], clean, .inr rfl⟩
      next => exact ⟨[], c :: line, rfl, by simp [clean, Ne.symm breaks], .inl rfl⟩
    · exact ⟨c :: above, line, rfl, clean, .inr (by simp [List.getLast?_cons, ends])⟩

theorem ExportAt.exists_over (here : ExportAt s i) : ∃ x, ExportOver s i x := by
  obtain ⟨above, lead, gap, keyword, below, shows, place⟩ := here
  exact ⟨_, above, lead, gap, keyword, below, shows, place, rfl⟩

theorem ExportOver.occurs (own : ExportOver s i x) : exportDeclaration.OccursAt s x := by
  obtain ⟨above, lead, gap, keyword, below, shows, -, rfl⟩ := own
  refine ⟨above, lead ++ exported gap keyword, below, ?_, by simp, ?_⟩
  · rw [shows.whole, ← List.append_assoc above]
  · rw [past_none, matches_exportDeclaration]
    exact ⟨shows.begun, lead, gap, keyword, rfl, shows.blank, shows.exporting⟩

theorem ExportOver.holds (own : ExportOver s i x) : x.start ≤ i ∧ i < x.stop := by
  obtain ⟨above, lead, gap, keyword, below, shows, rfl, rfl⟩ := own
  simp only [exported_eq, List.length_append, String.length_toList]
  constructor
  · omega
  · have : 0 < "export".length := by decide
    omega

theorem ExportOver.stop_le (own : ExportOver s i x) (next : ExportOver s j y) (order : i < j) : x.stop ≤ y.start := by
  obtain ⟨above, lead, gap, keyword, below, shows, rfl, rfl⟩ := own
  obtain ⟨above', lead', gap', keyword', below', shows', rfl, rfl⟩ := next
  obtain ⟨between, later, split⟩ : ∃ between, above' ++ lead' = above ++ lead ++ between ∧
      exported gap keyword ++ below = between ++ "export".toList ++ (gap' ++ keyword' ++ below') := by
    have both := shows.whole.symm.trans shows'.whole
    rw [List.append_assoc, List.append_assoc _ (exported gap' keyword')] at both
    rcases List.append_eq_append_iff.1 both with ⟨m, later, split⟩ | ⟨m, earlier, -⟩
    · exact ⟨m, later, by simpa [exported_eq] using split⟩
    · simp only [earlier, List.length_append] at order
      omega
  have some : between ≠ [] := by
    rintro rfl
    simp [later] at order
  obtain ⟨m, rfl⟩ := shows.exporting.prefix_of_word split some
  have parted : (above ++ lead ++ exported gap keyword) ++ m = above' ++ lead' := by simpa using later.symm
  rcases List.append_eq_append_iff.1 parted with ⟨k, within, -⟩ | ⟨k, within, onward⟩
  · simp only [within, List.length_append]
    omega
  · have none := shows.exporting.no_gap (fun c member => shows'.blank c (by simp [onward, member])) within
    simp [within, none]

theorem exists_exportAt (occurs : exportDeclaration.OccursAt s x) : ∃ i, ExportAt s i ∧ x.start ≤ i ∧ i < x.stop := by
  obtain ⟨u, t, rest, split, rfl, matched⟩ := occurs
  obtain ⟨start, lead, gap, keyword, rfl, blank, exporting⟩ := matches_exportDeclaration.1 matched
  obtain ⟨front, line, rfl, clean, ends⟩ := exists_lastLine lead
  have begun : (u ++ front).getLast?.all (· == '\n') = true := by
    rcases ends with rfl | ends
    · simpa [past_none] using start
    · simp [List.getLast?_append, ends]
  have shows : Shows s (u ++ front) line gap keyword rest := by
    refine ⟨by simpa using split, begun, clean, fun c member => blank c (by simp [member]), exporting⟩
  refine ⟨_, ⟨_, _, _, _, _, shows, rfl⟩, by simp, ?_⟩
  simp [exported_eq]

end Code

theorem exports_exact (file text : String) :
    {i | Code.ExportAt text.toList i}.encard = (Code.ofText file text).exports := by
  have chosen : ∀ i ∈ {i | Code.ExportAt text.toList i}, ∃ x, Code.ExportOver text.toList i x := fun _ here =>
    here.exists_over
  have : Nonempty Text.Stretch := ⟨⟨0, 0⟩⟩
  choose! own chosen using chosen
  have marks : Text.Pattern.Marks Code.exportDeclaration text.toList {i | Code.ExportAt text.toList i} own := by
    constructor
    case borne => exact fun x occurs => Code.exists_exportAt occurs
    case occurs => exact fun i here => (chosen i here).occurs
    case holds => exact fun i here => (chosen i here).holds
    case apart => exact fun i here j there order => (chosen i here).stop_le (chosen j there) order
  exact Code.steady_exportDeclaration.encard_marks marks

-- One word below blank lines, one whose keyword is on the next line, and none behind a semicolon.
example : (Code.ofText "a.ts" "\n \n  export const a\nexport\n\ndefault b; export class C").exports = 2 := by
  decide +kernel

end FrontendSurvey
