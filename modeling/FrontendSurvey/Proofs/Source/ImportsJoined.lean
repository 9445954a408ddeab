import FrontendSurvey.Proofs.Source.Imports
import FrontendSurvey.Proofs.Text.Joined

set_option autoImplicit false

namespace FrontendSurvey.Source

open Text

variable {before : Option Char} {s rest gap words : List Char} {found : List Char × Cursor}

def onto (t : List Char) (found : List Char × Cursor) : List Char × Cursor :=
  (found.1, ⟨found.2.before, found.2.rest ++ t⟩)

theorem specifier?_joined (s b : List Char) :
    specifier? (s ++ '\n' :: b) = (specifier? s).map (onto ('\n' :: b)) := by
  induction s with
  | nil => rfl
  | cons c s ih =>
    rw [List.cons_append]
    by_cases plain : isPlain c = true
    next =>
      rw [specifier?_of_plain plain, specifier?_of_plain plain, ih, Option.map_map, Option.map_map]
      rfl
    next =>
      rw [specifier?_of_not_plain plain, specifier?_of_not_plain plain]
      split <;> rfl

theorem opened?_joined (s b : List Char) : opened? (s ++ '\n' :: b) = (opened? s).map (onto ('\n' :: b)) := by
  cases s with
  | nil => rfl
  | cons c s =>
    rw [List.cons_append, opened?, opened?, specifier?_joined]
    split <;> rfl

theorem quoted?_gap (blank : InGap s) : quoted? s = none := by
  cases behindGap?_gap blank with
  | inl nothing => rw [quoted?, nothing, Option.bind_none]
  | inr ends => rw [quoted?, ends, Option.bind_some, opened?]

theorem quoted?_joined_gap (blank : InGap s) (b : List Char) :
    quoted? (s ++ '\n' :: b) = opened? (b.dropWhile isBlank) := by
  rw [quoted?, behindGap?_joined_gap blank, Option.bind_some]

theorem quoted?_joined (more : ¬ InGap s) (b : List Char) :
    quoted? (s ++ '\n' :: b) = (quoted? s).map (onto ('\n' :: b)) := by
  rw [quoted?, quoted?, behindGap?_joined more]
  cases behindGap? s with
  | none => rfl
  | some rest => exact opened?_joined rest b

theorem fromHere?_joined (s b : List Char) :
    fromHere? (s ++ '\n' :: b) = (fromHere? s).map (onto ('\n' :: b)) ∨ fromHere? s = none ∧
      ∃ gap, s = "from".toList ++ gap ∧ InGap gap ∧ fromHere? (s ++ '\n' :: b) = opened? (b.dropWhile isBlank) := by
  rw [fromHere?, fromHere?, dropPrefix?_joined (by decide)]
  cases keyword : s.dropPrefix? "from".toList with
  | none => exact .inl rfl
  | some gap =>
    rw [Option.map_some, Option.bind_some, Option.bind_some]
    by_cases blank : InGap gap
    next => exact .inr ⟨quoted?_gap blank, gap, dropPrefix?_eq_some_iff.1 keyword, blank, quoted?_joined_gap blank b⟩
    next => exact .inl (quoted?_joined blank b)

theorem fromIn?_gap (blank : InGap gap) (nothing : fromIn? rest = none) : fromIn? (gap ++ rest) = none := by
  induction gap with
  | nil => exact nothing
  | cons c gap ih =>
    obtain ⟨first, others⟩ := List.forall_mem_cons.1 blank
    rw [List.cons_append, fromIn?_cons (ne_of_blank first (by decide)), ih others, ite_self]

theorem fromIn?_pass {lead : List Char} (clean : '\n' ∉ lead) (other : 'f' ∉ lead) (rest : List Char) :
    fromIn? (lead ++ rest) = fromIn? rest := by
  induction lead with
  | nil => rfl
  | cons c lead ih =>
    obtain ⟨line, lines⟩ := not_or.1 (mt List.mem_cons.2 clean)
    obtain ⟨first, others⟩ := not_or.1 (mt List.mem_cons.2 other)
    rw [List.cons_append, fromIn?_cons (Ne.symm first), if_neg (Ne.symm line), ih lines others]

theorem fromIn?_lineEnd (b : List Char) : fromIn? ('\n' :: b) = none := by
  rw [fromIn?_cons (by decide), if_pos rfl]

theorem fromIn?_keyword (blank : InGap gap) (nothing : fromIn? rest = none) :
    fromIn? ("from".toList ++ (gap ++ rest)) = fromHere? ("from".toList ++ (gap ++ rest)) := by
  have later : fromIn? ("rom".toList ++ (gap ++ rest)) = none := by
    rw [fromIn?_pass (by decide) (by decide), fromIn?_gap blank nothing]
  have step : fromIn? ("from".toList ++ (gap ++ rest)) =
      (fromHere? ("from".toList ++ (gap ++ rest))).or (fromIn? ("rom".toList ++ (gap ++ rest))) := rfl
  rw [step, later, Option.or_none]

theorem fromIn?_joined (s b : List Char) : fromIn? (s ++ '\n' :: b) = (fromIn? s).map (onto ('\n' :: b)) ∨
    fromIn? s = none ∧ ∃ words gap, s = words ++ ("from".toList ++ gap) ∧ '\n' ∉ words ∧ InGap gap ∧
      fromIn? (s ++ '\n' :: b) = opened? (b.dropWhile isBlank) := by
  induction s with
  | nil => exact .inl (fromIn?_lineEnd b)
  | cons c s ih =>
    cases fromHere?_joined (c :: s) b with
    | inl same =>
      rw [List.cons_append] at same ⊢
      rw [fromIn?, fromIn?, same]
      cases fromHere? (c :: s) with
      | some found => exact .inl rfl
      | none =>
        rw [Option.map_none, Option.none_or, Option.none_or]
        by_cases line : c = '\n'
        next => exact .inl (by simp [line])
        next =>
          rw [if_neg line, if_neg line]
          cases ih with
          | inl same => exact .inl same
          | inr crossed =>
            obtain ⟨nothing, words, gap, split, clean, blank, read⟩ := crossed
            refine .inr ⟨nothing, c :: words, gap, by rw [split, List.cons_append], ?_, blank, read⟩
            simp [Ne.symm line, clean]
    | inr crossed =>
      obtain ⟨nothing, gap, split, blank, read⟩ := crossed
      have alone : fromIn? ("from".toList ++ (gap ++ [])) = _ := fromIn?_keyword blank rfl
      rw [List.append_nil, ← split, nothing] at alone
      refine .inr ⟨alone, [], gap, split, List.not_mem_nil, blank, ?_⟩
      rw [← read, split, List.append_assoc]
      exact fromIn?_keyword blank (fromIn?_lineEnd b)

inductive Broken (b : List Char) (read : Option (List Char × Cursor)) : List Char → Prop
  -- where an import that begins in a text goes on behind the line end
  | front {gap : List Char} (blank : InGap gap) (same : read = imported? b) : Broken b read gap
  | keyword {lead gap : List Char} (blank : InGap lead) (last : InGap gap)
      (same : read = fromIn? (b.dropWhile isBlank)) : Broken b read (lead ++ ("import".toList ++ gap))
  | source {lead gap words last : List Char} (blank : InGap lead) (inner : InGap gap) (clean : '\n' ∉ words)
      (ends : InGap last) (nothing : fromIn? (words ++ ("from".toList ++ last)) = none)
      (same : read = opened? (b.dropWhile isBlank)) :
      Broken b read (lead ++ ("import".toList ++ (gap ++ (words ++ ("from".toList ++ last)))))

theorem imported?_import {lead : List Char} (blank : InGap lead) (rest : List Char) :
    imported? (lead ++ ("import".toList ++ rest)) = (behindGap? rest).bind fromIn? := by
  have keyword : ("import".toList ++ rest).dropPrefix? "import".toList = some rest := dropPrefix?_eq_some_iff.2 rfl
  have start : ("import".toList ++ rest).dropWhile isBlank = "import".toList ++ rest := rfl
  rw [imported?_gap blank, imported?, start, behindImport?, keyword, Option.bind_some]

theorem imported?_joined (s b : List Char) : imported? (s ++ '\n' :: b) = (imported? s).map (onto ('\n' :: b)) ∨
    imported? s = none ∧ Broken b (imported? (s ++ '\n' :: b)) s := by
  by_cases blank : InGap s
  next =>
    have nothing : imported? (s ++ []) = none := imported?_gap blank []
    rw [List.append_nil] at nothing
    exact .inr ⟨nothing, .front blank (imported?_gap blank ('\n' :: b))⟩
  next =>
    have parts := List.takeWhile_append_dropWhile (p := isBlank) (l := s)
    have lead : InGap (s.takeWhile isBlank) := List.all_eq_true.1 List.all_takeWhile
    cases keyword : (s.dropWhile isBlank).dropPrefix? "import".toList with
    | none =>
      left
      rw [imported?, imported?, dropWhile_joined blank, behindImport?, behindImport?,
        dropPrefix?_joined (by decide), keyword]
      rfl
    | some rest =>
      rw [dropPrefix?_eq_some_iff.1 keyword] at parts
      rw [← parts, List.append_assoc, List.append_assoc, imported?_import lead, imported?_import lead]
      by_cases gap : InGap rest
      next =>
        right
        constructor
        next => cases behindGap?_gap gap with
          | inl nothing => rw [nothing, Option.bind_none]
          | inr ends => rw [ends, Option.bind_some, fromIn?]
        next =>
          apply Broken.keyword lead gap
          rw [behindGap?_joined_gap gap, Option.bind_some]
      next =>
        rw [behindGap?_joined gap]
        cases behind : behindGap? rest with
        | none => exact .inl rfl
        | some later =>
          obtain ⟨inner, whole, _, blanks, _⟩ := parts_of_behindGap? behind
          rw [Option.map_some, Option.bind_some, Option.bind_some]
          cases fromIn?_joined later b with
          | inl same => exact .inl same
          | inr crossed =>
            obtain ⟨nothing, words, last, split, clean, ends, read⟩ := crossed
            rw [whole]
            refine .inr ⟨nothing, ?_⟩
            rw [split] at nothing read ⊢
            exact .source lead blanks clean ends nothing read

-- The keyword and the blanks around it hold no `f`, so an import found on the line of a `from` stands in front of it.
theorem fromIn?_of_imported? (clean : '\n' ∉ words)
    (read : imported? (words ++ ("from".toList ++ rest)) = some found) :
    fromIn? (words ++ ("from".toList ++ rest)) = some found := by
  obtain ⟨lead, gap, behind, split, blank, inner, further⟩ := parts_of_imported? read
  have outside {gap : List Char} (blank : InGap gap) : 'f' ∉ gap := fun member => absurd (blank _ member) (by decide)
  have other : 'f' ∉ lead ++ ("import".toList ++ gap) := by simp [outside blank, outside inner]
  have regrouped : [] ++ (lead ++ ("import".toList ++ gap)) ++ behind = words ++ 'f' :: ("rom".toList ++ rest) := by
    simpa using split.symm
  cases cases_of_mark regrouped other with
  | inl front =>
    obtain ⟨more, within, _⟩ := front
    have line : '\n' ∉ lead ++ ("import".toList ++ gap) := by
      intro member
      apply clean
      rw [within]
      exact List.mem_append_left more member
    have whole : words ++ ("from".toList ++ rest) = (lead ++ ("import".toList ++ gap)) ++ behind := by simpa using split
    rw [whole, fromIn?_pass line other, further]
  | inr later =>
    obtain ⟨_, nothing, _⟩ := later
    simp at nothing

theorem importsFrom_blank (blank : InGap gap) : importsFrom before gap = [] := by
  have passed : importsFrom before (gap ++ []) = importsFrom (past before gap) [] := importsFrom_gap blank rfl
  rwa [List.append_nil, importsFrom_nil] at passed

theorem importsFrom_quoted (quoted : Quoted s found) :
    importsFrom before s = importsFrom found.2.before found.2.rest := by
  cases quoted with
  | @intro gap x rest opening closing blank opens plain closes =>
    have nothing := imported?_of_quote opens (x ++ closing :: rest)
    have ofQuote {c : Char} (quote : isQuote c = true) : '\n' ≠ c := by
      cases isQuote_iff.1 quote with
      | inl single => rw [single]; decide
      | inr double => rw [double]; decide
    have clean : '\n' ∉ opening :: (x ++ [closing]) := by
      have within : '\n' ∉ x := fun member => absurd (plain _ member) (by decide)
      simp [ofQuote opens, ofQuote closes, within]
    have regrouped : opening :: (x ++ closing :: rest) = (opening :: (x ++ [closing])) ++ rest := by simp
    rw [importsFrom_gap blank nothing]
    rw [regrouped] at nothing ⊢
    rw [importsFrom_line clean nothing]
    simp

theorem importsFrom_words (clean : '\n' ∉ words) (quoted : Quoted rest found)
    (nothing : imported? (words ++ ("from".toList ++ rest)) = none) :
    importsFrom before (words ++ ("from".toList ++ rest)) = importsFrom found.2.before found.2.rest := by
  rw [← List.append_assoc] at nothing ⊢
  rw [importsFrom_line (by simp [clean]) nothing, importsFrom_quoted quoted]

theorem importsFrom_lineStart (t : List Char) : importsFrom (some '\n') t = importsFrom none t := by
  cases t with
  | nil => rfl
  | cons c t =>
    rw [importsFrom, importsFrom, searchFrom, searchFrom, find?_importFrom, find?_importFrom]
    rfl

theorem Broken.silent {b : List Char} {read : Option (List Char × Cursor)} (broken : Broken b read s)
    (nothing : imported? s = none) : importsFrom before s = [] := by
  cases broken with
  | front blank _ => exact importsFrom_blank blank
  | keyword blank last _ =>
    rw [imported?_gap blank] at nothing
    rw [importsFrom_gap blank nothing, importsFrom_line (by decide) nothing, importsFrom_blank last]
  | @source lead gap words last blank inner clean ends absent _ =>
    rw [imported?_gap blank] at nothing
    have none : imported? (words ++ ("from".toList ++ last)) = none := by
      cases found : imported? (words ++ ("from".toList ++ last)) with
      | none => rfl
      | some found =>
        have present := fromIn?_of_imported? clean found
        rw [absent] at present
        cases present
    rw [importsFrom_gap blank nothing, importsFrom_line (by decide) nothing, importsFrom_gap inner none,
      ← List.append_assoc]
    rw [← List.append_assoc] at none
    rw [importsFrom_line (by simp [clean]) none, importsFrom_blank ends]

theorem Broken.onward {b : List Char} (broken : Broken b (some found) s) :
    ∃ own, (own = [] ∨ own = [found.1]) ∧
      importsFrom none b = own ++ importsFrom found.2.before found.2.rest := by
  have parts := List.takeWhile_append_dropWhile (p := isBlank) (l := b)
  have lead : InGap (b.takeWhile isBlank) := List.all_eq_true.1 List.all_takeWhile
  cases broken with
  | front _ same => exact ⟨[found.1], .inr rfl, importsFrom_found rfl same.symm⟩
  | keyword _ _ same =>
    obtain ⟨words, rest, split, clean, quoted⟩ := parts_of_fromIn? same.symm
    cases own : imported? (words ++ ("from".toList ++ rest)) with
    | none =>
      refine ⟨[], .inl rfl, ?_⟩
      rw [split] at parts
      rw [← parts, importsFrom_gap lead own, importsFrom_words clean quoted own, List.nil_append]
    | some taken =>
      have again := fromIn?_of_imported? clean own
      rw [← split, ← same] at again
      have whole : imported? b = some found := by
        rw [← parts, imported?_gap lead, split, own, again]
      exact ⟨[found.1], .inr rfl, importsFrom_found rfl whole⟩
  | source _ _ _ _ _ same =>
    have quoted := (quoted_of_opened? same.symm).behind lead
    rw [parts] at quoted
    exact ⟨[], .inl rfl, importsFrom_quoted quoted⟩

theorem Broken.joined {t : List Char} (broken : Broken t (some found) s) (start : before.all (· == '\n') = true)
    (nothing : imported? s = none) (read : imported? (s ++ '\n' :: t) = some found) : ∃ seam, seam.length ≤ 1 ∧
      importsFrom before (s ++ '\n' :: t) = importsFrom before s ++ seam ++ importsFrom none t := by
  obtain ⟨own, alone, later⟩ := broken.onward
  rw [importsFrom_found start read, broken.silent nothing, later]
  cases alone with
  | inl none => exact ⟨[found.1], Nat.le_refl 1, by rw [none]; rfl⟩
  | inr one => exact ⟨[], Nat.zero_le 1, by rw [one]; rfl⟩

theorem importsFrom_joined (before : Option Char) (s t : List Char) : ∃ seam, seam.length ≤ 1 ∧
    importsFrom before (s ++ '\n' :: t) = importsFrom before s ++ seam ++ importsFrom none t := by
  -- on the length of the first text, since an import takes any number of characters off it
  induction size : s.length using Nat.strongRecOn generalizing before s with
  | ind n ih =>
    have pass (nothing : importFrom.find? ⟨before, s⟩ = none)
        (neither : importFrom.find? ⟨before, s ++ '\n' :: t⟩ = none) : ∃ seam, seam.length ≤ 1 ∧
          importsFrom before (s ++ '\n' :: t) = importsFrom before s ++ seam ++ importsFrom none t := by
      cases s with
      | nil =>
        refine ⟨[], Nat.zero_le _, ?_⟩
        rw [importsFrom, List.nil_append, searchFrom_none neither]
        exact importsFrom_lineStart t
      | cons c s =>
        rw [List.cons_append] at neither ⊢
        rw [importsFrom, importsFrom, searchFrom_none nothing, searchFrom_none neither]
        exact ih s.length (by simp [← size]) (some c) s rfl
    by_cases start : before.all (· == '\n') = true
    next =>
      cases imported?_joined s t with
      | inl same =>
        cases read : imported? s with
        | none =>
          apply pass (find?_eq_none read)
          apply find?_eq_none
          rw [same, read, Option.map_none]
        | some found =>
          obtain ⟨front, whole, moved, _⟩ := (reaches_of_imported? read).onward
          have shorter : found.2.rest.length < n := by
            have some := List.length_pos_iff.2 moved
            have lengths := congrArg List.length whole
            rw [List.length_append] at lengths
            omega
          rw [read, Option.map_some] at same
          obtain ⟨seam, short, later⟩ := ih _ shorter found.2.before found.2.rest rfl
          refine ⟨seam, short, ?_⟩
          rw [importsFrom_found start same, importsFrom_found start read]
          exact congrArg (found.1 :: ·) later
      | inr crossed =>
        obtain ⟨nothing, broken⟩ := crossed
        cases read : imported? (s ++ '\n' :: t) with
        | none => exact pass (find?_eq_none nothing) (find?_eq_none read)
        | some found =>
          rw [read] at broken
          exact broken.joined start nothing read
    next =>
      have inside (s : List Char) : importFrom.find? ⟨before, s⟩ = none := by
        rw [find?_importFrom, if_neg start]
      exact pass (inside s) (inside (s ++ '\n' :: t))

def IsSpecifier (x : String) : Prop := ∀ c ∈ x.toList, c ≠ '\'' ∧ c ≠ '"' ∧ c ≠ '\n'

theorem extract_joined (a b : String) : ∃ seam : List String, seam.length ≤ 1 ∧
    importFrom.extract (a ++ "\n" ++ b) = importFrom.extract a ++ seam ++ importFrom.extract b := by
  have text : (a ++ "\n" ++ b).toList = a.toList ++ '\n' :: b.toList := by simp
  obtain ⟨seam, short, joined⟩ := importsFrom_joined none a.toList b.toList
  refine ⟨seam.map String.ofList, by simpa using short, ?_⟩
  rw [Extractor.extract, text]
  exact (congrArg (List.map String.ofList) joined).trans (by simp [Extractor.extract, search, importsFrom])

theorem isSpecifier_of_mem_extract {text x : String} (member : x ∈ importFrom.extract text) : IsSpecifier x := by
  obtain ⟨found, extracted, same⟩ := List.mem_map.1 member
  intro c inside
  rw [← same, String.toList_ofList] at inside
  have plain := plain_of_mem_importsFrom extracted c inside
  simp [isPlain, isQuote] at plain
  simp [plain]

theorem imports_joined (file a b : String) :
    (∃ seam : List String, seam.length ≤ 1 ∧
      (Code.ofText file (a ++ "\n" ++ b)).imports =
        (Code.ofText file a).imports ++ seam ++ (Code.ofText file b).imports ∧
      (Component.ofText file (a ++ "\n" ++ b)).imports =
        (Component.ofText file a).imports ++ seam ++ (Component.ofText file b).imports) ∧
    (∀ x ∈ (Code.ofText file a).imports, IsSpecifier x) ∧
    ∀ x ∈ (Component.ofText file a).imports, IsSpecifier x := by
  obtain ⟨seam, short, joined⟩ := extract_joined a b
  exact ⟨⟨seam, short, joined, joined⟩, fun _ => isSpecifier_of_mem_extract, fun _ => isSpecifier_of_mem_extract⟩

theorem imports_joined_straddling :
    (∃ seam : List String, seam.length ≤ 1 ∧ ["./y", "./w"] = [] ++ seam ++ ["./w"]) ∧
      "./w" ∈ (Code.ofText "m.ts" "'./y'\nimport z from './w'").imports ∧ IsSpecifier "./w" := by
  have first : (Code.ofText "m.ts" "import x from").imports = [] := by decide +kernel
  have second : (Code.ofText "m.ts" "'./y'\nimport z from './w'").imports = ["./w"] := by decide +kernel
  have both : (Code.ofText "m.ts" ("import x from" ++ "\n" ++ "'./y'\nimport z from './w'")).imports =
      ["./y", "./w"] := by decide +kernel
  obtain ⟨seam, short, joined, _⟩ := (imports_joined "m.ts" "import x from" "'./y'\nimport z from './w'").1
  rw [first, second, both] at joined
  have member : "./w" ∈ (Code.ofText "m.ts" "'./y'\nimport z from './w'").imports := by rw [second]; simp
  exact ⟨⟨seam, short, joined⟩, member, (imports_joined "m.ts" _ "").2.1 _ member⟩

end FrontendSurvey.Source
