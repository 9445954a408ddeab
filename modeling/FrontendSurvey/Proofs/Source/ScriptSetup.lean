import FrontendSurvey.Proofs.Text.Case
import FrontendSurvey.Proofs.Text.Words
import FrontendSurvey.Source.Component

set_option autoImplicit false

namespace FrontendSurvey.Component

open Text Pattern

def Edge (u v : List Char) : Prop := u.getLast?.any isWordChar ≠ v.head?.any isWordChar

def LangTs (t : List Char) : Prop :=
  ∃ name gap gap' value : List Char, ∃ opening closing : Char,
    t = name ++ gap ++ ['='] ++ gap' ++ [opening] ++ value ++ [closing] ∧
    Spells "lang" name ∧ InGap gap ∧ InGap gap' ∧ opening ∈ "\"'".toList ∧ Spells "ts" value ∧
    closing ∈ "\"'".toList

structure ScriptTag (s front tag rest : List Char) : Prop where
  whole : s = front ++ tag ++ rest
  opens : ∃ name body, tag = name ++ body ∧ Spells "<script" name
  inside : '>' ∉ tag
  ends : ∀ c ∈ rest.head?, c = '>'

def HasLangTs (front tag rest : List Char) : Prop :=
  ∃ u t v, tag = u ++ t ++ v ∧ LangTs t ∧ Edge (front ++ u) (t ++ v ++ rest)

def HasSetup (front tag rest : List Char) : Prop :=
  ∃ u t v, tag = u ++ t ++ v ∧ Spells "setup" t ∧ Edge (front ++ u) (t ++ v ++ rest) ∧
    Edge (front ++ u ++ t) (v ++ rest)

def tagWith (p q : Text.Pattern) : Text.Pattern :=
  wordAnyCase "<script" ++ withinTag ++ p ++ withinTag ++ q

variable {p q : Text.Pattern} {s front tag rest name body t u v : List Char}

theorem matches_edge : boundary.Matches (past none u) t v ↔ t = [] ∧ Edge u v := by
  have last : past none u = u.getLast? := by
    rcases List.eq_nil_or_concat u with rfl | ⟨r, c, rfl⟩ <;> simp
  simp [boundary, Cursor.afterWordChar_eq, Cursor.beforeWordChar_eq, last, Edge]

theorem matches_quote {before : Option Char} : (oneOf "\"'").Matches before t rest ↔
    ∃ c, t = [c] ∧ c ∈ "\"'".toList := by
  simp [oneOf]

theorem matches_langTs : langTs.Matches (past none u) t v ↔ LangTs t ∧ Edge u (t ++ v) := by
  have lang {before : Option Char} {t rest : List Char} :
      (wordAnyCase "lang").Matches before t rest ↔ Spells "lang" t := matches_wordAnyCase (by decide)
  have ts {before : Option Char} {t rest : List Char} :
      (wordAnyCase "ts").Matches before t rest ↔ Spells "ts" t := matches_wordAnyCase (by decide)
  simp only [langTs, blanks, matches_append, matches_run, matches_is, matches_quote, matches_edge, lang, ts]
  constructor
  · rintro ⟨_, _, rfl, ⟨_, value, rfl, ⟨_, _, rfl, ⟨_, gap', rfl, ⟨_, _, rfl, ⟨_, gap, rfl, ⟨_, name, rfl,
      ⟨rfl, edge⟩, named⟩, blank⟩, rfl⟩, blank'⟩, opening, rfl, opens⟩, valued⟩, closing, rfl, closes⟩
    exact ⟨⟨name, gap, gap', value, opening, closing, rfl, named, blank, blank', opens, valued, closes⟩,
      by simpa using edge⟩
  · rintro ⟨⟨name, gap, gap', value, opening, closing, rfl, named, blank, blank', opens, valued, closes⟩, edge⟩
    exact ⟨_, _, rfl, ⟨_, value, rfl, ⟨_, _, rfl, ⟨_, gap', rfl, ⟨_, _, rfl, ⟨_, gap, rfl, ⟨[], name, rfl,
      ⟨rfl, by simpa using edge⟩, named⟩, blank⟩, rfl⟩, blank'⟩, opening, rfl, opens⟩, valued⟩,
      closing, rfl, closes⟩

theorem matches_setupWord : setupWord.Matches (past none u) t v ↔
    Spells "setup" t ∧ Edge u (t ++ v) ∧ Edge (u ++ t) v := by
  have setup {before : Option Char} {t rest : List Char} :
      (wordAnyCase "setup").Matches before t rest ↔ Spells "setup" t := matches_wordAnyCase (by decide)
  simp only [setupWord, matches_append, setup, matches_edge]
  constructor
  · rintro ⟨_, _, rfl, ⟨_, t, rfl, ⟨rfl, first⟩, spells⟩, second⟩
    rw [List.nil_append, ← past_append, matches_edge] at second
    obtain ⟨rfl, last⟩ := second
    exact ⟨by simpa using spells, by simpa using first, by simpa using last⟩
  · rintro ⟨spells, first, last⟩
    refine ⟨t, [], by simp, ⟨[], t, rfl, ⟨rfl, by simpa using first⟩, spells⟩, ?_⟩
    rw [← past_append, matches_edge]
    exact ⟨rfl, last⟩

theorem matches_tagWith {before : Option Char} : (tagWith p q).Matches before s rest ↔
    ∃ name a t b t', s = name ++ a ++ t ++ b ++ t' ∧ Spells "<script" name ∧ '>' ∉ a ∧ '>' ∉ b ∧
      p.Matches (past before (name ++ a)) t (b ++ t' ++ rest) ∧
      q.Matches (past before (name ++ a ++ t ++ b)) t' rest := by
  have opening {before : Option Char} {t rest : List Char} :
      (wordAnyCase "<script").Matches before t rest ↔ Spells "<script" t := matches_wordAnyCase (by decide)
  have within {before : Option Char} {t rest : List Char} : withinTag.Matches before t rest ↔ '>' ∉ t := by
    simp only [withinTag, matches_run, bne_iff_ne, ne_eq]
    exact ⟨fun others member => others _ member rfl, fun absent c member same => absent (same ▸ member)⟩
  simp only [tagWith, matches_append, opening, within]
  constructor
  · rintro ⟨_, t', rfl, ⟨_, b, rfl, ⟨_, t, rfl, ⟨name, a, rfl, opens, clean⟩, first⟩, clean'⟩, second⟩
    exact ⟨name, a, t, b, t', rfl, opens, clean, clean', by simpa using first, by simpa using second⟩
  · rintro ⟨name, a, t, b, t', rfl, opens, clean, clean', first, second⟩
    exact ⟨_, t', rfl, ⟨_, b, rfl, ⟨_, t, rfl, ⟨name, a, rfl, opens, clean⟩, by simpa using first⟩, clean'⟩,
      by simpa using second⟩

theorem solid_tagWith : (tagWith p q).Solid := by
  intro before t rest matched
  obtain ⟨name, a, t, b, t', rfl, opens, -⟩ := matches_tagWith.1 matched
  simp [opens.ne_nil (by decide)]

def KeepsInTag (p : Text.Pattern) : Prop := ∀ u t v, p.Matches (past none u) t v → '>' ∉ t

theorem occursIn_tagWith_iff (first : KeepsInTag p) (second : KeepsInTag q) (text : String) :
    (tagWith p q).occursIn text = true ↔ ∃ front tag rest, ScriptTag text.toList front tag rest ∧
      ∃ name a t b t' v, tag = name ++ a ++ t ++ b ++ t' ++ v ∧ Spells "<script" name ∧
        p.Matches (past none (front ++ name ++ a)) t (b ++ t' ++ v ++ rest) ∧
        q.Matches (past none (front ++ name ++ a ++ t ++ b)) t' (v ++ rest) := by
  rw [occursIn_iff solid_tagWith]
  constructor
  · rintro ⟨_, front, _, behind, split, -, matched⟩
    obtain ⟨name, a, t, b, t', rfl, opens, clean, clean', left, right⟩ := matches_tagWith.1 matched
    have more : behind = behind.takeWhile (· ≠ '>') ++ behind.dropWhile (· ≠ '>') := by simp
    have begun : '>' ∉ name := opens.not_mem (by decide)
    rw [← past_append] at left right
    have kept := first _ _ _ left
    have kept' := second _ _ _ right
    have last : '>' ∉ behind.takeWhile (· ≠ '>') := by
      intro member
      simpa using List.mem_takeWhile_imp member
    refine ⟨front, name ++ a ++ t ++ b ++ t' ++ behind.takeWhile (· ≠ '>'), behind.dropWhile (· ≠ '>'),
      ⟨?_, ?_, ?_, ?_⟩, name, a, t, b, t', _, rfl, opens, ?_, ?_⟩
    · rw [split]
      nth_rewrite 1 [more]
      simp
    · exact ⟨name, a ++ t ++ b ++ t' ++ behind.takeWhile (· ≠ '>'), by simp, opens⟩
    · simp only [List.mem_append, not_or]
      exact ⟨⟨⟨⟨⟨begun, clean⟩, kept⟩, clean'⟩, kept'⟩, last⟩
    · intro c head
      have found := List.head?_dropWhile_not (· ≠ '>') behind
      rw [Option.mem_def.1 head] at found
      simpa using found
    · simpa using left
    · simpa using right
  · rintro ⟨front, tag, rest, script, name, a, t, b, t', v, rfl, opens, left, right⟩
    have clean := script.inside
    simp only [List.mem_append, not_or] at clean
    refine ⟨_, front, name ++ a ++ t ++ b ++ t', v ++ rest, by rw [script.whole]; simp, rfl, ?_⟩
    exact matches_tagWith.2 ⟨name, a, t, b, t', rfl, opens, clean.1.1.1.1.2, clean.1.1.2, by simpa using left,
      by simpa using right⟩

theorem Spells.no_quote {c : Char} (spells : Spells "setup" t) (quote : c ∈ "\"'".toList) : c ∉ t := by
  have marks : c = '"' ∨ c = '\'' := by simpa using quote
  rcases marks with rfl | rfl
  · exact spells.not_mem (by decide)
  · exact spells.not_mem (by decide)

theorem LangTs.exists_first (typed : LangTs t) : ∃ c r, t = c :: r ∧ foldCase c = 'l' := by
  obtain ⟨name, gap, gap', value, opening, closing, rfl, named, -⟩ := typed
  obtain ⟨c, r, rfl, first, -⟩ := List.map_eq_cons_iff.1 named
  exact ⟨c, _, rfl, first⟩

theorem LangTs.exists_last (typed : LangTs t) : ∃ start c, t = start ++ [c] ∧ c ∈ "\"'".toList := by
  obtain ⟨name, gap, gap', value, opening, closing, rfl, -, -, -, -, -, closes⟩ := typed
  exact ⟨_, closing, rfl, closes⟩

theorem LangTs.not_gt (typed : LangTs t) : '>' ∉ t := by
  obtain ⟨name, gap, gap', value, opening, closing, rfl, named, blank, blank', opens, valued, closes⟩ := typed
  have gaps {gap : List Char} (blank : InGap gap) : '>' ∉ gap :=
    fun member => absurd (blank _ member) (by decide)
  have marks {c : Char} (quote : c ∈ "\"'".toList) : '>' ≠ c := by
    rintro rfl
    exact absurd quote (by decide)
  have first : '>' ∉ name := named.not_mem (by decide)
  have last : '>' ∉ value := valued.not_mem (by decide)
  simp [first, last, gaps blank, gaps blank', marks opens, marks closes]

theorem LangTs.foldCase_ne (typed : LangTs t) : ∀ c ∈ t, foldCase c ≠ 'p' := by
  obtain ⟨name, gap, gap', value, opening, closing, rfl, named, blank, blank', opens, valued, closes⟩ := typed
  have gaps {gap : List Char} (blank : InGap gap) : ∀ c ∈ gap, foldCase c ≠ 'p' := by
    intro c member fold
    have letter : isWordChar c = true := isWordChar_of_foldCase fold (by decide) (by decide) (by decide)
    rw [not_isWordChar_of_isBlank (blank c member)] at letter
    cases letter
  have words {word : String} {t : List Char} (spells : Spells word t) (other : 'p' ∉ word.toList) :
      ∀ c ∈ t, foldCase c ≠ 'p' := fun c member fold => other (fold ▸ spells.fold_mem member)
  have marks {c : Char} (quote : c ∈ "\"'".toList) : foldCase c ≠ 'p' := by
    have cases : c = '"' ∨ c = '\'' := by simpa using quote
    rcases cases with rfl | rfl <;> decide
  simp only [List.mem_append, List.mem_singleton]
  rintro c ((((((member | member) | rfl) | member) | rfl) | member) | rfl)
  · exact words named (by decide) c member
  · exact gaps blank c member
  · decide
  · exact gaps blank' c member
  · exact marks opens
  · exact words valued (by decide) c member
  · exact marks closes

theorem LangTs.apart {w x v' : List Char} (typed : LangTs t) (spells : Spells "setup" w)
    (same : u ++ t ++ v = x ++ w ++ v') :
    (∃ between, x = u ++ t ++ between ∧ v = between ++ w ++ v') ∨
      ∃ between, u = x ++ w ++ between ∧ v' = between ++ t ++ v := by
  obtain ⟨l, r, split, first⟩ := typed.exists_first
  have letterless : l ∉ w := spells.not_mem (by rw [first]; decide)
  have front : x ++ w ++ v' = u ++ l :: (r ++ v) := by rw [← same, split]; simp
  cases cases_of_mark front letterless with
  | inl before =>
    obtain ⟨between, above, behind⟩ := before
    exact .inr ⟨between, above, by rw [behind, split]; simp⟩
  | inr beyond =>
    obtain ⟨y, place, -⟩ := beyond
    obtain ⟨start, closing, spelled, closes⟩ := typed.exists_last
    have quoteless : closing ∉ w := Spells.no_quote spells closes
    have back : x ++ w ++ v' = u ++ start ++ closing :: v := by rw [← same, spelled]; simp
    cases cases_of_mark back quoteless with
    | inr behind =>
      obtain ⟨between, above, after⟩ := behind
      exact .inl ⟨between, by rw [above, spelled]; simp, after⟩
    | inl inside =>
      -- the word would stand between the first letter and the closing quote
      obtain ⟨z, whole, -⟩ := inside
      have within : start = l :: y ++ w ++ z := by
        rw [place] at whole
        simpa using whole
      have last : 'p' ∈ w.map foldCase := by
        rw [show w.map foldCase = "setup".toList from spells]
        decide
      obtain ⟨c, member, fold⟩ := List.mem_map.1 last
      exact absurd fold (typed.foldCase_ne c (by simp [spelled, within, member]))

theorem behind_opening (word : List Char) (opens : Spells "<script" name) (begins : word <+: t.map foldCase)
    (apart : ∀ w ∈ "<script".toList.tails, w ≠ [] → ¬ w <+: word ∧ ¬ word <+: w)
    (same : name ++ body = u ++ (t ++ v)) : ∃ a, u = name ++ a := by
  rcases List.append_eq_append_iff.1 same with ⟨a, front, -⟩ | ⟨w, front, behind⟩
  · exact ⟨a, front⟩
  · by_cases begun : w = []
    next => exact ⟨[], by simp [front, begun]⟩
    next =>
      -- both the word and the rest of the tag's start begin the same text
      have ending : w.map foldCase ∈ "<script".toList.tails := by
        rw [List.mem_tails, ← show name.map foldCase = "<script".toList from opens, front, List.map_append]
        exact List.suffix_append _ _
      have first : w.map foldCase <+: (t ++ v).map foldCase := by
        rw [behind, List.map_append]
        exact List.prefix_append _ _
      have second : word <+: (t ++ v).map foldCase := by
        rw [List.map_append]
        exact begins.trans (List.prefix_append _ _)
      obtain ⟨notLeft, notRight⟩ := apart _ ending (by simpa using begun)
      rcases List.prefix_or_prefix_of_prefix first second with shorter | longer
      · exact absurd shorter notLeft
      · exact absurd longer notRight

theorem LangTs.behind_opening (typed : LangTs t) (opens : Spells "<script" name)
    (same : name ++ body = u ++ (t ++ v)) : ∃ a, u = name ++ a := by
  obtain ⟨c, r, rfl, first⟩ := typed.exists_first
  exact Component.behind_opening ['l'] opens (by simp [first]) (by decide) same

theorem setup_behind_opening (spells : Spells "setup" t) (opens : Spells "<script" name)
    (same : name ++ body = u ++ (t ++ v)) : ∃ a, u = name ++ a := by
  refine behind_opening "setup".toList opens ?_ (by decide) same
  rw [show t.map foldCase = "setup".toList from spells]

theorem keepsInTag_langTs : KeepsInTag langTs :=
  fun _ _ _ matched => (matches_langTs.1 matched).1.not_gt

theorem keepsInTag_setupWord : KeepsInTag setupWord :=
  fun _ _ _ matched => (matches_setupWord.1 matched).1.not_mem (by decide)

theorem scriptSetupTs_iff (file text : String) : (ofText file text).scriptSetupTs = true ↔
    ∃ front tag rest, ScriptTag text.toList front tag rest ∧ HasLangTs front tag rest ∧ HasSetup front tag rest := by
  have flag : (ofText file text).scriptSetupTs = true ↔
      (tagWith langTs setupWord).occursIn text = true ∨ (tagWith setupWord langTs).occursIn text = true :=
    Bool.or_eq_true_iff
  rw [flag, occursIn_tagWith_iff keepsInTag_langTs keepsInTag_setupWord,
    occursIn_tagWith_iff keepsInTag_setupWord keepsInTag_langTs]
  constructor
  · rintro (⟨front, tag, rest, script, name, a, t, b, w, v, split, -, left, right⟩ |
      ⟨front, tag, rest, script, name, a, w, b, t, v, split, -, left, right⟩)
    · obtain ⟨typed, edge⟩ := matches_langTs.1 left
      obtain ⟨spells, edges⟩ := matches_setupWord.1 right
      exact ⟨front, tag, rest, script, ⟨name ++ a, t, b ++ w ++ v, by simp [split], typed, by simpa using edge⟩,
        ⟨name ++ a ++ t ++ b, w, v, split, spells, by simpa using edges⟩⟩
    · obtain ⟨spells, edges⟩ := matches_setupWord.1 left
      obtain ⟨typed, edge⟩ := matches_langTs.1 right
      exact ⟨front, tag, rest, script, ⟨name ++ a ++ w ++ b, t, v, split, typed, by simpa using edge⟩,
        ⟨name ++ a, w, b ++ t ++ v, by simp [split], spells, by simpa using edges⟩⟩
  · rintro ⟨front, tag, rest, script, ⟨u, t, v, split, typed, edge⟩, ⟨x, w, v', split', spells, edges⟩⟩
    obtain ⟨name, body, opened, opens⟩ := script.opens
    obtain ⟨a, rfl⟩ := typed.behind_opening opens (by rw [← opened, split, List.append_assoc])
    obtain ⟨a', rfl⟩ := setup_behind_opening spells opens (by rw [← opened, split', List.append_assoc])
    cases typed.apart spells (split.symm.trans split') with
    | inl behind =>
      obtain ⟨b, place, rest'⟩ := behind
      rw [place] at edges
      refine .inl ⟨front, tag, rest, script, name, a, t, b, w, v', by simp [split, rest'], opens, ?_, ?_⟩
      · exact matches_langTs.2 ⟨typed, by simpa [rest'] using edge⟩
      · exact matches_setupWord.2 ⟨spells, by simpa using edges⟩
    | inr ahead =>
      obtain ⟨b, place, rest'⟩ := ahead
      rw [place] at edge
      refine .inr ⟨front, tag, rest, script, name, a', w, b, t, v, by simp [split', rest'], opens, ?_, ?_⟩
      · exact matches_setupWord.2 ⟨spells, by simpa [rest'] using edges⟩
      · exact matches_langTs.2 ⟨typed, by simpa using edge⟩

theorem caseless_tagWith (first : p.Caseless) (second : q.Caseless) : (tagWith p q).Caseless := by
  have within : withinTag.Caseless :=
    eitherCase_of_letters fun _ letter => bne_iff_ne.2 (ne_of_isAlpha letter (by decide))
  exact ⟨⟨⟨⟨caseless_anyCase _, within⟩, first⟩, within⟩, second⟩

theorem caseless_langTs : langTs.Caseless := by
  have quotes : (oneOf "\"'").Caseless := caseless_oneOf (by decide)
  have blank : blanks.Caseless := eitherCase_isBlank
  exact ⟨⟨⟨⟨⟨⟨⟨caseless_boundary, caseless_anyCase _⟩, blank⟩, caseless_is (by decide)⟩, blank⟩, quotes⟩,
    caseless_anyCase _⟩, quotes⟩

theorem caseless_setupWord : setupWord.Caseless :=
  ⟨⟨caseless_boundary, caseless_anyCase _⟩, caseless_boundary⟩

theorem scriptSetupTs_exact :
    (∀ file text : String, (ofText file text).scriptSetupTs = true ↔
      ∃ front tag rest, ScriptTag text.toList front tag rest ∧ HasLangTs front tag rest ∧ HasSetup front tag rest) ∧
    ∀ file file' text text' : String, SameButCase text.toList text'.toList →
      (ofText file text).scriptSetupTs = (ofText file' text').scriptSetupTs := by
  refine ⟨scriptSetupTs_iff, fun file file' text text' same => ?_⟩
  have first : langThenSetup.occursIn text = langThenSetup.occursIn text' :=
    occursIn_congr_case solid_tagWith (caseless_tagWith caseless_langTs caseless_setupWord) same
  have second : setupThenLang.occursIn text = setupThenLang.occursIn text' :=
    occursIn_congr_case solid_tagWith (caseless_tagWith caseless_setupWord caseless_langTs) same
  simp only [ofText, first, second]

theorem scriptSetupTs_exact_mixed :
    let text := "<Script\nSETUP LANG = 'Ts'>"
    let text' := "<script\nsetup lang = 'ts'>"
    SameButCase text.toList text'.toList ∧
      (ofText "a.vue" text).scriptSetupTs = (ofText "b.vue" text').scriptSetupTs := by
  intro text text'
  have same : text.toList.map Char.toLower = text'.toList.map Char.toLower := by decide
  exact ⟨same, scriptSetupTs_exact.2 "a.vue" "b.vue" text text' same⟩

end FrontendSurvey.Component
