import FrontendSurvey.Proofs.Text.Onward
import FrontendSurvey.Source.Code

set_option autoImplicit false

namespace FrontendSurvey.Source

open Text Pattern

def isQuote (c : Char) : Bool := "'\"".toList.contains c

def isPlain (c : Char) : Bool := c != '\n' && !isQuote c

def specifier? (s : List Char) : Option (List Char × Cursor) :=
  match s.dropWhile isPlain with
  | q :: r => if isQuote q then some (s.takeWhile isPlain, ⟨some q, r⟩) else none
  | [] => none

def opened? : List Char → Option (List Char × Cursor)
  | q :: r => if isQuote q then specifier? r else none
  | [] => none

def quoted? (s : List Char) : Option (List Char × Cursor) := (behindGap? s).bind opened?

def fromHere? (s : List Char) : Option (List Char × Cursor) := (s.dropPrefix? "from".toList).bind quoted?

def fromIn? : List Char → Option (List Char × Cursor)
  -- behind the first `from` of the line that blanks and a quoted text follow
  | [] => none
  | c :: r => (fromHere? (c :: r)).or (if c = '\n' then none else fromIn? r)

def behindImport? (s : List Char) : Option (List Char × Cursor) :=
  (s.dropPrefix? "import".toList).bind fun r => (behindGap? r).bind fromIn?

def imported? (s : List Char) : Option (List Char × Cursor) := behindImport? (s.dropWhile isBlank)

variable {before : Option Char} {s t rest : List Char} {c : Char} {found : List Char × Cursor}

theorem specifier?_of_plain (plain : isPlain c = true) (s : List Char) :
    specifier? (c :: s) = (specifier? s).map fun found => (c :: found.1, found.2) := by
  simp only [specifier?, List.dropWhile_cons_of_pos plain, List.takeWhile_cons_of_pos plain]
  cases s.dropWhile isPlain with
  | nil => rfl
  | cons q r => by_cases closes : isQuote q = true <;> simp [closes]

theorem specifier?_of_not_plain (stops : ¬ isPlain c = true) (s : List Char) :
    specifier? (c :: s) = if isQuote c then some ([], ⟨some c, s⟩) else none := by
  simp [specifier?, stops]

theorem findSome?_body (t s : List Char) (before before' : Option Char) :
    ((shortRun (· != '\n')).ends ⟨before, s⟩).findSome? (fun b =>
      ((oneOf "'\"").ends b).head?.map fun e => (Cursor.upTo ⟨before', t ++ s⟩ b, e)) =
      (specifier? s).map fun found => (t ++ found.1, found.2) := by
  induction s generalizing t before with
  | nil => rfl
  | cons c s ih =>
    rw [findSome?_shortRun_cons]
    by_cases quote : isQuote c = true
    next =>
      have taken : Cursor.upTo ⟨before', t ++ c :: s⟩ ⟨before, c :: s⟩ = t := Cursor.upTo_eq rfl
      have closing : (oneOf "'\"").ends ⟨before, c :: s⟩ = [⟨some c, s⟩] := if_pos quote
      simp [closing, taken, specifier?, isPlain, quote]
    next =>
      have closing : (oneOf "'\"").ends ⟨before, c :: s⟩ = [] := if_neg quote
      rw [closing, List.head?_nil, Option.map_none, Option.none_or]
      by_cases line : c = '\n'
      next => simp [line, specifier?, isPlain, isQuote]
      next =>
        have onward := ih (t ++ [c]) (some c)
        simp only [List.append_assoc, List.singleton_append] at onward
        have plain : isPlain c = true := by simp [isPlain, line, quote]
        rw [if_pos (by simpa using line), onward, specifier?_of_plain plain, Option.map_map]
        rfl

theorem findSome?_specifier (a : Cursor) : (importFrom.body.ends a).findSome? (fun b =>
    (importFrom.trail.ends b).head?.map fun e => (a.upTo b, e)) = specifier? a.rest := by
  have whole := findSome?_body [] a.rest a.before a.before
  simpa [importFrom] using whole

theorem findSome?_opened (a : Cursor) : ((oneOf "'\"").ends a).findSome? (fun b => specifier? b.rest) =
    opened? a.rest := by
  cases a with
  | mk before s =>
    cases s with
    | nil => rfl
    | cons q r =>
      by_cases quote : isQuote q = true
      next =>
        have opening : (oneOf "'\"").ends ⟨before, q :: r⟩ = [⟨some q, r⟩] := if_pos quote
        simp [opening, opened?, quote]
      next =>
        have opening : (oneOf "'\"").ends ⟨before, q :: r⟩ = [] := if_neg quote
        simp [opening, opened?, quote]

theorem isQuote_iff : isQuote c = true ↔ c = '\'' ∨ c = '"' := by
  simp [isQuote]

theorem opened?_of_blank (blank : isBlank c = true) (r : List Char) : opened? (c :: r) = none := by
  have other : ¬ isQuote c = true := by
    intro quote
    cases isQuote_iff.1 quote with
    | inl single => exact absurd blank (by rw [single]; decide)
    | inr double => exact absurd blank (by rw [double]; decide)
  rw [opened?, if_neg other]

theorem findSome?_quoted (a : Cursor) : (someBlanks.ends a).findSome? (fun b => opened? b.rest) = quoted? a.rest :=
  findSome?_someBlanks (fun _ r blank => .inl (opened?_of_blank blank r)) a.before a.rest

theorem findSome?_fromIn (a : Cursor) : ((shortRun (· != '\n')).ends a).findSome? (fun b =>
    ((word "from").ends b).findSome? fun c => quoted? c.rest) = fromIn? a.rest := by
  have keyword (before : Option Char) (s : List Char) :
      ((word "from").ends ⟨before, s⟩).findSome? (fun b => quoted? b.rest) = fromHere? s :=
    findSome?_literal "from".toList before s fun b => quoted? b.rest
  cases a with
  | mk before s =>
    induction s generalizing before with
    | nil => rfl
    | cons c s ih =>
      rw [findSome?_shortRun_cons, keyword, ih, fromIn?]
      by_cases line : c = '\n' <;> simp [line]

theorem fromIn?_cons (other : c ≠ 'f') (r : List Char) :
    fromIn? (c :: r) = if c = '\n' then none else fromIn? r := by
  have absent : (c :: r).dropPrefix? "from".toList = none := dropPrefix?_of_ne other r
  rw [fromIn?, fromHere?, absent, Option.bind_none, Option.none_or]

theorem findSome?_behindImport (a : Cursor) : ((word "import").ends a).findSome? (fun b =>
    (someBlanks.ends b).findSome? fun c => fromIn? c.rest) = behindImport? a.rest := by
  have skips : ∀ a r, isBlank a = true → fromIn? (a :: r) = none ∨ fromIn? (a :: r) = fromIn? r := by
    intro a r blank
    rw [fromIn?_cons (ne_of_blank blank (by decide))]
    by_cases line : a = '\n' <;> simp [line]
  cases a with
  | mk before s =>
    simp only [word, findSome?_literal, findSome?_someBlanks skips]
    rfl

theorem behindImport?_of_blank (blank : isBlank c = true) (r : List Char) : behindImport? (c :: r) = none := by
  have absent : (c :: r).dropPrefix? "import".toList = none :=
    dropPrefix?_of_ne (ne_of_blank blank (by decide)) r
  rw [behindImport?, absent, Option.bind_none]

theorem find?_importFrom (before : Option Char) (s : List Char) :
    importFrom.find? ⟨before, s⟩ = if before.all (· == '\n') then imported? s else none := by
  have blanksFirst : ((run isBlank).ends ⟨before, s⟩).findSome? (fun a => behindImport? a.rest) = imported? s :=
    findSome?_run_skips (fun a r blank => .inl (behindImport?_of_blank blank r)) before s
  rw [Extractor.find?]
  simp only [findSome?_specifier]
  simp only [importFrom, ends_append, findSome?_flatMap, findSome?_opened, findSome?_quoted, findSome?_fromIn,
    findSome?_behindImport, lineStart, ends_look]
  split
  next => rwa [List.findSome?_singleton]
  next => rfl

inductive Quoted : List Char → List Char × Cursor → Prop
  | intro {gap x rest : List Char} {opening closing : Char} (blank : InGap gap) (opens : isQuote opening = true)
      (plain : ∀ c ∈ x, isPlain c = true) (closes : isQuote closing = true) :
      Quoted (gap ++ opening :: (x ++ closing :: rest)) (x, ⟨some closing, rest⟩)

theorem Quoted.behind {gap : List Char} (quoted : Quoted s found) (blank : InGap gap) : Quoted (gap ++ s) found := by
  cases quoted with
  | intro inner opens plain closes =>
    rw [← List.append_assoc]
    exact .intro (List.forall_mem_append.2 ⟨blank, inner⟩) opens plain closes

theorem quoted_of_opened? (read : opened? s = some found) : Quoted s found := by
  cases s with
  | nil => cases read
  | cons opening s =>
    rw [opened?] at read
    split at read
    next opens =>
      have parts := List.takeWhile_append_dropWhile (p := isPlain) (l := s)
      rw [specifier?] at read
      split at read
      next closing rest behind =>
        split at read
        next closes =>
          cases read
          rw [behind] at parts
          have plain : ∀ c ∈ s.takeWhile isPlain, isPlain c = true := List.all_eq_true.1 List.all_takeWhile
          have blank : InGap [] := fun _ member => absurd member List.not_mem_nil
          have whole : Quoted ([] ++ opening :: (s.takeWhile isPlain ++ closing :: rest)) _ :=
            .intro blank opens plain closes
          rwa [parts] at whole
        next => cases read
      next => cases read
    next => cases read

theorem quoted_of_quoted? (read : quoted? s = some found) : Quoted s found := by
  obtain ⟨rest, behind, opened⟩ := Option.bind_eq_some_iff.1 read
  obtain ⟨gap, whole, _, blank, _⟩ := parts_of_behindGap? behind
  rw [whole]
  exact (quoted_of_opened? opened).behind blank

theorem parts_of_fromIn? (read : fromIn? s = some found) :
    ∃ words rest, s = words ++ ("from".toList ++ rest) ∧ '\n' ∉ words ∧ Quoted rest found := by
  induction s with
  | nil => cases read
  | cons c s ih =>
    rw [fromIn?, Option.or_eq_some_iff] at read
    cases read with
    | inl here =>
      obtain ⟨rest, keyword, quoted⟩ := Option.bind_eq_some_iff.1 here
      have front := dropPrefix?_eq_some_iff.1 keyword
      exact ⟨[], rest, front, List.not_mem_nil, quoted_of_quoted? quoted⟩
    | inr later =>
      have further := later.2
      split at further
      next => cases further
      next line =>
        obtain ⟨words, rest, whole, clean, quoted⟩ := ih further
        exact ⟨c :: words, rest, by rw [whole, List.cons_append], by simp [Ne.symm line, clean], quoted⟩

theorem parts_of_imported? (read : imported? s = some found) :
    ∃ lead gap rest, s = lead ++ ("import".toList ++ (gap ++ rest)) ∧ InGap lead ∧ InGap gap ∧
      fromIn? rest = some found := by
  obtain ⟨behind, keyword, onward⟩ := Option.bind_eq_some_iff.1 read
  obtain ⟨rest, gapEnds, words⟩ := Option.bind_eq_some_iff.1 onward
  obtain ⟨gap, whole, _, blank, _⟩ := parts_of_behindGap? gapEnds
  have front := dropPrefix?_eq_some_iff.1 keyword
  refine ⟨s.takeWhile isBlank, gap, rest, ?_, List.all_eq_true.1 List.all_takeWhile, blank, words⟩
  rw [← whole, ← front, List.takeWhile_append_dropWhile]

structure Reaches (s : List Char) (found : List Char × Cursor) : Prop where
  plain : ∀ c ∈ found.1, isPlain c = true
  onward : ∃ t, s = t ++ found.2.rest ∧ t ≠ [] ∧ ∀ before, past before t = found.2.before

theorem Reaches.behind (reaches : Reaches s found) (t : List Char) : Reaches (t ++ s) found := by
  obtain ⟨u, whole, moved, stop⟩ := reaches.onward
  refine ⟨reaches.plain, t ++ u, by rw [List.append_assoc, ← whole], by simp [moved], ?_⟩
  intro before
  rw [past_append, stop]

theorem Quoted.reaches (quoted : Quoted s found) : Reaches s found := by
  cases quoted with
  | @intro gap x rest opening closing _ _ plain _ =>
    exact ⟨plain, gap ++ opening :: (x ++ [closing]), by simp, by simp, by simp⟩

theorem reaches_of_imported? (read : imported? s = some found) : Reaches s found := by
  obtain ⟨lead, gap, rest, front, _, _, behind⟩ := parts_of_imported? read
  obtain ⟨words, quotedText, whole, _, quoted⟩ := parts_of_fromIn? behind
  rw [front, whole]
  exact ((((quoted.reaches.behind _).behind _).behind _).behind _).behind _

def importsFrom (before : Option Char) (s : List Char) : List (List Char) := searchFrom importFrom.find? before s 0

@[simp] theorem importsFrom_nil (before : Option Char) : importsFrom before [] = [] := searchFrom_nil before

theorem find?_eq_none (nothing : imported? s = none) : importFrom.find? ⟨before, s⟩ = none := by
  rw [find?_importFrom, nothing, ite_self]

theorem find?_inside (inside : c ≠ '\n') : importFrom.find? ⟨some c, s⟩ = none := by
  simp [find?_importFrom, inside]

theorem imported?_gap {gap : List Char} (blank : InGap gap) (s : List Char) : imported? (gap ++ s) = imported? s := by
  rw [imported?, imported?, dropWhile_blank_append blank]

theorem imported?_of_quote (quote : isQuote c = true) (s : List Char) : imported? (c :: s) = none := by
  cases isQuote_iff.1 quote with
  | inl single => rw [single]; rfl
  | inr double => rw [double]; rfl

theorem importsFrom_gap {gap : List Char} (blank : InGap gap) (nothing : imported? rest = none) :
    importsFrom before (gap ++ rest) = importsFrom (past before gap) rest := by
  apply searchFrom_pass
  intro u v split _
  apply find?_eq_none
  rw [imported?_gap]
  next => exact nothing
  next => exact fun c member => blank c (by rw [split]; exact List.mem_append_right u member)

theorem importsFrom_line {line : List Char} (clean : '\n' ∉ line) (nothing : imported? (line ++ rest) = none) :
    importsFrom before (line ++ rest) = importsFrom (past before line) rest := by
  apply searchFrom_pass
  intro u v split _
  cases List.eq_nil_or_concat u with
  | inl none =>
    rw [none, List.nil_append] at split
    rw [none, ← split]
    exact find?_eq_none nothing
  | inr some =>
    obtain ⟨front, c, ends⟩ := some
    rw [ends, List.concat_eq_append, past_append]
    apply find?_inside
    intro line
    apply clean
    simp [split, ends, line]

theorem importsFrom_found (start : before.all (· == '\n') = true) (read : imported? s = some found) :
    importsFrom before s = found.1 :: importsFrom found.2.before found.2.rest := by
  obtain ⟨t, whole, moved, stop⟩ := (reaches_of_imported? read).onward
  have taken : importFrom.find? ⟨before, t ++ found.2.rest⟩ = some (found.1, found.2) := by
    rw [find?_importFrom, if_pos start, ← whole, read]
  rw [importsFrom, whole, searchFrom_some moved taken rfl, stop]
  rfl

theorem plain_of_mem_importsFrom {x : List Char} (member : x ∈ importsFrom before s) :
    ∀ c ∈ x, isPlain c = true := by
  obtain ⟨a, e, taken⟩ := exists_of_mem_searchFrom member
  rw [find?_importFrom] at taken
  split at taken
  next => exact (reaches_of_imported? taken).plain
  next => cases taken

end FrontendSurvey.Source
