import FrontendSurvey.Framework
import FrontendSurvey.Proofs.Text.FirstSeen
import FrontendSurvey.Proofs.Text.Places

set_option autoImplicit false

namespace FrontendSurvey

namespace Component

open Text Pattern

/-- The name is the longest run of tag characters, with a blank or the end of the tag behind it. -/
def OpensTag (s : List Char) (i : Nat) (name : List Char) : Prop :=
  ∃ above below c, s = above ++ '<' :: (name ++ c :: below) ∧ above.length = i ∧ name ≠ [] ∧
    (∀ a ∈ name, isTagChar a = true) ∧ isTagChar c = false ∧ (isBlank c = true ∨ c = '>')

def endsTag (c : Char) : Bool := isBlank c || c == '>'

def tagHere? : List Char → Option (List Char × Cursor)
  | a :: c :: r =>
    if a = '<' ∧ isTagChar c then
      match r.dropWhile isTagChar with
      | e :: rest => if endsTag e then some (c :: r.takeWhile isTagChar, ⟨some e, rest⟩) else none
      | [] => none
    else none
  | _ => none

variable {s name : List Char} {a c : Char} {e : Cursor}

theorem not_isTagChar_of_endsTag (ends : endsTag c = true) : isTagChar c = false := by
  simp only [endsTag, Bool.or_eq_true, beq_iff_eq] at ends
  cases ends with
  | inl blank =>
    have other : c ≠ '-' := by
      rintro rfl
      exact absurd blank (by decide)
    simp [isTagChar, not_isWordChar_of_isBlank blank, other]
  | inr mark =>
    subst mark
    decide

theorem head?_trail (before : Option Char) (s : List Char) : (openingTag.trail.ends ⟨before, s⟩).head? =
    match s with
    | e :: rest => if endsTag e then some ⟨some e, rest⟩ else none
    | [] => none := by
  cases s with
  | nil => rfl
  | cons e rest =>
    by_cases mark : e = '>'
    next =>
      subst mark
      rfl
    next => by_cases blank : isBlank e = true <;> simp [openingTag, endsTag, is, blank, mark]

theorem head?_trail_of_tagChar (before : Option Char) (inside : isTagChar a = true) (r : List Char) :
    (openingTag.trail.ends ⟨before, a :: r⟩).head? = none := by
  rw [head?_trail]
  have goesOn : ¬ endsTag a = true := by
    intro ends
    rw [not_isTagChar_of_endsTag ends] at inside
    cases inside
  exact if_neg goesOn

theorem find?_openingTag (before : Option Char) (s : List Char) : openingTag.find? ⟨before, s⟩ = tagHere? s := by
  match s with
  | [] => rfl
  | [a] => by_cases opens : a = '<' <;> simp [Extractor.find?, openingTag, is, tagHere?, opens]
  | a :: c :: r =>
    by_cases begun : a = '<' ∧ isTagChar c = true
    next =>
      obtain ⟨opens, inside⟩ := begun
      -- no shorter run is found, for a tag character would stand behind it
      have run := @findSome?_run _ isTagChar
        (fun b => (openingTag.trail.ends b).head?.map fun e => (Cursor.upTo ⟨some a, c :: r⟩ b, e))
        (fun before a r inside => by simp [head?_trail_of_tagChar before inside r]) (some c) r
      have taken : Cursor.upTo ⟨some a, c :: r⟩ ⟨past (some c) (r.takeWhile isTagChar), r.dropWhile isTagChar⟩ =
          c :: r.takeWhile isTagChar := Cursor.upTo_eq (by simp)
      have whole : openingTag.find? ⟨before, a :: c :: r⟩ = (runEnds isTagChar (some c) r).reverse.findSome? fun b =>
          (openingTag.trail.ends b).head?.map fun e => (Cursor.upTo ⟨some a, c :: r⟩ b, e) := by
        simp [Extractor.find?, openingTag, is, opens, inside, ends]
      rw [whole, run, taken, head?_trail, tagHere?, if_pos ⟨opens, inside⟩]
      cases r.dropWhile isTagChar with
      | nil => rfl
      | cons e rest => by_cases ends : endsTag e = true <;> simp [ends]
    next =>
      rw [tagHere?, if_neg begun]
      by_cases opens : a = '<'
      next =>
        have outside : isTagChar c = false := by simpa [opens] using begun
        simp [Extractor.find?, openingTag, is, opens, outside]
      next => simp [Extractor.find?, openingTag, is, opens]

theorem tagHere?_eq_some_iff : tagHere? s = some (name, e) ↔
    ∃ c below, s = '<' :: (name ++ c :: below) ∧ e = ⟨some c, below⟩ ∧ name ≠ [] ∧
      (∀ a ∈ name, isTagChar a = true) ∧ endsTag c = true := by
  constructor
  · fun_cases tagHere? s with intro found
    | case1 a c r begun last rest behind ends =>
      obtain ⟨rfl, rfl⟩ := Prod.mk.inj (Option.some.inj found)
      have whole : r = r.takeWhile isTagChar ++ last :: rest := by
        rw [← behind, List.takeWhile_append_dropWhile]
      refine ⟨last, rest, ?_, rfl, by simp, ?_, ends⟩
      · rw [begun.1, List.cons_append, ← whole]
      · exact List.forall_mem_cons.2 ⟨begun.2, List.all_eq_true.1 List.all_takeWhile⟩
    | _ => cases found
  · rintro ⟨c, below, split, same, some, inside, ends⟩
    obtain ⟨a, r, rfl⟩ := List.exists_cons_of_ne_nil some
    obtain ⟨first, others⟩ := List.forall_mem_cons.1 inside
    have span := span_append (t := c :: below) others
      (by simpa using not_isTagChar_of_endsTag ends)
    subst split same
    simp [tagHere?, first, span, ends]

theorem tagHere?_of_ne (other : a ≠ '<') (r : List Char) : tagHere? (a :: r) = none := by
  cases r with
  | nil => rfl
  | cons c r => rw [tagHere?, if_neg fun begun => other begun.1]

theorem lookahead_openingTag : Lookahead openingTag.find? fun s => (tagHere? s).map Prod.fst where
  told before s := by rw [find?_openingTag]
  taken before s x e found := by
    rw [find?_openingTag, tagHere?_eq_some_iff] at found
    obtain ⟨c, below, split, same, some, inside, ends⟩ := found
    refine ⟨'<', x ++ [c], by simp [split, same], fun u v cut more => ?_⟩
    obtain ⟨a, r, rfl⟩ := List.exists_cons_of_ne_nil more
    have member : a ∈ x ++ [c] := by simp [cut]
    have other : a ≠ '<' := by
      intro opens
      subst opens
      rcases List.mem_append.1 member with among | last
      · exact absurd (inside _ among) (by decide)
      · rw [← List.mem_singleton.1 last] at ends
        exact absurd ends (by decide)
    rw [List.cons_append, tagHere?_of_ne other, Option.map_none]

theorem opensTag_iff {i : Nat} : OpensTag s i name ↔
    i ≤ s.length ∧ (tagHere? (s.drop i)).map Prod.fst = some name := by
  simp only [Option.map_eq_some_iff, Prod.exists, exists_and_right, exists_eq_right, tagHere?_eq_some_iff]
  constructor
  · rintro ⟨above, below, c, split, rfl, some, inside, -, ends⟩
    refine ⟨by simp [split], ⟨_, below⟩, c, below, by simp [split], rfl, some, inside, ?_⟩
    simpa [endsTag] using ends
  · rintro ⟨within, _, c, below, split, -, some, inside, ends⟩
    refine ⟨s.take i, below, c, ?_, by simpa using within, some, inside, not_isTagChar_of_endsTag ends, ?_⟩
    · rw [← split, List.take_append_drop]
    · simpa [endsTag] using ends

end Component

namespace Framework

theorem isFrameworkTag_iff {tag : String} :
    isFrameworkTag tag = true ↔ ∃ c r, tag.toList = 'V' :: c :: r ∧ 'A' ≤ c ∧ c ≤ 'Z' := by
  unfold isFrameworkTag
  split
  next c r same => simp [same, Char.isUpper, Char.le_def]
  next other =>
    simp only [Bool.false_eq_true, false_iff]
    rintro ⟨c, r, same, -⟩
    exact other c r same

theorem tagsOf_append (xs ys : List Component) :
    tagsOf (xs ++ ys) = tagsOf xs ++ (tagsOf ys).filter (!(tagsOf xs).contains ·) := by
  rw [tagsOf, List.flatMap_append, List.filter_append, Text.eraseDups_append]
  rfl

end Framework

theorem tags_exact (file text : String) (xs ys : List Component) :
    (∃ places, Text.Listed (Component.OpensTag text.toList) places ∧
      (Component.ofText file text).tags = places.map fun place => String.ofList place.2) ∧
    Text.FirstSeen Framework.isFrameworkTag (Framework.tagsOf xs) (xs.flatMap (·.tags)) ∧
    (∀ tag, Framework.isFrameworkTag tag = true ↔ ∃ c r, tag.toList = 'V' :: c :: r ∧ 'A' ≤ c ∧ c ≤ 'Z') ∧
    Framework.tagsOf (xs ++ ys) =
      Framework.tagsOf xs ++ (Framework.tagsOf ys).filter (!(Framework.tagsOf xs).contains ·) := by
  refine ⟨?_, Text.firstSeen_eraseDups _ _, fun _ => Framework.isFrameworkTag_iff, Framework.tagsOf_append xs ys⟩
  have listed := Text.listed_placesOf (fun s => (Component.tagHere? s).map Prod.fst) text.toList
  refine ⟨_, ⟨listed.ascending, fun i x => ?_⟩, ?_⟩
  · rw [listed.exact, Component.opensTag_iff]
  · have found := Component.lookahead_openingTag.search_eq text.toList
    simp only [Component.ofText, Text.Extractor.extract, found, List.map_map, Function.comp_def]

-- A bracket that opens no tag is passed over, and so is a name at the end of the text.
example : (Component.ofText "a.vue" "<<VBtn\n< v-a><VBtn><VApp/><b").tags = ["VBtn", "VBtn"] := by decide +kernel

end FrontendSurvey
