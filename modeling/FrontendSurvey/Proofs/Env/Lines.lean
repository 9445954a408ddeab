import FrontendSurvey.Proofs.Env.Values

set_option autoImplicit false

namespace FrontendSurvey.Env

open Text

def AllBlank (s : List Char) : Prop := ∀ c ∈ s, isBlank c = true

structure IsKey (key : List Char) : Prop where
  begun : key ≠ []
  chars : ∀ c ∈ key, isKeyChar c = true

def Assigns (key line : List Char) : Prop :=
  ∃ lead trail value, line = lead ++ key ++ trail ++ '=' :: value ∧
    IsKey key ∧ AllBlank lead ∧ AllBlank trail

def Lone (key line : List Char) : Prop :=
  ∃ lead trail, line = lead ++ key ++ trail ∧ IsKey key ∧ AllBlank lead ∧ AllBlank trail

/-- A line holds a name alone, and an equals sign comes first on the next line that is not blank. -/
def Dangles (key : List Char) (lines : List (List Char)) : Prop :=
  ∃ above line between last below, lines = above ++ line :: between ++ last :: below ∧ Lone key line ∧
    (∀ other ∈ between, AllBlank other) ∧ ∃ lead value, last = lead ++ '=' :: value ∧ AllBlank lead

variable {before : Option Char} {s front lead trail key rest : List Char}

theorem not_blank_of_head {t : List Char} (named : IsKey key) : ∀ c ∈ (key ++ t).head?, isBlank c = false := by
  obtain ⟨k, r, rfl⟩ := List.exists_cons_of_ne_nil named.begun
  rintro c ⟨⟩
  exact not_isBlank_of_isKeyChar (named.chars _ (by simp))

theorem not_key_of_head (blanks : AllBlank trail) (rest : List Char) :
    ∀ c ∈ (trail ++ '=' :: rest).head?, isKeyChar c = false := by
  cases trail with
  | nil =>
    rintro c ⟨⟩
    rfl
  | cons a r =>
    rintro c ⟨⟩
    exact not_isKeyChar_of_isBlank (blanks _ (by simp))

theorem assigned?_eq_some_iff : assigned? s = some (key, rest) ↔
    ∃ lead trail, s = lead ++ key ++ trail ++ '=' :: rest ∧ IsKey key ∧ AllBlank lead ∧ AllBlank trail := by
  constructor
  · intro found
    obtain ⟨lead, trail, split, begun, leads, keys, trails⟩ := parts_of_assigned? found
    exact ⟨lead, trail, split, ⟨begun, keys⟩, leads, trails⟩
  · rintro ⟨lead, trail, rfl, named, leads, trails⟩
    have blanks := (span_append leads (not_blank_of_head (t := trail ++ '=' :: rest) named)).2
    have name := span_append named.chars (not_key_of_head trails rest)
    have sign := (span_append (t := '=' :: rest) trails (by rintro c ⟨⟩; rfl)).2
    simp [assigned?, blanks, name, sign, named.begun]

theorem assigned?_of_blank (blanks : AllBlank trail) : assigned? (trail ++ '=' :: rest) = none := by
  have sign := (span_append (t := '=' :: rest) blanks (by rintro c ⟨⟩; rfl)).2
  have same : ('=' :: rest).dropWhile isKeyChar = '=' :: rest := rfl
  have none : ('=' :: rest).takeWhile isKeyChar = [] := rfl
  have sign' : ('=' :: rest).dropWhile isBlank = '=' :: rest := rfl
  simp [assigned?, sign, same, none, sign']

def LineStart (before : Option Char) : Prop := before.all (· == '\n') = true

theorem lineStart_past_iff : LineStart (past none front) ↔ front = [] ∨ ∃ u, front = u ++ ['\n'] := by
  rcases List.eq_nil_or_concat front with rfl | ⟨u, c, rfl⟩ <;> simp [LineStart]

theorem find?_of_lineStart (start : LineStart before) : assignment.find? ⟨before, s⟩ =
    (assigned? s).map fun found => (found.1, ⟨some '=', found.2⟩) := by
  rw [find?_assignment]
  exact if_pos start

theorem of_find? {e : Cursor} (found : assignment.find? ⟨before, s⟩ = some (key, e)) :
    LineStart before ∧ assigned? s = some (key, e.rest) := by
  rw [find?_assignment] at found
  split at found
  next start =>
    obtain ⟨⟨_, rest⟩, assigned, same⟩ := Option.map_eq_some_iff.1 found
    obtain ⟨rfl, rfl⟩ := Prod.mk.inj same
    exact ⟨start, assigned⟩
  next => cases found

-- The name is what stands before the last blanks, whatever else stands before the name.
theorem key_from_end (named : IsKey key) (trails : AllBlank trail)
    (apart : ∀ c ∈ lead.getLast?, isBlank c = true) :
    ((lead ++ key ++ trail).reverse.dropWhile isBlank).takeWhile isKeyChar = key.reverse := by
  have key' : IsKey key.reverse := ⟨by simpa using named.begun, by simpa using named.chars⟩
  have trails' : AllBlank trail.reverse := by simpa [AllBlank] using trails
  have ends : ∀ c ∈ lead.reverse.head?, isKeyChar c = false := by
    intro c first
    exact not_isKeyChar_of_isBlank (apart c (by simpa using first))
  rw [List.reverse_append, List.reverse_append, (span_append trails' (not_blank_of_head key')).2,
    (span_append key'.chars ends).1]

theorem eq_of_first_sign {s t u v : List Char} (same : s ++ '=' :: u = t ++ '=' :: v) (left : '=' ∉ s)
    (right : '=' ∉ t) : s = t := by
  have upTo {s : List Char} (plain : '=' ∉ s) (u : List Char) : (s ++ '=' :: u).takeWhile (· != '=') = s :=
    (span_append (fun c member => by simpa using fun sign : c = '=' => plain (sign ▸ member))
      (by rintro c ⟨⟩; rfl)).1
  rw [← upTo left u, same, upTo right v]

theorem assigned?_behind {t key' rest' : List Char} (whole : assigned? (front ++ t) = some (key, rest))
    (start : LineStart (past before front)) (plain : '=' ∉ front) (inner : assigned? t = some (key', rest')) :
    key' = key := by
  obtain ⟨lead, trail, split, named, leads, trails⟩ := assigned?_eq_some_iff.1 whole
  obtain ⟨lead', trail', rfl, named', leads', trails'⟩ := assigned?_eq_some_iff.1 inner
  have same : front ++ lead' ++ key' ++ trail' = lead ++ key ++ trail := by
    obtain ⟨name, cut, signless⟩ := name_of_assigned? whole
    obtain ⟨name', cut', signless'⟩ := name_of_assigned? inner
    obtain rfl := List.append_cancel_right (split.symm.trans cut)
    obtain rfl := List.append_cancel_right cut'
    have both : front ++ (lead' ++ key' ++ trail') ++ '=' :: rest' = lead ++ key ++ trail ++ '=' :: rest := by
      rw [List.append_assoc, split]
    simpa using eq_of_first_sign both (by simpa [plain] using signless') signless
  have apart : ∀ c ∈ lead.getLast?, isBlank c = true := fun c last => leads c (List.mem_of_getLast? last)
  have apart' : ∀ c ∈ (front ++ lead').getLast?, isBlank c = true := by
    intro c last
    rcases List.eq_nil_or_concat lead' with rfl | ⟨r, d, rfl⟩
    · rcases List.eq_nil_or_concat front with rfl | ⟨u, d, rfl⟩
      · simp at last
      · obtain rfl : d = c := by simpa using last
        obtain rfl : d = '\n' := by simpa [LineStart] using start
        rfl
    · obtain rfl : d = c := by simpa [← List.append_assoc] using last
      exact leads' d (by simp)
  have ends := key_from_end named trails apart
  rw [← same, key_from_end named' trails' apart'] at ends
  exact List.reverse_injective ends

def Begins (key : List Char) (before : Option Char) (s : List Char) : Prop :=
  ∃ front t rest, s = front ++ t ∧ LineStart (past before front) ∧ assigned? t = some (key, rest)

theorem not_begins_nil : ¬ Begins key before [] := by
  rintro ⟨front, t, rest, split, -, here⟩
  obtain ⟨rfl, rfl⟩ := List.append_eq_nil_iff.1 split.symm
  cases here

theorem begins_cons_iff {c : Char} {r : List Char} (nothing : assignment.find? ⟨before, c :: r⟩ = none) :
    Begins key before (c :: r) ↔ Begins key (some c) r := by
  constructor
  · rintro ⟨_ | ⟨d, front⟩, t, rest, split, start, here⟩
    · have start : LineStart before := start
      rw [find?_of_lineStart start, split, List.nil_append, here] at nothing
      cases nothing
    · obtain ⟨rfl, rfl⟩ := List.cons.inj split
      exact ⟨front, t, rest, rfl, start, here⟩
  · rintro ⟨front, t, rest, rfl, start, here⟩
    exact ⟨c :: front, t, rest, rfl, start, here⟩

-- A line that begins before the sign of the assignment that is found has the same name.
theorem begins_found_iff {name key' : List Char} {e : Cursor} (plain : '=' ∉ name)
    (found : assignment.find? ⟨before, name ++ '=' :: e.rest⟩ = some (key', e)) :
    Begins key before (name ++ '=' :: e.rest) ↔ key = key' ∨ Begins key (some '=') e.rest := by
  obtain ⟨start, assigned⟩ := of_find? found
  constructor
  · rintro ⟨front, t, rest, cut, begun, here⟩
    rcases List.append_eq_append_iff.1 cut with ⟨a, rfl, behind⟩ | ⟨a, rfl, rfl⟩
    · cases a with
      | nil =>
        obtain rfl : '=' :: e.rest = t := behind
        rw [← List.nil_append ('=' :: e.rest), assigned?_of_blank (by simp [AllBlank])] at here
        cases here
      | cons d a =>
        obtain ⟨rfl, onward⟩ := List.cons.inj behind
        exact .inr ⟨a, t, rest, onward, by simpa using begun, here⟩
    · rw [List.append_assoc] at assigned
      exact .inl (assigned?_behind assigned begun (fun sign => plain (by simp [sign])) here)
  · rintro (rfl | ⟨front, t, rest, cut, begun, here⟩)
    · exact ⟨[], _, e.rest, rfl, start, assigned⟩
    · exact ⟨name ++ '=' :: front, t, rest, by simp [cut], by simpa using begun, here⟩

theorem mem_search_iff : key ∈ searchFrom assignment.find? before s 0 ↔ Begins key before s := by
  induction length : s.length using Nat.strong_induction_on generalizing before s with
  | _ n ih =>
    cases s with
    | nil => simp [not_begins_nil]
    | cons c r =>
      cases found : assignment.find? ⟨before, c :: r⟩ with
      | none => rw [searchFrom_none found, ih r.length (by simp [← length]) rfl, begins_cons_iff found]
      | some first =>
        obtain ⟨key', e⟩ := first
        obtain ⟨name, split, plain⟩ := exists_of_find? found
        have less : e.rest.length < n := by
          rw [← length, split]
          simp
          omega
        rw [split] at found ⊢
        rw [search_found found rfl, List.mem_cons, ih e.rest.length less rfl, begins_found_iff plain found]

theorem blank_of_mem_splitAt {piece : List Char} (blanks : AllBlank s) (member : piece ∈ splitAt '\n' s) :
    AllBlank piece :=
  fun c inside => blanks c (subset_of_mem_splitAt member inside)

theorem IsKey.splitAt_eq (named : IsKey key) : splitAt '\n' key = [key] :=
  splitAt_of_not_mem fun member => absurd (named.chars _ member) (by decide)

theorem exists_splitAt_key (named : IsKey key) (leads : AllBlank lead) (t : List Char) :
    ∃ above edge first below, AllBlank edge ∧ splitAt '\n' t = first :: below ∧
      splitAt '\n' (lead ++ (key ++ t)) = above ++ (edge ++ key ++ first) :: below := by
  obtain ⟨none, key', first, below, inKey, behind, line⟩ := exists_splitAt_append '\n' key t
  obtain ⟨rfl, rfl⟩ : none = [] ∧ key = key' := by
    rw [named.splitAt_eq] at inKey
    simpa [List.singleton_eq_append_iff, eq_comm] using inKey
  obtain ⟨above, edge, _, _, inLead, line', all⟩ := exists_splitAt_append '\n' lead (key ++ t)
  obtain ⟨rfl, rfl⟩ := List.cons.inj (line.symm.trans line')
  exact ⟨above, edge, first, below, blank_of_mem_splitAt leads (by simp [inLead]), behind, by simp [all]⟩

theorem exists_splitAt_sign (trails : AllBlank trail) (rest : List Char) :
    ∃ gaps last value below, (∀ gap ∈ gaps, AllBlank gap) ∧ AllBlank last ∧
      splitAt '\n' (trail ++ '=' :: rest) = gaps ++ (last ++ '=' :: value) :: below := by
  obtain ⟨value, below, pieces⟩ := List.exists_cons_of_ne_nil (splitAt_ne_nil '\n' rest)
  have sign : splitAt '\n' ('=' :: rest) = ('=' :: value) :: below := by rw [splitAt, pieces]; rfl
  obtain ⟨gaps, last, _, _, inTrail, sign', all⟩ := exists_splitAt_append '\n' trail ('=' :: rest)
  obtain ⟨rfl, rfl⟩ := List.cons.inj (sign.symm.trans sign')
  exact ⟨gaps, last, value, below, fun gap member => blank_of_mem_splitAt trails (by simp [inTrail, member]),
    blank_of_mem_splitAt trails (by simp [inTrail]), all⟩

theorem exists_splitAt_lineStart (start : LineStart (past none front)) :
    ∃ above, ∀ t, splitAt '\n' (front ++ t) = above ++ splitAt '\n' t := by
  rcases lineStart_past_iff.1 start with rfl | ⟨u, rfl⟩
  · exact ⟨[], fun _ => rfl⟩
  · exact ⟨splitAt '\n' u, fun t => by rw [List.append_assoc]; exact splitAt_append u t⟩

theorem lines_of_begins (found : Begins key none s) :
    (∃ line ∈ splitAt '\n' s, Assigns key line) ∨ Dangles key (splitAt '\n' s) := by
  obtain ⟨front, t, rest, rfl, start, here⟩ := found
  obtain ⟨lead, trail, rfl, named, leads, trails⟩ := assigned?_eq_some_iff.1 here
  obtain ⟨above, begun⟩ := exists_splitAt_lineStart start
  obtain ⟨earlier, edge, first, others, edgeBlank, next, middle⟩ :=
    exists_splitAt_key named leads (trail ++ '=' :: rest)
  obtain ⟨gaps, last, value, below, gapsBlank, lastBlank, behind⟩ := exists_splitAt_sign trails rest
  have lines : splitAt '\n' (front ++ (lead ++ key ++ trail ++ '=' :: rest)) =
      above ++ (earlier ++ (edge ++ key ++ first) :: others) := by
    rw [begun, ← middle]
    simp
  rw [lines]
  rw [next] at behind
  cases gaps with
  | nil =>
    obtain ⟨rfl, rfl⟩ := List.cons.inj behind
    exact .inl ⟨edge ++ key ++ last ++ '=' :: value, by simp, edge, last, value, rfl, named, edgeBlank,
      lastBlank⟩
  | cons gap gaps =>
    obtain ⟨rfl, rfl⟩ := List.cons.inj behind
    obtain ⟨gapBlank, between⟩ := List.forall_mem_cons.1 gapsBlank
    exact .inr ⟨above ++ earlier, edge ++ key ++ first, gaps, last ++ '=' :: value, below, by simp,
      ⟨edge, first, rfl, named, edgeBlank, gapBlank⟩, between, last, value, rfl, lastBlank⟩

theorem lineStart_lines (above : List (List Char)) :
    LineStart (past none (above.flatMap (· ++ ['\n']))) := by
  rw [lineStart_past_iff]
  rcases List.eq_nil_or_concat above with rfl | ⟨above, line, rfl⟩
  · exact .inl rfl
  · exact .inr ⟨above.flatMap (· ++ ['\n']) ++ line, by simp⟩

theorem exists_intercalate (line : List Char) (below : List (List Char)) :
    ∃ more, List.intercalate ['\n'] (line :: below) = line ++ more := by
  cases below with
  | nil => exact ⟨[], by simp⟩
  | cons next below => exact ⟨_, by rw [List.intercalate_cons_cons, List.append_assoc]⟩

theorem begins_of_lines (found : (∃ line ∈ splitAt '\n' s, Assigns key line) ∨ Dangles key (splitAt '\n' s)) :
    Begins key none s := by
  have text : List.intercalate ['\n'] (splitAt '\n' s) = s := intercalate_splitAt s
  rcases found with ⟨line, member, lead, trail, value, rfl, named, leads, trails⟩ |
    ⟨above, line, between, last, below, lines, ⟨lead, trail, rfl, named, leads, trails⟩, blanks, lead', value,
      rfl, leads'⟩
  · obtain ⟨above, below, lines⟩ := List.append_of_mem member
    obtain ⟨more, joined⟩ := exists_intercalate (lead ++ key ++ trail ++ '=' :: value) below
    rw [lines, intercalate_append above (by simp), joined] at text
    exact ⟨_, _, value ++ more, text.symm, lineStart_lines above,
      assigned?_eq_some_iff.2 ⟨lead, trail, by simp, named, leads, trails⟩⟩
  · obtain ⟨more, joined⟩ := exists_intercalate (lead' ++ '=' :: value) below
    have split : above ++ (lead ++ key ++ trail) :: between ++ (lead' ++ '=' :: value) :: below =
        above ++ ((lead ++ key ++ trail) :: between ++ (lead' ++ '=' :: value) :: below) := by simp
    rw [lines, split, intercalate_append above (by simp), intercalate_append _ (by simp), joined,
      List.flatMap_cons] at text
    refine ⟨_, _, value ++ more, text.symm, lineStart_lines above, assigned?_eq_some_iff.2
      ⟨lead, trail ++ '\n' :: between.flatMap (· ++ ['\n']) ++ lead', by simp, named, leads, ?_⟩⟩
    intro c member
    simp only [List.mem_append, List.mem_cons, List.mem_flatMap] at member
    rcases member with (inside | rfl | ⟨other, among, inside | newline⟩) | inside
    · exact trails c inside
    · rfl
    · exact blanks other among c inside
    · obtain rfl : c = '\n' := by simpa using newline
      rfl
    · exact leads' c inside

theorem mem_keysIn_iff {text name : String} : name ∈ keysIn text ↔
    (∃ line ∈ splitAt '\n' text.toList, Assigns name.toList line) ∨
      Dangles name.toList (splitAt '\n' text.toList) := by
  have chars : name ∈ keysIn text ↔ name.toList ∈ searchFrom assignment.find? none text.toList 0 := by
    simp only [keysIn, Extractor.extract, search, List.mem_map]
    constructor
    · rintro ⟨key, member, rfl⟩
      rwa [String.toList_ofList]
    · exact fun member => ⟨_, member, String.ofList_toList⟩
  rw [chars, mem_search_iff]
  exact ⟨lines_of_begins, begins_of_lines⟩

end FrontendSurvey.Env
