import FrontendSurvey.Proofs.Text.Pieces
import FrontendSurvey.Text.Raw
import Mathlib.Tactic.SplitIfs

set_option autoImplicit false

namespace FrontendSurvey.Raw

variable {c : Char} {s : String} {begun : Begun} {state : Option Begun} {byte : UInt8} {l rest : List UInt8}

theorem chars_cons (state : Option Begun) (byte : UInt8) (rest : List UInt8) :
    chars state (byte :: rest) = (take byte.toNat state).1 ++ chars (take byte.toNat state).2 rest := by
  cases state <;> rfl

theorem begin?_two {first : Nat} (least : 0xC2 ≤ first) (most : first ≤ 0xDF) :
    begin? first = some ⟨first - 0xC0, 0x80, 0xBF, 0⟩ := by
  rw [begin?, if_pos ⟨least, most⟩]

theorem begin?_three (first second : Nat) (least : 0xE0 ≤ first) (most : first ≤ 0xEF) (low : 0x80 ≤ second)
    (high : second ≤ 0xBF) (short : first = 0xE0 → 0xA0 ≤ second) (surrogate : first = 0xED → second ≤ 0x9F) :
    ∃ begun, begin? first = some begun ∧ take second (some begun) =
      ([], some ⟨(first - 0xE0) * 64 + (second - 0x80), 0x80, 0xBF, 0⟩) := by
  unfold begin?
  split_ifs <;> first | omega | exact ⟨_, rfl, by simp_all [take]⟩

theorem begin?_four (first second : Nat) (least : 0xF0 ≤ first) (most : first ≤ 0xF4) (low : 0x80 ≤ second)
    (high : second ≤ 0xBF) (short : first = 0xF0 → 0x90 ≤ second) (last : first = 0xF4 → second ≤ 0x8F) :
    ∃ begun, begin? first = some begun ∧ take second (some begun) =
      ([], some ⟨(first - 0xF0) * 64 + (second - 0x80), 0x80, 0xBF, 1⟩) := by
  unfold begin?
  split_ifs <;> first | omega | exact ⟨_, rfl, by simp_all [take]⟩

theorem take_more {code byte more : Nat} (low : 0x80 ≤ byte) (high : byte ≤ 0xBF) :
    take byte (some ⟨code, 0x80, 0xBF, more + 1⟩) = ([], some ⟨code * 64 + (byte - 0x80), 0x80, 0xBF, more⟩) := by
  simp [take, low, high]

theorem take_last {code byte : Nat} (low : 0x80 ≤ byte) (high : byte ≤ 0xBF) :
    take byte (some ⟨code, 0x80, 0xBF, 0⟩) = ([Char.ofNat (code * 64 + (byte - 0x80))], none) := by
  simp [take, low, high]

theorem start_begun {first : Nat} (high : 0x80 ≤ first) (found : begin? first = some begun) :
    take first none = ([], some begun) := by
  rw [take, start, if_neg (by omega), found]

theorem chars_encode (c : Char) (rest : List UInt8) :
    chars none (String.utf8EncodeChar c ++ rest) = c :: chars none rest := by
  have bound : c.val.toNat < 0xD800 ∨ 0xDFFF < c.val.toNat ∧ c.val.toNat < 0x110000 := c.valid
  have same : Char.ofNat c.val.toNat = c := Char.ofNat_toNat c
  have byte {n : Nat} (small : n < 256) : (UInt8.ofNat n).toNat = n := by
    rw [UInt8.toNat_ofNat', Nat.mod_eq_of_lt small]
  simp only [String.utf8EncodeChar]
  generalize c.val.toNat = v at bound same
  have tail (n : Nat) : (UInt8.ofNat (n % 64 + 128)).toNat = n % 64 + 128 := byte (by omega)
  split_ifs with one two three
  next =>
    rw [List.singleton_append, chars_cons, byte (by omega), take, start, if_pos (by omega), same]
    rfl
  next =>
    have first : (UInt8.ofNat (v / 64 % 32 + 192)).toNat = v / 64 + 192 := by
      rw [byte (by omega)]
      omega
    have code : (v / 64 + 192 - 0xC0) * 64 + (v % 64 + 128 - 0x80) = v := by omega
    rw [List.cons_append, List.singleton_append, chars_cons, first,
      start_begun (by omega) (begin?_two (by omega) (by omega)), chars_cons, tail,
      take_last (by omega) (by omega), code, same]
    rfl
  next =>
    have first : (UInt8.ofNat (v / 4096 % 16 + 224)).toNat = v / 4096 + 224 := by
      rw [byte (by omega)]
      omega
    obtain ⟨begun, found, next⟩ := begin?_three (v / 4096 + 224) (v / 64 % 64 + 128)
      (by omega) (by omega) (by omega) (by omega) (by omega) (by omega)
    have code : ((v / 4096 + 224 - 0xE0) * 64 + (v / 64 % 64 + 128 - 0x80)) * 64 + (v % 64 + 128 - 0x80) = v := by
      omega
    rw [List.cons_append, List.cons_append, List.singleton_append, chars_cons, first,
      start_begun (by omega) found, chars_cons, tail, next, chars_cons, tail,
      take_last (by omega) (by omega), code, same]
    rfl
  next =>
    have first : (UInt8.ofNat (v / 262144 % 8 + 240)).toNat = v / 262144 + 240 := by
      rw [byte (by omega)]
      omega
    obtain ⟨begun, found, next⟩ := begin?_four (v / 262144 + 240) (v / 4096 % 64 + 128)
      (by omega) (by omega) (by omega) (by omega) (by omega) (by omega)
    have code : (((v / 262144 + 240 - 0xF0) * 64 + (v / 4096 % 64 + 128 - 0x80)) * 64 +
        (v / 64 % 64 + 128 - 0x80)) * 64 + (v % 64 + 128 - 0x80) = v := by
      omega
    rw [List.cons_append, List.cons_append, List.cons_append, List.singleton_append, chars_cons, first,
      start_begun (by omega) found, chars_cons, tail, next, chars_cons, tail,
      take_more (by omega) (by omega), chars_cons, tail, take_last (by omega) (by omega), code, same]
    rfl

theorem chars_flatMap_encode (s : List Char) : chars none (s.flatMap String.utf8EncodeChar) = s := by
  induction s with
  | nil => rfl
  | cons c s ih => rw [List.flatMap_cons, chars_encode, ih]

@[simp] theorem text_ofText (s : String) : (ofText s).text = s := by
  rw [text, ofText, chars_flatMap_encode, String.ofList_toList]

theorem ofText_injective : Function.Injective ofText := fun s t same => by
  rw [← text_ofText s, same, text_ofText]

/-- The characters that one byte stands for, and no other byte ever does. -/
def Single (c : Char) : Prop := 0 < c.toNat ∧ c.toNat < 0x80

instance (c : Char) : Decidable (Single c) := inferInstanceAs (Decidable (_ ∧ _))

/-- Neither the next byte of a character that has begun nor its code is that of a single one. -/
def Begun.Sound (begun : Begun) : Prop :=
  0x80 ≤ begun.low ∧ (2 ≤ begun.code ∨ 0 < begun.more ∧ 2 ≤ begun.code * 64 + (begun.low - 0x80))

theorem begin?_sound {first : Nat} (found : begin? first = some begun) : begun.Sound := by
  unfold begin? at found
  split_ifs at found <;>
    · obtain rfl := Option.some.inj found
      simp only [Begun.Sound]
      omega

theorem toNat_ofNat {n : Nat} (low : n < 0x80) : (Char.ofNat n).toNat = n := by
  rw [Char.ofNat, dif_pos (.inl (by omega))]
  rfl

theorem not_single_ofNat {n : Nat} (high : 0x80 ≤ n) : ¬Single (Char.ofNat n) := by
  by_cases valid : n.isValidChar
  next =>
    rw [Char.ofNat, dif_pos valid]
    exact fun single => Nat.not_lt_of_le high single.2
  next =>
    rw [Char.ofNat, dif_neg valid]
    decide

theorem not_single_replacement : ¬Single replacement := not_single_ofNat (by decide)

theorem start_low {n : Nat} (low : n < 0x80) : start n = ([Char.ofNat n], none) := if_pos low

theorem start_high {n : Nat} (high : 0x80 ≤ n) :
    start n = ([replacement], none) ∨ ∃ begun : Begun, begun.Sound ∧ start n = ([], some begun) := by
  rw [start, if_neg (Nat.not_lt_of_le high)]
  cases found : begin? n with
  | none => exact .inl rfl
  | some begun => exact .inr ⟨begun, begin?_sound found, rfl⟩

theorem take_begun {n : Nat} (sound : begun.Sound) :
    take n (some begun) = (replacement :: (start n).1, (start n).2) ∨ 0x80 ≤ n ∧
      ((∃ c, ¬Single c ∧ take n (some begun) = ([c], none)) ∨
        ∃ next : Begun, next.Sound ∧ take n (some begun) = ([], some next)) := by
  obtain ⟨code, low, high, more⟩ := begun
  obtain ⟨alone, big⟩ := sound
  simp only at alone big
  by_cases within : low ≤ n ∧ n ≤ high
  next =>
    refine .inr ⟨by omega, ?_⟩
    cases more with
    | zero => exact .inl ⟨Char.ofNat (code * 64 + (n - 0x80)), not_single_ofNat (by omega), if_pos within⟩
    | succ more =>
      refine .inr ⟨⟨code * 64 + (n - 0x80), 0x80, 0xBF, more⟩, ?_, if_pos within⟩
      simp only [Begun.Sound]
      omega
  next => exact .inl (if_neg within)

def Sound (state : Option Begun) : Prop := ∀ begun ∈ state, begun.Sound

theorem sound_none : Sound none := by simp [Sound]

theorem sound_some (sound : begun.Sound) : Sound (some begun) := by simpa [Sound] using sound

theorem start_sound (n : Nat) : Sound (start n).2 := by
  rcases Nat.lt_or_ge n 0x80 with low | high
  · rw [start_low low]
    exact sound_none
  · obtain read | ⟨begun, sound, read⟩ := start_high high <;> rw [read]
    · exact sound_none
    · exact sound_some sound

theorem take_sound (n : Nat) (sound : Sound state) : Sound (take n state).2 := by
  cases state with
  | none => exact start_sound n
  | some begun =>
    obtain read | ⟨-, ⟨c, -, read⟩ | ⟨next, sound, read⟩⟩ := take_begun (n := n) (sound begun rfl) <;> rw [read]
    · exact start_sound n
    · exact sound_none
    · exact sound_some sound

theorem eq_of_mem_start {n : Nat} (single : Single c) (member : c ∈ (start n).1) : c.toNat = n := by
  rcases Nat.lt_or_ge n 0x80 with low | high
  · rw [start_low low, List.mem_singleton] at member
    rw [member, toNat_ofNat low]
  · obtain read | ⟨begun, -, read⟩ := start_high high <;> rw [read] at member
    · rw [List.mem_singleton.1 member] at single
      exact absurd single not_single_replacement
    · cases member

theorem eq_of_mem_take {n : Nat} (sound : Sound state) (single : Single c) (member : c ∈ (take n state).1) :
    c.toNat = n := by
  cases state with
  | none => exact eq_of_mem_start single member
  | some begun =>
    obtain read | ⟨-, ⟨d, foreign, read⟩ | ⟨next, -, read⟩⟩ := take_begun (n := n) (sound begun rfl) <;>
      rw [read] at member
    · rcases List.mem_cons.1 member with rfl | member
      · exact absurd single not_single_replacement
      · exact eq_of_mem_start single member
    · rw [List.mem_singleton.1 member] at single
      exact absurd single foreign
    · cases member

theorem mem_of_mem_chars (sound : Sound state) (single : Single c) (member : c ∈ chars state l) :
    UInt8.ofNat c.toNat ∈ l := by
  induction l generalizing state with
  | nil =>
    cases state with
    | none => cases member
    | some begun =>
      rw [List.mem_singleton.1 member] at single
      exact absurd single not_single_replacement
  | cons byte rest ih =>
    rw [chars_cons] at member
    rcases List.mem_append.1 member with member | member
    · rw [eq_of_mem_take sound single member, UInt8.ofNat_toNat]
      exact List.mem_cons_self
    · exact List.mem_cons_of_mem byte (ih (take_sound _ sound) member)

-- A byte that stands alone ends whatever is under way, so a text is read apart at it.
theorem chars_append_low (sound : Sound state) (low : byte.toNat < 0x80) (l rest : List UInt8) :
    chars state (l ++ byte :: rest) = chars state l ++ Char.ofNat byte.toNat :: chars none rest := by
  induction l generalizing state with
  | nil =>
    rw [List.nil_append, chars_cons]
    cases state with
    | none =>
      rw [take, start_low low]
      rfl
    | some begun =>
      obtain read | ⟨high, -⟩ := take_begun (n := byte.toNat) (sound begun rfl)
      · rw [read, start_low low]
        rfl
      · omega
  | cons first l ih => rw [List.cons_append, chars_cons, chars_cons, ih (take_sound _ sound), List.append_assoc]

theorem chars_begun (sound : begun.Sound) (l : List UInt8) :
    ∃ d s, chars (some begun) l = d :: s ∧ ¬Single d := by
  induction l generalizing begun with
  | nil => exact ⟨_, _, rfl, not_single_replacement⟩
  | cons byte rest ih =>
    rw [chars_cons]
    obtain read | ⟨-, ⟨d, foreign, read⟩ | ⟨next, sound, read⟩⟩ := take_begun (n := byte.toNat) sound <;> rw [read]
    · exact ⟨_, _, rfl, not_single_replacement⟩
    · exact ⟨d, _, rfl, foreign⟩
    · exact ih sound

theorem chars_high (high : 0x80 ≤ byte.toNat) (rest : List UInt8) :
    ∃ d s, chars none (byte :: rest) = d :: s ∧ ¬Single d := by
  rw [chars_cons, take]
  obtain read | ⟨begun, sound, read⟩ := start_high high <;> rw [read]
  · exact ⟨_, _, rfl, not_single_replacement⟩
  · exact chars_begun sound rest

theorem chars_low (low : byte.toNat < 0x80) (rest : List UInt8) :
    chars none (byte :: rest) = Char.ofNat byte.toNat :: chars none rest :=
  chars_append_low sound_none low [] rest

theorem chars_eq_cons {s : List Char} (single : Single c) (read : chars none l = c :: s) :
    ∃ rest, l = UInt8.ofNat c.toNat :: rest ∧ chars none rest = s := by
  cases l with
  | nil => cases read
  | cons byte rest =>
    rcases Nat.lt_or_ge byte.toNat 0x80 with low | high
    · rw [chars_low low] at read
      obtain ⟨rfl, rfl⟩ := List.cons.inj read
      exact ⟨rest, by rw [toNat_ofNat low, UInt8.ofNat_toNat], rfl⟩
    · obtain ⟨d, t, same, foreign⟩ := chars_high high rest
      rw [read] at same
      exact absurd ((List.cons.inj same).1 ▸ single) foreign

theorem chars_eq_nil (read : chars none l = []) : l = [] := by
  cases l with
  | nil => rfl
  | cons byte rest =>
    rcases Nat.lt_or_ge byte.toNat 0x80 with low | high
    · rw [chars_low low] at read
      cases read
    · obtain ⟨d, t, same, -⟩ := chars_high high rest
      rw [read] at same
      cases same

theorem chars_eq_single {s : List Char} (single : ∀ c ∈ s, Single c) (read : chars none l = s) :
    l = s.map fun c => UInt8.ofNat c.toNat := by
  induction s generalizing l with
  | nil => exact chars_eq_nil read
  | cons c s ih =>
    obtain ⟨rest, rfl, tail⟩ := chars_eq_cons (single c List.mem_cons_self) read
    rw [ih (fun d member => single d (List.mem_cons_of_mem c member)) tail, List.map_cons]

theorem chars_intercalate {pieces : List (List UInt8)} :
    chars none (List.intercalate [slash] pieces) = List.intercalate ['/'] (pieces.map (chars none)) := by
  induction pieces with
  | nil => rfl
  | cons piece rest ih =>
    cases rest with
    | nil => simp
    | cons second rest =>
      rw [List.intercalate_cons_cons, List.map_cons, List.map_cons, List.intercalate_cons_cons, ← List.map_cons, ← ih,
        List.append_assoc, List.singleton_append, chars_append_low sound_none (by decide)]
      simp [slash]

theorem slash_not_mem_text {r : Raw} (clean : slash ∉ r.bytes) : '/' ∉ r.text.toList := by
  rw [text, String.toList_ofList]
  exact fun met => clean (mem_of_mem_chars sound_none (by decide) met)

/-- What a text that shows a name or a path says of it. -/
def shown (r : Raw) : Raw := ofText r.text

variable {r t : Raw}

@[simp] theorem text_shown (r : Raw) : r.shown.text = r.text := text_ofText r.text

/-- What is written in the encoding of texts, and is shown as it is. -/
def IsText (r : Raw) : Prop := ∃ s : String, r = s

theorem IsText.shown (plain : r.IsText) : r.shown = r := by
  obtain ⟨s, rfl⟩ := plain
  rw [Raw.shown, text_ofText]

theorem bytes_shown (r : Raw) : r.shown.bytes = (chars none r.bytes).flatMap String.utf8EncodeChar := by
  rw [shown, ofText, text, String.toList_ofList]

theorem chars_shown (r : Raw) : chars none r.shown.bytes = chars none r.bytes := by
  rw [bytes_shown, chars_flatMap_encode]

theorem eq_of_shown_eq (single : ∀ c ∈ chars none t.bytes, Single c) (same : r.shown = t) : r = t := by
  have read : chars none r.bytes = chars none t.bytes := by rw [← same, chars_shown]
  have bytes : r.bytes = t.bytes := (chars_eq_single single read).trans (chars_eq_single single rfl).symm
  cases r
  cases t
  exact congrArg Raw.mk bytes

theorem encode_intercalate (pieces : List (List Char)) :
    (List.intercalate ['/'] pieces).flatMap String.utf8EncodeChar =
      List.intercalate [slash] (pieces.map (·.flatMap String.utf8EncodeChar)) := by
  have encoded : ['/'].flatMap String.utf8EncodeChar = [slash] := by decide
  induction pieces with
  | nil => rfl
  | cons piece rest ih =>
    cases rest with
    | nil => simp
    | cons second rest =>
      rw [List.intercalate_cons_cons, List.flatMap_append, List.flatMap_append, ih, encoded, List.map_cons,
        List.map_cons, List.map_cons, List.intercalate_cons_cons]

theorem slash_mem_of_shown (member : slash ∈ r.shown.bytes) : slash ∈ r.bytes := by
  obtain ⟨before, after, cut⟩ := List.append_of_mem member
  have low : slash.toNat < 0x80 := by decide
  have read := chars_append_low sound_none low before after
  rw [← cut, chars_shown] at read
  have met : '/' ∈ chars none r.bytes := by
    rw [read]
    exact List.mem_append_right _ List.mem_cons_self
  exact mem_of_mem_chars sound_none (by decide) met

theorem splitAt_shown (r : Raw) :
    Text.splitAt slash r.shown.bytes = (Text.splitAt slash r.bytes).map fun piece => (Raw.mk piece).shown.bytes := by
  have clean : ∀ piece ∈ (Text.splitAt slash r.bytes).map fun piece => (Raw.mk piece).shown.bytes, slash ∉ piece := by
    intro piece member
    obtain ⟨bytes, cut, rfl⟩ := List.mem_map.1 member
    have absent : slash ∉ bytes := Text.not_mem_of_mem_splitAt cut
    exact fun met => absent (slash_mem_of_shown met)
  have joined := encode_intercalate ((Text.splitAt slash r.bytes).map (chars none))
  rw [← chars_intercalate, Text.intercalate_splitAt, List.map_map, ← bytes_shown] at joined
  rw [joined, ← Text.splitAt_intercalate (by simpa using Text.splitAt_ne_nil slash r.bytes) clean]
  simp only [bytes_shown, Function.comp_def]

end FrontendSurvey.Raw
