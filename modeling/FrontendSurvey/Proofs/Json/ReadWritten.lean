import FrontendSurvey.Proofs.Json.Integers
import FrontendSurvey.Proofs.Json.Nesting
import FrontendSurvey.Proofs.Json.Quoted

set_option autoImplicit false

namespace FrontendSurvey.Json

variable {α : Type}

theorem skipSpace_newLine (k : Nat) (rest : List Char) :
    skipSpace (newLine k ++ rest) = skipSpace rest := by
  have blank : ∀ c ∈ newLine k, isSpace c = true := by
    intro c member
    obtain rfl | ⟨-, rfl⟩ := by simpa [newLine] using member
    · decide
    · decide
  rw [skipSpace, List.dropWhile_append_of_pos blank, skipSpace]

theorem skipSpace_cons {c : Char} (visible : isSpace c = false) (rest : List Char) :
    skipSpace (c :: rest) = c :: rest := by
  simp [skipSpace, visible]

theorem ends_newLine (k : Nat) (rest : List Char) : Ends (newLine k ++ rest) := by
  simp only [newLine, List.cons_append, Ends]
  decide

def separated (piece : α → List Char) : List α → List Char
  | [] => []
  | [x] => piece x
  | x :: y :: xs => piece x ++ ',' :: separated piece (y :: xs)

def writeItem (k : Nat) (x : Json) : List Char :=
  newLine k ++ write k x

def writeField (k : Nat) (field : String × Json) : List Char :=
  newLine k ++ quote field.1 ++ ':' :: ' ' :: write k field.2

theorem writeItems_eq (k : Nat) (xs : List Json) :
    writeItems k xs = separated (writeItem k) xs := by
  induction xs with
  | nil => simp [writeItems, separated]
  | cons x xs ih =>
    cases xs with
    | nil => simp [writeItems, separated, writeItem]
    | cons y ys => simp [writeItems, separated, writeItem, ih]

theorem writeFields_eq (k : Nat) (xs : List (String × Json)) :
    writeFields k xs = separated (writeField k) xs := by
  induction xs with
  | nil => simp [writeFields, separated]
  | cons x xs ih =>
    cases xs with
    | nil => simp [writeFields, separated, writeField]
    | cons y ys => simp [writeFields, separated, writeField, ih]

def Starts (close : Char) (piece : List Char) : Prop :=
  -- after its blanks the piece starts with a character other than the closing bracket
  ∀ rest, ∃ c t, skipSpace (piece ++ rest) = c :: t ∧ c ≠ close

theorem Starts.ne_nil {close : Char} {piece : List Char} (starts : Starts close piece) :
    piece ≠ [] := by
  rintro rfl
  obtain ⟨c, t, same, -⟩ := starts []
  cases same

theorem length_le_separated {piece : α → List Char} {xs : List α}
    (filled : ∀ x ∈ xs, piece x ≠ []) : xs.length ≤ (separated piece xs).length := by
  induction xs with
  | nil => simp
  | cons x xs ih =>
    have first := List.length_pos_iff.mpr (filled x (by simp))
    have others := ih fun y member => filled y (by simp [member])
    cases xs with
    | nil => simpa [separated] using Nat.succ_le_of_lt first
    | cons y ys =>
      simp only [separated, List.length_append, List.length_cons] at others ⊢
      omega

theorem separated_cons (piece : α → List Char) (x : α) (xs : List α) (k : Nat)
    (rest : List Char) :
    ∃ r, separated piece (x :: xs) ++ (newLine k ++ rest) = piece x ++ r ∧ Ends r := by
  cases xs with
  | nil => exact ⟨newLine k ++ rest, rfl, ends_newLine k rest⟩
  | cons y ys =>
    refine ⟨',' :: (separated piece (y :: ys) ++ (newLine k ++ rest)), by simp [separated], ?_⟩
    simp only [Ends]
    decide

/-- Of written pieces a reader takes the items that pass the test, and refuses all others. -/
def Reads (item : List Char → Option (α × List Char)) (piece : α → List Char) (ok : α → Bool)
    (x : α) : Prop :=
  ∀ rest, Ends rest → item (piece x ++ rest) = if ok x then some (x, rest) else none

theorem readItems_separated {item : List Char → Option (α × List Char)} {piece : α → List Char}
    {close : Char} (closes : isSpace close = false ∧ close ≠ ',') (ok : α → Bool) (k : Nat)
    (rest : List Char) (xs : List α) (some_item : xs ≠ [])
    (reads : ∀ x ∈ xs, Reads item piece ok x) (fuel : Nat) (enough : xs.length ≤ fuel) :
    readItems close item fuel (separated piece xs ++ (newLine k ++ close :: rest)) =
      if xs.all ok then some (xs, rest) else none := by
  induction xs generalizing fuel with
  | nil => exact absurd rfl some_item
  | cons x xs ih =>
    obtain ⟨fuel, rfl⟩ : ∃ n, fuel = n + 1 := ⟨fuel - 1, by simp at enough; omega⟩
    have first := reads x (by simp)
    by_cases taken : ok x = true
    next =>
      cases xs with
      | nil =>
        have read := first (newLine k ++ close :: rest) (ends_newLine k _)
        rw [if_pos taken] at read
        simp only [separated, readItems, read, skipSpace_newLine, skipSpace_cons closes.1, bind,
          Option.bind, if_neg closes.2, if_true, List.all_cons, List.all_nil, taken, Bool.and_self]
      | cons y ys =>
        have others := ih (by simp) (fun z member => reads z (by simp [member])) fuel
          (by simpa using enough)
        have read := first (',' :: (separated piece (y :: ys) ++ (newLine k ++ close :: rest)))
          (by simp only [Ends]; decide)
        have comma := skipSpace_cons (c := ',') (by decide)
          (separated piece (y :: ys) ++ (newLine k ++ close :: rest))
        rw [if_pos taken] at read
        rw [List.all_cons, taken, Bool.true_and]
        simp only [separated, List.append_assoc, List.cons_append, readItems, read, comma, bind,
          Option.bind, if_true, others]
        split <;> rfl
    next =>
      obtain ⟨r, from_first, ends⟩ := separated_cons piece x xs k (close :: rest)
      have read := first r ends
      rw [if_neg taken] at read
      rw [from_first, readItems, read, List.all_cons, if_neg (by simp [taken])]
      rfl

theorem readSequence_separated (item : List Char → Option (α × List Char))
    (piece : α → List Char) (close : Char) (closes : isSpace close = false ∧ close ≠ ',')
    (ok : α → Bool) (k : Nat) (rest : List Char) (xs : List α) (some_item : xs ≠ [])
    (reads : ∀ x ∈ xs, Reads item piece ok x) (starts : ∀ x ∈ xs, Starts close (piece x)) :
    readSequence close item (separated piece xs ++ (newLine k ++ close :: rest)) =
      if xs.all ok then some (xs, rest) else none := by
  have enough : xs.length ≤ (separated piece xs ++ (newLine k ++ close :: rest)).length := by
    have := length_le_separated fun x member => (starts x member).ne_nil
    rw [List.length_append]
    omega
  have items := readItems_separated closes ok k rest xs some_item reads _ enough
  obtain ⟨x, others, rfl⟩ := List.exists_cons_of_ne_nil some_item
  obtain ⟨r, from_first, -⟩ := separated_cons piece x others k (close :: rest)
  obtain ⟨c, t, open_first, other⟩ := starts x (by simp) r
  rw [← from_first] at open_first
  simp only [readSequence, open_first, if_neg other, items]

theorem exists_write (k : Nat) (j : Json) (exact : j.Exact) :
    ∃ c t, write k j = c :: t ∧ isSpace c = false ∧ c ≠ ']' := by
  cases j with
  | null => exact ⟨_, _, by rw [write], by decide⟩
  | bool b => cases b <;> exact ⟨_, _, by rw [write], by decide⟩
  | int n =>
    obtain ⟨c, digits, same, lead⟩ := exists_toString n
    exact ⟨c, digits, by rw [write, same], isSpace_of_startsNumber lead,
      ne_of_startsNumber lead (by decide)⟩
  | decimal text => exact absurd exact (by simp [Exact])
  | str s => exact ⟨_, _, by rw [write, quote], by decide⟩
  | arr xs => cases xs <;> exact ⟨_, _, by rw [write], by decide⟩
  | obj xs => cases xs <;> exact ⟨_, _, by rw [write], by decide⟩

theorem starts_item (k : Nat) {j : Json} (exact : j.Exact) :
    Starts ']' (writeItem k j) := by
  intro rest
  obtain ⟨c, t, same, visible, other⟩ := exists_write k j exact
  refine ⟨c, t ++ rest, ?_, other⟩
  rw [writeItem, List.append_assoc, skipSpace_newLine, same, List.cons_append,
    skipSpace_cons visible]

theorem skipSpace_writeField (k : Nat) (field : String × Json) (rest : List Char) :
    skipSpace (writeField k field ++ rest) =
      '"' :: (field.1.toList.flatMap escapeChar ++ '"' :: ':' :: ' ' :: (write k field.2 ++ rest)) := by
  rw [writeField, quote, List.append_assoc, List.append_assoc, skipSpace_newLine, List.cons_append,
    skipSpace_cons (by decide)]
  simp

theorem starts_field (k : Nat) (field : String × Json) : Starts '\x7d' (writeField k field) := by
  intro rest
  rw [skipSpace_writeField]
  exact ⟨'"', _, rfl, by decide⟩

theorem readValue_newLine (n k : Nat) (rest : List Char) :
    readValue n (newLine k ++ rest) = readValue n rest := by
  cases n <;> simp only [readValue, skipSpace_newLine]

theorem readValue_blank (n : Nat) (rest : List Char) :
    readValue n (' ' :: rest) = readValue n rest := by
  have blank : skipSpace (' ' :: rest) = skipSpace rest := by simp [skipSpace, isSpace]
  cases n <;> simp only [readValue, blank]

theorem readValue_writeItem (n k : Nat) (x : Json) (rest : List Char) :
    readValue n (writeItem k x ++ rest) = readValue n (write k x ++ rest) := by
  rw [writeItem, List.append_assoc, readValue_newLine]

theorem readField_writeField (n k : Nat) (field : String × Json) (rest : List Char) :
    readField (readValue n) (writeField k field ++ rest) =
      (readValue n (write k field.2 ++ rest)).map fun (v, r) => ((field.1, v), r) := by
  have colon := skipSpace_cons (c := ':') (by decide) (' ' :: (write k field.2 ++ rest))
  simp only [readField, skipSpace_writeField, readText_escaped, colon, readValue_blank, bind,
    Option.bind, String.ofList_toList]

theorem readValue_writeList (n k : Nat) (x : Json) (xs : List Json) (rest : List Char) :
    readValue (n + 1) (write k (arr (x :: xs)) ++ rest) =
      (readSequence ']' (readValue n)
        (separated (writeItem (k + 1)) (x :: xs) ++ (newLine k ++ ']' :: rest))).map
          fun (xs, r) => (arr xs, r) := by
  have bracket := skipSpace_cons (c := '[') (by decide)
  simp [write, readValue, bracket, writeItems_eq]

theorem readValue_writeObject (n k : Nat) (x : String × Json) (xs : List (String × Json))
    (rest : List Char) :
    readValue (n + 1) (write k (obj (x :: xs)) ++ rest) =
      (readSequence '\x7d' (readField (readValue n))
        (separated (writeField (k + 1)) (x :: xs) ++ (newLine k ++ '\x7d' :: rest))).map
          fun (xs, r) => (obj xs, r) := by
  have brace := skipSpace_cons (c := '\x7b') (by decide)
  simp [write, readValue, brace, writeFields_eq]

theorem readValue_eq_readScalar {c : Char} (visible : isSpace c = false)
    (scalar : c ≠ '[' ∧ c ≠ '\x7b') (n : Nat) (t : List Char) :
    readValue n (c :: t) = readScalar (c :: t) := by
  cases n with
  | zero => rw [readValue, skipSpace_cons visible]
  | succ n =>
    rw [readValue, skipSpace_cons visible]
    split <;> simp_all

def NestsTo (n : Nat) (j : Json) : Bool := j.nesting ≤ n

theorem readValue_scalar (n k : Nat) {j : Json} (exact : j.Exact) (scalar : j.nesting = 0) :
    Reads (readValue n) (write k) (NestsTo n) j := by
  intro rest ends
  have shallow : NestsTo n j = true := by simp [NestsTo, scalar]
  rw [if_pos shallow]
  cases j with
  | null =>
    rw [write, List.cons_append, readValue_eq_readScalar (by decide) (by decide)]
    rfl
  | bool b =>
    cases b <;>
      rw [write, List.cons_append, readValue_eq_readScalar (by decide) (by decide)] <;> rfl
  | int m =>
    have number := readScalar_toString m exact.1 exact.2 ends
    obtain ⟨c, digits, same, lead⟩ := exists_toString m
    have other := fun d => ne_of_startsNumber (d := d) lead
    rw [same, List.cons_append] at number
    rw [write, same, List.cons_append, readValue_eq_readScalar (isSpace_of_startsNumber lead)
      ⟨other _ (by decide), other _ (by decide)⟩, number]
  | decimal text => exact absurd exact (by simp [Exact])
  | str s =>
    have text := readScalar_quote s rest
    rw [quote, List.cons_append] at text
    rw [write, quote, List.cons_append, readValue_eq_readScalar (by decide) (by decide), text]
  | arr xs => exact absurd scalar (by simp [nesting])
  | obj xs => exact absurd scalar (by simp [nesting])

theorem readScalar_bracket {c : Char} (bracket : c = '[' ∨ c = '\x7b') (t : List Char) :
    readScalar (c :: t) = none := by
  rcases bracket with rfl | rfl <;> simp [readScalar, readNumber, readWhole, readSomeDigits]

theorem readValue_zero (k : Nat) {j : Json} (deep : j.nesting ≠ 0) (rest : List Char) :
    readValue 0 (write k j ++ rest) = none := by
  cases j with
  | arr xs =>
    cases xs <;>
      rw [write, List.cons_append, readValue, skipSpace_cons (by decide),
        readScalar_bracket (.inl rfl)]
  | obj xs =>
    cases xs <;>
      rw [write, List.cons_append, readValue, skipSpace_cons (by decide),
        readScalar_bracket (.inr rfl)]
  | _ => exact absurd rfl deep

theorem readValue_list {n k : Nat} {xs : List Json} (exact : ∀ x ∈ xs, x.Exact)
    (each : ∀ x ∈ xs, Reads (readValue n) (write (k + 1)) (NestsTo n) x) :
    Reads (readValue (n + 1)) (write k) (NestsTo (n + 1)) (arr xs) := by
  intro rest _
  cases xs with
  | nil =>
    simp [write, readValue, skipSpace, isSpace, readSequence, NestsTo, nesting, nestingOfItems]
  | cons x xs =>
    have reads : ∀ y ∈ x :: xs, Reads (readValue n) (writeItem (k + 1)) (NestsTo n) y := by
      intro y member rest ends
      rw [readValue_writeItem]
      exact each y member rest ends
    have all : (x :: xs).all (NestsTo n) = NestsTo (n + 1) (arr (x :: xs)) := by
      rw [Bool.eq_iff_iff]
      simp only [List.all_eq_true, NestsTo, decide_eq_true_eq, nesting,
        Nat.add_le_add_iff_right, nestingOfItems_le_iff]
    rw [readValue_writeList, readSequence_separated (readValue n) (writeItem (k + 1)) ']' (by decide)
      (NestsTo n) k rest (x :: xs) (by simp) reads (fun y member => starts_item (k + 1) (exact y member)),
      all]
    split <;> rfl

theorem readValue_object {n k : Nat} {fields : List (String × Json)}
    (each : ∀ field ∈ fields, Reads (readValue n) (write (k + 1)) (NestsTo n) field.2) :
    Reads (readValue (n + 1)) (write k) (NestsTo (n + 1)) (obj fields) := by
  intro rest _
  cases fields with
  | nil =>
    simp [write, readValue, skipSpace, isSpace, readSequence, NestsTo, nesting, nestingOfFields]
  | cons x xs =>
    have reads : ∀ y ∈ x :: xs, Reads (readField (readValue n)) (writeField (k + 1))
        (fun field => NestsTo n field.2) y := by
      intro y member rest ends
      rw [readField_writeField, each y member rest ends]
      split <;> rfl
    have all : (x :: xs).all (fun field => NestsTo n field.2) =
        NestsTo (n + 1) (obj (x :: xs)) := by
      rw [Bool.eq_iff_iff]
      simp only [List.all_eq_true, NestsTo, decide_eq_true_eq, nesting,
        Nat.add_le_add_iff_right, nestingOfFields_le_iff]
    rw [readValue_writeObject, readSequence_separated (readField (readValue n)) (writeField (k + 1))
      '\x7d' (by decide) (fun field => NestsTo n field.2) k rest (x :: xs) (by simp) reads
      (fun y _ => starts_field (k + 1) y), all]
    split <;> rfl

theorem readValue_write (n k : Nat) (j : Json) (exact : j.Exact) :
    Reads (readValue n) (write k) (NestsTo n) j := by
  induction n generalizing k j with
  | zero =>
    by_cases scalar : j.nesting = 0
    next => exact readValue_scalar 0 k exact scalar
    next =>
      intro rest _
      rw [readValue_zero k scalar, if_neg (by simp [NestsTo, scalar])]
  | succ n ih =>
    cases j with
    | arr xs =>
      have items := exactItems_iff.mp exact
      exact readValue_list items fun x member => ih (k + 1) x (items x member)
    | obj fields =>
      have values := exactFields_iff.mp exact
      exact readValue_object fun field member => ih (k + 1) field.2 (values field member)
    | _ => exact readValue_scalar (n + 1) k exact (by simp [nesting])

theorem parse?_pretty {j : Json} (exact : j.Exact) :
    parse? j.pretty = if j.nesting < 128 then some j else none := by
  have read := readValue_write maxDepth 0 j exact [] trivial
  have within : NestsTo maxDepth j = decide (j.nesting < 128) := by
    rw [NestsTo, maxDepth, decide_eq_decide]
    omega
  rw [List.append_nil, within] at read
  rw [parse?, parseNested?, pretty, String.toList_ofList, read]
  by_cases shallow : j.nesting < 128
  next =>
    simp only [shallow, decide_true, if_true, bind, Option.bind]
    rfl
  next =>
    simp only [shallow, decide_false, if_false, Bool.false_eq_true, bind, Option.bind]

end FrontendSurvey.Json
