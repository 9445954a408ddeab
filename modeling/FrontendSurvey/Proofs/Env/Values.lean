import FrontendSurvey.Proofs.Disk.Plain
import FrontendSurvey.Proofs.Env.Assignment
import FrontendSurvey.Proofs.Survey.Readings
import FrontendSurvey.Proofs.Tree.Walk

set_option autoImplicit false

namespace FrontendSurvey.Env

open Text

def withoutValues (behind : Bool) : List Char → List Char
  | [] => []
  | c :: r =>
    if c = '\n' then '\n' :: withoutValues false r
    else if behind then withoutValues true r
    else c :: withoutValues (c == '=') r

theorem withoutValues_cons (c : Char) (r : List Char) :
    withoutValues false (c :: r) = c :: withoutValues (c == '=') r := by
  rw [withoutValues]
  split
  next line => rw [line]; rfl
  next => rfl

theorem withoutValues_behind {c : Char} (inside : c ≠ '\n') (r : List Char) :
    withoutValues true (c :: r) = withoutValues true r := by
  rw [withoutValues, if_neg inside, if_pos rfl]

theorem withoutValues_of_ne {c : Char} (other : c ≠ '=') (r : List Char) :
    withoutValues false (c :: r) = c :: withoutValues false r := by
  rw [withoutValues_cons, beq_false_of_ne other]

theorem withoutValues_append {s : List Char} (before : '=' ∉ s) (t : List Char) :
    withoutValues false (s ++ '=' :: t) = s ++ '=' :: withoutValues true t := by
  induction s with
  | nil => exact withoutValues_cons '=' t
  | cons c r ih =>
    obtain ⟨first, rest⟩ := not_or.1 (mt List.mem_cons.2 before)
    rw [List.cons_append, withoutValues_of_ne (Ne.symm first), ih rest, List.cons_append]

-- A run that cannot take an equals sign up ends where it ends in the whole text.
theorem run_withoutValues (ok : Char → Bool) (equals : ok '=' = false) (s : List Char) :
    (withoutValues false s).takeWhile ok = s.takeWhile ok ∧
      (withoutValues false s).dropWhile ok = withoutValues false (s.dropWhile ok) := by
  induction s with
  | nil => exact ⟨rfl, rfl⟩
  | cons c r ih =>
    by_cases inside : ok c = true
    · have other : c ≠ '=' := by
        rintro rfl
        simp [equals] at inside
      simp [withoutValues_of_ne other, inside, ih]
    · simp [withoutValues_cons, inside]

theorem assigned?_withoutValues (s : List Char) : assigned? (withoutValues false s) =
    (assigned? s).map fun found => (found.1, withoutValues true found.2) := by
  have blanks := run_withoutValues isBlank (by decide)
  have keys := run_withoutValues isKeyChar (by decide)
  simp only [assigned?, blanks, keys]
  cases ((s.dropWhile isBlank).dropWhile isKeyChar).dropWhile isBlank with
  | nil => rfl
  | cons c r =>
    by_cases equals : c = '='
    · subst equals
      simp only [withoutValues_cons, beq_self_eq_true]
      split <;> rfl
    · simp [withoutValues_of_ne equals, equals]

theorem name_of_assigned? {s key rest : List Char} (found : assigned? s = some (key, rest)) :
    ∃ name, s = name ++ '=' :: rest ∧ '=' ∉ name := by
  obtain ⟨lead, trail, split, -, leads, keys, trails⟩ := parts_of_assigned? found
  refine ⟨lead ++ key ++ trail, split, fun equals => ?_⟩
  rcases List.mem_append.1 equals with equals | inTrail
  · rcases List.mem_append.1 equals with inLead | inKey
    · exact absurd (leads _ inLead) (by decide)
    · exact absurd (keys _ inKey) (by decide)
  · exact absurd (trails _ inTrail) (by decide)

theorem find?_withoutValues (before : Option Char) (s : List Char) :
    assignment.find? ⟨before, withoutValues false s⟩ = (assignment.find? ⟨before, s⟩).map fun found =>
      (found.1, ⟨some '=', withoutValues true found.2.rest⟩) := by
  rw [find?_assignment, find?_assignment, assigned?_withoutValues]
  split <;> simp [Function.comp_def]

def Within (before : Option Char) : Prop := before.all (· == '\n') = false

theorem search_within {before : Option Char} (within : Within before) (c : Char) (r : List Char) :
    searchFrom assignment.find? before (c :: r) 0 = searchFrom assignment.find? (some c) r 0 := by
  apply searchFrom_none
  rw [find?_assignment, within]
  rfl

theorem exists_of_find? {before : Option Char} {s key : List Char} {e : Cursor}
    (found : assignment.find? ⟨before, s⟩ = some (key, e)) :
    ∃ name, s = name ++ '=' :: e.rest ∧ '=' ∉ name := by
  rw [find?_assignment] at found
  split at found
  next =>
    obtain ⟨⟨key, rest⟩, assigned, same⟩ := Option.map_eq_some_iff.1 found
    obtain ⟨-, rfl⟩ := Prod.mk.inj same
    exact name_of_assigned? assigned
  next => cases found

theorem search_found {before : Option Char} {name rest key : List Char} {e : Cursor}
    (found : assignment.find? ⟨before, name ++ '=' :: rest⟩ = some (key, e)) (onward : e.rest = rest) :
    searchFrom assignment.find? before (name ++ '=' :: rest) 0 =
      key :: searchFrom assignment.find? (some '=') rest 0 := by
  rw [List.append_cons] at found ⊢
  rw [searchFrom_some (by simp) found onward, past_append]
  rfl

-- Behind an equals sign nothing is found until the next line, however long the value is.
theorem search_withoutValues (s : List Char) :
    (∀ before, searchFrom assignment.find? before s 0 =
      searchFrom assignment.find? before (withoutValues false s) 0) ∧
    ∀ before before', Within before → Within before' →
      searchFrom assignment.find? before s 0 =
        searchFrom assignment.find? before' (withoutValues true s) 0 := by
  induction length : s.length using Nat.strong_induction_on generalizing s with
  | _ n ih =>
    have shorter (t : List Char) (less : t.length < s.length) := ih t.length (length ▸ less) t rfl
    have equals : Within (some '=') := rfl
    cases s with
    | nil => simp [withoutValues]
    | cons c r =>
      have names := (shorter r (by simp)).1
      have value := (shorter r (by simp)).2
      constructor
      · intro before
        have cut := find?_withoutValues before (c :: r)
        cases found : assignment.find? ⟨before, c :: r⟩ with
        | none =>
          rw [found, withoutValues_cons] at cut
          rw [withoutValues_cons, searchFrom_none found, searchFrom_none cut]
          by_cases sign : c = '='
          · subst sign
            exact value _ _ equals equals
          · rw [beq_false_of_ne sign]
            exact names (some c)
        | some found' =>
          obtain ⟨key, e⟩ := found'
          obtain ⟨name, split, early⟩ := exists_of_find? found
          have less : e.rest.length < (c :: r).length := by
            simp only [split, List.length_append, List.length_cons]
            omega
          rw [found, split, withoutValues_append early] at cut
          rw [split] at found
          rw [split, withoutValues_append early, search_found found rfl, search_found cut rfl]
          exact congrArg (key :: ·) ((shorter e.rest less).2 _ _ equals equals)
      · intro before before' within within'
        rw [search_within within]
        by_cases line : c = '\n'
        · subst line
          have cut : withoutValues true ('\n' :: r) = '\n' :: withoutValues false r := rfl
          rw [cut, search_within within']
          exact names (some '\n')
        · rw [withoutValues_behind line]
          exact value (some c) before' (by simp [Within, line]) within'

theorem extract_withoutValues (s : String) :
    keysIn s = keysIn (String.ofList (withoutValues false s.toList)) := by
  simp only [keysIn, Extractor.extract, search, String.toList_ofList]
  rw [(search_withoutValues s.toList).1]

inductive SameButValue : List Char → List Char → Prop where
  | same (line : List Char) : SameButValue line line
  | value (name value other : List Char) (first : '=' ∉ name) :
      SameButValue (name ++ '=' :: value) (name ++ '=' :: other)

def SameButValues (s t : String) : Prop :=
  List.Forall₂ SameButValue (splitAt '\n' s.toList) (splitAt '\n' t.toList)

theorem withoutValues_line {line : List Char} (whole : '\n' ∉ line) (behind : Bool) (t : List Char) :
    withoutValues behind (line ++ '\n' :: t) =
      withoutValues behind line ++ '\n' :: withoutValues false t := by
  induction line generalizing behind with
  | nil => rfl
  | cons c r ih =>
    obtain ⟨first, rest⟩ := not_or.1 (mt List.mem_cons.2 whole)
    have inside : c ≠ '\n' := Ne.symm first
    cases behind with
    | true => rw [List.cons_append, withoutValues_behind inside, withoutValues_behind inside, ih rest]
    | false => rw [List.cons_append, withoutValues_cons, withoutValues_cons, ih rest, List.cons_append]

theorem withoutValues_value {value : List Char} (whole : '\n' ∉ value) :
    withoutValues true value = [] := by
  induction value with
  | nil => rfl
  | cons c r ih =>
    obtain ⟨first, rest⟩ := not_or.1 (mt List.mem_cons.2 whole)
    rw [withoutValues_behind (Ne.symm first), ih rest]

theorem SameButValue.withoutValues {line other : List Char} (same : SameButValue line other)
    (whole : '\n' ∉ line) (whole' : '\n' ∉ other) :
    Env.withoutValues false line = Env.withoutValues false other := by
  cases same with
  | same => rfl
  | value name value other first =>
    have clean : '\n' ∉ value := fun member => whole (by simp [member])
    have clean' : '\n' ∉ other := fun member => whole' (by simp [member])
    rw [withoutValues_append first, withoutValues_append first, withoutValues_value clean,
      withoutValues_value clean']

theorem withoutValues_lines {lines others : List (List Char)}
    (same : List.Forall₂ SameButValue lines others) (whole : ∀ line ∈ lines, '\n' ∉ line)
    (whole' : ∀ line ∈ others, '\n' ∉ line) :
    withoutValues false (List.intercalate ['\n'] lines) =
      withoutValues false (List.intercalate ['\n'] others) := by
  induction same with
  | nil => rfl
  | cons first rest ih =>
    have line := first.withoutValues (whole _ (by simp)) (whole' _ (by simp))
    have later := ih (fun line member => whole line (by simp [member]))
      (fun line member => whole' line (by simp [member]))
    cases rest with
    | nil => simpa using line
    | cons =>
      rw [List.intercalate_cons_cons, List.intercalate_cons_cons, List.append_assoc, List.append_assoc,
        List.singleton_append, List.singleton_append, withoutValues_line (whole _ (by simp)),
        withoutValues_line (whole' _ (by simp)), line, later]

theorem keysIn_eq {s t : String} (same : SameButValues s t) : keysIn s = keysIn t := by
  have texts := withoutValues_lines same (fun _ => not_mem_of_mem_splitAt)
    (fun _ => not_mem_of_mem_splitAt)
  rw [intercalate_splitAt, intercalate_splitAt] at texts
  rw [extract_withoutValues, extract_withoutValues t, texts]

variable {d e : Disk} {p q : Path} {entries others : List Name}

def envNames (d : Disk) (p : Path) (entries : List Name) : List Name :=
  (entries.filter fun name => isEnvName name && d.isFile (p / name)).mergeSort
    fun a b => a.bytes ≤ b.bytes

theorem mem_envNames {name : Name} : name ∈ envNames d p entries ↔
    name ∈ entries ∧ isEnvName name = true ∧ d.isFile (p / name) = true := by
  simp [envNames]

theorem pairwise_envNames (distinct : entries.Nodup) : (envNames d p entries).Pairwise Name.Before :=
  Name.pairwise_mergeSort (distinct.filter _)

theorem nodup_of_list (listed : d.list p = .ok entries) : entries.Nodup := by
  obtain ⟨loc, -, rfl⟩ := Disk.list_iff.1 listed
  exact Disk.nodup_namesIn d loc

theorem keys_of_list (listed : d.list p = .ok entries) : keys d p =
    ((envNames d p entries).mapM fun name => d.need (p / name)).map fun texts =>
      (texts.flatMap keysIn).eraseDups := by
  have found : files d p = .ok ((envNames d p entries).map (p / ·)) := by
    rw [files, listed]
    rfl
  rw [keys, found]
  simp only [Except.mapError, bind, Except.bind, List.mapM_map, Function.comp_def]
  cases (envNames d p entries).mapM fun name => d.need (p / name) <;> rfl

structure SameRoots (d : Disk) (p : Path) (e : Disk) (q : Path) (entries others : List Name) :
    Prop where
  listed : d.list p = .ok entries
  listed' : e.list q = .ok others
  same : ∀ name, name ∈ entries ↔ name ∈ others
  files : ∀ name ∈ entries, isEnvName name = true →
    d.isFile (p / name) = e.isFile (q / name)
  texts : ∀ name ∈ entries, isEnvName name = true → d.isFile (p / name) = true →
    ∃ text other, d.readText (p / name) = .ok text ∧ e.readText (q / name) = .ok other ∧
      SameButValues text other

theorem SameRoots.envNames (roots : SameRoots d p e q entries others) :
    envNames e q others = Env.envNames d p entries := by
  refine (pairwise_envNames (nodup_of_list roots.listed')).eq_of_mem_iff
    (pairwise_envNames (nodup_of_list roots.listed)) fun name => ?_
  rw [mem_envNames, mem_envNames, ← roots.same]
  refine and_congr_right fun member => and_congr_right fun env => ?_
  rw [roots.files name member env]

theorem keys_of_texts {names : List Name}
    (each : ∀ name ∈ names, ∃ text other, d.readText (p / name) = .ok text ∧
      e.readText (q / name) = .ok other ∧ SameButValues text other) :
    ∃ texts others, (names.mapM fun name => d.need (p / name)) = .ok texts ∧
      (names.mapM fun name => e.need (q / name)) = .ok others ∧
        texts.flatMap keysIn = others.flatMap keysIn := by
  simp only [mapM_eq_ok_iff, Disk.need_eq_ok_iff]
  induction names with
  | nil => exact ⟨[], [], .nil, .nil, rfl⟩
  | cons name names ih =>
    obtain ⟨text, other, first, first', same⟩ := each name (by simp)
    obtain ⟨texts, others, rest, rest', keys⟩ := ih fun later member => each later (by simp [member])
    refine ⟨text :: texts, other :: others, .cons first rest, .cons first' rest', ?_⟩
    rw [List.flatMap_cons, List.flatMap_cons, keysIn_eq same, keys]

theorem keys_same_but_values (roots : SameRoots d p e q entries others) :
    ∃ found, keys d p = .ok found ∧ keys e q = .ok found := by
  have each : ∀ name ∈ envNames d p entries, ∃ text other, d.readText (p / name) = .ok text ∧
      e.readText (q / name) = .ok other ∧ SameButValues text other := by
    intro name member
    obtain ⟨inside, env, file⟩ := mem_envNames.1 member
    exact roots.texts name inside env file
  obtain ⟨texts, texts', read, read', same⟩ := keys_of_texts each
  refine ⟨(texts.flatMap keysIn).eraseDups, ?_, ?_⟩
  · rw [keys_of_list roots.listed, read]
    rfl
  · rw [keys_of_list roots.listed', roots.envNames, read', same]
    rfl

def envName : Name := ⟨".env", by decide⟩

-- The roots list the same files in another order; a name of the first file stands on the line before its equals sign.
def twins : Disk where
  here := []
  nodes := [([⟨"a", by decide⟩], .folder), ([⟨"b", by decide⟩], .folder),
    ([envName, ⟨"a", by decide⟩],
      .entry (.file (some "A=1\n\nB\n = C=2") .start2025)),
    ([⟨".env.x", by decide⟩, ⟨"a", by decide⟩], .entry (.file (some "D=") .start2025)),
    ([⟨".env.x", by decide⟩, ⟨"b", by decide⟩], .entry (.file (some "D=\tE=") .start2025)),
    ([envName, ⟨"b", by decide⟩],
      .entry (.file (some "A= Z=\n\nB\n =") .start2025))]
  distinct := by decide
  housed := by simp [Housed, Node.folder]
  settled := Or.inl rfl

theorem twins_sameRoots : SameRoots twins ⟨"a"⟩ twins ⟨"b"⟩
    [envName, ⟨".env.x", by decide⟩] [⟨".env.x", by decide⟩, envName] where
  listed := rfl
  listed' := rfl
  same _ := (List.Perm.swap _ _ []).mem_iff
  files := by decide +kernel
  texts := by
    have first : SameButValues "A=1\n\nB\n = C=2" "A= Z=\n\nB\n =" :=
      .cons (.value ['A'] ['1'] [' ', 'Z', '='] (by decide)) (.cons (.same []) (.cons (.same ['B'])
        (.cons (.value [' '] [' ', 'C', '=', '2'] [] (by decide)) .nil)))
    have second : SameButValues "D=" "D=\tE=" :=
      .cons (.value ['D'] [] ['\t', 'E', '='] (by decide)) .nil
    intro name member _ _
    simp only [List.mem_cons, List.not_mem_nil, or_false] at member
    rcases member with rfl | rfl
    · exact ⟨_, _, rfl, rfl, first⟩
    · exact ⟨_, _, rfl, rfl, second⟩

theorem keys_same_but_values_twins :
    SameRoots twins ⟨"a"⟩ twins ⟨"b"⟩ [envName, ⟨".env.x", by decide⟩]
        [⟨".env.x", by decide⟩, envName] ∧
      ∃ found, keys twins ⟨"a"⟩ = .ok found ∧ keys twins ⟨"b"⟩ = .ok found :=
  ⟨twins_sameRoots, keys_same_but_values twins_sameRoots⟩

end FrontendSurvey.Env
