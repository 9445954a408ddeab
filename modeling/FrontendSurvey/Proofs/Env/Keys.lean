import FrontendSurvey.Proofs.Env.Files
import FrontendSurvey.Proofs.Env.Lines
import FrontendSurvey.Proofs.Text.FirstSeen

set_option autoImplicit false

namespace FrontendSurvey.Env

open Text Disk

structure Texts (d : Disk) (root : Path) (texts : Name → Option String) : Prop where
  folder : d.isFolder root = true
  exact : ∀ name, texts name ≠ none ↔
    ".env".toList <+: name.text.toList ∧ d.isFile (root / name) = true
  reads : ∀ name text, texts name = some text → d.readText (root / name) = .ok text

def Assigned (texts : Name → Option String) (key : String) : Prop :=
  ∃ name text, texts name = some text ∧ ∃ line ∈ splitAt '\n' text.toList, Assigns key.toList line

def Dangling (texts : Name → Option String) (key : String) : Prop :=
  ∃ name text, texts name = some text ∧ Dangles key.toList (splitAt '\n' text.toList)

variable {d e : Disk} {root top : Path} {texts : Name → Option String} {names : List Name} {last : Name}
  {text key : String}

theorem Texts.mem_iff (held : Texts d root texts) (named : Names d root names) {name : Name} :
    name ∈ names ↔ texts name ≠ none := by
  rw [named.exact, held.exact, held.folder]
  simp

theorem Texts.mapM_need (held : Texts d root texts) (some : ∀ name ∈ names, texts name ≠ none) :
    (names.mapM fun name => d.need (root / name)) = .ok (names.filterMap texts) := by
  rw [mapM_eq_ok_iff]
  induction names with
  | nil => exact .nil
  | cons name names ih =>
    obtain ⟨first, others⟩ := List.forall_mem_cons.1 some
    obtain ⟨text, here⟩ := Option.ne_none_iff_exists'.1 first
    rw [List.filterMap_cons_some here]
    exact .cons (need_eq_ok_iff.2 (held.reads name text here)) (ih others)

theorem Texts.keys_eq (held : Texts d root texts) (named : Names d root names) :
    keys d root = .ok ((names.filterMap texts).flatMap keysIn).eraseDups := by
  have reads := held.mapM_need fun name member => (held.mem_iff named).1 member
  rw [keys, named.files held.folder]
  simp only [Except.mapError, bind, Except.bind, List.mapM_map, Function.comp_def, reads]
  rfl

theorem Texts.mem_keys_iff (held : Texts d root texts) (named : Names d root names) :
    key ∈ ((names.filterMap texts).flatMap keysIn).eraseDups ↔ Assigned texts key ∨ Dangling texts key := by
  rw [List.mem_eraseDups, List.mem_flatMap, Assigned, Dangling, ← exists_or]
  constructor
  · rintro ⟨text, member, found⟩
    obtain ⟨name, -, here⟩ := List.mem_filterMap.1 member
    exact ⟨name, (mem_keysIn_iff.1 found).imp (⟨text, here, ·⟩) (⟨text, here, ·⟩)⟩
  · rintro ⟨name, ⟨text, here, line⟩ | ⟨text, here, dangles⟩⟩
    · have member : name ∈ names := (held.mem_iff named).2 (by simp [here])
      exact ⟨text, List.mem_filterMap.2 ⟨name, member, here⟩, mem_keysIn_iff.2 (.inl line)⟩
    · have member : name ∈ names := (held.mem_iff named).2 (by simp [here])
      exact ⟨text, List.mem_filterMap.2 ⟨name, member, here⟩, mem_keysIn_iff.2 (.inr dangles)⟩

theorem Texts.names_append (held : Texts d root texts) (named : Names d root names)
    (behind : ∀ name, texts name ≠ none → name.Before last)
    (further : Texts e top (Function.update texts last (some text))) : Names e top (names ++ [last]) := by
  constructor
  case ascending =>
    refine List.pairwise_append.2 ⟨named.ascending, List.pairwise_singleton _ _, fun name member other only => ?_⟩
    rw [List.mem_singleton.1 only]
    exact behind name ((held.mem_iff named).1 member)
  case exact =>
    intro name
    have there := further.exact name
    rw [further.folder, ← there, List.mem_append, List.mem_singleton, held.mem_iff named]
    by_cases same : name = last <;> simp [same]

theorem Texts.filterMap_append (held : Texts d root texts) (named : Names d root names)
    (behind : ∀ name, texts name ≠ none → name.Before last) :
    (names ++ [last]).filterMap (Function.update texts last (some text)) =
      names.filterMap texts ++ [text] := by
  have earlier : names.filterMap (Function.update texts last (some text)) = names.filterMap texts := by
    apply List.filterMap_congr
    intro name member
    have other : name ≠ last := by
      rintro rfl
      exact Std.Irrefl.irrefl name (behind name ((held.mem_iff named).1 member))
    exact Function.update_of_ne other _ _
  rw [List.filterMap_append, earlier]
  simp

theorem nodup_eraseDups (keys : List String) : keys.eraseDups.Nodup := by
  have once := (firstSeen_eraseDups (fun _ => true) keys).once
  rwa [List.filter_true] at once

theorem keys_complete (held : Texts d root texts) :
    ∃ found, keys d root = .ok found ∧ found.Nodup ∧ (∀ key, Assigned texts key → key ∈ found) ∧
      ∀ e top last text, (∀ name, texts name ≠ none → name.Before last) →
        Texts e top (Function.update texts last (some text)) →
          ∃ more, keys e top = .ok (found ++ more) := by
  obtain ⟨names, named⟩ := exists_names d root
  refine ⟨_, held.keys_eq named, nodup_eraseDups _, fun key line => (held.mem_keys_iff named).2 (.inl line), ?_⟩
  intro e top last text behind further
  refine ⟨((keysIn text).removeAll ((names.filterMap texts).flatMap keysIn)).eraseDups, ?_⟩
  rw [further.keys_eq (held.names_append named behind further), held.filterMap_append named behind,
    List.flatMap_append, List.eraseDups_append]
  simp

theorem texts_of_list {entries : List Name} (listed : d.list root = .ok entries)
    (inside : ∀ name ∈ entries, ".env".toList <+: name.text.toList ∧
      ∃ text, texts name = some text ∧ d.readText (root / name) = .ok text)
    (outside : ∀ name, name ∉ entries → texts name = none) : Texts d root texts := by
  have folder : d.isFolder root = true := by
    obtain ⟨loc, found, -⟩ := list_iff.1 listed
    exact isFolder_iff.2 ⟨loc, found⟩
  have among (name : Name) (some : texts name ≠ none) : name ∈ entries := by
    by_contra absent
    exact some (outside name absent)
  refine ⟨folder, fun name => ⟨fun some => ?_, fun file => ?_⟩, fun name text here => ?_⟩
  · obtain ⟨prefixed, text, -, read⟩ := inside name (among name some)
    exact ⟨prefixed, isFile_of_readText read⟩
  · obtain ⟨-, text, here, -⟩ := inside name (mem_entries listed file.2)
    simp [here]
  · obtain ⟨-, other, there, read⟩ := inside name (among name (by simp [here]))
    rw [here] at there
    exact Option.some.inj there ▸ read

-- The second line of the value is a word alone, before a line that begins with an equals sign.
def wrappedText : String := "KEY=\"abc\nTOKEN\n==\""

def furtherName : Name := ⟨".env.local", by decide⟩

def wrappedTexts : Name → Option String := Function.update (fun _ => none) envName (some wrappedText)

def wrapped : Disk where
  here := []
  nodes := [([envName], .entry (.file (some wrappedText) .start2025))]
  distinct := by decide
  housed := by simp [Housed]
  settled := Or.inl rfl

def widened : Disk where
  here := []
  nodes := [([furtherName], .entry (.file (some "NEW=1\nKEY=2") .start2025)),
    ([envName], .entry (.file (some wrappedText) .start2025))]
  distinct := by decide
  housed := by simp [Housed]
  settled := Or.inl rfl

theorem texts_wrapped : Texts wrapped ⟨"."⟩ wrappedTexts := by
  have listed : wrapped.list ⟨"."⟩ = .ok [envName] := rfl
  have text : wrapped.readText ((⟨"."⟩ : Path) / envName) = .ok wrappedText := by decide +kernel
  refine texts_of_list listed (fun name member => ?_) fun name absent => ?_
  · obtain rfl := List.mem_singleton.1 member
    exact ⟨by decide, wrappedText, by simp [wrappedTexts], text⟩
  · exact Function.update_of_ne (fun same => absent (by simp [same])) _ _

theorem texts_widened : Texts widened ⟨"."⟩
    (Function.update wrappedTexts furtherName (some "NEW=1\nKEY=2")) := by
  have listed : widened.list ⟨"."⟩ = .ok [furtherName, envName] := rfl
  have text : widened.readText ((⟨"."⟩ : Path) / envName) = .ok wrappedText := by decide +kernel
  have text' : widened.readText ((⟨"."⟩ : Path) / furtherName) = .ok "NEW=1\nKEY=2" := by decide +kernel
  have differ : envName ≠ furtherName := by decide
  refine texts_of_list listed (fun name member => ?_) fun name absent => ?_
  · rcases List.mem_cons.1 member with rfl | member
    · exact ⟨by decide, _, by simp, text'⟩
    · obtain rfl := List.mem_singleton.1 member
      exact ⟨by decide, wrappedText, by simp [wrappedTexts, differ], text⟩
  · have other : name ≠ furtherName := fun same => absent (by simp [same])
    have other' : name ≠ envName := fun same => absent (by simp [same])
    rw [Function.update_of_ne other, wrappedTexts, Function.update_of_ne other']

theorem before_further (name : Name) (some : wrappedTexts name ≠ none) : name.Before furtherName := by
  by_cases same : name = envName
  next =>
    rw [same]
    show envName.bytes < furtherName.bytes
    decide +kernel
  next => exact absurd (Function.update_of_ne same _ _) some

theorem keys_complete_wrapped :
    Texts wrapped ⟨"."⟩ wrappedTexts ∧
      ∃ found, keys wrapped ⟨"."⟩ = .ok found ∧ found.Nodup ∧
        (∀ key, Assigned wrappedTexts key → key ∈ found) ∧
        Texts widened ⟨"."⟩ (Function.update wrappedTexts furtherName (some "NEW=1\nKEY=2")) ∧
          ∃ more, keys widened ⟨"."⟩ = .ok (found ++ more) := by
  obtain ⟨found, keys, once, complete, further⟩ := keys_complete texts_wrapped
  exact ⟨texts_wrapped, found, keys, once, complete, texts_widened,
    further widened ⟨"."⟩ furtherName _ before_further texts_widened⟩

theorem keys_exact (held : Texts d root texts) :
    ∃ found, keys d root = .ok found ∧
      (∀ key, key ∈ found ↔ Assigned texts key ∨ Dangling texts key) ∧
      ((∀ key ∈ found, Assigned texts key) ↔ ∀ key, Dangling texts key → Assigned texts key) := by
  obtain ⟨names, named⟩ := exists_names d root
  have exact (key : String) : key ∈ ((names.filterMap texts).flatMap keysIn).eraseDups ↔
      Assigned texts key ∨ Dangling texts key := held.mem_keys_iff named
  refine ⟨_, held.keys_eq named, exact, ?_⟩
  simp only [exact]
  constructor
  · exact fun each key dangles => each key (.inr dangles)
  · exact fun each key found => found.elim id (each key)

theorem names_wrapped : Names wrapped ⟨"."⟩ [envName] := by
  refine ⟨List.pairwise_singleton _ _, fun name => ?_⟩
  rw [texts_wrapped.folder, ← texts_wrapped.exact]
  by_cases same : name = envName <;> simp [wrappedTexts, same]

theorem not_assigned_token : ¬ Assigned wrappedTexts "TOKEN" := by
  rintro ⟨name, text, here, line, member, lead, trail, value, split, named, leads, trails⟩
  obtain rfl : text = wrappedText := by
    by_cases same : name = envName
    · simpa [wrappedTexts, same, eq_comm] using here
    · simp [wrappedTexts, same] at here
  have found := assigned?_eq_some_iff.2 ⟨lead, trail, split, named, leads, trails⟩
  have none : ∀ line ∈ splitAt '\n' wrappedText.toList,
      (assigned? line).map Prod.fst ≠ some "TOKEN".toList := by decide +kernel
  exact none line member (by rw [found]; rfl)

theorem keys_beyond_lines : Texts wrapped ⟨"."⟩ wrappedTexts ∧
    keys wrapped ⟨"."⟩ = .ok ["KEY", "TOKEN"] ∧ ¬ Assigned wrappedTexts "TOKEN" := by
  refine ⟨texts_wrapped, ?_, not_assigned_token⟩
  have found : keysIn wrappedText = ["KEY", "TOKEN"] := by decide +kernel
  have texts : [envName].filterMap wrappedTexts = [wrappedText] := by simp [wrappedTexts]
  rw [texts_wrapped.keys_eq names_wrapped, texts, List.flatMap_singleton, found]
  decide +kernel

theorem keys_exact_wrapped :
    Texts wrapped ⟨"."⟩ wrappedTexts ∧
      ∃ found, keys wrapped ⟨"."⟩ = .ok found ∧
        (∀ key, key ∈ found ↔ Assigned wrappedTexts key ∨ Dangling wrappedTexts key) ∧
        ((∀ key ∈ found, Assigned wrappedTexts key) ↔
          ∀ key, Dangling wrappedTexts key → Assigned wrappedTexts key) :=
  ⟨texts_wrapped, keys_exact texts_wrapped⟩

end FrontendSurvey.Env
