import FrontendSurvey.Proofs.Env.Files
import FrontendSurvey.Proofs.Survey.Failure
import FrontendSurvey.Proofs.Tree.Alike

set_option autoImplicit false

namespace FrontendSurvey

structure Request where
  path : Path
  refusal : Option Refusal

def Request.fault? (r : Request) : Option Fault := r.refusal.map (.refused r.path)

def refusal? {α : Type} : Except Refusal α → Option Refusal
  | .ok _ => none
  | .error why => some why

def Fault.of? {α : Type} : Except Fault α → Option Fault
  | .ok _ => none
  | .error fault => some fault

section Faults

variable {α β : Type}

-- A fault of the second step counts if the first one has none.
theorem Fault.of?_bind {later : Option Fault} (first : Except Fault α) {next : α → Except Fault β}
    (onward : ∀ x, of? (next x) = later) : of? (first >>= next) = (of? first).or later := by
  cases first with
  | error fault => rfl
  | ok x => exact onward x

theorem Fault.of?_bind_ok (x : α) (next : α → Except Fault β) :
    of? (.ok x >>= next) = of? (next x) :=
  rfl

theorem Fault.of?_bind_pure (first : Except Fault α) (f : α → β) :
    of? (first >>= fun x => pure (f x)) = of? first := by
  cases first <;> rfl

theorem Fault.of?_map (first : Except Fault α) (f : α → β) : of? (first.map f) = of? first := by
  cases first <;> rfl

theorem Fault.of?_mapM (read : α → Except Fault β) (xs : List α) :
    of? (xs.mapM read) = xs.findSome? fun x => of? (read x) := by
  induction xs with
  | nil => rfl
  | cons x xs ih =>
    rw [List.mapM_cons, List.findSome?_cons, ← ih]
    cases read x with
    | error fault => rfl
    | ok y => cases xs.mapM read <;> rfl

theorem Fault.of?_eq_some_iff {result : Except Fault α} {fault : Fault} :
    of? result = some fault ↔ result = .error fault := by
  cases result <;> simp [of?]

theorem Fault.of?_eq_none_iff {result : Except Fault α} : of? result = none ↔ ∃ x, result = .ok x := by
  cases result <;> simp [of?]

theorem Fault.of?_need (d : Disk) (path : Path) :
    of? (d.need path) = (refusal? (d.readText path)).map (.refused path) := by
  rw [Disk.need]
  cases d.readText path <;> rfl

end Faults

namespace Survey

open Disk

def fileRequest (d : Disk) (path : Path) : Request := ⟨path, refusal? (d.readText path)⟩

def requests (d : Disk) (s : Settings) (walked : Walked) (envNames : List Name) : List Request :=
  walked.components.map (fileRequest d) ++ walked.code.map (fileRequest d) ++
    (⟨s.root, refusal? (d.list s.root)⟩ ::
      envNames.map fun name => fileRequest d (s.root / name)) ++
    if d.present s.brain then [fileRequest d s.brain] else []

variable {d e : Disk} {s : Settings} {scan : ScanWindow} {walked : Walked} {names : List Name}

theorem findSome?_fileRequests (d : Disk) (paths : List Path) :
    (paths.map (fileRequest d)).findSome? Request.fault? =
      paths.findSome? fun path => Fault.of? (d.need path) := by
  rw [List.findSome?_map]
  exact congrArg (paths.findSome? ·) (funext fun path => (Fault.of?_need d path).symm)

theorem fault_of_reads {β : Type} (d : Disk) (paths : List Path) (make : Path → String → β) :
    Fault.of? (paths.mapM fun path => (d.need path).map (make path)) =
      (paths.map (fileRequest d)).findSome? Request.fault? := by
  simp only [Fault.of?_mapM, Fault.of?_map, findSome?_fileRequests]

theorem fault_of_keys (named : Env.Names d s.root names) :
    Fault.of? (Env.keys d s.root) = (⟨s.root, refusal? (d.list s.root)⟩ ::
      names.map fun name => fileRequest d (s.root / name)).findSome? Request.fault? := by
  rw [Env.keys, List.findSome?_cons]
  cases inside : d.isFolder s.root with
  | false =>
    obtain ⟨why, refused⟩ := Env.list_error inside
    simp [Env.files, refused, refusal?, Request.fault?, Fault.of?, Except.map, Except.mapError, bind,
      Except.bind]
  | true =>
    obtain ⟨loc, found⟩ := isFolder_iff.1 inside
    have granted : refusal? (d.list s.root) = none := by rw [list_eq found]; rfl
    have texts : Fault.of? ((names.map (s.root / ·)).mapM d.need) =
        (names.map fun name => fileRequest d (s.root / name)).findSome? Request.fault? := by
      rw [Fault.of?_mapM, ← findSome?_fileRequests, List.map_map]
      rfl
    rw [granted, ← texts, named.files inside, Except.mapError, Fault.of?_bind_ok, Fault.of?_bind_pure]
    rfl

theorem fault_of_brain (d : Disk) (s : Settings) : Fault.of? (Brain.read d s s.brain) =
    (if d.present s.brain then [fileRequest d s.brain] else []).findSome? Request.fault? := by
  rw [Brain.read]
  split
  · rw [Fault.of?_map, Fault.of?_need]
    simp [fileRequest, Request.fault?]
  · rfl

theorem fault_of_walked (inside : d.isFolder s.source = true)
    (walk : d.walk s.root s.skipped s.source = .ok walked) (named : Env.Names d s.root names) :
    Fault.of? (analyze d s scan) = (requests d s walked names).findSome? Request.fault? := by
  have components : Fault.of? (walked.components.mapM (Component.read d s)) =
      (walked.components.map (fileRequest d)).findSome? Request.fault? :=
    fault_of_reads d walked.components fun path text => Component.ofText (s.relative path) text
  have code : Fault.of? (walked.code.mapM (Code.read d s)) =
      (walked.code.map (fileRequest d)).findSome? Request.fault? :=
    fault_of_reads d walked.code fun path text => Code.ofText (s.relative path) text
  simp only [requests, List.findSome?_append, Option.or_assoc, ← components, ← code,
    ← fault_of_keys named, ← fault_of_brain]
  simp only [analyze, inside, walk, Bool.not_true, Bool.false_eq_true, if_false]
  rw [Fault.of?_bind_ok]
  refine Fault.of?_bind _ fun components => ?_
  refine Fault.of?_bind _ fun code => ?_
  refine Fault.of?_bind _ fun keys => ?_
  exact Fault.of?_bind_pure _ _

theorem fault_of_walk {fault : Fault} (inside : d.isFolder s.source = true)
    (failed : d.walk s.root s.skipped s.source = .error fault) :
    Fault.of? (analyze d s scan) = some fault := by
  simp only [analyze, inside, failed, Bool.not_true, Bool.false_eq_true, if_false, bind, Except.bind,
    Fault.of?]

structure Granted (d : Disk) (s : Settings) (walked : Walked) : Prop where
  code : ∀ path ∈ walked.code, ∃ text, d.readText path = .ok text
  root : ∃ entries, d.list s.root = .ok entries
  env : ∀ entries, d.list s.root = .ok entries → ∀ name ∈ entries, ".env".toList <+: name.text.toList →
    d.isFile (s.root / name) = true → ∃ text, d.readText (s.root / name) = .ok text
  brain : (∃ why, d.stat s.brain = .error why) ∨ ∃ text, d.readText s.brain = .ok text

inductive Fails (d : Disk) (s : Settings) : Fault → Prop where
  | walk {path : Path} {why : Refusal}
      (failed : d.walk s.root s.skipped s.source = .error (.refused path why)) :
      Fails d s (.refused path why)
  | request {walked : Walked} {names : List Name} {before after : List Request} {path : Path}
      {why : Refusal} (walk : d.walk s.root s.skipped s.source = .ok walked)
      (named : Env.Names d s.root names)
      (split : requests d s walked names = before ++ ⟨path, some why⟩ :: after)
      (earlier : ∀ request ∈ before, request.refusal = none) : Fails d s (.refused path why)

theorem refusal?_eq_none_iff {α : Type} {answer : Except Refusal α} :
    refusal? answer = none ↔ ∃ x, answer = .ok x := by
  cases answer <;> simp [refusal?]

theorem brain_granted_iff (d : Disk) (s : Settings) :
    (∀ request ∈ if d.present s.brain then [fileRequest d s.brain] else [], request.refusal = none) ↔
      (∃ why, d.stat s.brain = .error why) ∨ ∃ text, d.readText s.brain = .ok text := by
  cases found : d.stat s.brain with
  | error why => simp [Disk.present, found, Except.isOk, Except.toBool]
  | ok entry => simp [Disk.present, found, Except.isOk, Except.toBool, fileRequest, refusal?_eq_none_iff]

theorem granted_iff (walk : d.walk s.root s.skipped s.source = .ok walked)
    (named : Env.Names d s.root names) :
    Granted d s walked ↔ ∀ request ∈ requests d s walked names, request.refusal = none := by
  simp only [requests, List.forall_mem_append, List.forall_mem_map, List.forall_mem_cons,
    brain_granted_iff]
  simp only [fileRequest, refusal?_eq_none_iff]
  constructor
  · rintro ⟨code, ⟨entries, listed⟩, env, brain⟩
    refine ⟨⟨⟨fun path member => code path (components_subset walk member), code⟩,
      ⟨entries, listed⟩, fun name member => ?_⟩, brain⟩
    obtain ⟨-, prefixed, file⟩ := (named.exact name).1 member
    exact env entries listed name (Env.mem_entries listed file) prefixed file
  · rintro ⟨⟨⟨-, code⟩, root, env⟩, brain⟩
    refine ⟨code, root, fun entries listed name among prefixed file => ?_, brain⟩
    obtain ⟨loc, found, -⟩ := list_iff.1 listed
    exact env name ((named.exact name).2 ⟨isFolder_iff.2 ⟨loc, found⟩, prefixed, file⟩)

theorem fails_iff (inside : d.isFolder s.source = true) {fault : Fault} :
    analyze d s scan = .error fault ↔ Fails d s fault := by
  rw [← Fault.of?_eq_some_iff]
  cases walk : d.walk s.root s.skipped s.source with
  | error first =>
    rw [fault_of_walk inside walk, Option.some.injEq]
    constructor
    · rintro rfl
      obtain ⟨path, why, rfl⟩ := refused_of_walkTo walk
      exact .walk walk
    · rintro (failed | ⟨done, -, -, -⟩)
      · exact Except.error.inj (walk.symm.trans failed)
      · rw [walk] at done
        cases done
  | ok walked =>
    obtain ⟨names, named⟩ := Env.exists_names d s.root
    rw [fault_of_walked inside walk named, List.findSome?_eq_some_iff]
    constructor
    · rintro ⟨before, ⟨path, refusal⟩, after, split, refused, earlier⟩
      obtain ⟨why, rfl, rfl⟩ := Option.map_eq_some_iff.1 refused
      exact .request walk named split fun request member =>
        Option.map_eq_none_iff.1 (earlier request member)
    · rintro (failed | ⟨done, again, split, earlier⟩)
      · rw [walk] at failed
        cases failed
      · obtain rfl := Except.ok.inj (walk.symm.trans done)
        obtain rfl := named.unique again
        exact ⟨_, _, _, split, rfl, fun request member => Option.map_eq_none_iff.2 (earlier request member)⟩

structure SameLayout (d e : Disk) : Prop where
  here : e.here = d.here
  node : ∀ loc, (e.node? loc).map View.outside.node = (d.node? loc).map View.outside.node

inductive Named (d : Disk) (s : Settings) : Path → Prop where
  | code {walked : Walked} {path : Path} (walk : d.walk s.root s.skipped s.source = .ok walked)
      (member : path ∈ walked.code) : Named d s path
  | env {name : Name} (prefixed : ".env".toList <+: name.text.toList)
      (file : d.isFile (s.root / name) = true) : Named d s (s.root / name)
  | brain : Named d s s.brain

variable {path : Path}

theorem SameLayout.alike (layout : SameLayout d e) (path : Path) : AlikeAt d e .outside path :=
  alikeAt_of_meets layout.here fun loc _ => layout.node loc

theorem SameLayout.walksAlike (layout : SameLayout d e) (skipped : List String) :
    WalksAlike d e .outside skipped fun p => ∃ loc, d.find .look p = .ok (.taken loc .folder) where
  names := by
    rintro p ⟨loc, inside⟩
    refine walkNames_eq inside ((layout.alike p).find_folder inside) fun name _ => ?_
    rw [← Option.map_eq_none_iff, layout.node, Option.map_eq_none_iff]
  entries := fun p names _ _ name _ => layout.alike (p / name)
  onward := by
    rintro p child - ⟨names, -, name, -, rfl, inside⟩
    exact stat_iff.1 inside

theorem SameLayout.list_refusal (layout : SameLayout d e) (p : Path) :
    refusal? (e.list p) = refusal? (d.list p) := by
  cases inside : d.isFolder p with
  | true =>
    obtain ⟨loc, found⟩ := isFolder_iff.1 inside
    rw [list_eq found, list_eq ((layout.alike p).find_folder found)]
    rfl
  | false =>
    obtain ⟨why, refused⟩ := Env.list_error inside
    rw [refused, (layout.alike p).list_error refused]

theorem SameLayout.file_request (layout : SameLayout d e)
    (same : (∃ text, e.readText path = .ok text) ↔ ∃ text, d.readText path = .ok text) :
    fileRequest e path = fileRequest d path := by
  have refusals : refusal? (e.readText path) = refusal? (d.readText path) := by
    unfold readText at same ⊢
    rcases View.found_cases (layout.alike path).stat with ⟨why, after, before⟩ | ⟨after, before⟩ |
      ⟨text, modified, text', modified', after, before, -⟩
    · rw [after, before]
    · rw [after, before]
    · rw [after, before] at same ⊢
      cases text <;> cases text' <;> simp_all [refusal?]
  rw [fileRequest, fileRequest, refusals]

theorem SameLayout.env_names (layout : SameLayout d e) {root : Path} (named : Env.Names d root names) :
    Env.Names e root names := by
  refine ⟨named.ascending, fun name => ?_⟩
  rw [(layout.alike root).isFolder, (layout.alike (root / name)).isFile]
  exact named.exact name

theorem SameLayout.requests_eq {walked' : Walked} (layout : SameLayout d e)
    (same : ∀ path, Named d s path →
      ((∃ text, e.readText path = .ok text) ↔ ∃ text, d.readText path = .ok text))
    (walk : d.walk s.root s.skipped s.source = .ok walked) (named : Env.Names d s.root names)
    (components : walked'.components = walked.components) (code : walked'.code = walked.code) :
    requests e s walked' names = requests d s walked names := by
  have read (path : Path) (member : path ∈ walked.code) : fileRequest e path = fileRequest d path :=
    layout.file_request (same path (.code walk member))
  have env (name : Name) (member : name ∈ names) :
      fileRequest e (s.root / name) = fileRequest d (s.root / name) := by
    obtain ⟨-, prefixed, file⟩ := (named.exact name).1 member
    exact layout.file_request (same _ (.env prefixed file))
  rw [requests, requests, components, code, layout.list_refusal,
    (layout.alike s.brain).present, layout.file_request (same _ .brain), List.map_congr_left env,
    List.map_congr_left read,
    List.map_congr_left fun path member => read path (components_subset walk member)]

theorem SameLayout.fault_eq (layout : SameLayout d e)
    (same : ∀ path, Named d s path →
      ((∃ text, e.readText path = .ok text) ↔ ∃ text, d.readText path = .ok text))
    (later : ScanWindow) : Fault.of? (analyze e s later) = Fault.of? (analyze d s scan) := by
  cases inside : d.isFolder s.source with
  | false =>
    have outside : e.isFolder s.source = false := (layout.alike s.source).isFolder.trans inside
    simp only [analyze_missing inside, analyze_missing outside]
  | true =>
    have inside' : e.isFolder s.source = true := (layout.alike s.source).isFolder.trans inside
    have walks := (layout.walksAlike s.skipped).walk s.root (isFolder_iff.1 inside)
    rcases cases_of_map_eq walks with ⟨fault, after, before⟩ | ⟨walked', walked, after, before, seen⟩
    · rw [fault_of_walk inside before, fault_of_walk inside' after]
    · obtain ⟨names, named⟩ := Env.exists_names d s.root
      have components : walked'.components = walked.components := congrArg (·.components) seen
      have code : walked'.code = walked.code := congrArg (·.code) seen
      rw [fault_of_walked inside before named, fault_of_walked inside' after (layout.env_names named),
        layout.requests_eq same before named components code]

theorem analyze_criterion (d : Disk) (s : Settings) (scan : ScanWindow) :
    (∀ path, analyze d s scan = .error (.missingSource path) ↔
      path = s.source ∧ d.isFolder s.source = false) ∧
    (d.isFolder s.source = true →
      ((∃ a, analyze d s scan = .ok a) ↔
        ∃ walked, d.walk s.root s.skipped s.source = .ok walked ∧ Granted d s walked) ∧
      ∀ fault, analyze d s scan = .error fault ↔ Fails d s fault) ∧
    ∀ e, SameLayout d e →
      (∀ path, Named d s path →
        ((∃ text, e.readText path = .ok text) ↔ ∃ text, d.readText path = .ok text)) →
      ∀ later fault, analyze e s later = .error fault ↔ analyze d s scan = .error fault := by
  refine ⟨fun path => ⟨fun failed => ?_, ?_⟩, fun inside => ⟨?_, fun fault => fails_iff inside⟩, ?_⟩
  · cases inside : d.isFolder s.source with
    | false =>
      rw [analyze_missing inside] at failed
      cases failed
      exact ⟨rfl, rfl⟩
    | true => cases (fails_iff inside).1 failed
  · rintro ⟨rfl, outside⟩
    exact analyze_missing outside
  · rw [← Fault.of?_eq_none_iff]
    obtain ⟨names, named⟩ := Env.exists_names d s.root
    cases walk : d.walk s.root s.skipped s.source with
    | error fault => simp [fault_of_walk inside walk]
    | ok walked =>
      rw [fault_of_walked inside walk named, List.findSome?_eq_none_iff]
      simp only [Request.fault?, Option.map_eq_none_iff, ← granted_iff walk named, Except.ok.injEq,
        exists_eq_left']
  · intro e layout same later fault
    rw [← Fault.of?_eq_some_iff, ← Fault.of?_eq_some_iff, layout.fault_eq same later]

-- An empty source folder beside a compiler configuration, which may be any file.
def configured (text : Option String) (modified : Instant) : Disk where
  here := []
  nodes := [([sourceName], .folder),
    ([⟨"tsconfig.json", by decide⟩], .entry (.file text modified))]
  distinct := by
    have apart : sourceName ≠ ⟨"tsconfig.json", by decide⟩ := by decide
    simp [apart]
  housed := by simp [Housed]
  settled := Or.inl rfl

theorem configured_layout (text text' : Option String) (modified modified' : Instant) :
    SameLayout (configured text modified) (configured text' modified') := by
  refine ⟨rfl, fun loc => ?_⟩
  cases loc with
  | nil => rfl
  | cons name folder =>
    simp only [node?, configured, List.find?_cons, List.find?_nil]
    split
    · rfl
    · split <;> rfl

theorem configured_entries (text : Option String) (modified : Instant) :
    (configured text modified).list ⟨"."⟩ = .ok [⟨"s", by decide⟩, ⟨"tsconfig.json", by decide⟩] ∧
      ∀ name ∈ ([⟨"s", by decide⟩, ⟨"tsconfig.json", by decide⟩] : List Name),
        ¬ ".env".toList <+: name.text.toList :=
  ⟨rfl, by decide⟩

theorem configured_walk (text : Option String) (modified : Instant) :
    (configured text modified).walk flat.root flat.skipped flat.source = .ok (.join []) := by
  have inside : (configured text modified).list ⟨"./s"⟩ = .ok [] := rfl
  rw [flat_paths.1]
  exact walk_of_files flat.root flat.skipped (fun _ => .start2025) inside (by simp) .nil (by simp)

theorem analyze_criterion_configured :
    (configured (some "{}") .start2025).isFolder flat.source = true ∧
      (∃ a, analyze (configured (some "{}") .start2025) flat ⟨"", "", 0⟩ = .ok a) ∧
      SameLayout (configured (some "{}") .start2025) (configured none .start2025) ∧
      ∀ later fault, analyze (configured none .start2025) flat later = .error fault ↔
        analyze (configured (some "{}") .start2025) flat ⟨"", "", 0⟩ = .error fault := by
  obtain ⟨-, decides, other⟩ := analyze_criterion (configured (some "{}") .start2025) flat ⟨"", "", 0⟩
  obtain ⟨source, -, brain, -⟩ := flat_paths
  obtain ⟨listed, unnamed⟩ := configured_entries (some "{}") .start2025
  have inside : (configured (some "{}") .start2025).isFolder flat.source = true := by
    rw [source]
    decide +kernel
  have absent (text : Option String) :
      (configured text .start2025).stat flat.brain = .error .noEntry := by
    rw [brain]
    rfl
  have layout := configured_layout (some "{}") none .start2025 .start2025
  refine ⟨inside, (decides inside).1.2 ⟨_, configured_walk _ _, ?_⟩, layout, other _ layout ?_⟩
  · refine ⟨by simp [Walked.join], ⟨_, listed⟩, fun entries listed' name among prefixed => ?_,
      .inl ⟨_, absent _⟩⟩
    obtain rfl := Except.ok.inj (listed.symm.trans listed')
    exact absurd prefixed (unnamed name among)
  · rintro path (⟨walk, member⟩ | ⟨prefixed, file⟩ | _)
    · obtain rfl := Except.ok.inj ((configured_walk _ _).symm.trans walk)
      simp [Walked.join] at member
    · exact absurd prefixed (unnamed _ (Env.mem_entries listed file))
    · simp [readText, absent]

end Survey

end FrontendSurvey
