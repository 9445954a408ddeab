import FrontendSurvey.Proofs.Env.Files
import FrontendSurvey.Proofs.Settings.Built
import FrontendSurvey.Proofs.Survey.Failure

set_option autoImplicit false

namespace FrontendSurvey

def Below (hidden : Location → Prop) (loc : Location) : Prop := ∃ entry, hidden entry ∧ entry <:+ loc

namespace Disk

def Avoids (d : Disk) (hidden : Location → Prop) (p : Path) : Prop :=
  ∀ place, d.Meets p place → ¬ Below hidden place

end Disk

namespace Survey

open Disk

/-- The disks differ at most below skipped entries, which nothing else that is read leads to. -/
structure Hides (d e : Disk) (s : Settings) (hidden : Location → Prop) : Prop where
  here : e.here = d.here
  node : ∀ loc, ¬ Below hidden loc → e.node? loc = d.node? loc
  skipped : ∀ entry, hidden entry → ∃ name folder, entry = name :: folder ∧ name.text ∈ s.skipped
  source : ∀ loc, d.find .look s.source = .ok (.taken loc .folder) → ¬ Below hidden loc
  links : ∀ name folder target, d.node? (name :: folder) = some (.link target) →
    ¬ Below hidden (name :: folder) →
    ∀ place, d.Passes maxLinks folder [.down name] place → ¬ Below hidden place
  paths : s.Built ∨ d.Avoids hidden s.source ∧ d.Avoids hidden s.root
  plugins : ∀ p ∈ s.plugins, d.Avoids hidden p
  brain : d.Avoids hidden s.brain
  tsconfigs : ∀ candidate ∈ s.tsconfigs, d.Avoids hidden (s.root / candidate)
  env : ∀ x ∈ [d, e], ∀ name : Name, ".env".toList <+: name.text.toList →
    x.isFile (s.root / name) = true → x.Avoids hidden (s.root / name)

variable {d e : Disk} {s : Settings} {hidden : Location → Prop} {folder loc : Location}
  {moves : List Move} {links used : Nat} {name : Name} {p path : Path}

theorem below_cons (below : Below hidden loc) (name : Name) : Below hidden (name :: loc) := by
  obtain ⟨entry, member, within⟩ := below
  exact ⟨entry, member, within.trans (List.suffix_cons name loc)⟩

theorem Hides.not_below_cons (hides : Hides d e s hidden) (outside : ¬ Below hidden loc)
    (kept : name.text ∉ s.skipped) : ¬ Below hidden (name :: loc) := by
  rintro ⟨entry, member, within⟩
  rcases List.suffix_cons_iff.1 within with same | above
  · obtain ⟨other, place, rfl, skip⟩ := hides.skipped entry member
    exact kept ((List.cons.inj same).1 ▸ skip)
  · exact outside ⟨entry, member, above⟩

theorem Hides.not_below_nil (hides : Hides d e s hidden) : ¬ Below hidden [] := by
  rintro ⟨entry, member, within⟩
  obtain ⟨name, place, rfl, -⟩ := hides.skipped entry member
  cases List.suffix_nil.1 within

theorem Hides.leads (hides : Hides d e s hidden) (leads : d.Leads folder moves used loc)
    (enough : used ≤ links) (outside : ¬ Below hidden folder)
    (avoids : ∀ place, d.Passes links folder moves place → ¬ Below hidden place) : ¬ Below hidden loc := by
  induction leads generalizing links with
  | here folder => exact outside
  | idle idle _ ih => exact ih enough outside fun place passes => avoids place (.idle idle passes)
  | @up folder _ _ _ _ ih =>
    refine ih enough (fun below => outside ?_) fun place passes => avoids place (.up passes)
    cases folder with
    | nil => exact below
    | cons name folder => exact below_cons below name
  | @down folder _ name rest _ there _ ih =>
    exact ih enough (avoids _ (.name links folder name rest)) fun place passes =>
      avoids place (.down there passes)
  | @link folder _ name target rest _ there _ ih =>
    cases links with
    | zero => omega
    | succ links =>
      refine ih (by omega) ?_ fun place passes => avoids place (.link there passes)
      unfold Path.startFrom
      split
      · exact hides.not_below_nil
      · exact outside

def Outside (d : Disk) (hidden : Location → Prop) (p : Path) : Prop :=
  ∃ loc, d.find .look p = .ok (.taken loc .folder) ∧ ¬ Below hidden loc ∧ d.Avoids hidden p

theorem Hides.child (hides : Hides d e s hidden) (outside : ¬ Below hidden loc)
    (kept : name.text ∉ s.skipped) :
    ∀ place, d.Passes maxLinks loc [.down name] place → ¬ Below hidden place := by
  have here := hides.not_below_cons outside kept
  intro place passes
  by_cases link : ∃ target, d.node? (name :: loc) = some (.link target)
  next =>
    obtain ⟨target, there⟩ := link
    exact hides.links name loc target there here place passes
  next =>
    cases passes with
    | name => exact here
    | idle idle => cases idle
    | down _ onward => cases onward
    | link there => exact absurd ⟨_, there⟩ link

theorem Hides.avoids_child (hides : Hides d e s hidden) (outside : Outside d hidden p)
    (kept : name.text ∉ s.skipped) : d.Avoids hidden (p / name) := by
  obtain ⟨loc, inside, apart, avoids⟩ := outside
  intro place meets
  rcases meets_child_cases inside meets with first | passes
  · exact avoids place first
  · exact hides.child apart kept place passes

theorem Hides.outside_child (hides : Hides d e s hidden) (outside : Outside d hidden p)
    (kept : name.text ∉ s.skipped) (folder : d.stat (p / name) = .ok .folder) :
    Outside d hidden (p / name) := by
  have avoids := hides.avoids_child outside kept
  obtain ⟨loc, inside, apart, -⟩ := outside
  obtain ⟨place, found⟩ := stat_iff.1 folder
  refine ⟨place, found, ?_, avoids⟩
  obtain ⟨-, used, enough, leads⟩ := find_eq_folder_iff.1 inside
  rw [find_child_of_leads leads enough] at found
  obtain ⟨further, less, onward⟩ := resolve_eq_folder_iff.1 found
  exact hides.leads onward (by omega) apart (hides.child apart kept)

theorem Hides.alike (hides : Hides d e s hidden) (avoids : d.Avoids hidden p) : AlikeAt d e .inside p :=
  alikeAt_of_meets hides.here fun place meets => by rw [hides.node place (avoids place meets)]

theorem Hides.need (hides : Hides d e s hidden) (avoids : d.Avoids hidden p) : e.need p = d.need p :=
  need_of_stat (hides.alike avoids).stat_inside

theorem avoids_of_child (avoids : d.Avoids hidden (p / name)) : d.Avoids hidden p :=
  fun place meets => avoids place (meets.child name)

-- The plugin modules lie in the source directory, and the compiler configurations in the root.
theorem Hides.avoids_source_root (hides : Hides d e s hidden) :
    d.Avoids hidden s.source ∧ d.Avoids hidden s.root := by
  rcases hides.paths with built | avoids
  · obtain ⟨tsconfigs, plugins⟩ := built.regular
    have plugin : d.Avoids hidden (s.source / (⟨"plugins", by decide⟩ : Name) /
        (⟨"vuetify.ts", by decide⟩ : Name)) :=
      hides.plugins _ (by rw [plugins]; exact List.mem_cons_self)
    have tsconfig : d.Avoids hidden (s.root / (⟨"tsconfig.json", by decide⟩ : Name)) :=
      hides.tsconfigs _ (by rw [tsconfigs]; exact List.mem_cons_self)
    exact ⟨avoids_of_child (avoids_of_child plugin), avoids_of_child tsconfig⟩
  · exact avoids

theorem Hides.walksAlike (hides : Hides d e s hidden) :
    WalksAlike d e .inside s.skipped (Outside d hidden) where
  names := by
    rintro p ⟨loc, inside, apart, avoids⟩
    refine walkNames_eq inside ((hides.alike avoids).find_folder inside) fun name kept => ?_
    rw [hides.node _ (hides.not_below_cons apart kept)]
  entries := by
    intro p names outside listed name member
    exact hides.alike (hides.avoids_child outside (not_skipped listed member))
  onward := by
    rintro p child outside ⟨names, listed, name, member, rfl, folder⟩
    exact hides.outside_child outside (not_skipped listed member) folder

theorem Hides.env_isFile (hides : Hides d e s hidden) (prefixed : ".env".toList <+: name.text.toList) :
    e.isFile (s.root / name) = d.isFile (s.root / name) := by
  have forward (file : d.isFile (s.root / name) = true) : e.isFile (s.root / name) = true := by
    have avoids := hides.env d (by simp) name prefixed file
    rw [(hides.alike avoids).isFile, file]
  have back (file : e.isFile (s.root / name) = true) : d.isFile (s.root / name) = true := by
    have avoids := hides.env e (by simp) name prefixed file
    have alike : AlikeAt e d .inside (s.root / name) :=
      alikeAt_of_meets hides.here.symm fun place meets => by rw [hides.node place (avoids place meets)]
    rw [alike.isFile, file]
  rw [Bool.eq_iff_iff]
  exact ⟨back, forward⟩

theorem Hides.keys (hides : Hides d e s hidden) : Env.keys e s.root = Env.keys d s.root := by
  have files := Env.files_alike (hides.alike hides.avoids_source_root.2) fun name => hides.env_isFile
  exact Env.keys_congr files fun name prefixed file => hides.need (hides.env d (by simp) name prefixed file)

theorem skipped_unseen {d e : Disk} {s : Settings} {hidden : Location → Prop}
    (hides : Hides d e s hidden) (scan later : ScanWindow) :
    analyze e s later = (analyze d s scan).map (·.withScan later) := by
  rw [← analyze_later]
  have source := hides.avoids_source_root.1
  cases inside : d.isFolder s.source with
  | false =>
    have outside : e.isFolder s.source = false := (hides.alike source).isFolder.trans inside
    rw [analyze_missing inside, analyze_missing outside]
  | true =>
    have inside' : e.isFolder s.source = true := (hides.alike source).isFolder.trans inside
    obtain ⟨loc, found⟩ := isFolder_iff.1 inside
    have outside : Outside d hidden s.source := ⟨loc, found, hides.source loc found, source⟩
    have walk := hides.walksAlike.walk_inside s.root outside
    have texts (walked : Walked) (done : d.walk s.root s.skipped s.source = .ok walked) (path : Path)
        (member : path ∈ walked.code) : e.need path = d.need path :=
      need_of_stat (hides.walksAlike.code outside done member).stat_inside
    exact analyze_congr inside inside' walk texts hides.keys (brain_alike (hides.alike hides.brain))
      (tsconfigs_alike fun candidate member => hides.alike (hides.tsconfigs candidate member))
      (plugin_alike fun plugin member => hides.alike (hides.plugins plugin member))

theorem avoids_of_plain {entry : Location} (plain : d.LinkFree)
    (off : ∀ moves ∈ p.route.inits, ¬ entry <:+ moves.foldl Move.next (p.startFrom d.here)) :
    d.Avoids (· = entry) p := by
  rintro place meets ⟨_, rfl, within⟩
  obtain ⟨moves, first, rfl⟩ := Meets.leading plain meets
  exact off moves ((List.mem_inits _ _).2 first) within

-- A script alone, and a script beside a skipped link that leads to itself.
def scripted : Disk where
  here := []
  nodes := [([sourceName], .folder),
    ([⟨"a.ts", by decide⟩, sourceName], .entry (.file (some "x as any") .start2025))]
  distinct := by decide
  housed := by simp [Housed, Node.folder]
  settled := Or.inl rfl

def modules : Location := [⟨"node_modules", by decide⟩, sourceName]

def cyclic : Disk where
  here := []
  nodes := (modules, .link ⟨"node_modules"⟩) :: scripted.nodes
  distinct := by decide
  housed := by simp [Housed, Node.folder, modules, scripted]
  settled := Or.inl rfl

theorem hides_modules : Hides scripted cyclic flat (· = modules) := by
  have plain : scripted.LinkFree := linkFree_iff.2 (by simp [scripted, Node.folder])
  have beside : scripted.list flat.root = .ok [sourceName] ∧
      cyclic.list flat.root = .ok [sourceName] := ⟨rfl, rfl⟩
  obtain ⟨source, -, brain, -⟩ := flat_paths
  constructor
  case here => rfl
  case node =>
    intro loc outside
    have other : modules ≠ loc := by
      rintro rfl
      exact outside ⟨modules, rfl, List.suffix_refl modules⟩
    cases loc with
    | nil => rfl
    | cons name folder => simp [node?, cyclic, other]
  case skipped =>
    rintro entry rfl
    exact ⟨_, _, rfl, by decide +kernel⟩
  case source =>
    intro loc found
    have there : scripted.find .look flat.source = .ok (.taken [sourceName] .folder) := by
      rw [source]
      decide +kernel
    cases there.symm.trans found
    rintro ⟨entry, rfl, within⟩
    exact absurd within (by decide)
  case links => exact fun name folder target there => absurd there (plain _ _)
  case paths => exact .inl (.withPaths (some ⟨"s"⟩) (some ⟨"."⟩) none (.forRoot ⟨"."⟩))
  case plugins =>
    intro p member
    apply avoids_of_plain plain
    revert p
    decide +kernel
  case brain =>
    apply avoids_of_plain plain
    decide +kernel
  case tsconfigs =>
    intro candidate member
    apply avoids_of_plain plain
    revert candidate
    decide +kernel
  case env =>
    intro x among name prefixed file
    have member : name ∈ [sourceName] := by
      simp only [List.mem_cons, List.not_mem_nil, or_false] at among
      rcases among with rfl | rfl
      · exact Env.mem_entries beside.1 file
      · exact Env.mem_entries beside.2 file
    obtain rfl := List.mem_singleton.1 member
    exact absurd prefixed (by decide)

theorem skipped_unseen_modules :
    Hides scripted cyclic flat (· = modules) ∧ ∀ scan later, analyze cyclic flat later =
      (analyze scripted flat scan).map (·.withScan later) :=
  ⟨hides_modules, skipped_unseen hides_modules⟩

end Survey

end FrontendSurvey
