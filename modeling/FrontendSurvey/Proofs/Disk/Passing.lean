import FrontendSurvey.Proofs.Disk.Links
import FrontendSurvey.Proofs.Disk.Locate
import FrontendSurvey.Proofs.Survey.Readings

set_option autoImplicit false

namespace FrontendSurvey

inductive View where
  | inside
  | outside

namespace View

def entry : View → Entry → Entry
  | inside, e => e
  | outside, .folder => .folder
  | outside, .file _ _ => .file none .start2025

def node (view : View) : Node → Node
  | .entry e => .entry (view.entry e)
  | .link target => .link target

def spot (view : View) : Spot → Spot
  | .taken loc e => .taken loc (view.entry e)
  | .free loc => .free loc

variable {view : View}

theorem map_entry_inside {ε : Type} (found : Except ε Entry) : found.map inside.entry = found := by
  cases found <;> rfl

theorem entry_cases {e f : Entry} (same : view.entry e = view.entry f) : e = .folder ∧ f = .folder ∨
    ∃ text modified text' modified', e = .file text modified ∧ f = .file text' modified' := by
  match e, f with
  | .folder, .folder => exact .inl ⟨rfl, rfl⟩
  | .file text modified, .file text' modified' => exact .inr ⟨text, modified, text', modified', rfl, rfl⟩
  | .folder, .file _ _ => cases view <;> cases same
  | .file _ _, .folder => cases view <;> cases same

theorem node_cases {n m : Option Node} (same : n.map view.node = m.map view.node) :
    n = none ∧ m = none ∨ n = some .folder ∧ m = some .folder ∨
      (∃ target, n = some (.link target) ∧ m = some (.link target)) ∨
      ∃ text modified text' modified', n = some (.entry (.file text modified)) ∧
        m = some (.entry (.file text' modified')) ∧
        view.entry (.file text modified) = view.entry (.file text' modified') := by
  match n, m with
  | none, none => exact .inl ⟨rfl, rfl⟩
  | none, some m => cases same
  | some n, none => cases same
  | some (.link target), some (.link other) =>
    cases same
    exact .inr (.inr (.inl ⟨target, rfl, rfl⟩))
  | some (.link target), some (.entry f) => cases same
  | some (.entry e), some (.link target) => cases same
  | some (.entry e), some (.entry f) =>
    have entries : view.entry e = view.entry f := by simpa [node] using same
    rcases entry_cases entries with ⟨rfl, rfl⟩ | ⟨text, modified, text', modified', rfl, rfl⟩
    · exact .inr (.inl ⟨rfl, rfl⟩)
    · exact .inr (.inr (.inr ⟨text, modified, text', modified', rfl, rfl, entries⟩))

theorem found_cases {n m : Except Refusal Entry} (same : n.map view.entry = m.map view.entry) :
    (∃ why, n = .error why ∧ m = .error why) ∨ n = .ok .folder ∧ m = .ok .folder ∨
      ∃ text modified text' modified', n = .ok (.file text modified) ∧
        m = .ok (.file text' modified') ∧
        view.entry (.file text modified) = view.entry (.file text' modified') := by
  rcases cases_of_map_eq same with refused | ⟨e, f, rfl, rfl, entries⟩
  · exact .inl refused
  · rcases entry_cases entries with ⟨rfl, rfl⟩ | ⟨text, modified, text', modified', rfl, rfl⟩
    · exact .inr (.inl ⟨rfl, rfl⟩)
    · exact .inr (.inr ⟨text, modified, text', modified', rfl, rfl, entries⟩)

theorem spot_cases {n m : Except Refusal Spot} (same : n.map view.spot = m.map view.spot) :
    (∃ why, n = .error why ∧ m = .error why) ∨ (∃ loc, n = .ok (.free loc) ∧ m = .ok (.free loc)) ∨
      ∃ loc e f, n = .ok (.taken loc e) ∧ m = .ok (.taken loc f) ∧ view.entry e = view.entry f := by
  rcases cases_of_map_eq same with refused | ⟨here, there, rfl, rfl, spots⟩
  · exact .inl refused
  · match here, there with
    | .free loc, .free place =>
      cases spots
      exact .inr (.inl ⟨loc, rfl, rfl⟩)
    | .free loc, .taken place f => cases spots
    | .taken loc e, .free place => cases spots
    | .taken loc e, .taken place f =>
      obtain ⟨rfl, entries⟩ : loc = place ∧ view.entry e = view.entry f := by
        simpa [spot] using spots
      exact .inr (.inr ⟨loc, e, f, rfl, rfl, entries⟩)

end View

namespace Disk

/-- A lookup that may follow so many links comes by a location, whether there is anything or not. -/
inductive Passes (d : Disk) : Nat → Location → List Move → Location → Prop where
  | name (links : Nat) (folder : Location) (name : Name) (rest : List Move) :
      Passes d links folder (.down name :: rest) (name :: folder)
  | idle {links : Nat} {folder place : Location} {move : Move} {rest : List Move}
      (idle : move.isIdle = true) (onward : Passes d links folder rest place) :
      Passes d links folder (move :: rest) place
  | up {links : Nat} {folder place : Location} {rest : List Move}
      (onward : Passes d links folder.tail rest place) : Passes d links folder (.up :: rest) place
  | down {links : Nat} {folder place : Location} {name : Name} {rest : List Move}
      (inside : d.node? (name :: folder) = some .folder)
      (onward : Passes d links (name :: folder) rest place) :
      Passes d links folder (.down name :: rest) place
  | link {links : Nat} {folder place : Location} {name : Name} {target : Path} {rest : List Move}
      (there : d.node? (name :: folder) = some (.link target))
      (onward : Passes d links (target.startFrom folder) (target.moves ++ rest) place) :
      Passes d (links + 1) folder (.down name :: rest) place

def Meets (d : Disk) (p : Path) (place : Location) : Prop :=
  d.Passes maxLinks (p.startFrom d.here) p.moves place

variable {d e : Disk} {view : View} {folder loc place : Location} {moves others rest : List Move}
  {links used : Nat} {name : Name} {p : Path}

theorem Passes.mono {more : Nat} (passes : d.Passes links folder moves place) (enough : links ≤ more) :
    d.Passes more folder moves place := by
  induction passes generalizing more with
  | name links folder name rest => exact .name more folder name rest
  | idle idle _ ih => exact .idle idle (ih enough)
  | up _ ih => exact .up (ih enough)
  | down inside _ ih => exact .down inside (ih enough)
  | link there _ ih =>
    cases more with
    | zero => omega
    | succ more => exact .link there (ih (by omega))

theorem Passes.append (passes : d.Passes links folder moves place) (rest : List Move) :
    d.Passes links folder (moves ++ rest) place := by
  induction passes with
  | name links folder name onward => exact .name links folder name (onward ++ rest)
  | idle idle _ ih => exact .idle idle ih
  | up _ ih => exact .up ih
  | down inside _ ih => exact .down inside ih
  | link there _ ih =>
    rw [List.append_assoc] at ih
    exact .link there ih

theorem passes_idle (idle : Move.busy moves = []) (onward : d.Passes links folder rest place) :
    d.Passes links folder (moves ++ rest) place := by
  induction moves with
  | nil => exact onward
  | cons move moves ih =>
    obtain ⟨first, later⟩ := List.forall_mem_cons.1 (Move.busy_eq_nil.1 idle)
    exact .idle first (ih (Move.busy_eq_nil.2 later))

theorem Passes.of_busy (passes : d.Passes links folder moves place)
    (same : Move.busy moves = Move.busy others) : d.Passes links folder others place := by
  induction passes generalizing others with
  | name links folder name rest =>
    obtain ⟨idle, later, rfl, none, -⟩ := Move.exists_of_busy_cons same.symm
    exact passes_idle none (.name links folder name later)
  | @idle links folder place move rest idle _ ih =>
    have skipped : Move.busy (move :: rest) = Move.busy rest := by simp [Move.busy, idle]
    exact ih (skipped.symm.trans same)
  | up _ ih =>
    obtain ⟨idle, later, rfl, none, after⟩ := Move.exists_of_busy_cons same.symm
    exact passes_idle none (.up (ih after.symm))
  | down inside _ ih =>
    obtain ⟨idle, later, rfl, none, after⟩ := Move.exists_of_busy_cons same.symm
    exact passes_idle none (.down inside (ih after.symm))
  | link there _ ih =>
    obtain ⟨idle, later, rfl, none, after⟩ := Move.exists_of_busy_cons same.symm
    exact passes_idle none
      (.link there (ih (by rw [Move.busy_append, Move.busy_append, after]; rfl)))

theorem Passes.append_cases (passes : d.Passes links folder (moves ++ rest) place) :
    d.Passes links folder moves place ∨
      ∃ left used loc, links = left + used ∧ d.Leads folder moves used loc ∧
        d.Passes left loc rest place := by
  induction links, folder, moves using lookup_induction with
  | here links folder => exact .inr ⟨links, 0, folder, rfl, .here folder, passes⟩
  | idle links folder move onward idle ih =>
    have later : d.Passes links folder (onward ++ rest) place := by
      cases passes with
      | idle _ later => exact later
      | _ => cases idle
    rcases ih later with first | ⟨left, used, loc, split, leads, behind⟩
    · exact .inl (.idle idle first)
    · exact .inr ⟨left, used, loc, split, .idle idle leads, behind⟩
  | up links folder onward ih =>
    have later : d.Passes links folder.tail (onward ++ rest) place := by
      cases passes with
      | idle idle _ => cases idle
      | up later => exact later
    rcases ih later with first | ⟨left, used, loc, split, leads, behind⟩
    · exact .inl (.up first)
    · exact .inr ⟨left, used, loc, split, .up leads, behind⟩
  | down links folder name onward into behind =>
    cases passes with
    | name => exact .inl (.name links folder name onward)
    | idle idle _ => cases idle
    | down inside later =>
      rcases into later with first | ⟨left, used, loc, split, leads, behind⟩
      · exact .inl (.down inside first)
      · exact .inr ⟨left, used, loc, split, .down inside leads, behind⟩
    | @link fewer _ _ _ target _ there later =>
      have onwards : d.Passes fewer (target.startFrom folder) (target.moves ++ onward ++ rest) place := by
        rwa [List.append_assoc]
      rcases behind fewer target rfl onwards with first | ⟨left, used, loc, split, leads, behind⟩
      · exact .inl (.link there first)
      · exact .inr ⟨left, used + 1, loc, by omega, .link there leads, behind⟩

theorem Meets.child (meets : d.Meets p place) (name : Name) : d.Meets (p / name) place := by
  obtain ⟨above, moves, route, -⟩ := Path.moves_child p name
  have way : d.Passes maxLinks (p.startFrom d.here) above place :=
    Passes.of_busy meets (by rw [route, p.busy_moves])
  rw [Meets, Path.startFrom_child, moves]
  exact way.append _

theorem meets_child_cases (inside : d.find .look p = .ok (.taken loc .folder))
    (meets : d.Meets (p / name) place) : d.Meets p place ∨
      d.Passes maxLinks loc [.down name] place := by
  obtain ⟨-, used, -, leads⟩ := find_eq_folder_iff.1 inside
  obtain ⟨above, moves, route, -⟩ := Path.moves_child p name
  have same : Move.busy above = Move.busy p.moves := by rw [route, p.busy_moves]
  rw [Meets, Path.startFrom_child, moves] at meets
  rcases meets.append_cases with first | ⟨left, further, mid, split, onward, behind⟩
  · exact .inl (first.of_busy same)
  · obtain rfl := (leads_moves_iff.1 (onward.of_busy same)).unique leads
    exact .inr (behind.mono (by omega))

-- On a disk without links a lookup comes by what its steps give.
theorem LinkFree.passes (plain : d.LinkFree) (passes : d.Passes links folder moves place) :
    ∃ first, first <+: moves ∧ place = first.foldl Move.next folder := by
  induction passes with
  | name links folder name rest => exact ⟨[.down name], by simp, rfl⟩
  | @idle _ _ _ move _ idle _ ih =>
    obtain ⟨first, within, rfl⟩ := ih
    refine ⟨move :: first, List.cons_prefix_cons.2 ⟨rfl, within⟩, ?_⟩
    cases move with
    | stay => rfl
    | slash => rfl
    | up => cases idle
    | down name => cases idle
  | up _ ih =>
    obtain ⟨first, within, rfl⟩ := ih
    exact ⟨.up :: first, List.cons_prefix_cons.2 ⟨rfl, within⟩, rfl⟩
  | @down _ _ _ name _ _ _ ih =>
    obtain ⟨first, within, rfl⟩ := ih
    exact ⟨.down name :: first, List.cons_prefix_cons.2 ⟨rfl, within⟩, rfl⟩
  | link there => exact absurd there (plain _ _)

theorem Meets.leading (plain : d.LinkFree) (meets : d.Meets p place) : d.Leading p place := by
  have same : Move.busy p.moves = Move.busy p.route := by rw [← p.busy_moves, Move.busy_busy]
  exact plain.passes (Passes.of_busy meets same)

theorem resolve_down (d : Disk) (links : Nat) (folder : Location) (name : Name) (rest : List Move) :
    d.resolve .look links folder (.down name :: rest) =
      match d.node? (name :: folder) with
      | none => if rest.isEmpty then .ok (.free (name :: folder)) else .error .noEntry
      | some (.entry .folder) => d.resolve .look links (name :: folder) rest
      | some (.entry file) =>
        if rest.isEmpty then .ok (.taken (name :: folder) file) else .error .notAFolder
      | some (.link target) => d.jump .look links folder target rest := by
  rw [resolve_eq]
  exact if_neg (by simp)

theorem resolve_alike (same : ∀ place, d.Passes links folder moves place →
      (e.node? place).map view.node = (d.node? place).map view.node) :
    (e.resolve .look links folder moves).map view.spot =
      (d.resolve .look links folder moves).map view.spot := by
  induction links, folder, moves using lookup_induction with
  | here links folder => rw [resolve_here, resolve_here]
  | idle links folder move rest idle ih =>
    rw [resolve_idle _ _ _ _ _ idle, resolve_idle _ _ _ _ _ idle]
    exact ih fun place passes => same place (.idle idle passes)
  | up links folder rest ih =>
    rw [resolve_up, resolve_up]
    exact ih fun place passes => same place (.up passes)
  | down links folder name rest into behind =>
    rw [resolve_down, resolve_down]
    rcases View.node_cases (same _ (.name links folder name rest)) with ⟨here, there⟩ | ⟨here, there⟩ |
      ⟨target, here, there⟩ | ⟨text, modified, text', modified', here, there, seen⟩
    · rw [here, there]
    · rw [here, there]
      exact into fun place passes => same place (.down there passes)
    · rw [here, there]
      cases links with
      | zero => rfl
      | succ links =>
        exact behind links target rfl fun place passes => same place (.link there passes)
    · rw [here, there]
      dsimp only
      split
      next => exact congrArg (fun e => Except.ok (Spot.taken (name :: folder) e)) seen
      next => rfl

def AlikeAt (d e : Disk) (view : View) (p : Path) : Prop :=
  (e.find .look p).map view.spot = (d.find .look p).map view.spot

theorem alikeAt_of_meets (here : e.here = d.here) (same : ∀ place, d.Meets p place →
      (e.node? place).map view.node = (d.node? place).map view.node) : AlikeAt d e view p := by
  rw [AlikeAt, find, find, here]
  split
  · rfl
  · exact resolve_alike same

theorem alikeAt_of_folder (inside : d.find .look p = .ok (.taken loc .folder))
    (inside' : e.find .look p = .ok (.taken loc .folder)) : AlikeAt d e view p := by
  rw [AlikeAt, inside, inside']

theorem AlikeAt.symm (alike : AlikeAt d e view p) : AlikeAt e d view p := Eq.symm alike

theorem AlikeAt.stat (alike : AlikeAt d e view p) :
    (e.stat p).map view.entry = (d.stat p).map view.entry := by
  rw [Disk.stat, Disk.stat]
  rcases View.spot_cases alike with ⟨why, after, before⟩ | ⟨loc, after, before⟩ | ⟨loc, x, y, after, before, same⟩
  · rw [after, before]
  · rw [after, before]
  · rw [after, before]
    exact congrArg Except.ok same

theorem AlikeAt.find_folder (alike : AlikeAt d e view p)
    (inside : d.find .look p = .ok (.taken loc .folder)) : e.find .look p = .ok (.taken loc .folder) := by
  rcases View.spot_cases alike with ⟨why, after, before⟩ | ⟨loc, after, before⟩ | ⟨place, x, y, after, before, same⟩
  · simp [inside] at before
  · simp [inside] at before
  · obtain ⟨rfl, rfl⟩ : loc = place ∧ .folder = y := by simpa [inside] using before
    rcases View.entry_cases same with ⟨rfl, -⟩ | ⟨_, _, _, _, -, file⟩
    · exact after
    · cases file

theorem AlikeAt.list_error (alike : AlikeAt d e view p) {why : Refusal} (refused : d.list p = .error why) :
    e.list p = .error why := by
  unfold list at refused ⊢
  rcases View.spot_cases alike with ⟨why, after, before⟩ | ⟨loc, after, before⟩ | ⟨place, x, y, after, before, same⟩
  · simpa [after, before] using refused
  · simpa [after, before] using refused
  · rcases View.entry_cases same with ⟨rfl, rfl⟩ | ⟨_, _, _, _, rfl, rfl⟩
    · simp [before] at refused
    · simpa [after, before] using refused

theorem AlikeAt.isFolder (alike : AlikeAt d e view p) : e.isFolder p = d.isFolder p := by
  rw [Bool.eq_iff_iff, isFolder_iff, isFolder_iff]
  exact exists_congr fun loc => ⟨alike.symm.find_folder, alike.find_folder⟩

theorem AlikeAt.isFile (alike : AlikeAt d e view p) : e.isFile p = d.isFile p := by
  rw [Disk.isFile, Disk.isFile]
  rcases View.found_cases alike.stat with ⟨why, after, before⟩ | ⟨after, before⟩ |
    ⟨_, _, _, _, after, before, -⟩
  all_goals rw [after, before]

theorem AlikeAt.present (alike : AlikeAt d e view p) : e.present p = d.present p := by
  rw [Disk.present, Disk.present]
  rcases View.found_cases alike.stat with ⟨why, after, before⟩ | ⟨after, before⟩ |
    ⟨_, _, _, _, after, before, -⟩
  · rw [after, before]
  · rw [after, before]
  · rw [after, before]
    rfl

theorem AlikeAt.stat_inside (alike : AlikeAt d e .inside p) : e.stat p = d.stat p := by
  have same := alike.stat
  rwa [View.map_entry_inside, View.map_entry_inside] at same

end Disk

end FrontendSurvey
