import FrontendSurvey.Proofs.Disk.Folders
import FrontendSurvey.Proofs.Path.Relative
import FrontendSurvey.Proofs.Path.Route

set_option autoImplicit false

namespace FrontendSurvey

namespace Path

variable {p : Path} {name : Name}

theorem text_child_ne (p : Path) (name : Name) : (p / name).bytes ≠ [] := by
  rw [ne_eq, ← steps_eq_nil_iff, steps_child]
  simp

theorem isAbsolute_child (p : Path) (name : Name) : (p / name).isAbsolute = p.isAbsolute := by
  by_cases begun : p.bytes = []
  next =>
    have joined : p / name = ⟨name.toRaw⟩ := join_of_empty begun _
    rw [joined, isAbsolute_name, isAbsolute, begun]
    rfl
  next =>
    have joined : p / name = _ := join_of_relative begun (isAbsolute_name name)
    obtain ⟨c, r, bytes⟩ := List.exists_cons_of_ne_nil begun
    rw [joined, isAbsolute, isAbsolute, ofBytes]
    split <;> simp [bytes]

theorem startFrom_child (p : Path) (name : Name) (folder : Location) :
    (p / name).startFrom folder = p.startFrom folder := by
  rw [startFrom, startFrom, isAbsolute_child]

theorem pieces_child (p : Path) (name : Name) :
    ∃ above, (p / name).pieces = above ++ [name.bytes] := by
  by_cases begun : p.bytes = []
  next =>
    have joined : p / name = ⟨name.toRaw⟩ := join_of_empty begun _
    exact ⟨[], by rw [joined, pieces, Text.splitAt_of_not_mem name.ok.2.2.2, List.nil_append]⟩
  next =>
    have joined : p / name = _ := join_of_relative begun (isAbsolute_name name)
    rw [joined, pieces, ofBytes]
    split
    next ended =>
      obtain ⟨s, same⟩ := List.getLast?_eq_some_iff.1 ended
      refine ⟨Text.splitAt Raw.slash s, ?_⟩
      rw [same, List.append_assoc, List.singleton_append, Text.splitAt_append,
        Text.splitAt_of_not_mem name.ok.2.2.2]
    next => exact ⟨_, by rw [Text.splitAt_append, Text.splitAt_of_not_mem name.ok.2.2.2]⟩

theorem ofPiece_name (name : Name) : Move.ofPiece name.bytes = .down name := by
  simp [Move.ofPiece, name.ok]

theorem slash_not_mem_map (pieces : List (List UInt8)) : Move.slash ∉ pieces.map Move.ofPiece := by
  simp only [List.mem_map, not_exists, not_and]
  intro piece _ same
  unfold Move.ofPiece at same
  split at same
  · cases same
  · split at same <;> cases same

theorem moves_child (p : Path) (name : Name) :
    ∃ above, (p / name).moves = above ++ [.down name] ∧ Move.busy above = p.route ∧
      Move.slash ∉ above := by
  obtain ⟨above, parted⟩ := pieces_child p name
  have nonempty : name.bytes ≠ [] := name.ok.1
  have moves : (p / name).moves = above.map Move.ofPiece ++ [.down name] := by
    rw [moves_eq, parted]
    simp [nonempty, ofPiece_name]
  refine ⟨_, moves, ?_, slash_not_mem_map above⟩
  have route := busy_moves (p / name)
  rw [moves, route_child, Move.busy_append] at route
  exact List.append_cancel_right route

end Path

namespace Disk

def LinkFree (d : Disk) : Prop := ∀ loc target, d.node? loc ≠ some (.link target)

theorem linkFree_iff {d : Disk} :
    d.LinkFree ↔ ∀ entry ∈ d.nodes, ∀ target, entry.2 ≠ .link target := by
  constructor
  · rintro plain ⟨loc, node⟩ member target rfl
    exact plain loc target (mem_nodes_iff.1 member).2
  · intro plain loc target there
    have below : loc ≠ [] := ne_nil_of_node? there (by simp [Node.folder])
    exact plain _ (mem_nodes_iff.2 ⟨below, there⟩) target rfl

theorem LinkFree.node_cases {d : Disk} (plain : d.LinkFree) (loc : Location) :
    d.node? loc = none ∨ d.node? loc = some .folder ∨
      ∃ text modified, d.node? loc = some (.entry (.file text modified)) := by
  cases there : d.node? loc with
  | none => exact Or.inl rfl
  | some node =>
    cases node with
    | link target => exact absurd there (plain loc target)
    | entry entry =>
      cases entry with
      | folder => exact Or.inr (Or.inl rfl)
      | file text modified => exact Or.inr (Or.inr ⟨text, modified, rfl⟩)

def through? (d : Disk) : Location → List Move → Option Location
  | folder, [] => some folder
  | folder, .up :: rest => through? d folder.tail rest
  | folder, .down name :: rest =>
    if d.node? (name :: folder) = some .folder then through? d (name :: folder) rest else none
  | folder, _ :: rest => through? d folder rest

variable {d e : Disk} {folder loc : Location} {moves : List Move} {p : Path} {name : Name}

theorem through?_append (d : Disk) (folder : Location) (moves rest : List Move) :
    d.through? folder (moves ++ rest) = (d.through? folder moves).bind (d.through? · rest) := by
  induction moves generalizing folder with
  | nil => rfl
  | cons move moves ih =>
    cases move with
    | stay => exact ih folder
    | slash => exact ih folder
    | up => exact ih folder.tail
    | down name =>
      rw [List.cons_append, through?, through?]
      split
      · exact ih (name :: folder)
      · rfl

theorem through?_busy (d : Disk) (folder : Location) (moves : List Move) :
    d.through? folder (Move.busy moves) = d.through? folder moves := by
  induction moves generalizing folder with
  | nil => rfl
  | cons move rest ih =>
    cases move with
    | stay => exact ih folder
    | slash => exact ih folder
    | up => exact ih folder.tail
    | down name =>
      have kept : Move.busy (.down name :: rest) = .down name :: Move.busy rest := rfl
      rw [kept, through?, through?, ih]

theorem eq_foldl_of_through? (reached : d.through? folder moves = some loc) :
    loc = moves.foldl Move.next folder := by
  induction moves generalizing folder with
  | nil => exact (Option.some.inj reached).symm
  | cons move rest ih =>
    cases move with
    | stay => exact ih reached
    | slash => exact ih reached
    | up => exact ih reached
    | down name =>
      rw [through?] at reached
      split at reached
      · exact ih reached
      · cases reached

theorem node?_of_through? (start : d.node? folder = some .folder)
    (reached : d.through? folder moves = some loc) : d.node? loc = some .folder := by
  induction moves generalizing folder with
  | nil => rwa [← Option.some.inj reached]
  | cons move rest ih =>
    cases move with
    | stay => exact ih start reached
    | slash => exact ih start reached
    | up => exact ih (node?_tail start) reached
    | down name =>
      rw [through?] at reached
      split at reached
      next inside => exact ih inside reached
      next => cases reached

theorem Keeps.through? (keeps : d.Keeps e) (reached : d.through? folder moves = some loc) :
    e.through? folder moves = some loc := by
  induction moves generalizing folder with
  | nil => exact reached
  | cons move rest ih =>
    cases move with
    | stay => exact ih reached
    | slash => exact ih reached
    | up => exact ih reached
    | down name =>
      rw [Disk.through?] at reached ⊢
      split at reached
      next inside =>
        rw [if_pos (keeps _ inside)]
        exact ih reached
      next => cases reached

section Follow

variable {jump : Location → Path → List Move → Except Refusal Spot}

theorem follow_of_through? (reached : d.through? folder moves = some loc) (rest : List Move) :
    d.follow .look jump folder (moves ++ rest) = d.follow .look jump loc rest := by
  induction moves generalizing folder with
  | nil => rw [Option.some.inj reached, List.nil_append]
  | cons move moves ih =>
    cases move with
    | stay => exact ih reached
    | slash => exact ih reached
    | up => exact ih reached
    | down name =>
      rw [through?] at reached
      split at reached
      next inside =>
        rw [List.cons_append, follow, inside, if_neg (by simp)]
        exact ih reached
      next => cases reached

def spotAt (d : Disk) (loc : Location) : Spot :=
  match d.node? loc with
  | some (.entry entry) => .taken loc entry
  | _ => .free loc

theorem spotAt_eq_taken {place : Location} {entry : Entry} (same : d.spotAt place = .taken loc entry) :
    place = loc ∧ d.node? loc = some (.entry entry) := by
  unfold spotAt at same
  split at same
  next there =>
    cases same
    exact ⟨rfl, there⟩
  next => cases same

theorem follow_to_last (plain : d.LinkFree) {aim : Aim} {rest : List Move} {spot : Spot}
    (other : d.node? (name :: folder) ≠ some .folder)
    (found : d.follow aim jump folder (.down name :: rest) = .ok spot) :
    rest = [] ∧ spot = d.spotAt (name :: folder) := by
  rw [follow] at found
  split at found
  · cases found
  · rcases plain.node_cases (name :: folder) with missing | inside | ⟨text, modified, file⟩
    · simp only [missing, List.isEmpty_iff] at found
      split at found
      next last => exact ⟨last, by simpa [spotAt, missing] using found.symm⟩
      next => cases found
    · exact absurd inside other
    · simp only [file, List.isEmpty_iff] at found
      split at found
      next last => exact ⟨last, by simpa [spotAt, file] using found.symm⟩
      next => cases found

theorem through?_of_follow (plain : d.LinkFree) {rest : List Move} {spot : Spot}
    (found : d.follow .look jump folder (moves ++ rest) = .ok spot)
    (whole : rest = [] → ∃ loc, spot = .taken loc .folder) :
    ∃ loc, d.through? folder moves = some loc ∧ d.follow .look jump loc rest = .ok spot := by
  induction moves generalizing folder with
  | nil => exact ⟨folder, rfl, found⟩
  | cons move moves ih =>
    cases move with
    | stay => exact ih found
    | slash => exact ih found
    | up => exact ih found
    | down name =>
      rw [List.cons_append] at found
      by_cases inside : d.node? (name :: folder) = some .folder
      next =>
        rw [follow, inside, if_neg (by simp)] at found
        rw [through?, if_pos inside]
        exact ih found
      next =>
        obtain ⟨last, spot⟩ := follow_to_last plain inside found
        obtain ⟨loc, rfl⟩ := whole (List.append_eq_nil_iff.1 last).2
        obtain ⟨rfl, folder⟩ := spotAt_eq_taken spot.symm
        exact absurd folder inside

theorem follow_eq_folder_iff (plain : d.LinkFree) :
    d.follow .look jump folder moves = .ok (.taken loc .folder) ↔
      d.through? folder moves = some loc := by
  constructor
  · intro found
    rw [← List.append_nil moves] at found
    obtain ⟨place, reached, stopped⟩ := through?_of_follow plain found fun _ => ⟨loc, rfl⟩
    rw [follow] at stopped
    cases stopped
    exact reached
  · intro reached
    rw [← List.append_nil moves, follow_of_through? reached, follow]

end Follow

theorem follow_down (plain : d.LinkFree) (jump : Location → Path → List Move → Except Refusal Spot)
    (aim : Aim) (folder : Location) (name : Name) :
    d.follow aim jump folder [.down name] = .ok (d.spotAt (name :: folder)) := by
  rw [follow, if_neg (by simp), spotAt]
  rcases plain.node_cases (name :: folder) with missing | inside | ⟨text, modified, file⟩
  · rw [missing]
    rfl
  · rw [inside]
    rfl
  · rw [file]
    rfl

-- A separator at the end is all that tells a lookup for writing from another one.
theorem follow_aim (plain : d.LinkFree) (jump jump' : Location → Path → List Move → Except Refusal Spot)
    (aim : Aim) (folder : Location) {moves : List Move} (unended : Move.slash ∉ moves) :
    d.follow aim jump folder moves = d.follow .look jump' folder moves := by
  induction moves generalizing folder with
  | nil => rfl
  | cons move rest ih =>
    have after : Move.slash ∉ rest := fun member => unended (List.mem_cons_of_mem move member)
    cases move with
    | stay => exact ih folder after
    | slash => exact absurd List.mem_cons_self unended
    | up => exact ih folder.tail after
    | down name =>
      have more : rest ≠ [.slash] := by
        rintro rfl
        exact after List.mem_cons_self
      simp only [follow, more, and_false, reduceCtorEq, if_false]
      rcases plain.node_cases (name :: folder) with missing | inside | ⟨text, modified, file⟩
      · rw [missing]
      · rw [inside]
        exact ih (name :: folder) after
      · rw [file]

theorem resolve_eq_follow (d : Disk) (aim : Aim) (links : Nat) :
    ∃ jump, d.resolve aim links = d.follow aim jump := by
  cases links with
  | zero => exact ⟨_, rfl⟩
  | succ links => exact ⟨_, rfl⟩

theorem find_eq_follow (d : Disk) (aim : Aim) (begun : p.bytes ≠ []) :
    ∃ jump, d.find aim p = d.follow aim jump (p.startFrom d.here) p.moves := by
  obtain ⟨jump, same⟩ := resolve_eq_follow d aim maxLinks
  exact ⟨jump, by rw [find, if_neg (by simpa using begun), same]⟩

theorem find_empty (d : Disk) (aim : Aim) (empty : p.bytes = []) : d.find aim p = .error .noEntry := by
  rw [find, if_pos (by simpa using empty)]

theorem text_ne_of_find {aim : Aim} {spot : Spot} (found : d.find aim p = .ok spot) : p.bytes ≠ [] := by
  intro empty
  rw [find_empty d aim empty] at found
  cases found

def folderAt? (d : Disk) (p : Path) : Option Location := d.through? (p.startFrom d.here) p.route

theorem find_folder_iff (plain : d.LinkFree) :
    d.find .look p = .ok (.taken loc .folder) ↔
      p.bytes ≠ [] ∧ d.folderAt? p = some loc := by
  rw [folderAt?, ← p.busy_moves, through?_busy]
  constructor
  · intro found
    have begun := text_ne_of_find found
    obtain ⟨jump, same⟩ := find_eq_follow d .look begun
    rw [same, follow_eq_folder_iff plain] at found
    exact ⟨begun, found⟩
  · rintro ⟨begun, reached⟩
    obtain ⟨jump, same⟩ := find_eq_follow d .look begun
    rwa [same, follow_eq_folder_iff plain]

theorem find_child_eq (plain : d.LinkFree) (aim : Aim) (p : Path) (name : Name) :
    ∃ above jump, d.find aim (p / name) =
        d.follow .look jump (p.startFrom d.here) (above ++ [.down name]) ∧
      Move.busy above = p.route := by
  obtain ⟨above, moves, route, unended⟩ := Path.moves_child p name
  obtain ⟨jump, same⟩ := find_eq_follow d aim (Path.text_child_ne p name)
  refine ⟨above, jump, ?_, route⟩
  rw [same, moves, Path.startFrom_child]
  exact follow_aim plain jump jump aim _ (by simp [unended])

theorem find_child_of_folderAt? (plain : d.LinkFree) (aim : Aim) (reached : d.folderAt? p = some loc)
    (name : Name) : d.find aim (p / name) = .ok (d.spotAt (name :: loc)) := by
  obtain ⟨above, jump, same, route⟩ := find_child_eq plain aim p name
  rw [folderAt?, ← route, through?_busy] at reached
  rw [same, follow_of_through? reached, follow_down plain]

theorem find_child (plain : d.LinkFree) (aim : Aim) (inside : d.find .look p = .ok (.taken loc .folder))
    (name : Name) : d.find aim (p / name) = .ok (d.spotAt (name :: loc)) :=
  find_child_of_folderAt? plain aim ((find_folder_iff plain).1 inside).2 name

theorem find_of_child (plain : d.LinkFree) {aim : Aim} {spot : Spot} (begun : p.bytes ≠ [])
    (found : d.find aim (p / name) = .ok spot) :
    ∃ loc, d.find .look p = .ok (.taken loc .folder) ∧ spot = d.spotAt (name :: loc) := by
  -- the name in front of the last is looked up as a folder, or there is no spot
  obtain ⟨above, jump, same, route⟩ := find_child_eq plain aim p name
  rw [same] at found
  obtain ⟨loc, reached, last⟩ := through?_of_follow plain found (by simp)
  rw [follow_down plain] at last
  rw [← through?_busy, route] at reached
  exact ⟨loc, (find_folder_iff plain).2 ⟨begun, reached⟩, (Except.ok.inj last).symm⟩

theorem stat_child (plain : d.LinkFree) (inside : d.find .look p = .ok (.taken loc .folder))
    (name : Name) : d.stat (p / name) =
      match d.node? (name :: loc) with
      | some (.entry entry) => .ok entry
      | _ => .error .noEntry := by
  rw [stat, find_child plain .look inside, spotAt]
  match d.node? (name :: loc) with
  | none => rfl
  | some (.entry entry) => rfl
  | some (.link target) => rfl

theorem Keeps.find_folder (keeps : d.Keeps e) (here : e.here = d.here) (plain : d.LinkFree)
    (plain' : e.LinkFree) (inside : d.find .look p = .ok (.taken loc .folder)) :
    e.find .look p = .ok (.taken loc .folder) := by
  obtain ⟨begun, reached⟩ := (find_folder_iff plain).1 inside
  refine (find_folder_iff plain').2 ⟨begun, ?_⟩
  rw [folderAt?, here]
  exact keeps.through? reached

theorem LinkFree.entry (plain : d.LinkFree) (there : d.node? loc ≠ none) :
    ∃ entry, d.node? loc = some (.entry entry) := by
  obtain ⟨node, node?⟩ := Option.ne_none_iff_exists'.1 there
  match node with
  | .entry entry => exact ⟨entry, node?⟩
  | .link target => exact absurd node? (plain loc target)

theorem present_iff : d.present p = true ↔ ∃ loc entry, d.find .look p = .ok (.taken loc entry) := by
  unfold present stat
  cases d.find .look p with
  | error why => simp [Except.isOk, Except.toBool]
  | ok spot => cases spot <;> simp [Except.isOk, Except.toBool]

theorem present_child_iff (plain : d.LinkFree) (begun : p.bytes ≠ []) (name : Name) :
    d.present (p / name) = true ↔
      ∃ loc, d.find .look p = .ok (.taken loc .folder) ∧ d.node? (name :: loc) ≠ none := by
  rw [present_iff]
  constructor
  · rintro ⟨loc, entry, found⟩
    obtain ⟨folder, inside, spot⟩ := find_of_child plain begun found
    refine ⟨folder, inside, fun missing => ?_⟩
    rw [spotAt, missing] at spot
    cases spot
  · rintro ⟨folder, inside, there⟩
    obtain ⟨entry, node⟩ := plain.entry there
    exact ⟨_, entry, by rw [find_child plain .look inside, spotAt, node]⟩

end Disk

end FrontendSurvey
