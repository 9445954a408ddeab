import FrontendSurvey.Proofs.Disk.Locate

set_option autoImplicit false

namespace FrontendSurvey.Disk

structure Grows (d e : Disk) (within : Location → Prop) : Prop where
  here : e.here = d.here
  node : ∀ loc, e.node? loc = d.node? loc ∨
    within loc ∧ d.node? loc = none ∧ e.node? loc = some .folder

variable {d e : Disk} {p : Path} {loc : Location} {within : Location → Prop}

theorem Grows.refl (d : Disk) (within : Location → Prop) : d.Grows d within :=
  ⟨rfl, fun _ => Or.inl rfl⟩

theorem Grows.trans {f : Disk} (first : d.Grows e within) (second : e.Grows f within) :
    d.Grows f within where
  here := second.here.trans first.here
  node := by
    intro loc
    rcases second.node loc with same | ⟨inside, missing, made⟩
    · rw [same]
      exact first.node loc
    · rcases first.node loc with same | ⟨-, -, before⟩
      · exact Or.inr ⟨inside, same ▸ missing, made⟩
      · simp [before] at missing

theorem Grows.keeps (grows : d.Grows e within) : d.Keeps e := by
  intro loc folder
  rcases grows.node loc with same | ⟨-, missing, -⟩
  · rw [same, folder]
  · simp [missing] at folder

theorem Grows.linkFree (grows : d.Grows e within) (plain : d.LinkFree) : e.LinkFree := by
  intro loc target there
  rcases grows.node loc with same | ⟨-, -, made⟩
  · exact plain loc target (same ▸ there)
  · simp [made, Node.folder] at there

theorem locate_of_here (here : e.here = d.here) (p : Path) : e.locate p = d.locate p := by
  rw [locate, locate, here]

theorem place_eq_ok (plain : d.LinkFree) (placed : d.place p = .ok loc) :
    ∃ name folder way, loc = name :: folder ∧ p.route = way ++ [.down name] ∧
      d.through? (p.startFrom d.here) way = some folder := by
  unfold place at placed
  split at placed
  next => split at placed <;> cases placed
  next last above parted =>
    obtain ⟨jump, same⟩ := resolve_eq_follow d .look maxLinks
    rw [same] at placed
    split at placed
    next folder found =>
      split at placed
      next name named =>
        obtain rfl := Except.ok.inj placed
        refine ⟨name, folder, Move.busy (above.reverse.map Move.ofPiece), rfl, ?_, ?_⟩
        · rw [Path.route_of_last parted, named]
          rfl
        · rw [through?_busy]
          exact (follow_eq_folder_iff plain).1 found
      next => cases placed
    all_goals cases placed

theorem locate_of_place (plain : d.LinkFree) (placed : d.place p = .ok loc) : loc = d.locate p := by
  obtain ⟨name, folder, way, rfl, route, reached⟩ := place_eq_ok plain placed
  rw [locate, route, List.foldl_append, ← eq_foldl_of_through? reached]
  rfl

theorem text_ne_of_place (plain : d.LinkFree) (placed : d.place p = .ok loc) : p.bytes ≠ [] := by
  obtain ⟨name, folder, way, rfl, route, -⟩ := place_eq_ok plain placed
  intro empty
  rw [Path.route, Path.steps_eq_nil_iff.2 empty] at route
  simp at route

theorem grows_set (free : d.node? loc = none) (ok : d.Admits loc .folder) (inside : within loc) :
    d.Grows (d.set loc .folder) within where
  here := here_set d loc .folder
  node := by
    intro place
    rw [node?_set ok]
    split
    next same => exact Or.inr ⟨same ▸ inside, same ▸ free, rfl⟩
    next => exact Or.inl rfl

theorem add_folder (plain : d.LinkFree) (added : d.add p .folder = .ok e)
    (inside : within (d.locate p)) :
    d.Grows e within ∧ e.find .look p = .ok (.taken (d.locate p) .folder) := by
  unfold add at added
  split at added
  next loc placed =>
    split at added
    · cases added
    next free =>
      obtain rfl := Except.ok.inj added
      have same := locate_of_place plain placed
      have missing : d.node? loc = none := by simpa using free
      have sound := place_sound placed
      have ok : d.Admits loc .folder := ⟨sound.1, sound.2, fun _ => rfl⟩
      have grows : d.Grows (d.set loc .folder) within := grows_set missing ok (same ▸ inside)
      obtain ⟨name, folder, way, rfl, route, reached⟩ := place_eq_ok plain placed
      refine ⟨grows, (find_folder_iff (grows.linkFree plain)).2 ⟨text_ne_of_place plain placed, ?_⟩⟩
      rw [folderAt?, grows.here, route, through?_append, grows.keeps.through? reached, ← same]
      simp [through?, node?_set ok]
  next => cases added

theorem ensureFolder_spec (plain : d.LinkFree) (made : d.ensureFolder p = (e, none))
    (inside : within (d.locate p)) :
    d.Grows e within ∧ e.find .look p = .ok (.taken (d.locate p) .folder) := by
  unfold ensureFolder at made
  split at made
  next after added =>
    obtain rfl : after = e := (Prod.mk.inj made).1
    exact add_folder plain added inside
  next why refused =>
    split at made
    next there =>
      obtain rfl : d = e := (Prod.mk.inj made).1
      obtain ⟨loc, found⟩ := isFolder_iff.1 there.2
      have same : loc = d.locate p := find_loc plain found
      exact ⟨Grows.refl d within, by rw [found, same]⟩
    next => cases made

theorem makeFoldersUp_spec (plain : d.LinkFree) {paths : List Path}
    (made : d.makeFoldersUp paths = (e, none)) (inside : ∀ q ∈ paths, within (d.locate q)) :
    d.Grows e within ∧
      ∀ p, paths.head? = some p → e.find .look p = .ok (.taken (d.locate p) .folder) := by
  induction paths generalizing e with
  | nil =>
    obtain rfl : d = e := (Prod.mk.inj made).1
    exact ⟨Grows.refl d within, by simp⟩
  | cons p above ih =>
    have last {f : Disk} (grows : d.Grows f within) (ensured : f.ensureFolder p = (e, none)) :
        d.Grows e within ∧
          ∀ q, (p :: above).head? = some q → e.find .look q = .ok (.taken (d.locate q) .folder) := by
      have same := locate_of_here grows.here p
      obtain ⟨more, found⟩ := ensureFolder_spec (grows.linkFree plain) ensured
        (same ▸ inside p (by simp))
      refine ⟨grows.trans more, fun q first => ?_⟩
      obtain rfl : p = q := by simpa using first
      rw [found, same]
    rw [makeFoldersUp] at made
    split at made
    next =>
      cases before : d.makeFoldersUp above with
      | mk f outcome =>
        rw [before] at made
        cases outcome with
        | none => exact last (ih before fun q member => inside q (by simp [member])).1 made
        | some why => cases (Prod.mk.inj made).2
    next => exact last (Grows.refl d within) made

theorem makeFolders_spec (plain : d.LinkFree) (made : d.makeFolders p = (e, none)) :
    d.Grows e (d.Leading p) ∧ e.folderAt? p = some (d.locate p) := by
  have inside : ∀ q ∈ p.ancestors, d.Leading p (d.locate q) := by
    intro q member
    obtain ⟨begun, steps⟩ := Path.of_mem_ancestors member
    exact leading_of_steps begun steps
  obtain ⟨grows, found⟩ := makeFoldersUp_spec plain made inside
  refine ⟨grows, ?_⟩
  rcases p.ancestors_cases with ⟨none, route⟩ | ⟨above, some⟩
  · rw [folderAt?, grows.here, locate, route]
    rfl
  · exact ((find_folder_iff (grows.linkFree plain)).1 (found p (by simp [some]))).2

theorem node?_of_leading {way : List Move} {start : Location} (begun : d.node? start = some .folder)
    (reached : d.through? start way = some loc) {moves : List Move} (first : moves <+: way) :
    d.node? (moves.foldl Move.next start) = some .folder := by
  obtain ⟨rest, rfl⟩ := first
  rw [through?_append, Option.bind_eq_some_iff] at reached
  obtain ⟨place, before, -⟩ := reached
  rw [← eq_foldl_of_through? before]
  exact node?_of_through? begun before

theorem add_of_folder (plain : d.LinkFree) (node : Node)
    (there : d.find .look p = .ok (.taken loc .folder)) : d.add p node = .error .entryExists := by
  obtain ⟨begun, reached⟩ := (find_folder_iff plain).1 there
  unfold add place
  cases parted : p.pieces.reverse.dropWhile (· == []) with
  | nil => simp [begun]
  | cons last above =>
    obtain ⟨jump, same⟩ := resolve_eq_follow d .look maxLinks
    rw [folderAt?, Path.route_of_last parted, through?_append, through?_busy,
      Option.bind_eq_some_iff] at reached
    obtain ⟨folder, before, onward⟩ := reached
    have found : d.resolve .look maxLinks (p.startFrom d.here) (above.reverse.map Move.ofPiece) =
        .ok (.taken folder .folder) := by
      rw [same]
      exact (follow_eq_folder_iff plain).2 before
    simp only [found]
    cases named : Move.ofPiece last with
    | down name =>
      have inside : d.node? (name :: folder) = some .folder := by
        have single : Move.busy [.down name] = [.down name] := rfl
        rw [named, single, through?] at onward
        split at onward
        next inside => exact inside
        next => cases onward
      simp [inside]
    | _ => rfl

theorem makeFolders_of_folderAt? (plain : d.LinkFree) (reached : d.folderAt? p = some loc) :
    d.makeFolders p = (d, none) := by
  rw [makeFolders]
  rcases p.ancestors_cases with ⟨none, -⟩ | ⟨above, some⟩
  · rw [none, makeFoldersUp]
  · have first : p ∈ p.ancestors := by simp [some]
    have there := (find_folder_iff plain).2 ⟨(Path.of_mem_ancestors first).1, reached⟩
    rw [some, makeFoldersUp, add_of_folder plain .folder there, ensureFolder,
      add_of_folder plain .folder there]
    simp [isFolder_iff.2 ⟨loc, there⟩]

end FrontendSurvey.Disk
