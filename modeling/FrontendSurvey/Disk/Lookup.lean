import FrontendSurvey.Disk

set_option autoImplicit false

namespace FrontendSurvey.Disk

@[simp] theorem node?_nil (d : Disk) : d.node? [] = some .folder := rfl

theorem node?_of_mem_or {d : Disk} {loc : Location} (there : loc = [] ∨ (loc, Node.folder) ∈ d.nodes) :
    d.node? loc = some .folder := by
  rcases there with rfl | member
  · rfl
  · exact (mem_nodes_iff.1 member).2

theorem mem_of_folder {d : Disk} {loc : Location} (there : d.node? loc = some .folder) :
    loc = [] ∨ (loc, Node.folder) ∈ d.nodes := by
  by_cases root : loc = []
  · exact Or.inl root
  · exact Or.inr (mem_nodes_iff.2 ⟨root, there⟩)

theorem ne_nil_of_node? {d : Disk} {loc : Location} {node : Node} (there : d.node? loc = some node)
    (other : node ≠ .folder) : loc ≠ [] := by
  rintro rfl
  exact other (Option.some.inj there).symm

@[simp] theorem node?_here {d : Disk} : d.node? d.here = some .folder := node?_of_mem_or d.settled

theorem node?_tail {d : Disk} {loc : Location} {node : Node} (there : d.node? loc = some node) :
    d.node? loc.tail = some .folder := by
  cases loc with
  | nil => rfl
  | cons name folder =>
    have member : (name :: folder, node) ∈ d.nodes := mem_nodes_iff.2 ⟨by simp, there⟩
    exact node?_of_mem_or (d.housed _ member)

theorem node?_suffix {d : Disk} {loc above : Location} (there : d.node? loc = some .folder)
    (within : above <:+ loc) : d.node? above = some .folder := by
  induction loc with
  | nil => rwa [List.suffix_nil.1 within]
  | cons name folder ih =>
    rcases List.suffix_cons_iff.1 within with rfl | within
    · exact there
    · exact ih (node?_tail there) within

theorem node?_above {d : Disk} {loc above : Location} {node : Node} (there : d.node? loc = some node)
    (within : above <:+ loc) (proper : above ≠ loc) : d.node? above = some .folder := by
  cases loc with
  | nil => exact absurd (List.suffix_nil.1 within) proper
  | cons name folder =>
    rcases List.suffix_cons_iff.1 within with same | within
    · exact absurd same proper
    · exact node?_suffix (node?_tail there) within

def Sound (d : Disk) : Spot → Prop
  | .taken loc entry => d.node? loc = some (.entry entry)
  | .free loc => loc ≠ [] ∧ d.node? loc = none ∧ d.node? loc.tail = some .folder

theorem follow_sound {d : Disk} {aim : Aim} {jump : Location → Path → List Move → Except Refusal Spot}
    (jumps : ∀ folder target rest spot, d.node? folder = some .folder →
      jump folder target rest = .ok spot → d.Sound spot)
    {folder : Location} {moves : List Move} {spot : Spot} (start : d.node? folder = some .folder)
    (found : d.follow aim jump folder moves = .ok spot) : d.Sound spot := by
  induction moves generalizing folder with
  | nil =>
    obtain rfl := Except.ok.inj found
    exact start
  | cons move rest ih =>
    cases move with
    | stay => exact ih start found
    | slash => exact ih start found
    | up => exact ih (node?_tail start) found
    | down name =>
      rw [follow] at found
      split at found
      · cases found
      · split at found
        next missing =>
          split at found
          · obtain rfl := Except.ok.inj found
            exact ⟨by simp, missing, start⟩
          · cases found
        next inside => exact ih inside found
        next inside =>
          split at found
          · obtain rfl := Except.ok.inj found
            exact inside
          · cases found
        next => exact jumps _ _ _ _ start found

theorem node?_startFrom {d : Disk} {folder : Location} (start : d.node? folder = some .folder)
    (p : Path) : d.node? (p.startFrom folder) = some .folder := by
  unfold Path.startFrom
  split
  · rfl
  · exact start

theorem resolve_sound {d : Disk} {aim : Aim} {links : Nat} {folder : Location} {moves : List Move}
    {spot : Spot} (start : d.node? folder = some .folder)
    (found : d.resolve aim links folder moves = .ok spot) : d.Sound spot := by
  induction links generalizing folder moves spot with
  | zero =>
    refine follow_sound (fun _ _ _ _ _ stopped => ?_) start found
    cases stopped
  | succ links ih =>
    refine follow_sound (fun _ target _ _ inside onward => ?_) start found
    exact ih (node?_startFrom inside target) onward

theorem find_sound {d : Disk} {aim : Aim} {p : Path} {spot : Spot}
    (found : d.find aim p = .ok spot) : d.Sound spot := by
  unfold find at found
  split at found
  · cases found
  · exact resolve_sound (node?_startFrom node?_here p) found

theorem stat_iff {d : Disk} {p : Path} {entry : Entry} :
    d.stat p = .ok entry ↔ ∃ loc, d.find .look p = .ok (.taken loc entry) := by
  unfold stat
  cases d.find .look p with
  | error why => simp
  | ok spot => cases spot <;> simp

theorem isFolder_iff {d : Disk} {p : Path} :
    d.isFolder p = true ↔ ∃ loc, d.find .look p = .ok (.taken loc .folder) := by
  unfold isFolder stat
  cases d.find .look p with
  | error why => simp
  | ok spot =>
    match spot with
    | .taken loc .folder => simp
    | .taken loc (.file _ _) => simp
    | .free loc => simp

theorem isFile_iff {d : Disk} {p : Path} : d.isFile p = true ↔
    ∃ loc text modified, d.find .look p = .ok (.taken loc (.file text modified)) := by
  unfold isFile stat
  cases d.find .look p with
  | error why => simp
  | ok spot =>
    match spot with
    | .taken loc .folder => simp
    | .taken loc (.file _ _) => simp
    | .free loc => simp

theorem isFile_of_readText {d : Disk} {p : Path} {text : String} (read : d.readText p = .ok text) :
    d.isFile p = true := by
  unfold readText at read
  split at read
  next modified file => simp only [isFile, file]
  all_goals cases read

theorem list_iff {d : Disk} {p : Path} {names : List Name} :
    d.list p = .ok names ↔ ∃ loc, d.find .look p = .ok (.taken loc .folder) ∧ d.namesIn loc = names := by
  unfold list
  cases d.find .look p with
  | error why => simp
  | ok spot =>
    match spot with
    | .taken loc .folder => simp
    | .taken loc (.file _ _) => simp
    | .free loc => simp

end FrontendSurvey.Disk
