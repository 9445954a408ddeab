import FrontendSurvey.Disk.Lookup

set_option autoImplicit false

namespace FrontendSurvey

namespace Path

def ancestorsWithin : Nat → Path → List Path
  | 0, _ => []
  | n + 1, p =>
    match p.parent? with
    | none => []
    | some parent => p :: ancestorsWithin n parent

def ancestors (p : Path) : List Path :=
  -- every parent is shorter, so the fuel is enough
  ancestorsWithin (p.bytes.length + 1) p

end Path

namespace Disk

def Admits (d : Disk) (loc : Location) (node : Node) : Prop :=
  loc ≠ [] ∧ d.node? loc.tail = some .folder ∧ (d.node? loc = some .folder → node = .folder)

instance (d : Disk) (loc : Location) (node : Node) : Decidable (d.Admits loc node) :=
  inferInstanceAs (Decidable (_ ∧ _ ∧ _))

theorem Admits.mem_nodes {d : Disk} {loc : Location} {node : Node} (ok : d.Admits loc node)
    {folder : Location} (member : (folder, Node.folder) ∈ d.nodes) :
    (folder, Node.folder) ∈ (loc, node) :: d.nodes.filter (·.1 != loc) := by
  by_cases same : folder = loc
  next =>
    subst same
    rw [ok.2.2 (mem_nodes_iff.1 member).2]
    exact List.mem_cons_self
  next => simp [member, same]

def set (d : Disk) (loc : Location) (node : Node) : Disk :=
  if ok : d.Admits loc node then
    { here := d.here
      nodes := (loc, node) :: d.nodes.filter (·.1 != loc)
      distinct := by
        simp only [List.map_cons, List.nodup_cons]
        refine ⟨?_, d.distinct.sublist (List.filter_sublist.map _)⟩
        simp
      housed := by
        have lifted : ∀ place, Housed d.nodes place →
            Housed ((loc, node) :: d.nodes.filter (·.1 != loc)) place := by
          intro place below
          cases place with
          | nil => exact below
          | cons name folder => exact below.imp_right ok.mem_nodes
        intro entry member
        rcases List.mem_cons.1 member with rfl | member
        · obtain ⟨name, folder, rfl⟩ := List.exists_cons_of_ne_nil ok.1
          by_cases root : folder = []
          · exact Or.inl root
          · exact Or.inr (ok.mem_nodes (mem_nodes_iff.2 ⟨root, ok.2.1⟩))
        · exact lifted _ (d.housed entry (List.mem_filter.1 member).1)
      settled := d.settled.imp_right ok.mem_nodes }
  else d

def eraseAll (d : Disk) (loc : Location) : Disk where
  -- removes what lies at a location or below it. If relative paths start there, they start above it
  here := if loc <:+ d.here then loc.tail else d.here
  nodes := d.nodes.filter fun entry => !loc.isSuffixOf entry.1
  distinct := d.distinct.sublist (List.filter_sublist.map _)
  housed := by
    intro entry member
    rw [List.mem_filter] at member
    have below := d.housed entry member.1
    cases place : entry.1 with
    | nil => simp [place, Housed] at below
    | cons name folder =>
      rw [place] at below
      refine below.imp_right fun parent => ?_
      rw [List.mem_filter]
      refine ⟨parent, ?_⟩
      have outside := member.2
      simp only [place, Bool.not_eq_true', Bool.eq_false_iff, ne_eq, List.isSuffixOf_iff_suffix]
        at outside ⊢
      exact fun inside => outside (inside.trans (List.suffix_cons name folder))
  settled := by
    split
    next inside =>
      by_cases root : loc.tail = []
      · exact Or.inl root
      · refine Or.inr (List.mem_filter.2 ⟨?_, ?_⟩)
        · exact mem_nodes_iff.2 ⟨root, node?_suffix node?_here ((List.tail_suffix loc).trans inside)⟩
        · have shorter : loc.tail.length < loc.length := by
            cases loc with
            | nil => exact absurd rfl root
            | cons name folder => simp
          simp only [Bool.not_eq_true', Bool.eq_false_iff, ne_eq, List.isSuffixOf_iff_suffix]
          exact fun within => absurd within.length_le (by omega)
    next outside =>
      refine d.settled.imp_right fun member => List.mem_filter.2 ⟨member, ?_⟩
      simpa [Bool.eq_false_iff, List.isSuffixOf_iff_suffix] using outside

theorem find?_filter_location (nodes : List (Location × Node)) (keep : Location → Bool)
    (loc : Location) :
    (nodes.filter fun entry => keep entry.1).find? (·.1 == loc) =
      if keep loc then nodes.find? (·.1 == loc) else none := by
  induction nodes with
  | nil => simp
  | cons first rest ih =>
    by_cases same : first.1 = loc
    next => cases kept : keep loc <;> simp [same, kept, ih]
    next => cases kept : keep first.1 <;> simp [same, kept, ih]

@[simp] theorem here_set (d : Disk) (loc : Location) (node : Node) :
    (d.set loc node).here = d.here := by
  unfold set
  split <;> rfl

theorem set_nodes {d : Disk} {loc : Location} {node : Node} (ok : d.Admits loc node) :
    (d.set loc node).nodes = (loc, node) :: d.nodes.filter (·.1 != loc) := by
  simp [set, ok]

theorem node?_set {d : Disk} {loc : Location} {node : Node} (ok : d.Admits loc node)
    (place : Location) :
    (d.set loc node).node? place = if place = loc then some node else d.node? place := by
  cases place with
  | nil => simp [node?, ok.1.symm]
  | cons name folder =>
    simp only [node?, set_nodes ok, List.find?_cons, find?_filter_location _ (· != loc)]
    by_cases same : name :: folder = loc
    next => simp [same]
    next =>
      have other : (loc == name :: folder) = false := by simpa using Ne.symm same
      simp [same, other]

def write (d : Disk) (p : Path) (text : Option String) (modified : Instant) :
    Except Refusal Disk :=
  match d.find .write p with
  | .ok (.taken _ .folder) => .error .isAFolder
  | .ok (.taken loc (.file _ _)) => .ok (d.set loc (.entry (.file text modified)))
  | .ok (.free loc) => .ok (d.set loc (.entry (.file text modified)))
  | .error why => .error why

/-- The last name is looked up in the folder that the rest leads to, and no link is followed there. -/
def place (d : Disk) (p : Path) : Except Refusal Location :=
  match p.pieces.reverse.dropWhile (· == []) with
  | [] => if p.bytes.isEmpty then .error .noEntry else .error .entryExists
  | last :: above =>
    match d.resolve .look maxLinks (p.startFrom d.here) (above.reverse.map Move.ofPiece) with
    | .ok (.taken folder .folder) =>
      match Move.ofPiece last with
      | .down name => .ok (name :: folder)
      | _ => .error .entryExists
    | .ok (.taken _ (.file _ _)) => .error .notAFolder
    | .ok (.free _) => .error .noEntry
    | .error why => .error why

def add (d : Disk) (p : Path) (node : Node) : Except Refusal Disk :=
  match d.place p with
  | .ok loc => if (d.node? loc).isSome then .error .entryExists else .ok (d.set loc node)
  | .error why => .error why

def ensureFolder (d : Disk) (p : Path) : Disk × Option Refusal :=
  match d.add p .folder with
  | .ok d => (d, none)
  | .error why => if why = .entryExists ∧ d.isFolder p then (d, none) else (d, some why)

def makeFoldersUp (d : Disk) : List Path → Disk × Option Refusal
  | [] => (d, none)
  | p :: above =>
    match d.add p .folder with
    | .error .noEntry =>
      match makeFoldersUp d above with
      | (d, none) => d.ensureFolder p
      | failed => failed
    | _ => d.ensureFolder p

def makeFolders (d : Disk) (p : Path) : Disk × Option Refusal :=
  d.makeFoldersUp p.ancestors

def remove (d : Disk) (p : Path) : Except Refusal Disk :=
  match d.place p with
  | .ok loc => if (d.node? loc).isSome then .ok (d.eraseAll loc) else .error .noEntry
  | .error why => .error why

def enter (d : Disk) (p : Path) : Except Refusal Disk :=
  match found : d.find .look p with
  | .ok (.taken loc .folder) => .ok { d with here := loc, settled := mem_of_folder (find_sound found) }
  | .ok (.taken _ (.file _ _)) => .error .notAFolder
  | .ok (.free _) => .error .noEntry
  | .error why => .error why

end Disk

end FrontendSurvey
