import FrontendSurvey.Proofs.Disk.Links
import FrontendSurvey.Proofs.Tree.Unfolding

set_option autoImplicit false

namespace FrontendSurvey.Disk

variable {d : Disk} {root p q child : Path} {skipped : List String} {loc back : Location} {name : Name}
  {walked : Walked}

def Enters (d : Disk) (skipped : List String) (child folder : Path) : Prop :=
  ∃ names, d.walkNames skipped folder = .ok names ∧
    ∃ name ∈ names, child = folder / name ∧ d.stat child = .ok .folder

theorem walkStep_congr {below other : Path → Except Fault Walked}
    (same : ∀ child, d.Enters skipped child p → below child = other child) :
    d.walkStep root skipped below p = d.walkStep root skipped other p := by
  cases listed : d.walkNames skipped p with
  | error why => simp only [walkStep, listed, Except.mapError, bind, Except.bind]
  | ok names =>
    have visits : names.mapM (d.visit root below p) = names.mapM (d.visit root other p) := by
      apply mapM_congr
      intro name member
      simp only [visit]
      cases there : d.stat (p / name) with
      | error why => rfl
      | ok entry =>
        cases entry with
        | folder => simp only [same _ ⟨names, listed, name, member, rfl, there⟩]
        | file text modified => rfl
    simp only [walkStep, listed, Except.mapError, bind, Except.bind, visits]

/-- What is left to a walk in a folder: links, each of which may lead anywhere, and depth. -/
def room (d : Disk) (used : Nat) (loc : Location) : Nat :=
  (maxLinks - used) * (d.height + 1) + (d.height - loc.length)

def Roomy (d : Disk) (p : Path) (n : Nat) : Prop :=
  ∃ used loc, used ≤ maxLinks ∧ d.Leads (p.startFrom d.here) p.route used loc ∧ d.room used loc = n

theorem roomy_of_folder (inside : d.stat p = .ok .folder) : ∃ n, d.Roomy p n := by
  obtain ⟨loc, found⟩ := stat_iff.1 inside
  obtain ⟨-, used, enough, leads⟩ := find_eq_folder_iff.1 found
  exact ⟨_, used, loc, enough, leads, rfl⟩

theorem roomy_le {n : Nat} (roomy : d.Roomy p n) : n ≤ maxLinks * (d.height + 1) + d.height := by
  obtain ⟨used, loc, -, -, rfl⟩ := roomy
  exact Nat.add_le_add (Nat.mul_le_mul_right _ (Nat.sub_le _ _)) (Nat.sub_le _ _)

-- A name is that of a folder, one level down, or of a link, which takes up one of those that are left.
theorem room_lt {links further : Nat} {place : Location} (used : Nat) (few : links = maxLinks - used)
    (leads : d.Leads loc [.down name] further place) (enough : further ≤ links) :
    d.room (used + further) place < d.room used loc := by
  cases leads with
  | idle idle => cases idle
  | down inside onward =>
    cases onward
    have bounded := length_le_height inside
    simp only [room, List.length_cons, Nat.add_zero] at bounded ⊢
    omega
  | @link _ _ _ target _ left there onward =>
    have fewer : maxLinks - (used + (left + 1)) + (left + 1) = maxLinks - used := by omega
    have spent : (maxLinks - (used + (left + 1)) + 1) * (d.height + 1) ≤
        (maxLinks - used) * (d.height + 1) := Nat.mul_le_mul_right _ (by omega)
    rw [Nat.add_mul, Nat.one_mul] at spent
    simp only [room]
    omega

theorem roomy_child {n : Nat} (roomy : d.Roomy p n) (inside : d.stat (p / name) = .ok .folder) :
    ∃ m < n, d.Roomy (p / name) m := by
  obtain ⟨used, loc, enough, leads, rfl⟩ := roomy
  obtain ⟨place, found⟩ := stat_iff.1 inside
  rw [find_child_of_leads leads enough] at found
  obtain ⟨further, less, onward⟩ := resolve_eq_folder_iff.1 found
  refine ⟨_, room_lt used rfl onward less, used + further, place, by omega, ?_, rfl⟩
  rw [Path.startFrom_child, Path.route_child]
  exact leads.append onward

theorem Enters.roomy_lt {n : Nat} (enters : d.Enters skipped child p) (roomy : d.Roomy p n) :
    ∃ m < n, d.Roomy child m := by
  obtain ⟨names, -, name, -, rfl, inside⟩ := enters
  exact roomy_child roomy inside

theorem Enters.roomy (enters : d.Enters skipped child p) : ∃ n, d.Roomy child n := by
  obtain ⟨names, -, name, -, rfl, inside⟩ := enters
  exact roomy_of_folder inside

theorem acc_of_roomy (skipped : List String) {n : Nat} (roomy : d.Roomy p n) :
    Acc (d.Enters skipped) p := by
  induction n using Nat.strongRecOn generalizing p with
  | _ n less =>
    refine ⟨p, fun child enters => ?_⟩
    obtain ⟨m, fewer, inner⟩ := enters.roomy_lt roomy
    exact less m fewer inner

theorem enters_wellFounded (d : Disk) (skipped : List String) : WellFounded (d.Enters skipped) := by
  refine ⟨fun p => ⟨p, fun child enters => ?_⟩⟩
  obtain ⟨n, roomy⟩ := enters.roomy
  exact acc_of_roomy skipped roomy

theorem walkTo_deeper {depth : Nat}
    (short : ∀ child, d.Enters skipped child p → ∃ n < depth, d.Roomy child n) :
    d.walkTo root skipped (depth + 1) p = d.walkTo root skipped (depth + 2) p := by
  induction depth generalizing p with
  | zero =>
    apply walkStep_congr
    intro child enters
    obtain ⟨n, less, -⟩ := short child enters
    omega
  | succ depth ih =>
    apply walkStep_congr
    intro child enters
    obtain ⟨n, less, roomy⟩ := short child enters
    refine ih fun inner deeper => ?_
    obtain ⟨m, fewer, inside⟩ := deeper.roomy_lt roomy
    exact ⟨m, by omega, inside⟩

theorem walk_eq_walkStep (d : Disk) (root : Path) (skipped : List String) :
    d.walk root skipped = d.walkStep root skipped (d.walk root skipped) := by
  funext p
  have deeper : d.walkTo root skipped d.reach p = d.walkTo root skipped (d.reach + 1) p := by
    rw [reach_eq]
    apply walkTo_deeper
    rintro child ⟨names, listed, name, member, rfl, inside⟩
    obtain ⟨loc, above, -⟩ := lists_of_walkNames listed
    obtain ⟨n, roomy⟩ := roomy_of_folder (stat_iff.2 ⟨loc, above⟩)
    obtain ⟨m, less, inner⟩ := roomy_child roomy inside
    exact ⟨m, by have := roomy_le roomy; omega, inner⟩
  exact deeper.trans (congrFun (walkTo_succ d root skipped d.reach) p)

/-- What a walk without a bound comes to, once all walks that it goes on with have ended. -/
inductive Walks (d : Disk) (root : Path) (skipped : List String) : Path → Except Fault Walked → Prop where
  | folder {p : Path} {below : Path → Except Fault Walked}
      (inner : ∀ child, d.Enters skipped child p → Walks d root skipped child (below child)) :
      Walks d root skipped p (d.walkStep root skipped below p)

theorem walks_walk (d : Disk) (root : Path) (skipped : List String) (p : Path) :
    d.Walks root skipped p (d.walk root skipped p) := by
  induction p using (enters_wellFounded d skipped).induction with
  | _ p ih =>
    rw [walk_eq_walkStep]
    exact .folder ih

theorem Walks.eq_walk {result : Except Fault Walked} (walks : d.Walks root skipped p result) :
    d.walk root skipped p = result := by
  induction walks with
  | folder _ ih =>
    rw [walk_eq_walkStep]
    exact walkStep_congr ih

inductive Descent (d : Disk) (skipped : List String) (top : Path) :
    Path → Location → List Location → Prop where
  | top {loc : Location} (inside : d.find .look top = .ok (.taken loc .folder)) :
      Descent d skipped top top loc [loc]
  | enter {p : Path} {loc place : Location} {way : List Location} {name : Name}
      (above : Descent d skipped top p loc way) (kept : name.text ∉ skipped)
      (inside : d.find .look (p / name) = .ok (.taken place .folder)) :
      Descent d skipped top (p / name) place (place :: way)

/-- Somewhere on its way down a walk meets a link that leads back to a folder on that way. -/
inductive Loops (d : Disk) (skipped : List String) (top : Path) : Prop where
  | intro {p : Path} {loc back : Location} {way : List Location} {name : Name} {target : Path}
      {links : Nat} (descent : Descent d skipped top p loc way) (kept : name.text ∉ skipped)
      (link : d.node? (name :: loc) = some (.link target))
      (resolves : d.resolve .look links (target.startFrom loc) target.moves =
        .ok (.taken back .folder))
      (passed : back ∈ way) : Loops d skipped top

theorem Descent.inside {top : Path} {way : List Location} (descent : d.Descent skipped top p loc way) :
    d.find .look p = .ok (.taken loc .folder) := by
  cases descent with
  | top inside => exact inside
  | enter above kept inside => exact inside

theorem node?_of_find_child {entry : Entry} (above : d.find .look p = .ok (.taken loc .folder))
    (inside : d.find .look (p / name) = .ok (.taken back entry)) :
    d.node? (name :: loc) ≠ none := by
  obtain ⟨links, child⟩ := find_child_resolves above
  rw [child] at inside
  intro missing
  obtain ⟨-, same⟩ := last_of_resolve (by simp [missing]) (by simp [missing]) inside
  simp [spotAt, missing] at same

theorem child_of_walk (done : d.walk root skipped p = .ok walked)
    (inside : d.find .look p = .ok (.taken loc .folder)) (kept : name.text ∉ skipped)
    (there : d.node? (name :: loc) ≠ none) :
    ∃ place entry, d.find .look (p / name) = .ok (.taken place entry) ∧
      (entry = .folder → d.Enters skipped (p / name) p ∧
        ∃ inner, d.walk root skipped (p / name) = .ok inner) := by
  rw [walk_eq_walkStep] at done
  obtain ⟨names, parts, listed, visits, -⟩ := walkStep_eq_ok_iff.1 done
  obtain ⟨_, again, lists⟩ := lists_of_walkNames listed
  cases inside.symm.trans again
  have member : name ∈ names := (lists.exact name).2 ⟨there, kept⟩
  obtain ⟨part, -, visited⟩ := exists_of_mapM visits member
  rcases visit_eq_ok_iff.1 visited with ⟨text, modified, stat, -⟩ | ⟨stat, inner, walked, -⟩
  · obtain ⟨place, found⟩ := stat_iff.1 stat
    exact ⟨place, .file text modified, found, nofun⟩
  · obtain ⟨place, found⟩ := stat_iff.1 stat
    exact ⟨place, .folder, found, fun _ => ⟨⟨names, listed, name, member, rfl, stat⟩, inner, walked⟩⟩

-- From any folder on the way a walk comes down to the last one again, by whatever path the folder is reached.
theorem Descent.again {top : Path} {way : List Location} (descent : d.Descent skipped top p loc way)
    (passed : back ∈ way) (inside : d.find .look q = .ok (.taken back .folder))
    (done : ∃ walked, d.walk root skipped q = .ok walked) :
    ∃ r, Relation.ReflTransGen (d.Enters skipped) r q ∧ d.find .look r = .ok (.taken loc .folder) ∧
      ∃ walked, d.walk root skipped r = .ok walked := by
  induction descent with
  | top _ =>
    obtain rfl := List.mem_singleton.1 passed
    exact ⟨q, .refl, inside, done⟩
  | @enter p loc place way name above kept child ih =>
    rcases List.mem_cons.1 passed with rfl | passed
    · exact ⟨q, .refl, inside, done⟩
    · obtain ⟨r, below, there, walked, walks⟩ := ih passed
      obtain ⟨spot, entry, found, onward⟩ :=
        child_of_walk walks there kept (node?_of_find_child above.inside child)
      have same := find_child_unique there above.inside found child
      cases same
      obtain ⟨enters, inner⟩ := onward rfl
      exact ⟨r / name, .head enters below, found, inner⟩

theorem Descent.top_passed {top : Path} {way : List Location}
    (descent : d.Descent skipped top p loc way) :
    ∃ first ∈ way, d.find .look top = .ok (.taken first .folder) := by
  induction descent with
  | @top loc inside => exact ⟨loc, List.mem_cons_self, inside⟩
  | enter _ _ _ ih =>
    obtain ⟨first, member, inside⟩ := ih
    exact ⟨first, List.mem_cons_of_mem _ member, inside⟩

-- Around a loop a walk would come to the same location again and again, each time deeper down.
theorem Descent.not_walked {top r target : Path} {way : List Location} {links : Nat}
    (descent : d.Descent skipped top p loc way) (kept : name.text ∉ skipped)
    (link : d.node? (name :: loc) = some (.link target))
    (resolves : d.resolve .look links (target.startFrom loc) target.moves = .ok (.taken back .folder))
    (passed : back ∈ way) (inside : d.find .look r = .ok (.taken loc .folder))
    (done : d.walk root skipped r = .ok walked) : False := by
  induction r using (enters_wellFounded d skipped).transGen.induction generalizing walked with
  | _ r deeper =>
    obtain ⟨place, entry, found, onward⟩ := child_of_walk done inside kept (by simp [link])
    obtain ⟨left, child⟩ := find_child_resolves inside
    have behind := found
    rw [child, resolve_link link] at behind
    cases left with
    | zero => cases behind
    | succ left =>
      rw [jump, List.append_nil] at behind
      cases resolve_unique behind resolves
      obtain ⟨enters, inner⟩ := onward rfl
      obtain ⟨q, below, there, walked, walks⟩ := descent.again passed found inner
      exact deeper q (Relation.TransGen.tail' below enters) there walks

theorem Loops.not_walked {top : Path} (loops : d.Loops skipped top) :
    d.walk root skipped top ≠ .ok walked := by
  obtain ⟨descent, kept, link, resolves, passed⟩ := loops
  intro done
  obtain ⟨first, member, inside⟩ := descent.top_passed
  obtain ⟨r, -, there, walked, walks⟩ := descent.again member inside ⟨walked, done⟩
  exact descent.not_walked kept link resolves passed there walks

theorem refused_of_walkTo {depth : Nat} {fault : Fault}
    (failed : d.walkTo root skipped depth p = .error fault) :
    ∃ path why, fault = .refused path why := by
  induction depth generalizing p fault with
  | zero => exact ⟨p, .tooManyLinks, (Except.error.inj failed).symm⟩
  | succ depth ih =>
    rw [walkTo_succ] at failed
    rcases walkStep_eq_error_iff.1 failed with ⟨why, -, rfl⟩ | ⟨names, -, visits⟩
    · exact ⟨p, why, rfl⟩
    · obtain ⟨_, name, _, -, -, refused⟩ := mapM_eq_error_iff.1 visits
      rcases visit_eq_error_iff.1 refused with ⟨why, -, rfl⟩ | ⟨-, inner⟩
      · exact ⟨p / name, why, rfl⟩
      · exact ih inner

theorem walk_ends (d : Disk) (root : Path) (skipped : List String) :
    (∀ p result, d.Walks root skipped p result ↔ d.walk root skipped p = result) ∧
      ∀ top, d.Loops skipped top → ∃ path why,
        d.walk root skipped top = .error (.refused path why) := by
  refine ⟨fun p result => ⟨Walks.eq_walk, fun same => same ▸ walks_walk d root skipped p⟩, ?_⟩
  intro top loops
  cases done : d.walk root skipped top with
  | ok walked => exact absurd done loops.not_walked
  | error fault =>
    obtain ⟨path, why, rfl⟩ := refused_of_walkTo done
    exact ⟨path, why, rfl⟩

-- Two folders down, a link leads up by two, through another link.
def looped : Disk where
  here := []
  nodes := [([⟨"app", by decide⟩], .folder), ([⟨"ui", by decide⟩, ⟨"app", by decide⟩], .folder),
    ([⟨"form", by decide⟩, ⟨"ui", by decide⟩, ⟨"app", by decide⟩], .folder),
    ([⟨"in", by decide⟩, ⟨"app", by decide⟩], .link ⟨"ui/form"⟩),
    ([⟨"out", by decide⟩, ⟨"form", by decide⟩, ⟨"ui", by decide⟩, ⟨"app", by decide⟩],
      .link ⟨"../../in/../.."⟩)]
  distinct := by decide
  housed := by simp [Housed, Node.folder]
  settled := Or.inl rfl

theorem looped_loops : looped.Loops ["dist"] ⟨"app"⟩ := by
  have top : looped.Descent ["dist"] ⟨"app"⟩ ⟨"app"⟩ [⟨"app", by decide⟩] [[⟨"app", by decide⟩]] :=
    .top (by decide +kernel)
  have first : looped.Descent ["dist"] ⟨"app"⟩ (Path.mk "app" / (⟨"ui", by decide⟩ : Name))
      [⟨"ui", by decide⟩, ⟨"app", by decide⟩] _ :=
    .enter top (by decide) (by decide +kernel)
  have second : looped.Descent ["dist"] ⟨"app"⟩
      (Path.mk "app" / (⟨"ui", by decide⟩ : Name) / (⟨"form", by decide⟩ : Name))
      [⟨"form", by decide⟩, ⟨"ui", by decide⟩, ⟨"app", by decide⟩] _ :=
    .enter first (by decide) (by decide +kernel)
  have link : looped.node? [⟨"out", by decide⟩, ⟨"form", by decide⟩, ⟨"ui", by decide⟩, ⟨"app", by decide⟩] =
      some (.link ⟨"../../in/../.."⟩) := by
    decide +kernel
  have back : looped.resolve .look 1 [⟨"form", by decide⟩, ⟨"ui", by decide⟩, ⟨"app", by decide⟩]
      (Path.mk "../../in/../..").moves = .ok (.taken [⟨"app", by decide⟩] .folder) := by
    decide +kernel
  exact .intro second (by decide) link back (by decide)

theorem walk_ends_looped :
    looped.Loops ["dist"] ⟨"app"⟩ ∧ ∃ path why,
      looped.walk ⟨"."⟩ ["dist"] ⟨"app"⟩ = .error (.refused path why) :=
  ⟨looped_loops, (walk_ends looped ⟨"."⟩ ["dist"]).2 ⟨"app"⟩ looped_loops⟩

end FrontendSurvey.Disk
