import FrontendSurvey.Proofs.Disk.Plain
import FrontendSurvey.Proofs.Disk.Steps

set_option autoImplicit false

namespace FrontendSurvey

theorem Move.busy_busy (moves : List Move) : busy (busy moves) = busy moves := by
  simp [busy, List.filter_filter]

namespace Disk

inductive Leads (d : Disk) : Location → List Move → Nat → Location → Prop where
  | here (folder : Location) : Leads d folder [] 0 folder
  | idle {folder loc : Location} {move : Move} {rest : List Move} {links : Nat}
      (idle : move.isIdle = true) (onward : Leads d folder rest links loc) :
      Leads d folder (move :: rest) links loc
  | up {folder loc : Location} {rest : List Move} {links : Nat}
      (onward : Leads d folder.tail rest links loc) : Leads d folder (.up :: rest) links loc
  | down {folder loc : Location} {name : Name} {rest : List Move} {links : Nat}
      (inside : d.node? (name :: folder) = some .folder)
      (onward : Leads d (name :: folder) rest links loc) :
      Leads d folder (.down name :: rest) links loc
  | link {folder loc : Location} {name : Name} {target : Path} {rest : List Move} {links : Nat}
      (there : d.node? (name :: folder) = some (.link target))
      (onward : Leads d (target.startFrom folder) (target.moves ++ rest) links loc) :
      Leads d folder (.down name :: rest) (links + 1) loc

variable {d : Disk} {aim : Aim} {folder loc : Location} {moves rest others : List Move} {move : Move}
  {links used : Nat} {name : Name} {p q : Path} {spot spot' : Spot}

/-- What a lookup does at a link. -/
def jump (d : Disk) (aim : Aim) : Nat → Location → Path → List Move → Except Refusal Spot
  | 0, _, _, _ => .error .tooManyLinks
  | links + 1, folder, target, rest =>
    d.resolve aim links (target.startFrom folder) (target.moves ++ rest)

theorem resolve_eq (d : Disk) (aim : Aim) (links : Nat) :
    d.resolve aim links = d.follow aim (d.jump aim links) := by
  cases links <;> rfl

theorem resolve_here (d : Disk) (aim : Aim) (links : Nat) (folder : Location) :
    d.resolve aim links folder [] = .ok (.taken folder .folder) := by
  rw [resolve_eq, follow]

theorem resolve_idle (d : Disk) (aim : Aim) (links : Nat) (folder : Location) (rest : List Move)
    (idle : move.isIdle = true) :
    d.resolve aim links folder (move :: rest) = d.resolve aim links folder rest := by
  rw [resolve_eq]
  cases move with
  | stay => rfl
  | slash => rfl
  | up => cases idle
  | down name => cases idle

theorem resolve_up (d : Disk) (aim : Aim) (links : Nat) (folder : Location) (rest : List Move) :
    d.resolve aim links folder (.up :: rest) = d.resolve aim links folder.tail rest := by
  rw [resolve_eq]
  rfl

theorem resolve_folder (inside : d.node? (name :: folder) = some .folder) (links : Nat)
    (rest : List Move) :
    d.resolve .look links folder (.down name :: rest) =
      d.resolve .look links (name :: folder) rest := by
  rw [resolve_eq, follow, inside, if_neg (by simp)]
  rfl

theorem resolve_link {target : Path} (there : d.node? (name :: folder) = some (.link target))
    (links : Nat) (rest : List Move) :
    d.resolve .look links folder (.down name :: rest) = d.jump .look links folder target rest := by
  rw [resolve_eq, follow, there, if_neg (by simp)]

theorem last_of_resolve (other : d.node? (name :: folder) ≠ some .folder)
    (plain : ∀ target, d.node? (name :: folder) ≠ some (.link target))
    (found : d.resolve .look links folder (.down name :: rest) = .ok spot) :
    rest = [] ∧ spot = d.spotAt (name :: folder) := by
  rw [resolve_eq, follow, if_neg (by simp)] at found
  cases there : d.node? (name :: folder) with
  | none =>
    simp only [there, List.isEmpty_iff] at found
    split at found
    next last => exact ⟨last, by simpa [spotAt, there] using found.symm⟩
    next => cases found
  | some node =>
    rcases node with (_ | ⟨text, modified⟩) | target
    · exact absurd there other
    · simp only [there, List.isEmpty_iff] at found
      split at found
      next last => exact ⟨last, by simpa [spotAt, there] using found.symm⟩
      next => cases found
    · exact absurd there (plain target)

-- A lookup goes on with fewer moves or, behind a link, with fewer links.
theorem lookup_induction {P : Nat → Location → List Move → Prop}
    (here : ∀ links folder, P links folder [])
    (idle : ∀ links folder move rest, move.isIdle = true → P links folder rest →
      P links folder (move :: rest))
    (up : ∀ links folder rest, P links folder.tail rest → P links folder (.up :: rest))
    (down : ∀ links folder name rest, P links (name :: folder) rest →
      (∀ left (target : Path), links = left + 1 →
        P left (target.startFrom folder) (target.moves ++ rest)) →
      P links folder (.down name :: rest))
    (links : Nat) (folder : Location) (moves : List Move) : P links folder moves := by
  induction links using Nat.strongRecOn generalizing folder moves with
  | _ links fewer =>
    induction moves generalizing folder with
    | nil => exact here links folder
    | cons move rest ih =>
      cases move with
      | stay => exact idle links folder .stay rest rfl (ih folder)
      | slash => exact idle links folder .slash rest rfl (ih folder)
      | up => exact up links folder rest (ih folder.tail)
      | down name =>
        refine down links folder name rest (ih (name :: folder)) fun left target same => ?_
        exact fewer left (by omega) _ _

theorem resolve_mono {more : Nat} (found : d.resolve aim links folder moves = .ok spot)
    (enough : links ≤ more) : d.resolve aim more folder moves = .ok spot := by
  induction links, folder, moves using lookup_induction generalizing more with
  | here links folder => rwa [resolve_here] at found ⊢
  | idle links folder move rest idle ih =>
    rw [resolve_idle _ _ _ _ _ idle] at found ⊢
    exact ih found enough
  | up links folder rest ih =>
    rw [resolve_up] at found ⊢
    exact ih found enough
  | down links folder name rest into behind =>
    rw [resolve_eq, follow] at found ⊢
    split at found
    · cases found
    next open_ =>
      rw [if_neg open_]
      cases there : d.node? (name :: folder) with
      | none => simpa only [there] using found
      | some node =>
        rcases node with (_ | _) | target
        · simp only [there, ← resolve_eq] at found ⊢
          exact into found enough
        · simpa only [there] using found
        · simp only [there] at found ⊢
          cases links with
          | zero => cases found
          | succ left =>
            cases more with
            | zero => omega
            | succ more => exact behind left target rfl found (by omega)

theorem resolve_unique {more : Nat} (found : d.resolve aim links folder moves = .ok spot)
    (found' : d.resolve aim more folder moves = .ok spot') : spot = spot' := by
  have first := resolve_mono found (Nat.le_max_left links more)
  have second := resolve_mono found' (Nat.le_max_right links more)
  exact Except.ok.inj (first.symm.trans second)

theorem Leads.append {further : Nat} {place : Location} (leads : d.Leads folder moves used loc)
    (onward : d.Leads loc rest further place) :
    d.Leads folder (moves ++ rest) (used + further) place := by
  induction leads with
  | here folder => simpa using onward
  | idle idle _ ih => exact .idle idle (ih onward)
  | up _ ih => exact .up (ih onward)
  | down inside _ ih => exact .down inside (ih onward)
  | link there _ ih =>
    have longer := ih onward
    rw [List.append_assoc] at longer
    rw [Nat.add_right_comm]
    exact .link there longer

theorem leads_idle (idle : Move.busy moves = []) (onward : d.Leads folder rest used loc) :
    d.Leads folder (moves ++ rest) used loc := by
  induction moves with
  | nil => exact onward
  | cons move moves ih =>
    obtain ⟨first, later⟩ := List.forall_mem_cons.1 (Move.busy_eq_nil.1 idle)
    exact .idle first (ih (Move.busy_eq_nil.2 later))

theorem Leads.of_busy (leads : d.Leads folder moves used loc)
    (same : Move.busy moves = Move.busy others) : d.Leads folder others used loc := by
  induction leads generalizing others with
  | here folder =>
    rw [← List.append_nil others]
    exact leads_idle same.symm (.here folder)
  | @idle folder loc move rest links idle _ ih =>
    have skipped : Move.busy (move :: rest) = Move.busy rest := by simp [Move.busy, idle]
    exact ih (skipped.symm.trans same)
  | up _ ih =>
    obtain ⟨idle, later, rfl, none, after⟩ := Move.exists_of_busy_cons same.symm
    exact leads_idle none (.up (ih after.symm))
  | down inside _ ih =>
    obtain ⟨idle, later, rfl, none, after⟩ := Move.exists_of_busy_cons same.symm
    exact leads_idle none (.down inside (ih after.symm))
  | link there _ ih =>
    obtain ⟨idle, later, rfl, none, after⟩ := Move.exists_of_busy_cons same.symm
    exact leads_idle none (.link there (ih (by rw [Move.busy_append, Move.busy_append, after]; rfl)))

theorem Leads.resolve_append (leads : d.Leads folder moves used loc) (links : Nat)
    (rest : List Move) :
    d.resolve .look (links + used) folder (moves ++ rest) = d.resolve .look links loc rest := by
  induction leads with
  | here folder => rfl
  | idle idle _ ih => rw [List.cons_append, resolve_idle _ _ _ _ _ idle, ih]
  | up _ ih => rw [List.cons_append, resolve_up, ih]
  | down inside _ ih => rw [List.cons_append, resolve_folder inside, ih]
  | link there _ ih =>
    rw [List.cons_append, resolve_link there, ← Nat.add_assoc, jump, ← List.append_assoc, ih]

theorem Leads.unique {more : Nat} {place : Location} (leads : d.Leads folder moves used loc)
    (again : d.Leads folder moves more place) : loc = place := by
  have first := leads.resolve_append 0 []
  have second := again.resolve_append 0 []
  rw [resolve_here] at first second
  cases resolve_unique first second
  rfl

theorem exists_leads (found : d.resolve .look links folder (moves ++ rest) = .ok spot)
    (whole : rest = [] → ∃ loc, spot = .taken loc .folder) :
    ∃ used loc, used ≤ links ∧ d.Leads folder moves used loc := by
  induction links, folder, moves using lookup_induction with
  | here links folder => exact ⟨0, folder, Nat.zero_le links, .here folder⟩
  | idle links folder move onward idle ih =>
    rw [List.cons_append, resolve_idle _ _ _ _ _ idle] at found
    obtain ⟨used, loc, enough, leads⟩ := ih found
    exact ⟨used, loc, enough, .idle idle leads⟩
  | up links folder onward ih =>
    rw [List.cons_append, resolve_up] at found
    obtain ⟨used, loc, enough, leads⟩ := ih found
    exact ⟨used, loc, enough, .up leads⟩
  | down links folder name onward into behind =>
    rw [List.cons_append] at found
    have last (other : d.node? (name :: folder) ≠ some .folder)
        (plain : ∀ target, d.node? (name :: folder) ≠ some (.link target)) : False := by
      obtain ⟨none, same⟩ := last_of_resolve other plain found
      obtain ⟨loc, rfl⟩ := whole (List.append_eq_nil_iff.1 none).2
      obtain ⟨rfl, inside⟩ := spotAt_eq_taken same.symm
      exact other inside
    cases there : d.node? (name :: folder) with
    | none => exact (last (by simp [there]) (by simp [there])).elim
    | some node =>
      rcases node with (_ | ⟨text, modified⟩) | target
      · rw [resolve_folder there] at found
        obtain ⟨used, loc, enough, leads⟩ := into found
        exact ⟨used, loc, enough, .down there leads⟩
      · exact (last (by simp [there, Node.folder]) (by simp [there])).elim
      · rw [resolve_link there] at found
        cases links with
        | zero => cases found
        | succ left =>
          rw [jump, ← List.append_assoc] at found
          obtain ⟨used, loc, enough, leads⟩ := behind left target rfl found
          exact ⟨used + 1, loc, by omega, .link there leads⟩

theorem resolve_eq_folder_iff : d.resolve .look links folder moves = .ok (.taken loc .folder) ↔
    ∃ used ≤ links, d.Leads folder moves used loc := by
  constructor
  · intro found
    rw [← List.append_nil moves] at found
    obtain ⟨used, place, enough, leads⟩ := exists_leads found fun _ => ⟨loc, rfl⟩
    rw [← Nat.sub_add_cancel enough, leads.resolve_append, resolve_here] at found
    cases found
    exact ⟨used, enough, leads⟩
  · rintro ⟨used, enough, leads⟩
    rw [← List.append_nil moves, ← Nat.sub_add_cancel enough, leads.resolve_append, resolve_here]

theorem find_eq_resolve (d : Disk) (aim : Aim) (begun : p.bytes ≠ []) :
    d.find aim p = d.resolve aim maxLinks (p.startFrom d.here) p.moves := by
  rw [find, if_neg (by simpa using begun)]

theorem leads_moves_iff : d.Leads folder p.moves used loc ↔ d.Leads folder p.route used loc := by
  have same : Move.busy p.moves = Move.busy p.route := by
    rw [← p.busy_moves, Move.busy_busy]
  exact ⟨fun leads => leads.of_busy same, fun leads => leads.of_busy same.symm⟩

theorem find_eq_folder_iff : d.find .look p = .ok (.taken loc .folder) ↔
    p.bytes ≠ [] ∧ ∃ used ≤ maxLinks, d.Leads (p.startFrom d.here) p.route used loc := by
  by_cases begun : p.bytes = []
  next => simp [find_empty d .look begun, begun]
  next => simp [find_eq_resolve d .look begun, resolve_eq_folder_iff, leads_moves_iff, begun]

theorem find_child_of_leads (leads : d.Leads (p.startFrom d.here) p.route used loc)
    (enough : used ≤ maxLinks) (name : Name) :
    d.find .look (p / name) = d.resolve .look (maxLinks - used) loc [.down name] := by
  obtain ⟨above, moves, route, -⟩ := Path.moves_child p name
  have way : d.Leads (p.startFrom d.here) above used loc :=
    leads.of_busy (by rw [route, ← p.busy_moves, Move.busy_busy])
  rw [find_eq_resolve d .look (Path.text_child_ne p name), moves, Path.startFrom_child,
    ← way.resolve_append, Nat.sub_add_cancel enough]

theorem find_child_resolves (inside : d.find .look p = .ok (.taken loc .folder)) :
    ∃ links, ∀ name : Name, d.find .look (p / name) = d.resolve .look links loc [.down name] := by
  obtain ⟨-, used, enough, leads⟩ := find_eq_folder_iff.1 inside
  exact ⟨maxLinks - used, find_child_of_leads leads enough⟩

theorem find_child_unique (inside : d.find .look p = .ok (.taken loc .folder))
    (inside' : d.find .look q = .ok (.taken loc .folder))
    (found : d.find .look (p / name) = .ok spot)
    (found' : d.find .look (q / name) = .ok spot') : spot = spot' := by
  obtain ⟨links, child⟩ := find_child_resolves inside
  obtain ⟨links', child'⟩ := find_child_resolves inside'
  rw [child] at found
  rw [child'] at found'
  exact resolve_unique found found'

end Disk

end FrontendSurvey
