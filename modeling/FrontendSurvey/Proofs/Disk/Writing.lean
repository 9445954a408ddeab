import FrontendSurvey.Proofs.Disk.Folders
import FrontendSurvey.Survey

set_option autoImplicit false

namespace FrontendSurvey

def Spot.file? : Spot → Option Location
  | .taken _ .folder => none
  | .taken loc (.file _ _) => some loc
  | .free loc => some loc

namespace Disk

def target? (d : Disk) (p : Path) : Option Location := (d.find .write p).toOption.bind Spot.file?

structure Writable (d : Disk) (loc : Location) : Prop where
  -- nothing or a file at a location in a folder
  below : loc ≠ []
  housed : d.node? loc.tail = some .folder
  plain : d.node? loc = none ∨ ∃ text modified, d.node? loc = some (.entry (.file text modified))

variable {d : Disk} {loc : Location} {p : Path} {text : Option String} {modified : Instant}

theorem Writable.admits (writable : d.Writable loc) (text : Option String) (modified : Instant) :
    d.Admits loc (.entry (.file text modified)) := by
  refine ⟨writable.below, writable.housed, fun folder => ?_⟩
  rcases writable.plain with missing | ⟨_, _, file⟩
  · simp [missing] at folder
  · simp [file, Node.folder] at folder

theorem writable_of_target? (target : d.target? p = some loc) : d.Writable loc := by
  unfold target? at target
  cases found : d.find .write p with
  | error why => simp [found, Except.toOption] at target
  | ok spot =>
    have sound := find_sound found
    simp only [found, Except.toOption, Option.bind_some] at target
    match spot, target, sound with
    | .taken _ (.file _ _), target, sound =>
      obtain rfl := Option.some.inj target
      refine ⟨ne_nil_of_node? sound (by simp [Node.folder]), node?_tail sound, Or.inr ⟨_, _, sound⟩⟩
    | .free _, target, sound =>
      obtain rfl := Option.some.inj target
      exact ⟨sound.1, sound.2.2, Or.inl sound.2.1⟩

theorem write_eq_ok (target : d.target? p = some loc) :
    d.write p text modified = .ok (d.set loc (.entry (.file text modified))) := by
  unfold target? at target
  unfold write
  cases found : d.find .write p with
  | error why => simp [found, Except.toOption] at target
  | ok spot =>
    simp only [found, Except.toOption, Option.bind_some] at target
    match spot, target with
    | .taken _ (.file _ _), target => rw [Option.some.inj target]
    | .free _, target => rw [Option.some.inj target]

theorem write_eq_error (refused : d.target? p = none) (text : Option String) (modified : Instant) :
    ∃ why, d.write p text modified = .error why := by
  unfold target? at refused
  unfold write
  cases found : d.find .write p with
  | error why => exact ⟨why, rfl⟩
  | ok spot =>
    simp only [found, Except.toOption, Option.bind_some] at refused
    rcases spot with ⟨there, _ | _⟩ | there
    · exact ⟨.isAFolder, rfl⟩
    · simp [Spot.file?] at refused
    · simp [Spot.file?] at refused

theorem follow_set_file (writable : d.Writable loc) {aim : Aim}
    {jump jumpAfter : Location → Path → List Move → Except Refusal Spot}
    (jumps : ∀ folder target rest, (jumpAfter folder target rest).toOption.bind Spot.file? =
      (jump folder target rest).toOption.bind Spot.file?) (folder : Location) (moves : List Move) :
    ((d.set loc (.entry (.file text modified))).follow aim jumpAfter folder moves).toOption.bind
        Spot.file? =
      (d.follow aim jump folder moves).toOption.bind Spot.file? := by
  induction moves generalizing folder with
  | nil => rfl
  | cons move rest ih =>
    cases move with
    | stay => exact ih folder
    | slash => exact ih folder
    | up => exact ih folder.tail
    | down name =>
      rw [follow, follow, node?_set (writable.admits text modified)]
      split
      · rfl
      · by_cases here : name :: folder = loc
        next =>
          rcases writable.plain with missing | ⟨before, since, file⟩
          · cases rest <;> simp [here, missing, Except.toOption, Spot.file?]
          · cases rest <;> simp [here, file, Except.toOption, Spot.file?]
        next =>
          rw [if_neg here]
          rcases d.node? (name :: folder) with _ | (_ | _) | target
          · rfl
          · exact ih (name :: folder)
          · rfl
          · exact jumps folder target rest

theorem resolve_set_file (writable : d.Writable loc) (aim : Aim) (links : Nat) (folder : Location)
    (moves : List Move) :
    ((d.set loc (.entry (.file text modified))).resolve aim links folder moves).toOption.bind
        Spot.file? =
      (d.resolve aim links folder moves).toOption.bind Spot.file? := by
  induction links generalizing folder moves with
  | zero => exact follow_set_file writable (fun _ _ _ => rfl) folder moves
  | succ links ih => exact follow_set_file writable (fun _ _ _ => ih _ _) folder moves

theorem target?_set (writable : d.Writable loc) (q : Path) :
    (d.set loc (.entry (.file text modified))).target? q = d.target? q := by
  unfold target? find
  rw [here_set]
  split
  · rfl
  · exact resolve_set_file writable _ _ _ _

end Disk

namespace Survey

open Disk

/-- The text that writes leave at a location, up to the first refused one. -/
def lastText? (d : Disk) (loc : Location) : List (Path × String) → Option String
  | [] => none
  | (path, text) :: rest =>
    match d.target? path with
    | none => none
    | some target => lastText? d loc rest <|> if target = loc then some text else none

theorem lastText?_set {d : Disk} {loc : Location} {text : Option String} {modified : Instant}
    (writable : d.Writable loc) (place : Location) (writes : List (Path × String)) :
    lastText? (d.set loc (.entry (.file text modified))) place writes = lastText? d place writes := by
  induction writes with
  | nil => rfl
  | cons write rest ih =>
    simp only [lastText?, target?_set writable, ih]

theorem node?_writeAll (now : Instant) (d : Disk) (writes : List (Path × String)) (loc : Location) :
    (writeAll now d writes).1.node? loc =
      match lastText? d loc writes with
      | some text => some (.entry (.file (some text) now))
      | none => d.node? loc := by
  induction writes generalizing d with
  | nil => rfl
  | cons write rest ih =>
    obtain ⟨path, text⟩ := write
    cases target : d.target? path with
    | none =>
      obtain ⟨why, refused⟩ := write_eq_error target (some text) now
      simp [writeAll, lastText?, refused, target]
    | some place =>
      have writable := writable_of_target? target
      simp only [writeAll, write_eq_ok target, ih, lastText?, target, lastText?_set writable,
        node?_set (writable.admits (some text) now)]
      cases lastText? d loc rest with
      | some later => simp
      | none =>
        by_cases there : place = loc
        next => simp [there]
        next => simp [there, Ne.symm there]

theorem keeps_writeAll (now : Instant) (d : Disk) (writes : List (Path × String)) :
    d.Keeps (writeAll now d writes).1 := by
  induction writes generalizing d with
  | nil => exact Keeps.refl d
  | cons write rest ih =>
    obtain ⟨path, text⟩ := write
    cases target : d.target? path with
    | none =>
      obtain ⟨why, refused⟩ := write_eq_error target (some text) now
      simp only [writeAll, refused]
      exact Keeps.refl d
    | some loc =>
      simp only [writeAll, write_eq_ok target]
      exact (keeps_set ((writable_of_target? target).admits (some text) now)).trans (ih _)

theorem here_writeAll (now : Instant) (d : Disk) (writes : List (Path × String)) :
    (writeAll now d writes).1.here = d.here := by
  induction writes generalizing d with
  | nil => rfl
  | cons write rest ih =>
    obtain ⟨path, text⟩ := write
    cases target : d.target? path with
    | none =>
      obtain ⟨why, refused⟩ := write_eq_error target (some text) now
      simp only [writeAll, refused]
    | some place =>
      simp only [writeAll, write_eq_ok target, ih, here_set]

theorem writeAll_ok_iff (now : Instant) (d : Disk) (writes : List (Path × String)) :
    (writeAll now d writes).2 = none ↔ ∀ write ∈ writes, ∃ loc, d.target? write.1 = some loc := by
  induction writes generalizing d with
  | nil => simp [writeAll]
  | cons write rest ih =>
    obtain ⟨path, text⟩ := write
    cases target : d.target? path with
    | none =>
      obtain ⟨why, refused⟩ := write_eq_error target (some text) now
      simp [writeAll, refused, target]
    | some place =>
      simp [writeAll, write_eq_ok target, ih, target, target?_set (writable_of_target? target)]

end Survey

end FrontendSurvey
