import FrontendSurvey.Disk.Change

set_option autoImplicit false

namespace FrontendSurvey.Disk

def Same (d e : Disk) : Prop := ∀ loc, d.node? loc = e.node? loc

def Keeps (d e : Disk) : Prop := ∀ loc, d.node? loc = some .folder → e.node? loc = some .folder

/-- Of some paths, each of which lies in the next, the first one in a folder that exists is free. -/
def Lacks (d : Disk) (paths : List Path) : Prop :=
  ∃ nearer q farther, paths = nearer ++ q :: farther ∧
    (∀ r ∈ nearer, d.add r .folder = .error .noEntry) ∧ ∃ e, d.add q .folder = .ok e

variable {d e : Disk} {p : Path} {node : Node}

theorem Keeps.refl (d : Disk) : d.Keeps d := fun _ folder => folder

theorem Keeps.trans {f : Disk} (first : d.Keeps e) (second : e.Keeps f) : d.Keeps f :=
  fun loc folder => second loc (first loc folder)

theorem keeps_set {loc : Location} (ok : d.Admits loc node) : d.Keeps (d.set loc node) := by
  intro place folder
  rw [node?_set ok]
  split
  next there => rw [ok.2.2 (there ▸ folder)]
  next => exact folder

theorem place_sound {loc : Location} (found : d.place p = .ok loc) :
    loc ≠ [] ∧ d.node? loc.tail = some .folder := by
  unfold place at found
  split at found
  · split at found <;> cases found
  · split at found
    next above folder resolved =>
      split at found
      next name _ =>
        obtain rfl := Except.ok.inj found
        exact ⟨by simp, resolve_sound (node?_startFrom node?_here p) resolved⟩
      next => cases found
    all_goals cases found

theorem add_eq_ok (added : d.add p node = .ok e) :
    ∃ loc, d.node? loc = none ∧ d.Admits loc node ∧ e = d.set loc node := by
  unfold add at added
  split at added
  next loc found =>
    split at added
    · cases added
    next free =>
      have missing : d.node? loc = none := by simpa using free
      have sound := place_sound found
      refine ⟨loc, missing, ⟨sound.1, sound.2, fun folder => ?_⟩, (Except.ok.inj added).symm⟩
      simp [missing] at folder
  next => cases added

theorem keeps_add (added : d.add p node = .ok e) : d.Keeps e := by
  obtain ⟨loc, -, ok, rfl⟩ := add_eq_ok added
  exact keeps_set ok

theorem keeps_ensureFolder (d : Disk) (p : Path) : d.Keeps (d.ensureFolder p).1 := by
  unfold ensureFolder
  split
  next added => exact keeps_add added
  next => split <;> exact Keeps.refl d

theorem ensureFolder_of_error {why : Refusal} (refused : d.add p .folder = .error why) :
    (d.ensureFolder p).1 = d := by
  simp only [ensureFolder, refused]
  split <;> rfl

theorem makeFoldersUp_of_not_lacks {paths : List Path} (full : ¬ d.Lacks paths) :
    (d.makeFoldersUp paths).1 = d := by
  induction paths with
  | nil => rfl
  | cons p above ih =>
    rw [makeFoldersUp]
    cases first : d.add p .folder with
    | ok e => exact absurd ⟨[], p, above, rfl, by simp, e, first⟩ full
    | error why =>
      by_cases missing : why = .noEntry
      next =>
        subst missing
        have unchanged := ih (by
          rintro ⟨nearer, q, farther, split, before, made⟩
          exact full ⟨p :: nearer, q, farther, by simp [split], by simpa [first] using before, made⟩)
        cases made : d.makeFoldersUp above with
        | mk e outcome =>
          obtain rfl : e = d := by simpa [made] using unchanged
          cases outcome with
          | none => exact ensureFolder_of_error first
          | some why => rfl
      next =>
        have same := ensureFolder_of_error first
        cases why <;> first | exact same | exact absurd rfl missing

theorem makeFoldersUp_of_lacks {paths : List Path} (lacking : d.Lacks paths) :
    ∃ loc, d.node? loc = none ∧ (d.makeFoldersUp paths).1.node? loc = some .folder := by
  -- the first folder to be made stays there, also if a later one cannot be
  obtain ⟨nearer, q, farther, rfl, before, e, added⟩ := lacking
  induction nearer with
  | nil =>
    obtain ⟨loc, missing, ok, rfl⟩ := add_eq_ok added
    refine ⟨loc, missing, ?_⟩
    simp [makeFoldersUp, ensureFolder, added, node?_set ok]
  | cons p nearer ih =>
    obtain ⟨loc, missing, folder⟩ := ih (fun r member => before r (by simp [member]))
    refine ⟨loc, missing, ?_⟩
    rw [List.cons_append, makeFoldersUp, before p (by simp)]
    cases made : d.makeFoldersUp (nearer ++ q :: farther) with
    | mk f outcome =>
      rw [made] at folder
      cases outcome with
      | none => exact keeps_ensureFolder f p loc folder
      | some why => exact folder

end FrontendSurvey.Disk
