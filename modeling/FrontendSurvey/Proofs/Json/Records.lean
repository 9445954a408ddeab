import FrontendSurvey.Proofs.Json.Nesting

set_option autoImplicit false

namespace FrontendSurvey.Json

variable {α : Type} {n : Nat} {write : α → Json} {read : Json → Option α}

@[simp] theorem valuesOf_nil (key : String) : (obj []).valuesOf key = [] := by simp [valuesOf]

@[simp] theorem valuesOf_cons (name key : String) (v : Json) (fields : List (String × Json)) :
    (obj ((name, v) :: fields)).valuesOf key =
      if name = key then v :: (obj fields).valuesOf key else (obj fields).valuesOf key := by
  by_cases same : name = key <;> simp [valuesOf, same]

@[simp] theorem valuesOf_append (fields others : List (String × Json)) (key : String) :
    (obj (fields ++ others)).valuesOf key =
      (obj fields).valuesOf key ++ (obj others).valuesOf key := by
  simp [valuesOf]

def ifAny (write : α → Json) : Option α → List Json
  | none => []
  | some a => [write a]

@[simp] theorem valuesOf_fieldIfAny (name key : String) (a : Option α) :
    (obj (fieldIfAny name write a)).valuesOf key = if name = key then ifAny write a else [] := by
  cases a <;> by_cases same : name = key <;> simp [fieldIfAny, ifAny, same]

@[simp] theorem only?_single (v : Json) : only? read [v] = read v := by rw [only?]

theorem atMostOne?_some {v : Json} {a : α} (null : read null = none) (back : read v = some a) :
    atMostOne? read [v] = some (some a) := by
  -- a value that reads back is not null, so it is not taken for an absent one
  cases v with
  | null => exact absurd (null.symm.trans back) (by simp)
  | _ => simp [atMostOne?, back]

theorem atMostOne?_ifAny {a : Option α} (null : read null = none)
    (back : ∀ x ∈ a, read (write x) = some x) : atMostOne? read (ifAny write a) = some a := by
  cases a with
  | none => rfl
  | some x => exact atMostOne?_some null (back x rfl)

theorem atMostOne?_orNull {a : Option α} (null : read null = none)
    (back : ∀ x ∈ a, read (write x) = some x) : atMostOne? read [orNull write a] = some a := by
  cases a with
  | none => rfl
  | some x => exact atMostOne?_some null (back x rfl)

structure ReadsBack (n : Nat) (write : α → Json) (read : Json → Option α) (a : α) : Prop where
  within : (write a).Within n
  read : read (write a) = some a

theorem list?_map {xs : List α} (back : ∀ x ∈ xs, read (write x) = some x) :
    list? read (arr (xs.map write)) = some xs := by
  have items : (xs.map write).mapM read = some xs := by
    induction xs with
    | nil => rfl
    | cons x xs ih =>
      have first := back x (by simp)
      have others := ih fun y member => back y (by simp [member])
      simp [first, others]
  exact items

theorem ReadsBack.list {xs : List α} (each : ∀ x ∈ xs, ReadsBack n write read x) :
    ReadsBack (n + 1) (fun xs => arr (xs.map write)) (list? read) xs where
  within := by
    rw [within_arr_iff]
    intro j member
    obtain ⟨x, listed, rfl⟩ := List.mem_map.mp member
    exact (each x listed).within
  read := list?_map fun x member => (each x member).read

@[simp] theorem text?_null : text? null = none := by rw [text?]; simp

@[simp] theorem flag?_null : flag? null = none := by rw [flag?]; simp

@[simp] theorem list?_null (read : Json → Option α) : list? read null = none := by simp [list?, items?]

@[simp] theorem text?_str (s : String) : (str s).text? = some s := by rw [text?]

@[simp] theorem flag?_bool (b : Bool) : (bool b).flag? = some b := by rw [flag?]

@[simp] theorem list?_strings (xs : List String) : list? text? (strings xs) = some xs :=
  list?_map fun _ _ => rfl

@[simp] theorem within_strings (n : Nat) (xs : List String) : (strings xs).Within (n + 1) := by
  rw [strings, within_arr_iff]
  simp

theorem within_orNull {a : Option α} (each : ∀ x ∈ a, (write x).Within n) :
    (orNull write a).Within n := by
  cases a with
  | none => exact within_null n
  | some x => exact each x rfl

def FieldsWithin (n : Nat) (fields : List (String × Json)) : Prop :=
  ∀ field ∈ fields, field.2.Within n

theorem within_obj_of_fields {fields : List (String × Json)} (each : FieldsWithin n fields) :
    (obj fields).Within (n + 1) :=
  within_obj_iff.mpr each

@[simp] theorem fieldsWithin_nil (n : Nat) : FieldsWithin n [] := by
  simp [FieldsWithin]

@[simp] theorem fieldsWithin_cons (n : Nat) (field : String × Json)
    (fields : List (String × Json)) :
    FieldsWithin n (field :: fields) ↔ field.2.Within n ∧ FieldsWithin n fields :=
  List.forall_mem_cons

@[simp] theorem fieldsWithin_append (n : Nat) (fields others : List (String × Json)) :
    FieldsWithin n (fields ++ others) ↔ FieldsWithin n fields ∧ FieldsWithin n others :=
  List.forall_mem_append

theorem fieldsWithin_fieldIfAny {a : Option α} (key : String)
    (each : ∀ x ∈ a, (write x).Within n) : FieldsWithin n (fieldIfAny key write a) := by
  cases a with
  | none => exact fieldsWithin_nil n
  | some x => simp [fieldIfAny, each x rfl]

end FrontendSurvey.Json
