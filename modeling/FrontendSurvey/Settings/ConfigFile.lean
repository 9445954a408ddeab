import FrontendSurvey.Settings
import FrontendSurvey.Toml.Document

set_option autoImplicit false

namespace FrontendSurvey.Overrides

def setting? {α : Type} (root : Toml.Fields) (key : String) (read : Toml.Value → Option α) :
    Option (Option α) :=
  match root.lookup key with
  | .none => some .none
  | some v => (read v).map some

def text? : Toml.Value → Option String
  | .text s => some s
  | _ => .none

def texts? : Toml.Value → Option (List String)
  | .list items => items.mapM text?
  | _ => .none

def count? : Toml.Value → Option Nat
  | .integer n => if 0 ≤ n ∧ n < UInt64.size then some n.toNat else .none
  | _ => .none

def ofDocument? (root : Toml.Fields) : Option Overrides := do
  let source ← setting? root "src_dir" text?
  let memory ← setting? root "memory_dir" text?
  let brain ← setting? root "self_source" text?
  let skipped ← setting? root "extra_skip_dirs" texts?
  let lineLimit ← setting? root "self_line_threshold" count?
  some ⟨source, memory, brain, skipped.getD [], lineLimit⟩

def ofText (s : String) : Overrides :=
  ((Toml.parse? s).bind ofDocument?).getD Overrides.none

end FrontendSurvey.Overrides
