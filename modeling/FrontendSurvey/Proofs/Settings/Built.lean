import FrontendSurvey.Settings

set_option autoImplicit false

namespace FrontendSurvey.Settings

inductive Built : Settings → Prop where
  | forRoot (root : Path) : Built (.forRoot root)
  | withOverrides {s : Settings} (o : Overrides) : Built s → Built (s.withOverrides o)
  | withPaths {s : Settings} (source memory brain : Option Path) : Built s →
      Built (s.withPaths source memory brain)

structure Regular (s : Settings) : Prop where
  tsconfigs : s.tsconfigs = defaultTsconfigs
  plugins : s.plugins = pluginsOf s.source

variable {s : Settings}

theorem Regular.withPaths (regular : s.Regular) (source memory brain : Option Path) :
    (s.withPaths source memory brain).Regular := by
  cases source with
  | none => exact ⟨regular.tsconfigs, regular.plugins⟩
  | some source => exact ⟨regular.tsconfigs, rfl⟩

theorem Built.regular (built : s.Built) : s.Regular := by
  induction built with
  | forRoot root => exact ⟨rfl, rfl⟩
  | @withOverrides s o _ ih =>
    obtain ⟨tsconfigs, plugins⟩ := ih.withPaths (o.source.map .mk) (o.memory.map .mk) (o.brain.map .mk)
    exact ⟨tsconfigs, plugins⟩
  | withPaths source memory brain _ ih => exact ih.withPaths source memory brain

structure Rooted (s : Settings) : Prop where
  source : ∃ sub, s.source = s.root.join sub
  memory : ∃ sub, s.memory = s.root.join sub
  brain : ∃ sub, s.brain = s.root.join sub

theorem Rooted.withPaths (rooted : s.Rooted) (source memory brain : Option Path) :
    (s.withPaths source memory brain).Rooted := by
  have layer {path : Path} (below : ∃ sub, path = s.root.join sub) (given : Option Path) :
      ∃ sub, given.elim path s.root.join = s.root.join sub := by
    cases given with
    | none => exact below
    | some given => exact ⟨given, rfl⟩
  exact ⟨layer rooted.source source, layer rooted.memory memory, layer rooted.brain brain⟩

theorem Built.rooted (built : s.Built) : s.Rooted := by
  induction built with
  | forRoot root => exact ⟨⟨⟨"src"⟩, rfl⟩, ⟨⟨"ADD/memory"⟩, rfl⟩, ⟨⟨"ADD/brain.ts"⟩, rfl⟩⟩
  | @withOverrides s o _ ih =>
    obtain ⟨source, memory, brain⟩ := ih.withPaths (o.source.map .mk) (o.memory.map .mk) (o.brain.map .mk)
    exact ⟨source, memory, brain⟩
  | withPaths source memory brain _ ih => exact ih.withPaths source memory brain

end FrontendSurvey.Settings
