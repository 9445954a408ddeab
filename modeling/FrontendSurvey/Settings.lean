import FrontendSurvey.Path

set_option autoImplicit false

namespace FrontendSurvey

structure Overrides where
  source : Option String
  memory : Option String
  brain : Option String
  skipped : List String
  lineLimit : Option Nat
  deriving DecidableEq, Repr

def Overrides.none : Overrides := ⟨.none, .none, .none, [], .none⟩

structure Settings where
  root : Path
  source : Path
  memory : Path
  brain : Path
  plugins : List Path
  tsconfigs : List String
  skipped : List String
  lineLimit : Nat
  deriving DecidableEq, Repr

namespace Settings

def defaultTsconfigs : List String := ["tsconfig.json", "tsconfig.app.json", "tsconfig.add.json"]

def defaultSkipped : List String := ["node_modules", ".git", "dist", "coverage"]

def pluginsOf (source : Path) : List Path :=
  [source / "plugins" / "vuetify.ts", source / "plugins" / "vuetify.js"]

def forRoot (root : Path) : Settings where
  root := root
  source := root / "src"
  memory := root / "ADD/memory"
  brain := root / "ADD/brain.ts"
  plugins := pluginsOf (root / "src")
  tsconfigs := defaultTsconfigs
  skipped := defaultSkipped
  lineLimit := 400

def withPaths (s : Settings) (source memory brain : Option Path) : Settings :=
  -- what is not given stays, and the plugin modules move with the source directory
  { s with
    source := source.elim s.source s.root.join
    memory := memory.elim s.memory s.root.join
    brain := brain.elim s.brain s.root.join
    plugins := source.elim s.plugins (pluginsOf <| s.root.join ·) }

def withSource (s : Settings) (source : String) : Settings := s.withPaths (some ⟨source⟩) none none

def addName (names : List String) (name : String) : List String :=
  if names.contains name then names else names ++ [name]

def withOverrides (s : Settings) (o : Overrides) : Settings :=
  { s.withPaths (o.source.map .mk) (o.memory.map .mk) (o.brain.map .mk) with
    skipped := o.skipped.foldl addName s.skipped
    lineLimit := o.lineLimit.getD s.lineLimit }

def reportFile (s : Settings) : Path := s.memory / "frontendMemory.json"

def structureFile (s : Settings) : Path := s.memory / "structure.json"

def viewFile (s : Settings) : Path := s.memory / "structure.txt"

def relative (s : Settings) (p : Path) : String := p.relativeTo s.root

end Settings

end FrontendSurvey
