import FrontendSurvey.Project

set_option autoImplicit false

namespace FrontendSurvey.CommandLine

inductive Parameter where
  | root
  | source
  | memory
  | brain
  | logLevel
  deriving DecidableEq, Repr

def Parameter.name : Parameter → String
  | root => "root"
  | source => "src"
  | memory => "out"
  | brain => "self-source"
  | logLevel => "log-level"

inductive Switch where
  | quiet
  | help
  | version
  deriving DecidableEq, Repr

def Switch.name : Switch → String
  | quiet => "quiet"
  | help => "help"
  | version => "version"

def Switch.letter : Switch → Char
  | quiet => 'q'
  | help => 'h'
  | version => 'V'

def parameters : List Parameter := [.root, .source, .memory, .brain, .logLevel]

def switches : List Switch := [.quiet, .help, .version]

def Parameter.named? (name : String) : Option Parameter := parameters.find? (·.name == name)

def Switch.named? (name : String) : Option Switch := switches.find? (·.name == name)

def Switch.lettered? (letter : Char) : Option Switch := switches.find? (·.letter == letter)

inductive Stop where
  | unknownArgument
  | invalidValue
  -- an option is given twice
  | conflict
  -- a switch is given a value
  | tooManyValues
  | help
  | version
  deriving DecidableEq, Repr

inductive Argument where
  | escape
  | long (name : String) (value : Option String)
  | short (letters : List Char)
  | plain (text : String)
  deriving DecidableEq, Repr

def Argument.ofChars : List Char → Argument
  | ['-', '-'] => escape
  | '-' :: '-' :: r =>
    long (String.ofList (r.takeWhile (· != '=')))
      (match r.dropWhile (· != '=') with
      | [] => none
      | _ :: value => some (String.ofList value))
  | '-' :: a :: r => short (a :: r)
  | r => plain (String.ofList r)

structure Progress where
  values : List (Parameter × String)
  quiet : Bool
  -- the last parameter, with its value if that has been read, before both are checked
  pending : Option (Parameter × Option String)
  deriving DecidableEq, Repr

namespace Progress

def start : Progress := ⟨[], false, none⟩

def accept (s : Progress) (p : Parameter) (value : String) : Except Stop Progress :=
  -- a parameter is given once. Only the log level may be empty
  if (s.values.lookup p).isSome then .error .conflict
  else if value.isEmpty ∧ p ≠ .logLevel then .error .invalidValue
  else .ok { s with values := s.values ++ [(p, value)], pending := none }

def settle (s : Progress) : Except Stop Progress :=
  match s.pending with
  | none => .ok s
  | some (_, none) => .error .invalidValue
  | some (p, some value) => s.accept p value

def flip (s : Progress) (switch : Switch) : Except Stop Progress := do
  let s ← s.settle
  match switch with
  | .quiet => if s.quiet then .error .conflict else .ok { s with quiet := true }
  | .help => .error .help
  | .version => .error .version

def long (s : Progress) (name : String) (value : Option String) : Except Stop Progress :=
  match Parameter.named? name, Switch.named? name, value with
  | some p, _, none => return { ← s.settle with pending := some (p, none) }
  | some p, _, some value => do (← s.settle).accept p value
  | none, some switch, none => s.flip switch
  | none, some _, some _ => .error .tooManyValues
  | none, none, _ => .error .unknownArgument

def short (s : Progress) (letter : Char) : Except Stop Progress :=
  match Switch.lettered? letter with
  | some switch => s.flip switch
  | none => .error .unknownArgument

def plain (s : Progress) (text : String) : Except Stop Progress :=
  -- only a parameter that waits for its value takes a plain argument
  match s.pending with
  | some (p, none) => .ok { s with pending := some (p, some text) }
  | _ => .error .unknownArgument

def read : Progress → List Argument → Except Stop Progress
  | s, [] => s.settle
  | s, .escape :: rest => if rest.isEmpty then s.settle else .error .unknownArgument
  | s, .long name value :: rest => do read (← s.long name value) rest
  | s, .short letters :: rest => do read (← letters.foldlM short s) rest
  | s, .plain text :: rest => do read (← s.plain text) rest

end Progress

structure Options where
  root : String
  source : Option String
  memory : Option String
  brain : Option String
  quiet : Bool
  logLevel : String
  deriving DecidableEq, Repr

namespace Options

def ofProgress (s : Progress) : Options where
  root := (s.values.lookup .root).getD "."
  source := s.values.lookup .source
  memory := s.values.lookup .memory
  brain := s.values.lookup .brain
  quiet := s.quiet
  logLevel := (s.values.lookup .logLevel).getD "warn"

def ofArguments (arguments : List String) : Except Stop Options :=
  (Progress.start.read (arguments.map fun a => .ofChars a.toList)).map ofProgress

def settings (o : Options) (d : Disk) : Settings :=
  (Settings.load d ⟨o.root⟩).withPaths (o.source.map .mk) (o.memory.map .mk) (o.brain.map .mk)

end Options

end FrontendSurvey.CommandLine
