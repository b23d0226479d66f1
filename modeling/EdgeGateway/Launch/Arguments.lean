/-!
# The command line

Two options with a value are known, and two without one. The arguments are read from left to right:
the first that asks for the help text or the version, or that does not fit, decides.
-/

namespace EdgeGateway.Launch

/-- An option that takes a value. -/
inductive Parameter
  | config
  | logLevel
  deriving DecidableEq, Inhabited

/-- How the option is written with its value. -/
def Parameter.usage : Parameter → String
  | config => "--config <CONFIG>"
  | logLevel => "--log-level <LOG_LEVEL>"

/-- What a node is started with. -/
structure Options where
  config : Option String := none
  logLevel : Option String := none
  deriving DecidableEq, Inhabited

/-- Why the arguments do not fit. -/
inductive UsageError
  | unexpected (argument : String)
  | surplusValue (option value : String)
  | missingValue (p : Parameter)
  | repeated (p : Parameter)
  deriving DecidableEq, Inhabited

/-- How to call the program. -/
def usageLine : String := "Usage: aegis-gateway [OPTIONS]"

def UsageError.message : UsageError → String
  | unexpected a => s!"error: unexpected argument '{a}' found"
  | surplusValue o v => s!"error: unexpected value '{v}' for '{o}' found; no more were accepted"
  | missingValue p => s!"error: a value is required for '{p.usage}' but none was supplied"
  | repeated p => s!"error: the argument '{p.usage}' cannot be used multiple times"

/-- The message, and where to find help. -/
def UsageError.report (e : UsageError) : String :=
  s!"{e.message}\n\n{usageLine}\n\nFor more information, try '--help'.\n"

/-- What the arguments ask for, if it is not a start. -/
inductive Instead
  | help
  | version
  | error (e : UsageError)
  deriving DecidableEq, Inhabited

/-- The options that were read so far, the one that still waits for its value, and whether only
plain arguments may follow. -/
structure Progress where
  options : Options := {}
  waiting : Option Parameter := none
  closed : Bool := false
  deriving DecidableEq, Inhabited

namespace Progress

/-- Gives an option its value. Each may be given once, and the path of a file is not empty. -/
def give (s : Progress) (p : Parameter) (v : String) : Except Instead Progress :=
  match p with
  | .config =>
    if v.isEmpty then .error (.error (.missingValue p))
    else if s.options.config.isSome then .error (.error (.repeated p))
    else .ok { s with options.config := some v, waiting := none }
  | .logLevel =>
    if s.options.logLevel.isSome then .error (.error (.repeated p))
    else .ok { s with options.logLevel := some v, waiting := none }

/-- An option by its long name, with the value after an equals sign if there is one. -/
def long (s : Progress) (name : String) (value : Option String) : Except Instead Progress :=
  match name, value with
  | "config", some v => s.give .config v
  | "config", none => .ok { s with waiting := some .config }
  | "log-level", some v => s.give .logLevel v
  | "log-level", none => .ok { s with waiting := some .logLevel }
  | "help", none => .error .help
  | "version", none => .error .version
  | "help", some v => .error (.error (.surplusValue "--help" v))
  | "version", some v => .error (.error (.surplusValue "--version" v))
  | _, _ => .error (.error (.unexpected ("--" ++ name)))

/-- Options by their letters. -/
def short (s : Progress) : List Char → Except Instead Progress
  | ['c'] => .ok { s with waiting := some .config }
  | 'c' :: '=' :: v => s.give .config (String.ofList v)
  | 'c' :: v => s.give .config (String.ofList v)
  | 'h' :: _ => .error .help
  | 'V' :: _ => .error .version
  | cs => .error (.error (.unexpected (String.ofList ('-' :: cs.take 1))))

/-- A name, and the value after the first equals sign. -/
def splitValue (cs : List Char) : String × Option String :=
  let name := cs.takeWhile (· != '=')
  (String.ofList name, match cs.drop name.length with
    | _ :: v => some (String.ofList v)
    | [] => none)

/-- Reads one argument. -/
def step (s : Progress) (a : String) : Except Instead Progress :=
  match s.closed, s.waiting, a.toList with
  | true, _, _ => .error (.error (.unexpected a))
  | false, some p, '-' :: _ :: _ => .error (.error (.missingValue p))
  | false, some p, _ => s.give p a
  | false, none, ['-', '-'] => .ok { s with closed := true }
  | false, none, '-' :: '-' :: cs => let (name, value) := splitValue cs; s.long name value
  | false, none, '-' :: c :: cs => s.short (c :: cs)
  | false, none, _ => .error (.error (.unexpected a))

end Progress

/-- Reads all arguments. -/
def Options.parse (args : List String) : Except Instead Options := do
  let s ← args.foldlM Progress.step {}
  match s.waiting with
  | some p => .error (.error (.missingValue p))
  | none => .ok s.options

/-! ### Texts -/

def versionText : String := "aegis-gateway 0.1.0\n"

def helpText : String :=
  "AEGIS cluster-synchronized API gateway node\n\n" ++ usageLine ++ "\n\nOptions:\n" ++
    "  -c, --config <CONFIG>        Path to configuration file (TOML format)\n" ++
    "      --log-level <LOG_LEVEL>  Log filter directive " ++
    "(e.g. \"info\", \"aegis_gateway=debug\")\n" ++
    "  -h, --help                   Print help\n" ++
    "  -V, --version                Print version\n"

end EdgeGateway.Launch
