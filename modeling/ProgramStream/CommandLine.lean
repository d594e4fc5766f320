import ProgramStream.Settings.Basic
/-!
# The command line — options and what they ask for

Options have a long name behind `--`, most also a letter behind `-`. A value
stands in the argument after its option, or in the same one: behind `=`, or
right after a letter. Letters of options without a value may be joined.
Arguments are taken from left to right and the first that cannot be
understood ends it, unless help or the version was asked for before. What
the options say together is looked at last: settings come from a file or
from the other options, and from one of the two they have to come.
-/

namespace ProgramStream

namespace CommandLine

/-- The options that have a value. -/
inductive ValueOption where
  | config
  | input
  | output
  | chunk
  | max
  | log
  deriving DecidableEq, Repr

/-- An option. -/
inductive AnyOption where
  | valued (option : ValueOption)
  | tables
  | help
  | version
  deriving DecidableEq, Repr

/-- The option of a long name. -/
def AnyOption.ofName? : String → Option AnyOption
  | "config" => some (.valued .config)
  | "input" => some (.valued .input)
  | "output" => some (.valued .output)
  | "chunk" => some (.valued .chunk)
  | "max" => some (.valued .max)
  | "log" => some (.valued .log)
  | "tables" => some .tables
  | "help" => some .help
  | "version" => some .version
  | _ => none

/-- The option of a letter. -/
def AnyOption.ofLetter? (c : Char) : Option AnyOption :=
  if c = 'c' then some (.valued .config)
  else if c = 'i' then some (.valued .input)
  else if c = 'o' then some (.valued .output)
  else if c = 'm' then some (.valued .max)
  else if c = 'l' then some (.valued .log)
  else if c = 't' then some .tables
  else if c = 'h' then some .help
  else if c = 'V' then some .version
  else none

/-- The options given so far. -/
structure Given where
  config : Option String := none
  input : Option String := none
  output : Option String := none
  chunk : Option Nat := none
  max : Option Nat := none
  log : Option String := none
  tables : Bool := false
  /-- an option whose value is still to come -/
  awaiting : Option ValueOption := none
  deriving DecidableEq, Repr

/-- Why the arguments are not taken any further. -/
inductive Stop where
  | help
  | version
  | misuse
  deriving DecidableEq, Repr

/-- The levels a log can have. -/
def logLevels : List String := ["trace", "debug", "info", "warn", "error"]

/-- A number of 64 bits in decimal digits, perhaps behind a plus. -/
def number? (text : String) : Option Nat :=
  let digits := match text.toList with
    | '+' :: cs => cs
    | cs => cs
  if digits.isEmpty || !digits.all Char.isDigit then none
  else
    let n := digits.foldl (fun n c => n * 10 + (c.toNat - 0x30)) 0
    if n < UInt64.size then some n else none

namespace Given

/-- Refuses what comes if an option still waits for its value. -/
def settled (g : Given) : Except Stop Unit :=
  if g.awaiting.isSome then .error .misuse else .ok ()

/-- Takes a value that is not given yet. -/
def once {α : Type} (old : Option α) (new : Option α) : Except Stop (Option α) :=
  match old, new with
  | none, some value => .ok (some value)
  | _, _ => .error .misuse

/-- Takes the value of an option. -/
def take (g : Given) (option : ValueOption) (text : String) : Except Stop Given := do
  let g := { g with awaiting := none }
  match option with
  | .config => return { g with config := ← once g.config (some text) }
  | .input => return { g with input := ← once g.input (some text) }
  | .output => return { g with output := ← once g.output (some text) }
  | .chunk => return { g with chunk := ← once g.chunk (number? text) }
  | .max => return { g with max := ← once g.max (number? text) }
  | .log =>
    return { g with log := ← once g.log (if logLevels.contains text then some text else none) }

/-- Takes an option and the value in the same argument, if there is one. -/
def takeOption (g : Given) (option : AnyOption) (value : Option String) : Except Stop Given := do
  g.settled
  match option, value with
  | .valued option, some text => g.take option text
  | .valued option, none => return { g with awaiting := some option }
  | .tables, none => if g.tables then throw .misuse else return { g with tables := true }
  | .help, none => throw .help
  | .version, none => throw .version
  | _, some _ => throw .misuse

/-- Takes the letters of one argument. -/
def takeLetters (g : Given) : List Char → Except Stop Given
  | [] => .ok g
  | c :: cs =>
    match AnyOption.ofLetter? c with
    | none => .error .misuse
    | some (.valued option) =>
      g.takeOption (.valued option) <| match cs with
        | [] => none
        | '=' :: cs => some (String.ofList cs)
        | cs => some (String.ofList cs)
    | some option => do (← g.takeOption option none).takeLetters cs

/-- Takes an argument that begins with two hyphens, without them. -/
def takeName (g : Given) (cs : List Char) : Except Stop Given :=
  let name := String.ofList (cs.takeWhile (· ≠ '='))
  let value := match cs.dropWhile (· ≠ '=') with
    | [] => none
    | _ :: cs => some (String.ofList cs)
  match AnyOption.ofName? name with
  | none => .error .misuse
  | some option => g.takeOption option value

/-- Takes all arguments. After `--` none may follow. -/
def takeAll (g : Given) : List String → Except Stop Given
  | [] => do
    g.settled
    return g
  | arg :: args =>
    match arg.toList with
    | ['-', '-'] => do
      g.settled
      if args.isEmpty then return g else throw .misuse
    | '-' :: '-' :: cs => do (← g.takeName cs).takeAll args
    | '-' :: c :: cs => do (← g.takeLetters (c :: cs)).takeAll args
    | _ =>
      match g.awaiting with
      | some option => do (← g.take option arg).takeAll args
      | none => .error .misuse

end Given

/-- What a command line asks for. -/
inductive Request where
  | help
  | version
  | misuse
  /-- a dump with settings from a file -/
  | load (path : String)
  /-- a dump with these settings -/
  | dump (settings : Settings)
  deriving DecidableEq, Repr

/-- What the options say together. -/
def Given.request (g : Given) : Request :=
  let others := g.output.isSome || g.chunk.isSome || g.max.isSome || g.tables || g.log.isSome
  match g.config, g.input with
  | none, none => .misuse
  | some _, some _ => .misuse
  | some path, none => if others then .misuse else .load path
  | none, some input =>
    .dump (Settings.ofOptions input g.output (g.chunk.getD DemuxSettings.defaultChunkSize)
      (g.max.getD 0) g.tables (g.log.getD "info"))

/-- What a list of arguments asks for: help, if there are none. -/
def request (args : List String) : Request :=
  if args.isEmpty then .help
  else match ({} : Given).takeAll args with
    | .ok g => g.request
    | .error .help => .help
    | .error .version => .version
    | .error .misuse => .misuse

/-- The help text. -/
def helpLines : List String :=
  [ "Split an MPEG program stream into header diagnostics and elementary stream payloads.",
    "",
    "Usage: psdump [OPTIONS] <--config <path>|--input <path>>",
    "",
    "Options:",
    "  -c, --config <path>   Specify the psdump configuration file path.",
    "  -i, --input <path>    Specify the program stream file to dump.",
    "  -o, --output <path>   Specify the directory the dumped files are written to.",
    "      --chunk <bytes>   Specify how many bytes are fed to the demuxer per read.",
    "  -m, --max <units>     Stop after this many units, 0 means no limit.",
    "  -t, --tables          Also write the PAT and PMT of the single program remux.",
    "  -l, --log <level>     Specify the log level. [possible values: trace, debug, info, warn, error]",
    "  -h, --help            Print help",
    "  -V, --version         Print version" ]

/-- The version text. -/
def versionLine : String := "PSDUMP 0.1.0"

end CommandLine

end ProgramStream
